/-
  Repin.Proofs.Tag.Entry
  ──────────────────────
  **THE LEFTMOST ENTRY, BEFORE AND AFTER ITS TAG HAS MOVED.**

  `Stands url s a tag r` says that behind the text `a` an entry with the tag `tag`
  stands in `s`, and `r` behind it.  The search finds the one with the shortest text
  before it (`first?_eq_some_iff`).

  When a tag is replaced everywhere in a text, the entries are still where they were:
  the quotes and words of an entry are not touched, because a tag ends in a digit and
  holds no quote.  So the leftmost entry stays the leftmost, and its tag is the old
  one with the replacement made in it:

      first? url s = some e  →  (first? url (replaced t n s)).tag = replaced t n e.tag
-/
import Mathlib.Data.List.TakeDrop
import Mathlib.Data.List.TakeWhile
import Repin.Proofs.Text.Replace
import Repin.Tag.Entry
import Repin.Text.Numeral

namespace Repin
namespace Entry

/-! ## §1. The entry that begins a text. -/

theorem tagAt?_eq_some_iff {s tag rest : Text} :
    tagAt? s = some (tag, rest) ↔ s = tag ++ '"' :: rest ∧ tag ≠ [] ∧ '"' ∉ tag := by
  unfold tagAt?
  rw [List.span_eq_takeWhile_dropWhile]
  constructor
  · intro h
    split at h
    · cases h
    · cases h
    · next x c r hne hs =>
      cases h
      rw [Prod.mk.injEq] at hs
      obtain ⟨ht, hd⟩ := hs
      -- What ends the tag is the quote that it may not hold.
      have hc : c = '"' := by
        have hh := List.head_dropWhile_not (fun c => decide (c ≠ '"')) (l := s) (by rw [hd]; simp)
        simp only [hd, List.head_cons] at hh
        simpa using hh
      refine ⟨?_, ?_, ?_⟩
      · rw [← hc, ← ht, ← hd, List.takeWhile_append_dropWhile]
      · rintro rfl
        exact hne rfl
      · intro hq
        rw [← ht] at hq
        exact absurd (List.mem_takeWhile_imp hq) (by simp)
  · rintro ⟨rfl, hne, hq⟩
    have hall : ∀ c ∈ tag, decide (c ≠ '"') = true := by
      intro c hc
      exact decide_eq_true (fun he => hq (he ▸ hc))
    rw [List.takeWhile_append_of_pos hall, List.dropWhile_append_of_pos hall]
    simp only [ne_eq, not_true_eq_false, decide_false, Bool.false_eq_true, not_false_eq_true,
      List.takeWhile_cons_of_neg, List.dropWhile_cons_of_neg, List.append_nil]

theorem at?_eq_some_iff {url s tag rest : Text} :
    at? url s = some (tag, rest) ↔ ∃ word ∈ keywords,
      s = word ++ (middle url ++ (tag ++ '"' :: rest)) ∧ tag ≠ [] ∧ '"' ∉ tag := by
  have hone : ∀ word : Text, (do
      let s ← Text.behind? word s
      let s ← Text.behind? (middle url) s
      tagAt? s) = some (tag, rest)
      ↔ s = word ++ (middle url ++ (tag ++ '"' :: rest)) ∧ tag ≠ [] ∧ '"' ∉ tag := by
    intro word
    simp only [Option.bind_eq_bind, Option.bind_eq_some_iff, Text.behind?_eq_some_iff,
      tagAt?_eq_some_iff]
    constructor
    · rintro ⟨_, rfl, _, rfl, rfl, h⟩
      exact ⟨rfl, h⟩
    · rintro ⟨rfl, h⟩
      exact ⟨_, rfl, _, rfl, rfl, h⟩
  constructor
  · intro h
    obtain ⟨word, hw, h⟩ := List.exists_of_findSome?_eq_some h
    exact ⟨word, hw, (hone word).1 h⟩
  · rintro ⟨word, hw, h⟩
    unfold at? keywords
    -- The two words differ in their first letters, so at most one of them is there.
    simp only [keywords, List.mem_cons, List.not_mem_nil, or_false] at hw
    rcases hw with rfl | rfl
    · rw [List.findSome?_cons, (hone _).2 h]
    · have hgit : Text.behind? ("git" : Text) s = none := by
        rw [h.1]
        rfl
      rw [List.findSome?_cons, List.findSome?_cons, (hone _).2 h, hgit]
      rfl

/-! ## §2. The leftmost entry. -/

/-- Behind the text `a` an entry of the URL stands in `s`, and `r` behind it. -/
def Stands (url s a tag r : Text) : Prop := ∃ t, s = a ++ t ∧ at? url t = some (tag, r)

variable {url s a a' tag tag' r r' : Text}

theorem Stands.cons (c : Char) (h : Stands url s a tag r) :
    Stands url (c :: s) (c :: a) tag r := by
  obtain ⟨t, rfl, h⟩ := h
  exact ⟨t, rfl, h⟩

/-- What stands behind a text is determined. -/
theorem Stands.tag_eq (h : Stands url s a tag r) (h' : Stands url s a tag' r') : tag = tag' := by
  obtain ⟨t, rfl, h⟩ := h
  obtain ⟨t', he, h'⟩ := h'
  obtain rfl := List.append_cancel_left he
  rw [h] at h'
  cases h'
  rfl

theorem not_stands_nil : ¬ Stands url [] a tag r := by
  rintro ⟨t, he, h⟩
  obtain ⟨rfl, rfl⟩ := List.nil_eq_append_iff.1 he
  cases h

theorem firstFrom?_eq_none_iff {k : Nat} :
    firstFrom? url k s = none ↔ ∀ a tag r, ¬ Stands url s a tag r := by
  induction s generalizing k with
  | nil => exact ⟨fun _ _ _ _ => not_stands_nil, fun _ => rfl⟩
  | cons c s ih =>
    unfold firstFrom?
    cases hat : at? url (c :: s) with
    | some p =>
      obtain ⟨tag, r⟩ := p
      exact ⟨nofun, fun h => absurd ⟨c :: s, rfl, hat⟩ (h [] tag r)⟩
    | none =>
      refine ih.trans ⟨?_, fun h a tag r ha => h (c :: a) tag r (ha.cons c)⟩
      rintro h a tag r ⟨t, he, ht⟩
      cases a with
      | nil =>
        rw [List.nil_append] at he
        rw [← he, hat] at ht
        cases ht
      | cons d a =>
        rw [List.cons_append, List.cons.injEq] at he
        exact h a tag r ⟨t, he.2, ht⟩

/-- **The search finds the entry with the shortest text before it.** -/
theorem exists_of_firstFrom? {k : Nat} {e : Entry} (h : firstFrom? url k s = some e) :
    ∃ a r, Stands url s a e.tag r
      ∧ (e.start = k + a.length ∧ e.stop + r.length = k + s.length)
      ∧ ∀ a' tag' r', Stands url s a' tag' r' → a.length ≤ a'.length := by
  induction s generalizing k with
  | nil => cases h
  | cons c s ih =>
    unfold firstFrom? at h
    split at h
    · next tag r hat =>
      cases h
      have hlen : r.length ≤ s.length + 1 := by
        obtain ⟨word, -, he, -, -⟩ := at?_eq_some_iff.1 hat
        have hl := congrArg List.length he
        simp only [List.length_cons, List.length_append] at hl
        omega
      refine ⟨[], r, ⟨c :: s, rfl, hat⟩, ⟨rfl, ?_⟩, fun _ _ _ _ => Nat.zero_le _⟩
      simp only [List.length_cons]
      omega
    · next hat =>
      obtain ⟨a, r, hs, hk, hmin⟩ := ih h
      refine ⟨c :: a, r, hs.cons c, ?_, ?_⟩
      · simp only [List.length_cons]
        omega
      · rintro a' tag' r' ⟨t, he, ht⟩
        cases a' with
        | nil =>
          rw [List.nil_append] at he
          rw [← he, hat] at ht
          cases ht
        | cons d a' =>
          rw [List.cons_append, List.cons.injEq] at he
          exact Nat.succ_le_succ (hmin a' tag' r' ⟨t, he.2, ht⟩)

/-! ## §3. Replacing a tag in the text. -/

/-- The text can be a tag that names a release: it holds no double quote and ends in
a digit. -/
structure TagLike (t : Text) : Prop where
  quote : '"' ∉ t
  digit : ∃ s c, t = s ++ [c] ∧ Text.isDigit c = true

theorem TagLike.ne_nil {t : Text} (h : TagLike t) : t ≠ [] := by
  obtain ⟨s, c, rfl, -⟩ := h.digit
  simp

theorem TagLike.endsOutside {t z : Text} (h : TagLike t)
    (hz : ∀ c ∈ z, Text.isDigit c = false) : Text.EndsOutside t z := by
  obtain ⟨s, c, rfl, hc⟩ := h.digit
  refine ⟨s, c, rfl, fun hm => ?_⟩
  rw [hz c hm] at hc
  cases hc

/-- What stands between the keyword and the first quote of an entry, and between its
second quote and its third one. -/
def equals : Text := " = "
def comma : Text := ", tag = "

theorem middle_append (url t : Text) :
    middle url ++ t = equals ++ '"' :: (url ++ '"' :: (comma ++ '"' :: t)) := by
  have h₁ : (" = \"" : Text) = equals ++ ['"'] := by decide
  have h₂ : ("\", tag = \"" : Text) = '"' :: (comma ++ ['"']) := by decide
  unfold middle
  rw [h₁, h₂]
  simp

theorem isDigit_of_all {z : Text} (h : z.all (fun c => !Text.isDigit c) = true) :
    ∀ c ∈ z, Text.isDigit c = false := by
  intro c hc
  have hd := List.all_eq_true.1 h c hc
  rwa [Bool.not_eq_true'] at hd

theorem isDigit_keyword {word : Text} (h : word ∈ keywords) :
    ∀ c ∈ word ++ equals, Text.isDigit c = false := by
  simp only [keywords, List.mem_cons, List.not_mem_nil, or_false] at h
  rcases h with rfl | rfl <;> exact isDigit_of_all (by decide)

theorem isDigit_comma : ∀ c ∈ comma, Text.isDigit c = false :=
  isDigit_of_all (by decide)

/-- An entry is its words and quotes, with the texts between them. -/
theorem stands_iff : Stands url s a tag r ↔ ∃ word ∈ keywords,
    s = (a ++ (word ++ equals)) ++ '"' :: (url ++ '"' :: (comma ++ '"' :: (tag ++ '"' :: r)))
      ∧ tag ≠ [] ∧ '"' ∉ tag := by
  unfold Stands
  simp only [at?_eq_some_iff, middle_append]
  constructor
  · rintro ⟨_, rfl, word, hw, rfl, h⟩
    exact ⟨word, hw, by simp, h⟩
  · rintro ⟨word, hw, rfl, h⟩
    exact ⟨_, by simp, word, hw, rfl, h⟩

/-- No word begins inside a word, or with the quote behind one. -/
theorem not_begins_inside {word word' : Text} (h : word ∈ keywords) (h' : word' ∈ keywords) :
    ∀ c ∈ (word ++ equals).tail ++ ['"'], word'.head? ≠ some c := by
  have hall : ((word ++ equals).tail ++ ['"']).all (fun c => word'.head? != some c) = true := by
    simp only [keywords, List.mem_cons, List.not_mem_nil, or_false] at h h'
    rcases h with rfl | rfl <;> rcases h' with rfl | rfl <;> decide
  intro c hc
  exact bne_iff_ne.1 (List.all_eq_true.1 hall c hc)

/-- The tag that is found is part of the text, is not empty and holds no quote. -/
theorem quote_notMem_of_first? {e : Entry} (h : first? url s = some e) : '"' ∉ e.tag := by
  obtain ⟨a, r, hs, -, -⟩ := exists_of_firstFrom? h
  obtain ⟨word, -, -, -, hq⟩ := stands_iff.1 hs
  exact hq

theorem tag_ne_nil_of_first? {e : Entry} (h : first? url s = some e) : e.tag ≠ [] := by
  obtain ⟨a, r, hs, -, -⟩ := exists_of_firstFrom? h
  obtain ⟨word, -, -, hne, -⟩ := stands_iff.1 hs
  exact hne

theorem mem_of_mem_tag {e : Entry} {c : Char} (h : first? url s = some e) (hc : c ∈ e.tag) :
    c ∈ s := by
  obtain ⟨a, r, hs, -, -⟩ := exists_of_firstFrom? h
  obtain ⟨word, -, rfl, -, -⟩ := stands_iff.1 hs
  simp [hc]

variable {old new : Text}

/-- **An entry is where it was.** -/
theorem Stands.replaced (ho : TagLike old) (hn : TagLike new) (hurl : ¬ old <:+: url)
    (h : Stands url s a tag r) :
    Stands url (Text.replaced old new s) (Text.replaced old new a) (Text.replaced old new tag)
      (Text.replaced old new r) := by
  obtain ⟨word, hw, rfl, hne, hq⟩ := stands_iff.1 h
  have hcomma : Text.replaced old new comma = comma := by
    rw [← List.nil_append comma, Text.replaced_append_of_endsOutside (ho.endsOutside isDigit_comma),
      Text.replaced_nil ho.ne_nil]
  refine stands_iff.2 ⟨word, hw, ?_, Text.replaced_ne_nil ho.ne_nil hn.ne_nil hne, ?_⟩
  · -- Part by part: the four quotes are seams, words and the URL stay.
    rw [Text.replaced_append_cons ho.ne_nil ho.quote, Text.replaced_append_cons ho.ne_nil ho.quote,
      Text.replaced_append_cons ho.ne_nil ho.quote, Text.replaced_append_cons ho.ne_nil ho.quote,
      Text.replaced_append_of_endsOutside (ho.endsOutside (isDigit_keyword hw)),
      Text.replaced_eq_self ho.ne_nil hurl, hcomma]
  · intro hm
    exact (Text.mem_of_mem_replaced ho.ne_nil hm).elim hq hn.quote

/-- **An entry was there before.** -/
theorem Stands.exists_of_replaced (ho : TagLike old) (hn : TagLike new) (hurl : ¬ new <:+: url)
    {a' tag' r' : Text} (h : Stands url (Text.replaced old new s) a' tag' r') :
    ∃ a tag r, Stands url s a tag r ∧ Text.replaced old new a = a' := by
  obtain ⟨word, hw, he, hne, hq⟩ := stands_iff.1 h
  -- The four quotes of the entry were there before, one after the other.
  obtain ⟨u, v, rfl, hu, hv⟩ :=
    Text.exists_of_replaced_eq_append_cons ho.ne_nil ho.quote hn.quote he
  obtain ⟨u₁, v, rfl, hu₁, hv⟩ :=
    Text.exists_of_replaced_eq_append_cons ho.ne_nil ho.quote hn.quote hv
  obtain ⟨u₂, v, rfl, hu₂, hv⟩ :=
    Text.exists_of_replaced_eq_append_cons ho.ne_nil ho.quote hn.quote hv
  obtain ⟨u₃, v, rfl, hu₃, hv⟩ :=
    Text.exists_of_replaced_eq_append_cons ho.ne_nil ho.quote hn.quote hv
  obtain rfl := Text.eq_of_replaced_eq ho.ne_nil hu₁ hurl
  have hcomma : u₂ = comma := by
    have hu₂' : Text.replaced old new u₂ = [] ++ comma := hu₂
    obtain ⟨w, rfl, hw⟩ := Text.exists_of_replaced_eq_append
      (ho.endsOutside isDigit_comma) (hn.endsOutside isDigit_comma) hu₂'
    rw [Text.eq_nil_of_replaced_eq_nil ho.ne_nil hn.ne_nil hw, List.nil_append]
  obtain ⟨w, rfl, hw'⟩ := Text.exists_of_replaced_eq_append
    (ho.endsOutside (isDigit_keyword hw)) (hn.endsOutside (isDigit_keyword hw)) hu
  refine ⟨w, u₃, v, stands_iff.2 ⟨word, hw, by rw [hcomma], ?_, ?_⟩, hw'⟩
  · rintro rfl
    rw [Text.replaced_nil ho.ne_nil] at hu₃
    exact hne hu₃.symm
  · intro hm
    have hr : '"' ∈ Text.replaced old new u₃ := Text.mem_replaced_of_mem ho.ne_nil ho.quote hm
    rw [hu₃] at hr
    exact hq hr

/-- **Entries keep their order.** -/
theorem Stands.length_replaced_le (ho : TagLike old) {tag' r' : Text}
    (h : Stands url s a tag r) (h' : Stands url s a' tag' r') (hle : a.length ≤ a'.length) :
    (Text.replaced old new a).length ≤ (Text.replaced old new a').length := by
  -- The shorter text begins the longer one.
  have hbegins : a <+: a' := by
    obtain ⟨t, ht, -⟩ := h
    obtain ⟨t', ht', -⟩ := h'
    exact List.prefix_of_prefix_length_le ⟨t, ht.symm⟩ ⟨t', ht'.symm⟩ hle
  obtain ⟨z, rfl⟩ := hbegins
  obtain ⟨word, hw, rfl, -, -⟩ := stands_iff.1 h
  obtain ⟨word', hw', he, -, -⟩ := stands_iff.1 h'
  simp only [List.append_assoc, List.append_cancel_left_eq] at he
  rw [← List.append_assoc word] at he
  rcases List.append_eq_append_iff.1 he with ⟨w, rfl, hw₂⟩ | ⟨w, hz, hw₂⟩
  · -- The later entry begins behind the word of the earlier one.
    rw [← List.append_assoc]
    have hlen : Text.replaced old new (a ++ (word ++ equals))
        = Text.replaced old new a ++ (word ++ equals) :=
      Text.replaced_append_of_endsOutside (ho.endsOutside (isDigit_keyword hw)) a
    cases w with
    | nil =>
      rw [List.append_nil, hlen, List.length_append]
      omega
    | cons d w =>
      rw [List.cons_append, List.cons.injEq] at hw₂
      rw [← hw₂.1, Text.replaced_append_cons ho.ne_nil ho.quote, hlen]
      simp only [List.length_append]
      omega
  · -- A word does not begin inside a word.
    cases z with
    | nil => simp
    | cons d z =>
      have htail : (word ++ equals).tail = z ++ w := by rw [hz]; rfl
      have hhead : (w ++ ['"']).head? = word'.head? := by
        have h := congrArg List.head? hw₂
        cases word' with
        | nil => exact absurd hw' (by decide)
        | cons x word' => cases w <;> exact h.symm
      obtain ⟨c, hc⟩ : ∃ c, (w ++ ['"']).head? = some c := by cases w <;> exact ⟨_, rfl⟩
      refine absurd (hhead.symm.trans hc) (not_begins_inside hw hw' c ?_)
      rw [htail, List.append_assoc]
      exact List.mem_append_right _ (List.mem_of_mem_head? hc)

/-- **The leftmost entry stays the leftmost, and its tag moves with the text.** -/
theorem exists_first?_replaced (ho : TagLike old) (hn : TagLike new) (hold : ¬ old <:+: url)
    (hnew : ¬ new <:+: url) {e : Entry} (h : first? url s = some e) :
    ∃ e', first? url (Text.replaced old new s) = some e'
      ∧ e'.tag = Text.replaced old new e.tag := by
  obtain ⟨a, r, hs, -, hmin⟩ := exists_of_firstFrom? h
  have hs' := hs.replaced ho hn hold
  cases h' : first? url (Text.replaced old new s) with
  | none => exact absurd hs' (firstFrom?_eq_none_iff.1 h' _ _ _)
  | some e' =>
    refine ⟨e', rfl, ?_⟩
    obtain ⟨a', r', he', -, hmin'⟩ := exists_of_firstFrom? h'
    -- The leftmost entry of the new text comes from an entry of the old one.
    obtain ⟨a₁, tag₁, r₁, hs₁, rfl⟩ := he'.exists_of_replaced ho hn hnew
    have hle : (Text.replaced old new a).length ≤ (Text.replaced old new a₁).length :=
      hs.length_replaced_le ho hs₁ (hmin _ _ _ hs₁)
    have hge := hmin' _ _ _ hs'
    have heq : Text.replaced old new a₁ = Text.replaced old new a := by
      obtain ⟨t, ht, -⟩ := he'
      obtain ⟨t', ht', -⟩ := hs'
      rw [ht] at ht'
      exact List.append_inj_left ht' (by omega)
    rw [heq] at he'
    exact he'.tag_eq hs'

end Entry
end Repin
