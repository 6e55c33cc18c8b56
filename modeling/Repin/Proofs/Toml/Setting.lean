/-
  Repin.Proofs.Toml.Setting
  ─────────────────────────
  **SETTING A VALUE IN THE TEXT OF A DOCUMENT.**

  A value that is set is written as a basic string in the place of one token.  The new
  text is cut into the same tokens but for that one, because a value stands behind a gap
  and digits and dots need no escapes:

      tokens? (spelled (as ++ t :: bs)) = some (as ++ t :: bs)  →  the same with a basic
                                                        string for t     (`tokens?_set`)

  So the document that was edited is read as a document again (`exists_read?_textWith`).
-/
import Repin.Proofs.Toml.Following
import Repin.Proofs.Toml.Words
import Repin.Toml.Document

namespace Repin.Toml

/-! ## §1. Tokens before a gap. -/

/-- What the cut says of a token and the text behind it. -/
def CutBefore : Token → Text → Prop
  | .mark c, _ => isMark c = true
  | .blank s, u => (∀ c ∈ s, isBlank c = true) ∧ ∀ c ∈ u.head?, isBlank c = false
  | .comment _, u => ∀ c ∈ u.head?, isPlain c = false
  | .word s, _ => ∀ c ∈ s, isWord c = true
  | _, _ => True

theorem head?_dropWhile {p : Char → Bool} (s : Text) :
    ∀ c ∈ (s.dropWhile p).head?, p c = false := by
  intro c hc
  have h := List.head?_dropWhile_not p s
  rw [Option.mem_def.1 hc] at h
  exact h

theorem cutBefore_of_next? {x u : Text} {t : Token} (h : next? x = some (t, u)) :
    CutBefore t u := by
  unfold next? at h
  split at h
  · cases h
  · cases h; trivial
  · cases h; trivial
  · cases h
    exact head?_dropWhile _
  · obtain ⟨p, -, he⟩ := Option.map_eq_some_iff.1 h
    cases he; trivial
  · obtain ⟨p, -, he⟩ := Option.map_eq_some_iff.1 h
    cases he; trivial
  · obtain ⟨p, -, he⟩ := Option.map_eq_some_iff.1 h
    cases he; trivial
  · obtain ⟨p, -, he⟩ := Option.map_eq_some_iff.1 h
    cases he; trivial
  · next c r _ _ _ _ _ =>
    split at h
    · next hm => cases h; exact hm
    · split at h
      · next hb =>
        cases h
        refine ⟨fun d hd => ?_, head?_dropWhile _⟩
        rcases List.mem_cons.1 hd with rfl | hd
        · exact hb
        · exact List.all_eq_true.1 List.all_takeWhile d hd
      · split at h
        · next hw =>
          cases h
          intro d hd
          rcases List.mem_cons.1 hd with rfl | hd
          · exact hw
          · exact List.all_eq_true.1 List.all_takeWhile d hd
        · cases h

theorem notMem_of_isMark {c : Char} (h : isMark c = true) : c ∉ ['\n', '\r', '#', '"', '\''] := by
  have hall : ("=,[]\x7b\x7d".toList).all
      (fun d => ['\n', '\r', '#', '"', '\''].contains d = false) = true := by
    decide
  have hc := of_decide_eq_true (List.all_eq_true.1 hall c (List.contains_iff_mem.1 h))
  intro hm
  rw [List.contains_iff_mem.2 hm] at hc
  cases hc

theorem notMem_of_isBlank {c : Char} (h : isBlank c = true) :
    c ∉ ['\n', '\r', '#', '"', '\''] ∧ ¬ isMark c = true := by
  have hc : c = ' ' ∨ c = '\t' := by
    unfold isBlank at h
    simpa using h
  rcases hc with rfl | rfl <;> decide

/-- Whatever stands behind a character that begins no string, no string begins there. -/
theorem fence_of_notMem {c : Char} (h : c ∉ ['\n', '\r', '#', '"', '\'']) (x y : Text) :
    Text.Fence (c :: x) (c :: y) := by
  refine Text.fence_cons ?_ ?_ x y
  · rintro rfl
    exact h (by simp)
  · rintro rfl
    exact h (by simp)

/-- A quote stands behind the gap instead of what stood there. -/
theorem next?_gap {g : Token} {c : Char} {r z : Text} (hg : g.isGap = true)
    (h : next? (g.spelling ++ c :: r) = some (g, c :: r)) (hc : isPlain c = true) :
    next? (g.spelling ++ '"' :: z) = some (g, '"' :: z)
      ∧ Text.Fence (g.spelling ++ c :: r) (g.spelling ++ '"' :: z) := by
  have hcut := cutBefore_of_next? h
  cases g with
  | string quote body => cases hg
  | word w => cases hg
  | lineEnd e =>
    cases e with
    | false => exact ⟨rfl, Text.fence_cons (by decide) (by decide) _ _⟩
    | true => exact ⟨rfl, Text.fence_cons (by decide) (by decide) _ _⟩
  | comment y =>
    -- A comment takes in all characters up to the end of its line.
    rw [hcut c rfl] at hc
    cases hc
  | mark d =>
    have hmark : isMark d = true := hcut
    have hno := notMem_of_isMark hmark
    refine ⟨?_, fence_of_notMem hno _ _⟩
    show next? (d :: '"' :: z) = some (.mark d, '"' :: z)
    rw [next?_of_notMem hno, if_pos hmark]
  | blank y =>
    obtain ⟨hall, -⟩ := hcut
    cases y with
    | nil => exact absurd rfl (next?_spelling h).2
    | cons d y =>
      obtain ⟨hd, hy⟩ := List.forall_mem_cons.1 hall
      obtain ⟨hno, hmark⟩ := notMem_of_isBlank hd
      refine ⟨?_, fence_of_notMem hno _ _⟩
      show next? (d :: (y ++ '"' :: z)) = some (.blank (d :: y), '"' :: z)
      have hstop : ¬ isBlank '"' = true := by decide
      rw [next?_of_notMem hno, if_neg hmark, if_pos hd, List.takeWhile_append_of_pos hy,
        List.dropWhile_append_of_pos hy, List.takeWhile_cons_of_neg hstop,
        List.dropWhile_cons_of_neg hstop, List.append_nil]

/-! ## §2. Setting a token. -/

variable {s : Text} {as bs : List Token} {t : Token}

theorem tokens?_of_append {x : Text} (h : tokens? x = some (as ++ bs)) :
    tokens? (spelled bs) = some bs := by
  induction as generalizing x with
  | nil =>
    rw [List.nil_append] at h
    rw [spelled_tokens? h, h]
  | cons t as ih =>
    obtain ⟨u, -, hu⟩ := exists_of_tokens?_cons h
    exact ih hu

/-- The text of a version, in quotes, is a string. -/
theorem next?_string (hs : Text.IsVersion s) (b : Text) :
    next? ('"' :: (s ++ '"' :: b)) = some (.string .basic s, b) := by
  rw [next?_quote]
  · rw [passesVersions_basicBody?.append hs.chars]
    show some (Token.string Quote.basic (s ++ []), b) = _
    rw [List.append_nil]
  · intro z he
    obtain ⟨c, r, rfl, hc⟩ := hs.exists_digit
    rw [List.cons_append] at he
    rw [(List.cons.inj he).1] at hc
    cases hc

theorem spelled_string (s : Text) (bs : List Token) :
    spelled (.string .basic s :: bs) = '"' :: (s ++ '"' :: spelled bs) := by
  rw [spelled_cons]
  show ('"' :: s ++ ['"']) ++ spelled bs = '"' :: (s ++ '"' :: spelled bs)
  rw [List.cons_append, List.cons_append, List.append_assoc]
  rfl

/-- The token at the head is replaced by the string, and what follows stays. -/
theorem tokens?_string (hs : Text.IsVersion s) (hb : tokens? (spelled bs) = some bs) :
    tokens? (spelled (.string .basic s :: bs)) = some (.string .basic s :: bs) := by
  rw [spelled_string, tokens?_of_next? (next?_string hs _), hb]
  rfl

/-- A string or a word begins with a plain character. -/
theorem exists_plain_of_value {x u : Text} (h : next? x = some (t, u)) (ht : t.isGap = false) :
    ∃ c r, t.spelling = c :: r ∧ isPlain c = true := by
  have hcut := cutBefore_of_next? h
  have hne := (next?_spelling h).2
  cases t with
  | word w =>
    cases w with
    | nil => exact absurd rfl hne
    | cons c w =>
      refine ⟨c, w, rfl, ?_⟩
      have hw : isWord c = true := hcut c List.mem_cons_self
      unfold isWord at hw
      simp only [Bool.and_eq_true] at hw
      exact hw.1.1.1.1.1
  | string quote body =>
    cases quote with
    | basic => exact ⟨'"', _, rfl, by decide⟩
    | literal => exact ⟨'\'', _, rfl, by decide⟩
    | basicBlock => exact ⟨'"', _, rfl, by decide⟩
    | literalBlock => exact ⟨'\'', _, rfl, by decide⟩
  | blank => cases ht
  | lineEnd => cases ht
  | comment => cases ht
  | mark => cases ht

/-- **Behind a gap, a string or a word can be replaced by a string.** -/
theorem tokens?_set {g : Token} (hs : Text.IsVersion s) (hg : g.isGap = true)
    (ht : t.isGap = false)
    (h : tokens? (spelled (as ++ g :: t :: bs)) = some (as ++ g :: t :: bs)) :
    tokens? (spelled (as ++ g :: .string .basic s :: bs))
      = some (as ++ g :: .string .basic s :: bs) := by
  -- What stands before the gap is cut as before, if the gap is.
  have hgt := tokens?_of_append h
  obtain ⟨u, hng, hu⟩ := exists_of_tokens?_cons hgt
  have hut : u = spelled (t :: bs) := (spelled_tokens? hu).symm
  subst hut
  obtain ⟨v, hnt, hv⟩ := exists_of_tokens?_cons hu
  obtain ⟨c, r, hc, hpc⟩ := exists_plain_of_value hnt ht
  have hb : tokens? (spelled bs) = some bs := by
    rw [spelled_tokens? hv, hv]
  -- The string is cut in the place of what stood there.
  have hstring := tokens?_string hs hb
  rw [spelled_cons g, spelled_cons t, hc, List.cons_append] at hng
  obtain ⟨hnext, hfence⟩ := next?_gap (z := s ++ '"' :: spelled bs) hg hng hpc
  rw [← spelled_string] at hnext hfence
  have hend : tokens? (spelled (g :: .string .basic s :: bs))
      = some (g :: .string .basic s :: bs) := by
    rw [spelled_cons, tokens?_of_next? hnext, hstring]
    rfl
  rw [spelled_append] at h ⊢
  have hr : spelled (g :: t :: bs) = g.spelling ++ c :: (r ++ spelled bs) := by
    rw [spelled_cons, spelled_cons, hc]
    rfl
  rw [hr] at h
  -- Nothing is exchanged before the gap, so the same tokens are cut there.
  have hx := Text.exchanged_append (P := False) (spelled as) (g.spelling ++ c :: (r ++ spelled bs))
    (g.spelling ++ spelled (.string .basic s :: bs))
  obtain ⟨as', has, hy⟩ := exchanged_tokens? hfence hx h hr
  have haa : as = as' := by
    clear h hy hx hgt
    induction has with
    | nil => rfl
    | cons hab _ ih => rw [hab.eq_of_not id, ih]
  rw [spelled_cons g, hy, ← spelled_cons g, hend, ← haa]
  rfl

/-! ## §3. Documents. -/

/-- A text without backslashes is the body of the string that it is. -/
theorem stringValue?_of_isVersion (hs : Text.IsVersion s) : stringValue? .basic s = some s := by
  -- Only backslashes are read as something else than themselves.
  have plain : ∀ t : Text, '\\' ∉ t → unescaped? false 0 t = some t := by
    intro t ht
    induction t with
    | nil => rfl
    | cons c t ih =>
      rw [unescaped?]
      · rw [ih (fun hm => ht (List.mem_cons_of_mem c hm))]
        rfl
      · rintro rfl
        exact ht List.mem_cons_self
  refine plain s (fun hm => ?_)
  exact absurd (hs.chars _ hm) (by decide)

/-- What stands at a place that is read as a scalar other than a date or a time. -/
theorem exists_split_of_readIn {ts : List Token} {p : Nat} {x : Scalar}
    (h : ReadIn ts.zipIdx [] p x) (hm : ∀ m, x ≠ .moment m) :
    ∃ as t bs, ts = as ++ t :: bs ∧ as.length = p ∧ t.isReplaceable = true
      ∧ (as = [] ∨ ∃ as' g, as = as' ++ [g] ∧ g.isGap = true) := by
  obtain ⟨t, u, hl, -, hs⟩ := h
  -- Only strings and words spell scalars, and dates spell dates and times.
  have ht : t.isReplaceable = true := by
    cases t with
    | string quote body => rfl
    | word w =>
      cases hw : isDate w with
      | false =>
        show (!isDate w) = true
        rw [hw]
        rfl
      | true =>
        obtain ⟨m, rfl⟩ := moment_of_spells hw hs
        exact absurd rfl (hm m)
    | blank => cases hs
    | lineEnd => cases hs
    | comment => cases hs
    | mark => cases hs
  -- The place of a token is the number of those before it.
  generalize hz : ts.zipIdx = z at hl
  generalize hv : (t, p) :: u = v at hl
  cases hl with
  | refl =>
    rw [← hv] at hz
    obtain ⟨t', bs, hts, he, -⟩ := List.zipIdx_eq_cons_iff.1 hz
    cases he
    exact ⟨[], t, bs, hts, rfl, ht, .inl rfl⟩
  | behind as g u hg =>
    rw [← hv] at hz
    obtain ⟨as, gs, hts, -, hgs⟩ := List.zipIdx_eq_append_iff.1 hz
    obtain ⟨g', ts', rfl, rfl, hts'⟩ := List.zipIdx_eq_cons_iff.1 hgs.symm
    obtain ⟨t', bs, rfl, he, -⟩ := List.zipIdx_eq_cons_iff.1 hts'.symm
    cases he
    refine ⟨as ++ [g'], t, bs, ?_, ?_, ht, .inr ⟨as, g', rfl, hg⟩⟩
    · rw [hts, List.append_assoc]
      rfl
    · rw [List.length_append, List.length_singleton, Nat.zero_add]
  | done => cases hv

theorem isGap_of_isReplaceable (h : t.isReplaceable = true) : t.isGap = false := by
  cases t with
  | string quote body => rfl
  | word w => rfl
  | blank => cases h
  | lineEnd => cases h
  | comment => cases h
  | mark => cases h

/-- The tokens of a text in which a string is set. -/
theorem tokens?_of_split (hs : Text.IsVersion s) (ht : t.isReplaceable = true)
    (has : as = [] ∨ ∃ as' g, as = as' ++ [g] ∧ g.isGap = true)
    (h : tokens? (spelled (as ++ t :: bs)) = some (as ++ t :: bs)) :
    tokens? (spelled (as ++ .string .basic s :: bs)) = some (as ++ .string .basic s :: bs) := by
  rcases has with rfl | ⟨as, g, rfl, hg⟩
  · have htb : tokens? (spelled ([t] ++ bs)) = some ([t] ++ bs) := h
    exact tokens?_string hs (tokens?_of_append htb)
  · rw [List.append_assoc] at h ⊢
    exact tokens?_set hs hg (isGap_of_isReplaceable ht) h

/-- Tokens exchanged on both sides of the place `k` match. -/
theorem matches_of_exchanged {P : Prop} {as' bs' : List Token}
    (has : List.Forall₂ (Token.Exchanged P) as as') (ht : t.isReplaceable = true)
    (hbs : List.Forall₂ (Token.Exchanged P) bs bs') :
    TokensMatch P as.length s (as ++ t :: bs).zipIdx (as' ++ .string .basic s :: bs').zipIdx := by
  -- On either side of the place `k` tokens are exchanged one by one.
  have side : ∀ (n k : Nat) {cs cs' : List Token}, List.Forall₂ (Token.Exchanged P) cs cs' →
      (k < n ∨ n + cs.length ≤ k) → TokensMatch P k s (cs.zipIdx n) (cs'.zipIdx n) := by
    intro n k cs cs' h
    induction h generalizing n with
    | nil => exact fun _ => .nil
    | @cons c c' cs cs' hc _ ih =>
      intro hk
      rw [List.length_cons] at hk
      exact .cons (.other (by omega) hc) (ih (n + 1) (by omega))
  rw [List.zipIdx_append, List.zipIdx_append, List.zipIdx_cons, List.zipIdx_cons, ← has.length_eq,
    Nat.zero_add]
  refine List.rel_append (side 0 _ has (by omega)) (.cons (.value ht) ?_)
  exact side _ _ hbs (by omega)

namespace Document

variable {d : Document} {x : Scalar} {p : Nat} {new : Text}

theorem read?_eq_some :
    read? s = some d ↔ tokens? s = some d.tokens ∧ table? d.tokens = some d.root := by
  unfold read?
  simp only [Option.bind_eq_bind, Option.bind_eq_some_iff]
  constructor
  · rintro ⟨ts, hts, root, hroot, he⟩
    cases he
    exact ⟨hts, hroot⟩
  · rintro ⟨hts, hroot⟩
    exact ⟨_, hts, _, hroot, rfl⟩

/-- The tables are alike if the first one has a scalar at the place of the string that is
set in the second one. -/
theorem follows_table? {P : Prop} {as' bs' : List Token} {root : Table} (hn : Text.IsVersion new)
    (has : List.Forall₂ (Token.Exchanged P) as as') (ht : t.isReplaceable = true)
    (hbs : List.Forall₂ (Token.Exchanged P) bs bs') (hroot : table? (as ++ t :: bs) = some root)
    (hw : ¬ root.Within (fun q _ => q ≠ as.length)) :
    Follows P (Table.Alike P as.length (.string new)) root
      (table? (as' ++ .string .basic new :: bs')) := by
  have h := inStep_table? (stringValue?_of_isVersion hn) (matches_of_exchanged has ht hbs) hroot
  generalize table? (as' ++ .string .basic new :: bs') = o at h
  cases h with
  | off h => exact absurd h hw
  | some h => exact .some h
  | none h => exact .none h

/-- **A scalar that is set is the only change to a document**, and the text is read again. -/
theorem exists_read?_textWith (hd : read? s = some d) (hx : ReadIn d.tokens.zipIdx [] p x)
    (hm : ∀ m, x ≠ .moment m) (hw : ¬ d.root.Within (fun q _ => q ≠ p)) (hn : Text.IsVersion new) :
    ∃ as t bs root, d.tokens = as ++ t :: bs ∧ as.length = p
      ∧ d.textWith p new = spelled (as ++ .string .basic new :: bs)
      ∧ read? (d.textWith p new) = some ⟨as ++ .string .basic new :: bs, root⟩
      ∧ d.root.Alike False p (.string new) root := by
  obtain ⟨htok, hroot⟩ := read?_eq_some.1 hd
  obtain ⟨as, t, bs, hts, rfl, ht, has⟩ := exists_split_of_readIn hx hm
  have htext : d.textWith as.length new = spelled (as ++ .string .basic new :: bs) := by
    unfold textWith
    rw [hts, List.set_append_right as.length _ (Nat.le_refl _), Nat.sub_self]
    rfl
  rw [hts] at htok hroot
  have htok' : tokens? (spelled (as ++ t :: bs)) = some (as ++ t :: bs) := by
    rw [spelled_tokens? htok, htok]
  have hset := tokens?_of_split hn ht has htok'
  -- Nothing but the one token changes.
  have refl : ∀ cs : List Token, List.Forall₂ (Token.Exchanged False) cs cs :=
    fun cs => List.forall₂_same.2 (fun c _ => .same c)
  have hf := follows_table? hn (refl as) ht (refl bs) hroot hw
  cases hr : table? (as ++ .string .basic new :: bs) with
  | none =>
    rw [hr] at hf
    cases hf with
    | none h => exact absurd h id
  | some root =>
    rw [hr] at hf
    cases hf with
    | some ha =>
      refine ⟨as, t, bs, root, hts, rfl, htext, ?_, ha⟩
      rw [htext, read?_eq_some]
      exact ⟨hset, hr⟩

/-- **Versions are exchanged around the scalar that was set.** -/
theorem follows_read? {root : Table} {a b : Text} (hn : Text.IsVersion new)
    (hd : read? s = some ⟨as ++ .string .basic new :: bs, root⟩)
    (hw : ¬ root.Within (fun q _ => q ≠ as.length))
    (ha : Text.Exchanged True [] [] (spelled as) a)
    (hb : Text.Exchanged True [] [] (spelled bs) b) :
    Follows True (fun root d => root.Alike True as.length (.string new) d.root) root
      (read? (a ++ '"' :: (new ++ '"' :: b))) := by
  obtain ⟨htok, hroot⟩ := read?_eq_some.1 hd
  have hs : s = spelled as ++ spelled (.string .basic new :: bs) := by
    rw [← spelled_tokens? htok, spelled_append]
  have htok' : tokens? s = some ((as ++ [.string .basic new]) ++ bs) := by
    rw [htok, List.append_assoc]
    rfl
  -- The tokens behind the string, and the string with them.
  have hbtok : tokens? (spelled bs) = some (bs ++ []) := by
    rw [tokens?_of_append htok', List.append_nil]
  obtain ⟨bs', hbs, hbs'⟩ := exchanged_tokens? (.refl []) hb hbtok rfl
  rw [tokens?_nil, Option.map_some, List.append_nil] at hbs'
  have hstring : tokens? ('"' :: (new ++ '"' :: b)) = some (.string .basic new :: bs') := by
    rw [tokens?_of_next? (next?_string hn b), hbs']
    rfl
  -- The tokens before the string.
  -- Both ends begin with one quote, as a version follows it.
  have hfence : Text.Fence (spelled (.string .basic new :: bs)) ('"' :: (new ++ '"' :: b)) := by
    obtain ⟨c, r, rfl, hc⟩ := hn.exists_digit
    rw [spelled_string]
    refine ⟨rfl, fun q hq => ?_⟩
    have hcq : ¬ decide (c = q) = true := by
      intro he
      rw [of_decide_eq_true he] at hc
      rcases hq with rfl | rfl <;> cases hc
    simp only [List.cons_append, List.takeWhile_cons, if_neg hcq]
  rw [hs] at htok
  obtain ⟨as', has, has'⟩ := exchanged_tokens? hfence (ha.append .base) htok rfl
  rw [hstring, Option.map_some] at has'
  have hread : read? (a ++ '"' :: (new ++ '"' :: b))
      = (table? (as' ++ .string .basic new :: bs')).map
        (fun root => ⟨as' ++ .string .basic new :: bs', root⟩) := by
    unfold read?
    rw [has', Option.map_eq_bind]
    rfl
  rw [hread]
  exact (follows_table? hn has rfl hbs hroot hw).map (fun _ h => h)

end Document
end Repin.Toml
