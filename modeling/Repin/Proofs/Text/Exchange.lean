/-
  Repin.Proofs.Text.Exchange
  ──────────────────────────
  **EXCHANGING VERSIONS IN A TEXT.**

  A tag is a prefix followed by a version, and tags of one dependency share their
  prefix.  Replacing one by another therefore exchanges versions for versions and
  keeps every other character:

      Exchanged True [] [] s (replaced (start ++ v) (start ++ w) s)   (`exchanged_replaced`)

  `Exchanged P r r' x y` says this of the parts of `x` and `y` before their ends `r` and
  `r'`; if the proposition `P` fails nothing may be exchanged, so these parts are the
  same.  A version begins with a digit and holds no blank, quote or mark, so a run of
  characters of one class is exchanged for a run of the same class (`Exchanged.span`).
-/
import Repin.Proofs.Text.Replace
import Repin.Proofs.Version.Shape

namespace Repin.Text

/-- Before the end `r`, the text `x` is exchanged for `y`, with the end `r'`; exchanging
is allowed if `P` holds. -/
inductive Exchanged (P : Prop) (r r' : Text) : Text → Text → Prop
  /-- The ends are reached. -/
  | base : Exchanged P r r' r r'
  /-- A character stays. -/
  | keep (c : Char) {x y : Text} : Exchanged P r r' x y → Exchanged P r r' (c :: x) (c :: y)
  /-- A version is exchanged for another one. -/
  | swap {v w x y : Text} : P → IsVersion v → IsVersion w → Exchanged P r r' x y →
      Exchanged P r r' (v ++ x) (w ++ y)

variable {P : Prop} {r r' x y : Text}

/-! ## §1. Building. -/

theorem exchanged_append (a r r' : Text) : Exchanged P r r' (a ++ r) (a ++ r') := by
  induction a with
  | nil => exact .base
  | cons c a ih => exact .keep c ih

theorem exchanged_refl (s : Text) : Exchanged P [] [] s s := by
  have h : Exchanged P [] [] (s ++ []) (s ++ []) := exchanged_append s [] []
  rwa [List.append_nil] at h

theorem Exchanged.append {a b : Text} (h : Exchanged P [] [] a b) (hx : Exchanged P r r' x y) :
    Exchanged P r r' (a ++ x) (b ++ y) := by
  induction h with
  | base => exact hx
  | keep c _ ih => exact .keep c ih
  | swap hp hv hw _ ih =>
    rw [List.append_assoc, List.append_assoc]
    exact .swap hp hv hw ih

theorem Exchanged.exists_append (h : Exchanged P r r' x y) :
    ∃ a b, x = a ++ r ∧ y = b ++ r' ∧ Exchanged P [] [] a b := by
  induction h with
  | base => exact ⟨[], [], rfl, rfl, .base⟩
  | keep c _ ih =>
    obtain ⟨a, b, rfl, rfl, hab⟩ := ih
    exact ⟨c :: a, c :: b, rfl, rfl, .keep c hab⟩
  | swap hp hv hw _ ih =>
    obtain ⟨a, b, rfl, rfl, hab⟩ := ih
    exact ⟨_, _, (List.append_assoc _ _ _).symm, (List.append_assoc _ _ _).symm, .swap hp hv hw hab⟩

theorem append_ne_nil_of_isVersion {v : Text} (hv : IsVersion v) (start : Text) :
    start ++ v ≠ [] := by
  intro he
  exact hv.ne_nil (List.append_eq_nil_iff.1 he).2

/-- **Replacing a tag by one with the same prefix exchanges versions.** -/
theorem exchanged_replaced {start v w : Text} (hv : IsVersion v) (hw : IsVersion w) (s : Text) :
    Exchanged True [] [] s (replaced (start ++ v) (start ++ w) s) := by
  have ho := append_ne_nil_of_isVersion hv start
  induction s using segments_induction ho with
  | last s h =>
    rw [replaced_of_none ho h]
    exact exchanged_refl s
  | more a b h ih =>
    rw [replaced_of_some ho h, List.append_assoc, List.append_assoc]
    exact (exchanged_refl a).append ((exchanged_refl start).append (.swap trivial hv hw ih))

/-- No occurrence of `old` in the three texts ends in the middle one. -/
def Spares (old a u b : Text) : Prop :=
  ∀ x y, a ++ (u ++ b) = x ++ (old ++ y) →
    x.length + old.length ≤ a.length ∨ a.length + u.length < x.length + old.length

theorem Spares.of_append {old a u b x : Text} (h : Spares old (x ++ a) u b) :
    Spares old a u b := by
  intro z y he
  have hz := h (x ++ z) y (by rw [List.append_assoc, he, List.append_assoc])
  simp only [List.length_append] at hz
  omega

/-- A text in quotes is spared by a tag that holds no quote, but a character that is not in
the text. -/
theorem spares_of_mem {old a u b : Text} {q d : Char} (hq : q ∉ old) (hd : d ∈ old) (hu : d ∉ u) :
    Spares old a (q :: (u ++ [q])) b := by
  intro x y he
  rw [List.cons_append, List.append_assoc, List.singleton_append] at he
  -- The occurrence reaches over neither of the quotes.
  rcases lt_or_le_of_append hq he with hle | hlt
  · exact .inl hle
  · have he' : (a ++ q :: u) ++ q :: b = x ++ (old ++ y) := by
      rw [List.append_assoc, List.cons_append]
      exact he
    rcases lt_or_le_of_append hq he' with hle | hlt'
    · -- The occurrence lies between the quotes.
      have hpre : a ++ [q] <+: x :=
        List.prefix_of_prefix_length_le ⟨u ++ q :: b, by simpa using he⟩ ⟨old ++ y, rfl⟩
          (by rw [List.length_append]; exact hlt)
      obtain ⟨z, rfl⟩ := hpre
      have hin : u ++ q :: b = z ++ (old ++ y) := by
        have he'' : (a ++ [q]) ++ (u ++ q :: b) = (a ++ [q]) ++ (z ++ (old ++ y)) := by
          simpa using he
        exact List.append_cancel_left he''
      have hzo : z ++ old <+: u := by
        refine List.prefix_of_prefix_length_le ⟨y, ?_⟩ ⟨q :: b, rfl⟩ ?_
        · rw [hin, List.append_assoc]
        · simp only [List.length_append, List.length_cons, List.length_nil] at hle ⊢
          omega
      exact absurd (hzo.subset (List.mem_append_right z hd)) hu
    · right
      have hpos := List.length_pos_of_mem hd
      simp only [List.length_append, List.length_cons, List.length_nil] at hlt' ⊢
      omega

/-- A text that ends in a character of no version is spared as a whole: an occurrence of
the tag that ends behind it has its version behind it. -/
theorem exists_of_version_behind {start v u b x y : Text} {q : Char} (hv : IsVersion v)
    (hq : isVersionChar q = false) (he : (u ++ [q]) ++ b = (x ++ start) ++ (v ++ y))
    (hlen : (u ++ [q]).length < (x ++ start).length + v.length) :
    ∃ m, x ++ start = (u ++ [q]) ++ m ∧ b = m ++ (v ++ y) := by
  rcases List.append_eq_append_iff.1 he with ⟨m, hm, hb⟩ | ⟨m, hm, hvy⟩
  · exact ⟨m, hm, hb⟩
  · by_cases hnil : m = []
    · subst hnil
      rw [List.append_nil] at hm
      exact ⟨[], by rw [hm, List.append_nil], hvy.symm⟩
    · -- The character before the seam would belong to the version.
      have hml : m.length ≤ v.length := by
        rw [hm, List.length_append] at hlen
        omega
      obtain ⟨m', c, rfl⟩ : ∃ m' c, m = m' ++ [c] :=
        ⟨m.dropLast, m.getLast hnil, (List.dropLast_concat_getLast hnil).symm⟩
      rw [← List.append_assoc] at hm
      obtain ⟨-, hc⟩ := List.append_inj' hm rfl
      have hmem : q ∈ v := by
        have hpre : m' ++ [c] <+: v := List.prefix_of_prefix_length_le ⟨b, hvy.symm⟩ ⟨y, rfl⟩ hml
        refine hpre.subset ?_
        rw [(List.cons.inj hc).1]
        exact List.mem_append_right m' List.mem_cons_self
      rw [hv.chars q hmem] at hq
      cases hq

/-- **A text that is spared stays, with versions exchanged before and behind it.** -/
theorem exists_replaced_of_spares {start v w a u b : Text} {q : Char} (hv : IsVersion v)
    (hw : IsVersion w) (hq : isVersionChar q = false) (hs : Spares (start ++ v) a (u ++ [q]) b) :
    ∃ a' b', replaced (start ++ v) (start ++ w) (a ++ ((u ++ [q]) ++ b))
        = a' ++ ((u ++ [q]) ++ b')
      ∧ Exchanged True [] [] a a' ∧ Exchanged True [] [] b b' := by
  have ho := append_ne_nil_of_isVersion hv start
  generalize ht : a ++ ((u ++ [q]) ++ b) = t
  induction t using segments_induction ho generalizing a with
  | last t h =>
    rw [replaced_of_none ho h, ← ht]
    exact ⟨a, b, rfl, exchanged_refl a, exchanged_refl b⟩
  | more x y h ih =>
    rw [replaced_of_some ho h]
    rcases hs x y ht with hle | hlt
    · -- The occurrence lies before the text that is spared.
      obtain ⟨a₂, rfl⟩ : ∃ a₂, a = (x ++ (start ++ v)) ++ a₂ := by
        have hpre : x ++ (start ++ v) <+: a := by
          refine List.prefix_of_prefix_length_le ⟨y, ?_⟩ ⟨_, ht⟩ ?_
          · rw [List.append_assoc]
          · rw [List.length_append]
            exact hle
        obtain ⟨z, hz⟩ := hpre
        exact ⟨z, hz.symm⟩
      have hy : a₂ ++ ((u ++ [q]) ++ b) = y := by
        rw [List.append_assoc, List.append_assoc x] at ht
        exact List.append_cancel_left (List.append_cancel_left ht)
      obtain ⟨a', b', hr, ha, hb⟩ := ih hs.of_append hy
      refine ⟨x ++ (start ++ w) ++ a', b', ?_, ?_, hb⟩
      · rw [hr]
        simp only [List.append_assoc]
      · simp only [List.append_assoc]
        exact (exchanged_refl x).append ((exchanged_refl start).append (.swap trivial hv hw ha))
    · -- The version of the occurrence lies behind it.
      have he : ((a ++ u) ++ [q]) ++ b = (x ++ start) ++ (v ++ y) := by
        simpa only [List.append_assoc] using ht
      obtain ⟨m, hm, rfl⟩ := exists_of_version_behind hv hq he (by
        simp only [List.length_append] at hlt ⊢
        omega)
      refine ⟨a, m ++ (w ++ replaced (start ++ v) (start ++ w) y), ?_, exchanged_refl a, ?_⟩
      · have hxs : x ++ (start ++ w ++ replaced (start ++ v) (start ++ w) y)
            = (x ++ start) ++ (w ++ replaced (start ++ v) (start ++ w) y) := by
          simp only [List.append_assoc]
        rw [hxs, hm]
        simp only [List.append_assoc]
      · exact (exchanged_refl m).append (.swap trivial hv hw (exchanged_replaced hv hw y))

/-! ## §2. Taking apart. -/

theorem Exchanged.length_le (h : Exchanged P r r' x y) : r.length ≤ x.length := by
  obtain ⟨a, b, rfl, -, -⟩ := h.exists_append
  rw [List.length_append]
  omega

/-- Nothing is exchanged behind the ends. -/
theorem Exchanged.eq_end (h : Exchanged P r r' x y) (hx : x = r) : y = r' := by
  cases h with
  | base => rfl
  | keep c h =>
    have hl := h.length_le
    have he := congrArg List.length hx
    rw [List.length_cons] at he
    omega
  | swap _ hv _ h =>
    have hl := h.length_le
    have hpos := List.length_pos_iff.2 hv.ne_nil
    have he := congrArg List.length hx
    rw [List.length_append] at he
    omega

/-- Nothing is exchanged that may not be. -/
theorem Exchanged.eq_of_not (hP : ¬ P) (h : Exchanged P [] [] x y) : x = y := by
  induction h with
  | base => rfl
  | keep c _ ih => rw [ih]
  | swap hp _ _ _ _ => exact absurd hp hP

/-- A text without a dot stays as it is. -/
theorem Exchanged.eq_or_dot_mem (h : Exchanged P [] [] x y) : x = y ∨ '.' ∈ x ∧ '.' ∈ y := by
  induction h with
  | base => exact .inl rfl
  | keep c _ ih =>
    rcases ih with rfl | ⟨hx, hy⟩
    · exact .inl rfl
    · exact .inr ⟨List.mem_cons_of_mem c hx, List.mem_cons_of_mem c hy⟩
  | swap hp hv hw _ _ =>
    exact .inr ⟨List.mem_append_left _ hv.dot_mem, List.mem_append_left _ hw.dot_mem⟩

/-- The texts are the same, or run along up to a version. -/
theorem Exchanged.eq_or_exists {s s' : Text} (h : Exchanged P [] [] s s') :
    s = s' ∨ P ∧ ∃ a v w x y, s = a ++ (v ++ x) ∧ s' = a ++ (w ++ y)
      ∧ IsVersion v ∧ IsVersion w := by
  induction h with
  | base => exact .inl rfl
  | keep c _ ih =>
    rcases ih with rfl | ⟨hP, a, v, w, x, y, rfl, rfl, hv, hw⟩
    · exact .inl rfl
    · exact .inr ⟨hP, c :: a, v, w, x, y, rfl, rfl, hv, hw⟩
  | swap hP hv hw _ _ => exact .inr ⟨hP, [], _, _, _, _, rfl, rfl, hv, hw⟩

/-- A character stays or is a digit in the place of a digit, before the end. -/
theorem Exchanged.cons_cases {c : Char} (hr : r.length ≤ x.length)
    (h : Exchanged P r r' (c :: x) y) :
    (∃ z, y = c :: z ∧ Exchanged P r r' x z)
      ∨ isDigit c = true ∧ ∃ d z, y = d :: z ∧ isDigit d = true := by
  generalize hcx : c :: x = u at h
  cases h with
  | base =>
    rw [← hcx, List.length_cons] at hr
    omega
  | keep d h =>
    cases hcx
    exact .inl ⟨_, rfl, h⟩
  | swap hp hv hw h =>
    obtain ⟨d, s, rfl, hd⟩ := hv.exists_digit
    obtain ⟨e, t, rfl, he⟩ := hw.exists_digit
    cases hcx
    exact .inr ⟨hd, e, _, rfl, he⟩

/-- A character that is no digit stays, before the end. -/
theorem Exchanged.of_cons {c : Char} (hc : isDigit c = false) (hr : r.length ≤ x.length)
    (h : Exchanged P r r' (c :: x) y) : ∃ z, y = c :: z ∧ Exchanged P r r' x z := by
  rcases h.cons_cases hr with hz | ⟨hd, -⟩
  · exact hz
  · rw [hc] at hd
    cases hd

theorem Exchanged.exists_cons {c : Char} (hr : r.length ≤ x.length)
    (h : Exchanged P r r' (c :: x) y) : ∃ d z, y = d :: z ∧ (d = c ∨ isDigit d = true) := by
  rcases h.cons_cases hr with ⟨z, hz, -⟩ | ⟨-, d, z, hz, hd⟩
  · exact ⟨c, z, hz, .inl rfl⟩
  · exact ⟨d, z, hz, .inr hd⟩

/-- The ends `r` and `r'` look alike from before: they begin with the same character and
with the same quotes. -/
structure Fence (r r' : Text) : Prop where
  head : r.head? = r'.head?
  quotes : ∀ q, q = '"' ∨ q = '\'' → r.takeWhile (· = q) = r'.takeWhile (· = q)

theorem Fence.refl (r : Text) : Fence r r := ⟨rfl, fun _ _ => rfl⟩

theorem fence_cons {c : Char} (hc : c ≠ '"') (hc' : c ≠ '\'') (x y : Text) :
    Fence (c :: x) (c :: y) := by
  refine ⟨rfl, fun q hq => ?_⟩
  have hcq : ¬ decide (c = q) = true := by
    rcases hq with rfl | rfl
    · simpa using hc
    · simpa using hc'
  rw [List.takeWhile_cons, List.takeWhile_cons, if_neg hcq, if_neg hcq]

/-- Quotes stay. -/
theorem Exchanged.takeWhile_quotes (hf : Fence r r') (h : Exchanged P r r' x y) {q : Char}
    (hq : q = '"' ∨ q = '\'') : x.takeWhile (· = q) = y.takeWhile (· = q) := by
  induction h with
  | base => exact hf.quotes q hq
  | keep c _ ih =>
    rw [List.takeWhile_cons, List.takeWhile_cons, ih]
  | swap hp hv hw _ _ =>
    obtain ⟨c, v, rfl, hc⟩ := hv.exists_digit
    obtain ⟨d, w, rfl, hd⟩ := hw.exists_digit
    have hnil : ∀ (a : Char) (s : Text), isDigit a = true →
        (a :: s).takeWhile (· = q) = [] := by
      intro a s ha
      rw [List.takeWhile_cons, if_neg]
      intro he
      rw [of_decide_eq_true he] at ha
      rcases hq with rfl | rfl <;> cases ha
    rw [List.cons_append, List.cons_append, hnil c _ hc, hnil d _ hd]

/-- Quotes can be taken off on both sides. -/
theorem Exchanged.drop_quotes {q : Char} (hq : q = '"' ∨ q = '\'') {n : Nat}
    (hn : n ≤ (x.takeWhile (· = q)).length) (hl : r.length ≤ (x.drop n).length)
    (h : Exchanged P r r' x y) : Exchanged P r r' (x.drop n) (y.drop n) := by
  induction n generalizing x y with
  | zero => exact h
  | succ n ih =>
    cases x with
    | nil =>
      rw [List.takeWhile_nil, List.length_nil] at hn
      omega
    | cons c x =>
      rw [List.takeWhile_cons] at hn
      split at hn
      case isFalse =>
        rw [List.length_nil] at hn
        omega
      case isTrue hc =>
      rw [List.length_cons] at hn
      rw [List.drop_succ_cons] at hl ⊢
      have hlen : (x.drop n).length ≤ x.length := by
        rw [List.length_drop]
        omega
      have hd : isDigit c = false := by
        rw [of_decide_eq_true hc]
        rcases hq with rfl | rfl <;> rfl
      obtain ⟨z, rfl, hz⟩ := h.of_cons hd (by omega)
      exact ih (by omega) hl hz

theorem span_of_stop {p : Char → Bool} {c : Char} (hc : p c = false) (s : Text) :
    (c :: s).takeWhile p = [] ∧ (c :: s).dropWhile p = c :: s := by
  rw [List.takeWhile_cons, List.dropWhile_cons, hc]
  exact ⟨rfl, rfl⟩

/-- A run that leaves the end stops before it, and before an end that begins alike. -/
theorem span_of_end {p : Char → Bool} (hr : r.head? = r'.head?)
    (hl : r.length ≤ (r.dropWhile p).length) :
    (r.takeWhile p = [] ∧ r.dropWhile p = r) ∧ r'.takeWhile p = [] ∧ r'.dropWhile p = r' := by
  cases r with
  | nil =>
    obtain rfl := List.head?_eq_none_iff.1 hr.symm
    exact ⟨⟨rfl, rfl⟩, rfl, rfl⟩
  | cons c z =>
    obtain ⟨z', rfl⟩ := List.head?_eq_some_iff.1 hr.symm
    cases hc : p c with
    | true =>
      -- The run would go on behind the end.
      rw [List.dropWhile_cons_of_pos hc] at hl
      have hz := (List.dropWhile_suffix (l := z) p).length_le
      rw [List.length_cons] at hl
      omega
    | false => exact ⟨span_of_stop hc z, span_of_stop hc z'⟩

/-- **A run of characters, among them those of versions, is exchanged for such a run.** -/
theorem Exchanged.span {p : Char → Bool} (hp : ∀ c, isVersionChar c = true → p c = true)
    (hr : r.head? = r'.head?) (h : Exchanged P r r' x y) (hl : r.length ≤ (x.dropWhile p).length) :
    Exchanged P [] [] (x.takeWhile p) (y.takeWhile p)
      ∧ Exchanged P r r' (x.dropWhile p) (y.dropWhile p) := by
  induction h with
  | base =>
    obtain ⟨⟨ht, hd⟩, ht', hd'⟩ := span_of_end hr hl
    rw [ht, hd, ht', hd']
    exact ⟨.base, .base⟩
  | @keep c x y h ih =>
    cases hc : p c with
    | true =>
      rw [List.dropWhile_cons_of_pos hc] at hl
      rw [List.takeWhile_cons_of_pos hc, List.takeWhile_cons_of_pos hc,
        List.dropWhile_cons_of_pos hc, List.dropWhile_cons_of_pos hc]
      exact ⟨.keep c (ih hl).1, (ih hl).2⟩
    | false =>
      rw [(span_of_stop hc x).1, (span_of_stop hc y).1, (span_of_stop hc x).2,
        (span_of_stop hc y).2]
      exact ⟨.base, .keep c h⟩
  | swap hs hv hw h ih =>
    have hv' := fun c hc => hp c (hv.chars c hc)
    have hw' := fun c hc => hp c (hw.chars c hc)
    rw [List.dropWhile_append_of_pos hv'] at hl ⊢
    rw [List.takeWhile_append_of_pos hv', List.takeWhile_append_of_pos hw',
      List.dropWhile_append_of_pos hw']
    exact ⟨.swap hs hv hw (ih hl).1, (ih hl).2⟩

/-- A run of characters that no version holds stays. -/
theorem Exchanged.span_of_not {p : Char → Bool} (hp : ∀ c, isVersionChar c = true → p c = false)
    (hr : r.head? = r'.head?) (h : Exchanged P r r' x y) (hl : r.length ≤ (x.dropWhile p).length) :
    x.takeWhile p = y.takeWhile p ∧ Exchanged P r r' (x.dropWhile p) (y.dropWhile p) := by
  induction h with
  | base =>
    obtain ⟨⟨ht, hd⟩, ht', hd'⟩ := span_of_end hr hl
    rw [ht, hd, ht', hd']
    exact ⟨rfl, .base⟩
  | @keep c x y h ih =>
    cases hc : p c with
    | true =>
      rw [List.dropWhile_cons_of_pos hc] at hl
      rw [List.takeWhile_cons_of_pos hc, List.takeWhile_cons_of_pos hc,
        List.dropWhile_cons_of_pos hc, List.dropWhile_cons_of_pos hc, (ih hl).1]
      exact ⟨rfl, (ih hl).2⟩
    | false =>
      rw [(span_of_stop hc x).1, (span_of_stop hc y).1, (span_of_stop hc x).2,
        (span_of_stop hc y).2]
      exact ⟨rfl, .keep c h⟩
  -- The run stops where the version begins, in both texts.
  | @swap v w x y hs hv hw h ih =>
    have hvw := Exchanged.swap hs hv hw h
    obtain ⟨c, v, rfl, -⟩ := hv.exists_digit
    obtain ⟨d, w, rfl, -⟩ := hw.exists_digit
    have hc := hp c (hv.chars c List.mem_cons_self)
    have hd := hp d (hw.chars d List.mem_cons_self)
    rw [List.cons_append, List.cons_append] at hvw ⊢
    rw [(span_of_stop hc _).1, (span_of_stop hd _).1, (span_of_stop hc _).2,
      (span_of_stop hd _).2]
    exact ⟨rfl, hvw⟩

end Repin.Text
