/-
  Repin.Proofs.Text.Replace
  ─────────────────────────
  **WHAT REPLACING DOES TO A TEXT.**

  The segments of a text, with the text that was looked for between them, are the
  text itself; with another text between them they are the replaced text.  The two
  texts are built alike, so a property of both is shown along the segments.

    • `intercalate_segments` — nothing is lost by taking a text apart,
    • `mem_of_mem_replaced` — replacing brings in the characters of `new` only,
    • `splitFirst?_eq_some_iff` — which occurrence is found first,
    • `replaced_append` — a text can be replaced part by part where no occurrence lies
      across a seam; `replaced_append_cons` — as on both sides of a character that
      `old` does not hold, and `exists_of_replaced_eq_append_cons`, the way back,
    • `replaced_append_of_endsOutside` — what holds no last character of `old` can be
      cut off at the end, and `exists_of_replaced_eq_append`, the way back.
-/
import Repin.Text.Replace

namespace Repin.Text

/-! ## §1. Segments. -/

theorem segments_of_none {old s : Text} (ho : old ≠ []) (h : splitFirst? old s = none) :
    segments old s = [s] := by
  rw [segments, if_neg ho]
  split
  · rfl
  · next a b hs => rw [h] at hs; cases hs

theorem segments_of_some {old s a b : Text} (ho : old ≠ [])
    (h : splitFirst? old s = some (a, b)) : segments old s = a :: segments old b := by
  rw [segments, if_neg ho]
  split
  · next hs => rw [h] at hs; cases hs
  · next x y hs =>
    rw [h] at hs
    cases hs
    rfl

theorem segments_ne_nil (old s : Text) : segments old s ≠ [] := by
  rw [segments]
  split
  · simp
  · split <;> simp

/-- A text from its end of segments: none more, or one more and then the rest. -/
theorem segments_induction {old : Text} (ho : old ≠ []) {motive : Text → Prop}
    (last : ∀ s, splitFirst? old s = none → motive s)
    (more : ∀ a b, splitFirst? old (a ++ (old ++ b)) = some (a, b) → motive b →
      motive (a ++ (old ++ b))) (s : Text) : motive s := by
  induction hn : s.length using Nat.strongRecOn generalizing s with
  | ind n ih =>
    cases hs : splitFirst? old s with
    | none => exact last s hs
    | some p =>
      obtain ⟨a, b⟩ := p
      have he := splitFirst?_append hs
      have hlen : b.length < n := by
        have hpos := List.length_pos_iff.2 ho
        rw [← hn, he]
        simp only [List.length_append]
        omega
      rw [he] at hs ⊢
      exact more a b hs (ih b.length hlen b rfl)

theorem replaced_of_none {old new s : Text} (ho : old ≠ []) (h : splitFirst? old s = none) :
    replaced old new s = s := by
  rw [replaced, segments_of_none ho h, List.intercalate_singleton]

theorem replaced_of_some {old new s a b : Text} (ho : old ≠ [])
    (h : splitFirst? old s = some (a, b)) :
    replaced old new s = a ++ (new ++ replaced old new b) := by
  rw [replaced, segments_of_some ho h,
    List.intercalate_cons_of_ne_nil (segments_ne_nil old b)]
  simp [replaced]

/-- **Nothing is lost by taking a text apart.** -/
theorem intercalate_segments {old : Text} (ho : old ≠ []) (s : Text) :
    old.intercalate (segments old s) = s := by
  show replaced old old s = s
  induction s using segments_induction ho with
  | last s h => exact replaced_of_none ho h
  | more a b h ih => rw [replaced_of_some ho h, ih]

/-! ## §2. Characters. -/

/-- Replacing brings in the characters of `new` only. -/
theorem mem_of_mem_replaced {old new s : Text} {c : Char} (ho : old ≠ [])
    (h : c ∈ replaced old new s) : c ∈ s ∨ c ∈ new := by
  induction s using segments_induction ho with
  | last s hs =>
    rw [replaced_of_none ho hs] at h
    exact .inl h
  | more a b hs ih =>
    rw [replaced_of_some ho hs] at h
    simp only [List.mem_append] at h ⊢
    rcases h with h | h | h
    · exact .inl (.inl h)
    · exact .inr h
    · rcases ih h with hb | hn
      · exact .inl (.inr (.inr hb))
      · exact .inr hn

/-! ## §3. The first occurrence. -/

theorem behind?_eq_none_iff {p s : Text} : behind? p s = none ↔ ¬ p <+: s := by
  constructor
  · rintro h ⟨r, rfl⟩
    rw [behind?_append] at h
    cases h
  · intro h
    cases hb : behind? p s with
    | none => rfl
    | some r => exact absurd ⟨r, (behind?_eq_some_iff.1 hb).symm⟩ h

theorem splitFirst?_eq_none_iff {old s : Text} : splitFirst? old s = none ↔ ¬ old <:+: s := by
  induction s with
  | nil =>
    unfold splitFirst?
    rw [Option.map_eq_none_iff, behind?_eq_none_iff, List.prefix_nil, List.infix_nil]
  | cons c s ih =>
    unfold splitFirst?
    cases hb : behind? old (c :: s) with
    | some r =>
      have hp : old <+: c :: s := ⟨r, (behind?_eq_some_iff.1 hb).symm⟩
      refine ⟨fun h => ?_, fun h => absurd hp.isInfix h⟩
      cases h
    | none =>
      rw [List.infix_cons_iff, not_or, ← ih, Option.map_eq_none_iff]
      exact ⟨fun h => ⟨behind?_eq_none_iff.1 hb, h⟩, fun h => h.2⟩

/-- Behind `a`, the text `old` stands for the first time: wherever it occurs in `a`
followed by it, that is the very end. -/
def FirstBehind {α : Type} (old a : List α) : Prop := ∀ x y, a ++ old = x ++ (old ++ y) → y = []

theorem firstBehind_nil {α : Type} {old : List α} : FirstBehind old [] := by
  intro x y h
  have hl := congrArg List.length h
  simp only [List.nil_append, List.length_append] at hl
  exact List.length_eq_zero_iff.1 (by omega)

theorem firstBehind_of_splitFirst? {old s a b : Text} (h : splitFirst? old s = some (a, b)) :
    FirstBehind old a := by
  induction s generalizing a b with
  | nil =>
    simp only [splitFirst?, Option.map_eq_some_iff, Prod.mk.injEq] at h
    obtain ⟨r, -, rfl, -⟩ := h
    exact firstBehind_nil
  | cons c s ih =>
    have he := splitFirst?_append h
    unfold splitFirst? at h
    split at h
    · cases h
      exact firstBehind_nil
    · next hb =>
      obtain ⟨⟨a', b'⟩, hp, hab⟩ := Option.map_eq_some_iff.1 h
      cases hab
      intro x y hxy
      cases x with
      | nil =>
        -- `old` would begin the text, but the search went on from there.
        refine absurd ?_ (behind?_eq_none_iff.1 hb)
        refine ⟨y ++ b', ?_⟩
        rw [he, ← List.append_assoc (c :: a'), hxy]
        simp
      | cons d x =>
        rw [List.cons_append, List.cons_append, List.cons.injEq] at hxy
        exact ih hp x y hxy.2

/-- Of two occurrences of `old` that both stand for the first time, neither lies
behind the other. -/
theorem eq_nil_of_firstBehind {α : Type} {old a z b b' : List α} (h : FirstBehind old (a ++ z))
    (he : old ++ b = z ++ (old ++ b')) : z = [] := by
  have hp : old <+: z ++ old := by
    have hz : z ++ old <+: z ++ (old ++ b') := ⟨b', by simp⟩
    refine List.prefix_of_prefix_length_le ⟨b, he⟩ hz ?_
    rw [List.length_append]
    omega
  obtain ⟨y, hy⟩ := hp
  have h0 := h a y (by rw [List.append_assoc, ← hy])
  have hl := congrArg List.length hy
  rw [h0] at hl
  simp only [List.length_append, List.length_nil] at hl
  exact List.length_eq_zero_iff.1 (by omega)

/-- Two first occurrences are at the same place. -/
theorem FirstBehind.eq_of_append_eq {α : Type} {old a a' b b' : List α} (h : FirstBehind old a)
    (h' : FirstBehind old a') (he : a ++ (old ++ b) = a' ++ (old ++ b')) : a = a' ∧ b = b' := by
  rcases List.append_eq_append_iff.1 he with ⟨z, rfl, hz⟩ | ⟨z, rfl, hz⟩
  · obtain rfl := eq_nil_of_firstBehind h' hz
    rw [List.nil_append] at hz
    exact ⟨(List.append_nil a).symm, List.append_cancel_left hz⟩
  · obtain rfl := eq_nil_of_firstBehind h hz
    rw [List.nil_append] at hz
    exact ⟨List.append_nil a', (List.append_cancel_left hz).symm⟩

theorem splitFirst?_eq_some_iff {old s a b : Text} :
    splitFirst? old s = some (a, b) ↔ s = a ++ (old ++ b) ∧ FirstBehind old a := by
  constructor
  · exact fun h => ⟨splitFirst?_append h, firstBehind_of_splitFirst? h⟩
  · rintro ⟨rfl, h⟩
    cases hs : splitFirst? old (a ++ (old ++ b)) with
    | none => exact absurd ⟨a, b, by simp⟩ (splitFirst?_eq_none_iff.1 hs)
    | some p =>
      obtain ⟨a', b'⟩ := p
      obtain ⟨rfl, rfl⟩ :=
        h.eq_of_append_eq (firstBehind_of_splitFirst? hs) (splitFirst?_append hs)
      rfl

/-! ## §4. Replacing, by the first occurrence. -/

variable {old new : Text}

theorem replaced_eq_self {s : Text} (ho : old ≠ []) (h : ¬ old <:+: s) :
    replaced old new s = s :=
  replaced_of_none ho (splitFirst?_eq_none_iff.2 h)

theorem replaced_of_firstBehind {a : Text} (ho : old ≠ []) (h : FirstBehind old a) (b : Text) :
    replaced old new (a ++ (old ++ b)) = a ++ (new ++ replaced old new b) :=
  replaced_of_some ho (splitFirst?_eq_some_iff.2 ⟨rfl, h⟩)

theorem infix_replaced {s : Text} (ho : old ≠ []) (h : old <:+: s) :
    new <:+: replaced old new s := by
  cases hs : splitFirst? old s with
  | none => exact absurd h (splitFirst?_eq_none_iff.1 hs)
  | some p =>
    rw [replaced_of_some ho hs]
    exact ⟨p.1, replaced old new p.2, by simp⟩

theorem replaced_nil (ho : old ≠ []) : replaced old new [] = [] :=
  replaced_eq_self ho (by rwa [List.infix_nil])

theorem replaced_self (ho : old ≠ []) : replaced old new old = new := by
  have h : replaced old new ([] ++ (old ++ [])) = [] ++ (new ++ replaced old new []) :=
    replaced_of_firstBehind ho firstBehind_nil []
  rw [replaced_nil ho] at h
  simpa using h

theorem replaced_ne_nil {s : Text} (ho : old ≠ []) (hn : new ≠ []) (hs : s ≠ []) :
    replaced old new s ≠ [] := by
  by_cases h : old <:+: s
  · have hi : new <:+: replaced old new s := infix_replaced ho h
    intro he
    rw [he, List.infix_nil] at hi
    exact hn hi
  · rwa [replaced_eq_self ho h]

theorem eq_nil_of_replaced_eq_nil {s : Text} (ho : old ≠ []) (hn : new ≠ [])
    (h : replaced old new s = []) : s = [] :=
  Decidable.byContradiction fun hs => replaced_ne_nil ho hn hs h

/-- A replaced text that does not hold `new` is the text itself. -/
theorem eq_of_replaced_eq {s t : Text} (ho : old ≠ []) (h : replaced old new s = t)
    (hn : ¬ new <:+: t) : s = t := by
  by_cases hs : old <:+: s
  · exact absurd (h ▸ infix_replaced ho hs) hn
  · rwa [replaced_eq_self ho hs] at h

/-! ## §5. Replacing part by part. -/

/-- No occurrence of `old` lies across the seam between `u` and `v`. -/
def Apart (old u v : Text) : Prop :=
  ∀ x y, u ++ v = x ++ (old ++ y) → x.length + old.length ≤ u.length ∨ u.length ≤ x.length

/-- An occurrence in two texts that are apart lies in one of them. -/
theorem Apart.cases {u v x y : Text} (h : Apart old u v) (he : u ++ v = x ++ (old ++ y)) :
    (∃ z, u = x ++ (old ++ z) ∧ y = z ++ v) ∨ ∃ z, x = u ++ z ∧ v = z ++ (old ++ y) := by
  rcases h x y he with hle | hle
  · left
    rw [← List.append_assoc] at he
    rcases List.append_eq_append_iff.1 he with ⟨z, hz, -⟩ | ⟨z, hz, hy⟩
    · -- The occurrence ends where `u` does.
      have hl := congrArg List.length hz
      simp only [List.length_append] at hl
      obtain rfl : z = [] := List.length_eq_zero_iff.1 (by omega)
      rw [List.append_nil] at hz
      rw [← hz] at he
      exact ⟨[], by rw [← hz]; simp, by rw [List.nil_append, List.append_cancel_left he]⟩
    · exact ⟨z, by rw [hz, List.append_assoc], hy⟩
  · right
    rcases List.append_eq_append_iff.1 he with ⟨z, hz, hv⟩ | ⟨z, hz, hv⟩
    · exact ⟨z, hz, hv⟩
    · have hl := congrArg List.length hz
      rw [List.length_append] at hl
      obtain rfl : z = [] := List.length_eq_zero_iff.1 (by omega)
      rw [List.append_nil] at hz
      exact ⟨[], by rw [hz, List.append_nil], by rw [hv, List.nil_append]; rfl⟩

theorem Apart.of_append {a u v : Text} (h : Apart old (a ++ (old ++ u)) v) : Apart old u v := by
  intro x y he
  have hl := h (a ++ (old ++ x)) y (by simp only [List.append_assoc, he])
  simp only [List.length_append] at hl
  omega

/-- **Texts that are apart are replaced one by one.** -/
theorem replaced_append {u v : Text} (ho : old ≠ []) (h : Apart old u v) :
    replaced old new (u ++ v) = replaced old new u ++ replaced old new v := by
  induction u using segments_induction ho with
  | last u hu =>
    have hu' := splitFirst?_eq_none_iff.1 hu
    rw [replaced_of_none ho hu]
    -- No occurrence is left in `u`: the first one of all is the first one of `v`.
    cases hv : splitFirst? old v with
    | none =>
      rw [replaced_of_none ho hv]
      refine replaced_eq_self ho ?_
      rintro ⟨x, y, hxy⟩
      rw [List.append_assoc] at hxy
      rcases h.cases hxy.symm with ⟨z, hz, -⟩ | ⟨z, -, hz⟩
      · exact hu' ⟨x, z, by rw [hz, List.append_assoc]⟩
      · exact splitFirst?_eq_none_iff.1 hv ⟨z, y, by rw [hz, List.append_assoc]⟩
    | some p =>
      obtain ⟨a, b⟩ := p
      obtain ⟨rfl, ha⟩ := splitFirst?_eq_some_iff.1 hv
      -- An earlier occurrence would lie in `u`, or in `v` before the first one.
      have hf : FirstBehind old (u ++ a) := by
        intro x y hxy
        have he : u ++ (a ++ (old ++ b)) = x ++ (old ++ (y ++ b)) := by
          have hb := congrArg (· ++ b) hxy
          simpa using hb
        rcases h.cases he with ⟨z, hz, -⟩ | ⟨z, rfl, hz⟩
        · exact absurd ⟨x, z, by rw [hz, List.append_assoc]⟩ hu'
        · refine ha z y ?_
          rw [List.append_assoc, List.append_assoc] at hxy
          exact List.append_cancel_left hxy
      rw [replaced_of_firstBehind ho ha]
      calc replaced old new (u ++ (a ++ (old ++ b)))
          = replaced old new ((u ++ a) ++ (old ++ b)) := by rw [List.append_assoc]
        _ = (u ++ a) ++ (new ++ replaced old new b) := replaced_of_firstBehind ho hf b
        _ = u ++ (a ++ (new ++ replaced old new b)) := List.append_assoc _ _ _
  | more a b hs ih =>
    have ha := (splitFirst?_eq_some_iff.1 hs).2
    rw [List.append_assoc, List.append_assoc, replaced_of_firstBehind ho ha, ih h.of_append,
      replaced_of_firstBehind ho ha]
    simp

/-- An occurrence of `old` does not reach over a character that it does not hold. -/
theorem lt_or_le_of_append {q : Char} {u v x y : Text} (hq : q ∉ old)
    (he : u ++ q :: v = x ++ (old ++ y)) :
    x.length + old.length ≤ u.length ∨ u.length < x.length := by
  refine Decidable.byContradiction fun hno => ?_
  have hget := congrArg (·[u.length]?) he
  simp only [List.getElem?_append_right (Nat.le_refl _), Nat.sub_self] at hget
  rw [List.getElem?_append_right (by omega), List.getElem?_append_left (by omega)] at hget
  exact hq (List.mem_of_getElem? hget.symm)

theorem apart_cons {q : Char} {u v : Text} (hq : q ∉ old) : Apart old u (q :: v) := by
  intro x y he
  have h := lt_or_le_of_append hq he
  omega

theorem apart_singleton {q : Char} {v : Text} (ho : old ≠ []) (hq : q ∉ old) :
    Apart old [q] v := by
  intro x y he
  have hpos := List.length_pos_iff.2 ho
  have h := lt_or_le_of_append (u := []) hq he
  simp only [List.length_nil, List.length_singleton] at h ⊢
  omega

/-- **A text can be replaced on both sides of a character that `old` does not hold.** -/
theorem replaced_append_cons {q : Char} (ho : old ≠ []) (hq : q ∉ old) (u v : Text) :
    replaced old new (u ++ q :: v) = replaced old new u ++ q :: replaced old new v := by
  have hone : replaced old new [q] = [q] := by
    refine replaced_eq_self ho ?_
    rintro ⟨x, y, hxy⟩
    have hlen := congrArg List.length hxy
    have hpos := List.length_pos_iff.2 ho
    simp only [List.length_append, List.length_singleton] at hlen
    obtain rfl : x = [] := List.length_eq_zero_iff.1 (by omega)
    obtain rfl : y = [] := List.length_eq_zero_iff.1 (by omega)
    rw [List.nil_append, List.append_nil] at hxy
    exact hq (by rw [hxy]; exact List.mem_singleton_self q)
  calc replaced old new (u ++ q :: v)
      = replaced old new u ++ replaced old new ([q] ++ v) := replaced_append ho (apart_cons hq)
    _ = replaced old new u ++ (replaced old new [q] ++ replaced old new v) := by
        rw [replaced_append ho (apart_singleton ho hq)]
    _ = replaced old new u ++ q :: replaced old new v := by rw [hone]; rfl

theorem mem_replaced_of_mem {q : Char} {s : Text} (ho : old ≠ []) (hq : q ∉ old) (h : q ∈ s) :
    q ∈ replaced old new s := by
  obtain ⟨u, v, rfl⟩ := List.append_of_mem h
  rw [replaced_append_cons ho hq]
  simp

/-- The way back: a character that neither text holds was there before. -/
theorem exists_of_replaced_eq_append_cons {q : Char} (ho : old ≠ []) (hq : q ∉ old)
    (hq' : q ∉ new) {s u' v' : Text} (h : replaced old new s = u' ++ q :: v') :
    ∃ u v, s = u ++ q :: v ∧ replaced old new u = u' ∧ replaced old new v = v' := by
  induction hn : s.length using Nat.strongRecOn generalizing s u' v' with
  | ind n ih =>
    have hm : q ∈ s := by
      have hr : q ∈ replaced old new s := by rw [h]; simp
      exact (mem_of_mem_replaced ho hr).resolve_right hq'
    obtain ⟨u, v, rfl, hu⟩ := List.eq_append_cons_of_mem hm
    rw [replaced_append_cons ho hq] at h
    have hru : q ∉ replaced old new u := fun hr =>
      (mem_of_mem_replaced ho hr).elim hu hq'
    -- The first such character of the text is the given one, or stands before it.
    rcases List.append_eq_append_iff.1 h with ⟨z, rfl, hz⟩ | ⟨z, hz, hv⟩
    · cases z with
      | nil =>
        rw [List.nil_append, List.cons.injEq] at hz
        exact ⟨u, v, rfl, by simp, hz.2⟩
      | cons d z =>
        -- The character lies further behind: go on in the rest.
        rw [List.cons_append, List.cons.injEq] at hz
        obtain ⟨u₂, v₂, rfl, rfl, rfl⟩ := ih v.length (by simp [← hn]; omega) hz.2 rfl
        exact ⟨u ++ q :: u₂, v₂, by simp, by rw [replaced_append_cons ho hq, hz.1], rfl⟩
    · cases z with
      | nil =>
        rw [List.nil_append, List.cons.injEq] at hv
        exact ⟨u, v, rfl, by simpa using hz, hv.2.symm⟩
      | cons d z =>
        rw [List.cons_append, List.cons.injEq] at hv
        exact absurd (by rw [hz, hv.1]; simp) hru

/-! ## §6. Cutting off the end. -/

/-- The last character of `b` does not occur in `z`. -/
def EndsOutside (b z : Text) : Prop := ∃ a c, b = a ++ [c] ∧ c ∉ z

theorem EndsOutside.ne_nil {b z : Text} (h : EndsOutside b z) : b ≠ [] := by
  obtain ⟨a, c, rfl, -⟩ := h
  simp

/-- What does not end in `z` ends before it. -/
theorem EndsOutside.append_eq {b z x u y : Text} (h : EndsOutside b z)
    (he : (x ++ b) ++ y = u ++ z) : ∃ w, u = (x ++ b) ++ w ∧ y = w ++ z := by
  rcases List.append_eq_append_iff.1 he with ⟨w, hu, hy⟩ | ⟨w, hx, hz⟩
  · exact ⟨w, hu, hy⟩
  · obtain ⟨a, c, rfl, hc⟩ := h
    rcases List.eq_nil_or_concat w with rfl | ⟨w, d, rfl⟩
    · exact ⟨[], by simpa using hx.symm, by simpa using hz.symm⟩
    · -- Then `z` would hold the last character of `b`.
      have hd : c = d := by
        have hl := congrArg List.getLast? hx
        simpa using hl
      exact absurd (by rw [hz, hd]; simp) hc

theorem EndsOutside.apart {b z : Text} (h : EndsOutside b z) (u : Text) : Apart b u z := by
  intro x y he
  rw [← List.append_assoc] at he
  obtain ⟨w, rfl, -⟩ := h.append_eq he.symm
  simp only [List.length_append]
  omega

theorem EndsOutside.not_infix {b z : Text} (h : EndsOutside b z) : ¬ b <:+: z := by
  obtain ⟨a, c, rfl, hc⟩ := h
  rintro ⟨x, y, rfl⟩
  exact hc (by simp)

theorem replaced_append_of_endsOutside {z : Text} (ho : EndsOutside old z) (u : Text) :
    replaced old new (u ++ z) = replaced old new u ++ z := by
  rw [replaced_append ho.ne_nil (ho.apart u), replaced_eq_self ho.ne_nil ho.not_infix]

/-- The way back: what neither text ends in was there before. -/
theorem exists_of_replaced_eq_append {z : Text} (ho : EndsOutside old z) (hn : EndsOutside new z)
    {s u' : Text} (h : replaced old new s = u' ++ z) :
    ∃ u, s = u ++ z ∧ replaced old new u = u' := by
  induction s using segments_induction ho.ne_nil generalizing u' with
  | last s hs =>
    rw [replaced_of_none ho.ne_nil hs] at h
    refine ⟨u', h, replaced_eq_self ho.ne_nil ?_⟩
    rintro ⟨x, y, rfl⟩
    exact splitFirst?_eq_none_iff.1 hs ⟨x, y ++ z, by rw [h]; simp⟩
  | more a b hs ih =>
    have ha := (splitFirst?_eq_some_iff.1 hs).2
    rw [replaced_of_firstBehind ho.ne_nil ha, ← List.append_assoc] at h
    obtain ⟨w, rfl, hb⟩ := hn.append_eq h
    obtain ⟨u, rfl, rfl⟩ := ih hb
    refine ⟨a ++ (old ++ u), by simp, ?_⟩
    rw [replaced_of_firstBehind ho.ne_nil ha, List.append_assoc]

end Repin.Text
