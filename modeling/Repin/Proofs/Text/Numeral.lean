/-
  Repin.Proofs.Text.Numeral
  ─────────────────────────
  **A CANONICAL NUMERAL IS THE NUMERAL OF ITS VALUE.**

  Each number has one canonical decimal numeral, so what `natural?` accepts is what
  `digits` writes:

      natural? s = some n  →  digits n = s              (`digits_of_natural?`)
      natural? (digits n) = some n                      (`natural?_digits`)

  Both directions of a numeral are taken from its end: the last digit is the value
  modulo ten, and what stands before it is the numeral of the rest.
-/
import Mathlib.Data.List.Induction
import Repin.Text.Class
import Repin.Text.Numeral

namespace Repin.Text

/-! ## §1. One digit. -/

theorem isDigit_digitOf {d : Nat} (h : d < 10) : isDigit (digitOf d) = true := by
  have hall : ∀ d : Fin 10, isDigit (digitOf d.val) = true := by decide
  exact hall ⟨d, h⟩

/-- A character whose value is below ten is the digit that stands for it. -/
theorem eq_digitOf {c : Char} {d : Nat} (h : digitValue? c = some d) (hd : d < 10) :
    c = digitOf d := by
  have h0 : ('0' : Char).toNat = 48 := rfl
  have ha : ('a' : Char).toNat = 97 := rfl
  have hA : ('A' : Char).toNat = 65 := rfl
  have hlow : '0' ≤ c ∧ c ≤ '9' ∧ c.toNat - 48 = d := by
    unfold digitValue? at h
    split at h
    · next hc => exact ⟨hc.1, hc.2, Option.some.inj h⟩
    · split at h
      · next hc =>
        have hle : ('a' : Char).toNat ≤ c.toNat := hc.1
        have he := Option.some.inj h
        omega
      · split at h
        · next hc =>
          have hle : ('A' : Char).toNat ≤ c.toNat := hc.1
          have he := Option.some.inj h
          omega
        · cases h
  obtain ⟨hl, -, he⟩ := hlow
  have hle : ('0' : Char).toNat ≤ c.toNat := hl
  unfold digitOf
  rw [if_pos hd, show 48 + d = c.toNat by omega, Char.ofNat_toNat]

/-- Each ASCII digit stands for a number below ten. -/
theorem exists_eq_digitOf {c : Char} (h : isDigit c = true) : ∃ d, d < 10 ∧ c = digitOf d := by
  have h0 : ('0' : Char).toNat = 48 := rfl
  have h9 : ('9' : Char).toNat = 57 := rfl
  unfold isDigit at h
  rw [Bool.and_eq_true, decide_eq_true_eq, decide_eq_true_eq] at h
  have hle : ('0' : Char).toNat ≤ c.toNat := h.1
  have hge : c.toNat ≤ ('9' : Char).toNat := h.2
  have hlt : c.toNat - 48 < 10 := by omega
  refine ⟨c.toNat - 48, hlt, eq_digitOf ?_ hlt⟩
  unfold digitValue?
  rw [if_pos h]

/-- The ASCII digits are among the decimal digits of all scripts. -/
theorem isDecimal_of_isDigit {c : Char} (h : isDigit c = true) : isDecimal c = true := by
  obtain ⟨d, hd, rfl⟩ := exists_eq_digitOf h
  have hall : ∀ d : Fin 10, isDecimal (digitOf d.val) = true := by decide
  exact hall ⟨d, hd⟩

/-- A digit behind a number adds its value to ten times the number. -/
theorem step_digitOf {d : Nat} (hd : d < 10) (m : Nat) :
    valueIn?.step 10 m (digitOf d) = some (m * 10 + d) := by
  have hall : ∀ d : Fin 10, digitValue? (digitOf d.val) = some d.val := by decide
  unfold valueIn?.step
  rw [hall ⟨d, hd⟩]
  show (if d < 10 then _ else _) = _
  rw [if_pos hd]

/-! ## §2. The numeral of a number. -/

theorem digits_of_lt {n : Nat} (h : n < 10) : digits n = [digitOf n] := by
  unfold digits digitsIn
  rw [dif_neg (by omega)]

theorem digits_append {m d : Nat} (hm : 0 < m) (hd : d < 10) :
    digits (m * 10 + d) = digits m ++ [digitOf d] := by
  unfold digits
  rw [digitsIn, dif_pos (by omega), show (m * 10 + d) / 10 = m by omega,
    show (m * 10 + d) % 10 = d by omega]

/-- The numerals of all numbers, from the end: one digit, or one digit more. -/
theorem digits_induction {motive : Nat → Prop} (one : ∀ d, d < 10 → motive d)
    (more : ∀ m d, 0 < m → d < 10 → motive m → motive (m * 10 + d)) : ∀ n, motive n := by
  intro n
  induction n using Nat.strongRecOn with
  | ind n ih =>
    by_cases h : n < 10
    · exact one n h
    · have hs := more (n / 10) (n % 10) (by omega) (by omega) (ih (n / 10) (by omega))
      rwa [show n / 10 * 10 + n % 10 = n by omega] at hs

theorem digits_ne_nil (n : Nat) : digits n ≠ [] := by
  induction n using digits_induction with
  | one d hd => rw [digits_of_lt hd]; simp
  | more m d hm hd ih => rw [digits_append hm hd]; simp

theorem isDigit_of_mem_digits (n : Nat) : ∀ c ∈ digits n, isDigit c = true := by
  induction n using digits_induction with
  | one d hd =>
    intro c hc
    rw [digits_of_lt hd, List.mem_singleton] at hc
    rw [hc]
    exact isDigit_digitOf hd
  | more m d hm hd ih =>
    intro c hc
    rw [digits_append hm hd, List.mem_append, List.mem_singleton] at hc
    rcases hc with hc | hc
    · exact ih c hc
    · rw [hc]
      exact isDigit_digitOf hd

/-! ## §3. Reading a numeral. -/

theorem foldlM_step_append (acc : Nat) (s : Text) (c : Char) :
    (s ++ [c]).foldlM (valueIn?.step 10) acc
      = (s.foldlM (valueIn?.step 10) acc).bind (fun m => valueIn?.step 10 m c) := by
  rw [List.foldlM_append]
  cases s.foldlM (valueIn?.step 10) acc with
  | none => rfl
  | some m => simp

theorem step_eq_some {m n : Nat} {c : Char} (h : valueIn?.step 10 m c = some n) :
    ∃ d, d < 10 ∧ c = digitOf d ∧ n = m * 10 + d := by
  unfold valueIn?.step at h
  split at h
  · next d hd =>
    split at h
    · next hlt => exact ⟨d, hlt, eq_digitOf hd hlt, (Option.some.inj h).symm⟩
    · cases h
  · cases h

theorem isCanonical_of_append {s : Text} {c : Char} (hs : s ≠ [])
    (h : isCanonical (s ++ [c]) = true) : isCanonical s = true ∧ s ≠ ['0'] := by
  match s with
  | [] => exact absurd rfl hs
  | ['0'] => simp [isCanonical] at h
  | [x] =>
    unfold isCanonical at h ⊢
    split at h
    · cases h
    · next hn =>
      refine ⟨by split <;> simp_all, ?_⟩
      rintro ⟨⟩
      exact hn c [] rfl
  | '0' :: y :: r => simp [isCanonical] at h
  | x :: y :: r =>
    refine ⟨?_, by simp⟩
    unfold isCanonical at h ⊢
    split
    · simp_all
    · rfl

/-- A canonical run of digits is the numeral of the value that is read from it. -/
theorem digits_of_foldlM {s : Text} {n : Nat} (hs : s ≠ []) (hc : isCanonical s = true)
    (h : s.foldlM (valueIn?.step 10) 0 = some n) : digits n = s := by
  induction s using List.reverseRecOn generalizing n with
  | nil => exact absurd rfl hs
  | append_singleton s c ih =>
    rw [foldlM_step_append, Option.bind_eq_some_iff] at h
    obtain ⟨m, hm, hstep⟩ := h
    obtain ⟨d, hd, rfl, rfl⟩ := step_eq_some hstep
    by_cases hnil : s = []
    · subst hnil
      have h0 : m = 0 := (Option.some.inj hm).symm
      subst h0
      rw [Nat.zero_mul, Nat.zero_add, digits_of_lt hd, List.nil_append]
    · obtain ⟨hcs, hne⟩ := isCanonical_of_append hnil hc
      have hds := ih hnil hcs hm
      have hpos : 0 < m := by
        rcases Nat.eq_zero_or_pos m with h0 | h0
        · subst h0
          exact absurd (hds.symm.trans (digits_of_lt (by omega))) hne
        · exact h0
      rw [digits_append hpos hd, hds]

/-- **A canonical numeral is the numeral of its value.** -/
theorem digits_of_natural? {s : Text} {n : Nat} (h : natural? s = some n) : digits n = s := by
  unfold natural? at h
  split at h
  · next hc =>
    unfold value? valueIn? at h
    split at h
    · cases h
    · next hne => exact digits_of_foldlM (by simpa using hne) hc h
  · cases h

/-- **A canonical run of digits is the numeral of some number.** -/
theorem exists_digits {s : Text} (hs : s ≠ []) (hd : ∀ c ∈ s, isDigit c = true)
    (hc : isCanonical s = true) : ∃ n, digits n = s := by
  have hvalue : ∀ (t : Text) (m : Nat), (∀ c ∈ t, isDigit c = true) →
      ∃ n, t.foldlM (valueIn?.step 10) m = some n := by
    intro t
    induction t with
    | nil => exact fun m _ => ⟨m, rfl⟩
    | cons c t ih =>
      intro m hd
      obtain ⟨d, hlt, rfl⟩ := exists_eq_digitOf (hd c List.mem_cons_self)
      rw [List.foldlM_cons, step_digitOf hlt]
      exact ih _ (fun x hx => hd x (List.mem_cons_of_mem _ hx))
  obtain ⟨n, hn⟩ := hvalue s 0 hd
  exact ⟨n, digits_of_foldlM hs hc hn⟩

theorem isCanonical_append {s : Text} (t : Text) (hs : s ≠ []) (h : isCanonical s = true)
    (hz : s ≠ ['0']) : isCanonical (s ++ t) = true := by
  match s with
  | [] => exact absurd rfl hs
  | '0' :: y :: r => cases h
  | [x] =>
    unfold isCanonical
    split
    · next he =>
      rw [List.singleton_append, List.cons.injEq] at he
      rw [he.1] at hz
      exact absurd rfl hz
    · rfl
  | x :: y :: r =>
    unfold isCanonical at h ⊢
    split
    · next he =>
      rw [List.cons_append, List.cons_append, List.cons.injEq] at he
      rw [he.1] at h
      cases h
    · rfl

/-- A numeral has no leading zero, and only that of zero begins with one. -/
theorem isCanonical_digits (n : Nat) :
    isCanonical (digits n) = true ∧ (0 < n → digits n ≠ ['0']) := by
  induction n using digits_induction with
  | one d hd =>
    have hall : ∀ d : Fin 10, isCanonical [digitOf d.val] = true
        ∧ (0 < d.val → [digitOf d.val] ≠ ['0']) := by decide
    rw [digits_of_lt hd]
    exact hall ⟨d, hd⟩
  | more m d hm hd ih =>
    rw [digits_append hm hd]
    refine ⟨isCanonical_append _ (digits_ne_nil m) ih.1 (ih.2 hm), fun _ he => ?_⟩
    have hlen := congrArg List.length he
    have hpos := List.length_pos_iff.2 (digits_ne_nil m)
    simp only [List.length_append, List.length_singleton] at hlen
    omega

/-- **The numeral of a number reads as the number.** -/
theorem natural?_digits (n : Nat) : natural? (digits n) = some n := by
  have hvalue : (digits n).foldlM (valueIn?.step 10) 0 = some n := by
    induction n using digits_induction with
    | one d hd =>
      rw [digits_of_lt hd, List.foldlM_cons, step_digitOf hd, Nat.zero_mul, Nat.zero_add]
      rfl
    | more m d hm hd ih =>
      rw [digits_append hm hd, foldlM_step_append, ih]
      exact step_digitOf hd m
  unfold natural? value? valueIn?
  rw [if_pos (isCanonical_digits n).1, if_neg (by simpa using digits_ne_nil n), hvalue]

/-- Only digits have a value. -/
theorem digitValue?_ne_none {base acc n : Nat} {s : Text} {c : Char}
    (h : s.foldlM (valueIn?.step base) acc = some n) (hc : c ∈ s) : digitValue? c ≠ none := by
  induction s generalizing acc with
  | nil => cases hc
  | cons d s ih =>
    rw [List.foldlM_cons] at h
    obtain ⟨m, hm, h⟩ := Option.bind_eq_some_iff.1 h
    rcases List.mem_cons.1 hc with rfl | hc
    · intro hn
      unfold valueIn?.step at hm
      rw [hn] at hm
      cases hm
    · exact ih h hc

/-- A character that is no digit stands in no numeral. -/
theorem notMem_of_valueIn? {base n : Nat} {s : Text} {c : Char} (h : valueIn? base s = some n)
    (hc : digitValue? c = none) : c ∉ s := by
  unfold valueIn? at h
  split at h
  · cases h
  · exact fun hm => digitValue?_ne_none h hm hc

end Repin.Text
