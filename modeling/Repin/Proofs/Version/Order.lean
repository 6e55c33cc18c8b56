/-
  Repin.Proofs.Version.Order
  ──────────────────────────
  **PRECEDENCE IS A TOTAL PREORDER.**

  `Version.Below` states the rules of precedence: the three numbers count first, a
  pre-release stands below its release, and pre-release parts are compared identifier by
  identifier, a number below every word, a list below all lists that it begins.  The
  comparison of versions decides exactly this, and finds two versions equal exactly when
  they differ in their build parts at most:

      v.compare w = .lt  ↔  v.Below w                          (`compare_eq_lt_iff`)
      v.compare w = .eq  ↔  v.unbuilt = w.unbuilt              (`compare_eq_eq_iff`)

  Each comparison is put together from comparisons of parts, and it is transitive because
  these are (`TransCmp`), so a list of versions can be sorted by it.
-/
import Repin.Version.Order
import Mathlib.Data.List.Lex

namespace Repin

/-! ## §1. The rules of precedence. -/

/-- A text stands before another one by the code points of their characters. -/
def Text.Below (s t : Text) : Prop := List.Lex (fun c d => c.toNat < d.toNat) s t

/-- One identifier has a lower precedence than another. -/
inductive Identifier.Below : Identifier → Identifier → Prop
  /-- Numbers are compared by value. -/
  | numbers {a b : Nat} : a < b → Below (.number a) (.number b)
  /-- A number is below every word. -/
  | mixed (a : Nat) (t : Text) : Below (.number a) (.word t)
  /-- Words are compared by code points. -/
  | words {s t : Text} : s.Below t → Below (.word s) (.word t)

namespace Version

/-- One pre-release part has a lower precedence than another: it is there, and the other one is
missing or comes later, identifier by identifier. -/
def PreBelow (s t : List Identifier) : Prop := s ≠ [] ∧ (t = [] ∨ List.Lex Identifier.Below s t)

/-- One version has a lower precedence than another. -/
def Below (v w : Version) : Prop :=
  v.major < w.major ∨ v.major = w.major ∧
    (v.minor < w.minor ∨ v.minor = w.minor ∧
      (v.patch < w.patch ∨ v.patch = w.patch ∧ PreBelow v.pre w.pre))

/-- The version without its build part, which does not count. -/
def unbuilt (v : Version) : Version := { v with build := [] }

theorem unbuilt_eq_iff {v w : Version} : v.unbuilt = w.unbuilt ↔
    v.major = w.major ∧ v.minor = w.minor ∧ v.patch = w.patch ∧ v.pre = w.pre := by
  unfold unbuilt
  rw [mk.injEq]
  simp only [and_true]

end Version

/-! ## §2. Lists, compared element by element. -/

section
variable {α : Type} {cmp : α → α → Ordering} {R : α → α → Prop}

theorem compareLex_eq_eq_iff (heq : ∀ a b, cmp a b = .eq ↔ a = b) (s t : List α) :
    List.compareLex cmp s t = .eq ↔ s = t := by
  induction s generalizing t with
  | nil =>
    cases t with
    | nil => exact ⟨fun _ => rfl, fun _ => rfl⟩
    | cons b t => exact ⟨nofun, nofun⟩
  | cons a s ih =>
    cases t with
    | nil => exact ⟨nofun, nofun⟩
    | cons b t => rw [List.compareLex_cons_cons, Ordering.then_eq_eq, heq, ih, List.cons.injEq]

/-- Comparing lists decides the lexicographic order. -/
theorem compareLex_eq_lt_iff (hlt : ∀ a b, cmp a b = .lt ↔ R a b)
    (heq : ∀ a b, cmp a b = .eq ↔ a = b) (s t : List α) :
    List.compareLex cmp s t = .lt ↔ List.Lex R s t := by
  induction s generalizing t with
  | nil =>
    cases t with
    | nil => exact ⟨nofun, nofun⟩
    | cons b t => exact ⟨fun _ => .nil, fun _ => rfl⟩
  | cons a s ih =>
    cases t with
    | nil => exact ⟨nofun, nofun⟩
    | cons b t =>
      rw [List.compareLex_cons_cons, Ordering.then_eq_lt, hlt, heq, ih]
      constructor
      · rintro (h | ⟨rfl, h⟩)
        · exact .rel h
        · exact .cons h
      · intro h
        cases h with
        | rel h => exact .inl h
        | cons h => exact .inr ⟨rfl, h⟩

end

/-! ## §3. Texts and identifiers. -/

theorem Text.compare_eq (s t : Text) :
    Text.compare s t = List.compareLex (compareOn Char.toNat) s t := by
  induction s generalizing t with
  | nil => cases t <;> rfl
  | cons a s ih =>
    cases t with
    | nil => rfl
    | cons b t => rw [List.compareLex_cons_cons, ← ih]; rfl

theorem Text.compare_eq_eq_iff (s t : Text) : Text.compare s t = .eq ↔ s = t := by
  rw [Text.compare_eq]
  refine compareLex_eq_eq_iff (fun a b => ?_) s t
  show Ord.compare a.toNat b.toNat = .eq ↔ a = b
  rw [Nat.compare_eq_eq, Char.toNat_inj]

theorem Text.compare_eq_lt_iff (s t : Text) : Text.compare s t = .lt ↔ s.Below t := by
  rw [Text.compare_eq]
  refine compareLex_eq_lt_iff (fun a b => Nat.compare_eq_lt) (fun a b => ?_) s t
  show Ord.compare a.toNat b.toNat = .eq ↔ a = b
  rw [Nat.compare_eq_eq, Char.toNat_inj]

instance : Std.TransCmp Text.compare := by
  rw [show Text.compare = List.compareLex (compareOn Char.toNat) from
    funext (fun s => funext (Text.compare_eq s))]
  infer_instance

namespace Identifier

theorem compare_eq_eq_iff (i j : Identifier) : i.compare j = .eq ↔ i = j := by
  cases i <;> cases j <;> simp [Identifier.compare, Text.compare_eq_eq_iff]

theorem compare_eq_lt_iff (i j : Identifier) : i.compare j = .lt ↔ i.Below j := by
  cases i with
  | number a =>
    cases j with
    | number b =>
      show Ord.compare a b = .lt ↔ _
      rw [Nat.compare_eq_lt]
      exact ⟨.numbers, fun h => by cases h with | numbers h => exact h⟩
    | word t => exact ⟨fun _ => .mixed a t, fun _ => rfl⟩
  | word s =>
    cases j with
    | number b => exact ⟨nofun, nofun⟩
    | word t =>
      show Text.compare s t = .lt ↔ _
      rw [Text.compare_eq_lt_iff]
      exact ⟨.words, fun h => by cases h with | words h => exact h⟩

instance : Std.TransCmp Identifier.compare where
  eq_swap := by
    intro i j
    cases i <;> cases j <;> simp only [Identifier.compare]
    · exact Std.OrientedCmp.eq_swap
    · rfl
    · rfl
    · exact Std.OrientedCmp.eq_swap
  isLE_trans := by
    intro i j k hij hjk
    cases i <;> cases j <;> cases k <;> simp only [Identifier.compare] at hij hjk ⊢
    · exact Std.TransCmp.isLE_trans hij hjk
    · rfl
    · cases hjk
    · rfl
    · cases hij
    · cases hij
    · cases hjk
    · exact Std.TransCmp.isLE_trans hij hjk

end Identifier

/-! ## §4. Versions. -/

namespace Version

theorem compareFields_eq (s t : List Identifier) :
    compareFields s t = List.compareLex Identifier.compare s t := by
  induction s generalizing t with
  | nil => cases t <;> rfl
  | cons a s ih =>
    cases t with
    | nil => rfl
    | cons b t => rw [List.compareLex_cons_cons, ← ih]; rfl

theorem comparePre_eq_eq_iff (s t : List Identifier) : comparePre s t = .eq ↔ s = t := by
  cases s <;> cases t <;> simp [comparePre, compareFields_eq,
    compareLex_eq_eq_iff Identifier.compare_eq_eq_iff]

theorem comparePre_eq_lt_iff (s t : List Identifier) : comparePre s t = .lt ↔ PreBelow s t := by
  cases s <;> cases t <;> simp [comparePre, PreBelow, compareFields_eq,
    compareLex_eq_lt_iff Identifier.compare_eq_lt_iff Identifier.compare_eq_eq_iff]

instance : Std.TransCmp comparePre where
  eq_swap := by
    intro s t
    cases s <;> cases t <;> simp only [comparePre, compareFields_eq]
    · rfl
    · rfl
    · rfl
    · exact Std.OrientedCmp.eq_swap
  isLE_trans := by
    intro s t u hst htu
    cases s <;> cases t <;> cases u <;> simp only [comparePre, compareFields_eq] at hst htu ⊢
    · rfl
    · cases htu
    · rfl
    · cases hst
    · rfl
    · cases htu
    · rfl
    · exact Std.TransCmp.isLE_trans hst htu

/-- Versions are compared part by part. -/
theorem compare_eq (v w : Version) : v.compare w =
    compareLex (compareOn major) (compareLex (compareOn minor)
      (compareLex (compareOn patch) (fun v w => comparePre v.pre w.pre))) v w := rfl

instance : Std.TransCmp Version.compare := by
  have hpre : Std.TransCmp (fun v w : Version => comparePre v.pre w.pre) :=
    { eq_swap := Std.OrientedCmp.eq_swap, isLE_trans := Std.TransCmp.isLE_trans }
  rw [show Version.compare = _ from funext (fun v => funext (compare_eq v))]
  infer_instance

/-- **Versions of equal precedence differ in their build parts at most.** -/
theorem compare_eq_eq_iff (v w : Version) : v.compare w = .eq ↔ v.unbuilt = w.unbuilt := by
  unfold Version.compare
  rw [unbuilt_eq_iff]
  simp only [Ordering.then_eq_eq, Nat.compare_eq_eq, comparePre_eq_eq_iff]

/-- **The comparison of versions decides their precedence.** -/
theorem compare_eq_lt_iff (v w : Version) : v.compare w = .lt ↔ v.Below w := by
  unfold Version.compare Below
  simp only [Ordering.then_eq_lt, Nat.compare_eq_lt, Nat.compare_eq_eq, comparePre_eq_lt_iff]

/-! ## §5. The order by which versions are sorted. -/

theorem notAfter_trans {u v w : Version} (huv : u.notAfter v = true) (hvw : v.notAfter w = true) :
    u.notAfter w = true := Std.TransCmp.isLE_trans huv hvw

theorem notAfter_iff {v w : Version} : v.notAfter w = true ↔ ¬ w.Below v := by
  unfold notAfter
  rw [← compare_eq_lt_iff, @Std.OrientedCmp.eq_swap _ Version.compare _ v w]
  cases w.compare v <;> simp

theorem notAfter_total (v w : Version) : (v.notAfter w || w.notAfter v) = true := by
  unfold notAfter
  rw [@Std.OrientedCmp.eq_swap _ Version.compare _ v w]
  cases w.compare v <;> rfl

/-- Versions of equal precedence are not after each other. -/
theorem notAfter_of_unbuilt_eq {v w : Version} (h : v.unbuilt = w.unbuilt) :
    v.notAfter w = true := by
  unfold notAfter
  rw [(compare_eq_eq_iff v w).2 h]
  rfl

/-- Of two versions one is below the other, or they are of equal precedence. -/
theorem below_or_eq_or_below (v w : Version) :
    v.Below w ∨ v.unbuilt = w.unbuilt ∨ w.Below v := by
  rw [← compare_eq_lt_iff, ← compare_eq_eq_iff, ← compare_eq_lt_iff,
    @Std.OrientedCmp.eq_swap _ Version.compare _ w v]
  cases v.compare w <;> simp

/-- Versions that are not after each other are of equal precedence. -/
theorem unbuilt_eq_of_notAfter {v w : Version} (hvw : v.notAfter w = true)
    (hwv : w.notAfter v = true) : v.unbuilt = w.unbuilt := by
  rcases below_or_eq_or_below v w with h | h | h
  · exact absurd h (notAfter_iff.1 hwv)
  · exact h
  · exact absurd h (notAfter_iff.1 hvw)

end Version
end Repin
