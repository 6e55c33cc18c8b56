/-
  Repin.Proofs.Json.Members
  ─────────────────────────
  **THE MEMBERS OF AN OBJECT.**

  Setting a member changes one place: that of the member with its name, or the end if
  there is none (`isSet_set`).  The names stay distinct, and of two settings of one
  name the later one is what counts (`set_set`).

  An object keeps the members that are written for it by setting one after the other,
  so its names are distinct, and the value of a name is the last one written for it:

      (ofWritten ms).get? k = some v  ↔  IsLast k v ms            (`get?_ofWritten`)
-/
import Mathlib.Data.List.Induction
import Mathlib.Data.List.Nodup
import Repin.Json.Basic

namespace Repin
namespace Json
namespace Members

variable {k : List CodePoint} {v w : Json} {ms : Members}

/-! ## §1. Setting one member. -/

theorem set_of_notMem (h : k ∉ ms.map Prod.fst) (v : Json) : set k v ms = ms ++ [(k, v)] := by
  induction ms with
  | nil => rfl
  | cons m ms ih =>
    rw [List.map_cons, List.mem_cons, not_or] at h
    rw [set, if_neg (Ne.symm h.1), ih h.2]
    rfl

theorem set_append {a : Members} (h : k ∉ a.map Prod.fst) (v old : Json) (b : Members) :
    set k v (a ++ (k, old) :: b) = a ++ (k, v) :: b := by
  induction a with
  | nil => rw [List.nil_append, set, if_pos rfl, List.nil_append]
  | cons m a ih =>
    rw [List.map_cons, List.mem_cons, not_or] at h
    rw [List.cons_append, set, if_neg (Ne.symm h.1), ih h.2]
    rfl

/-- A name that occurs has a first place. -/
theorem exists_first (h : k ∈ ms.map Prod.fst) :
    ∃ a old b, ms = a ++ (k, old) :: b ∧ k ∉ a.map Prod.fst := by
  induction ms with
  | nil => cases h
  | cons m ms ih =>
    obtain ⟨name, value⟩ := m
    by_cases hm : name = k
    · rw [hm]
      exact ⟨[], value, ms, rfl, List.not_mem_nil⟩
    · rw [List.map_cons, List.mem_cons] at h
      obtain ⟨a, old, b, rfl, ha⟩ := ih (h.resolve_left (fun he => hm he.symm))
      refine ⟨(name, value) :: a, old, b, rfl, ?_⟩
      rw [List.map_cons, List.mem_cons, not_or]
      exact ⟨fun he => hm he.symm, ha⟩

theorem map_fst_set (k : List CodePoint) (v : Json) (ms : Members) :
    (set k v ms).map Prod.fst
      = if k ∈ ms.map Prod.fst then ms.map Prod.fst else ms.map Prod.fst ++ [k] := by
  by_cases h : k ∈ ms.map Prod.fst
  · obtain ⟨a, old, b, rfl, ha⟩ := exists_first h
    rw [if_pos h, set_append ha]
    simp
  · rw [if_neg h, set_of_notMem h]
    simp

theorem nodup_set (h : (ms.map Prod.fst).Nodup) (k : List CodePoint) (v : Json) :
    ((set k v ms).map Prod.fst).Nodup := by
  rw [map_fst_set]
  by_cases hk : k ∈ ms.map Prod.fst
  · rw [if_pos hk]
    exact h
  · rw [if_neg hk]
    exact List.nodup_append'.2 ⟨h, List.nodup_singleton k, by simpa using hk⟩

/-- Setting a member brings in nothing but this member. -/
theorem mem_of_mem_set {m : List CodePoint × Json} (h : m ∈ set k v ms) :
    m = (k, v) ∨ m ∈ ms := by
  by_cases hk : k ∈ ms.map Prod.fst
  · obtain ⟨a, old, b, rfl, ha⟩ := exists_first hk
    rw [set_append ha, List.mem_append, List.mem_cons] at h
    rw [List.mem_append, List.mem_cons]
    tauto
  · rw [set_of_notMem hk, List.mem_append, List.mem_singleton] at h
    exact h.symm

/-- **Of two settings of one name the later one counts.** -/
theorem set_set (k : List CodePoint) (v w : Json) (ms : Members) :
    set k v (set k w ms) = set k v ms := by
  by_cases h : k ∈ ms.map Prod.fst
  · obtain ⟨a, old, b, rfl, ha⟩ := exists_first h
    rw [set_append ha, set_append ha, set_append ha]
  · rw [set_of_notMem h w, set_append h, set_of_notMem h]

/-- `after` is `before` with the one member of the name `k` set to `v`: in its place if it is
there, behind all others if not. -/
def IsSet (k : List CodePoint) (v : Json) (before after : Members) : Prop :=
  ∃ a b, (∀ m ∈ a ++ b, m.1 ≠ k) ∧ after = a ++ (k, v) :: b
    ∧ ((∃ old, before = a ++ (k, old) :: b) ∨ before = a ∧ b = [])

/-- **Setting a member of an object leaves all others alone, and their order.** -/
theorem isSet_set (h : (ms.map Prod.fst).Nodup) (k : List CodePoint) (v : Json) :
    IsSet k v ms (set k v ms) := by
  by_cases hk : k ∈ ms.map Prod.fst
  · obtain ⟨a, old, b, rfl, ha⟩ := exists_first hk
    rw [List.map_append, List.map_cons] at h
    have hb : k ∉ b.map Prod.fst := (List.nodup_cons.1 (List.nodup_append'.1 h).2.1).1
    refine ⟨a, b, ?_, set_append ha v old b, .inl ⟨old, rfl⟩⟩
    intro m hm he
    rcases List.mem_append.1 hm with hm | hm
    · exact ha (he ▸ List.mem_map_of_mem hm)
    · exact hb (he ▸ List.mem_map_of_mem hm)
  · refine ⟨ms, [], ?_, set_of_notMem hk v, .inr ⟨rfl, rfl⟩⟩
    intro m hm he
    rw [List.append_nil] at hm
    exact hk (he ▸ List.mem_map_of_mem hm)

/-! ## §2. Members as they are written. -/

theorem ofWritten_concat (ms : Members) (k : List CodePoint) (v : Json) :
    ofWritten (ms ++ [(k, v)]) = set k v (ofWritten ms) := by
  unfold ofWritten
  rw [List.foldl_append]
  rfl

theorem nodup_ofWritten (ms : Members) : ((ofWritten ms).map Prod.fst).Nodup := by
  induction ms using List.reverseRecOn with
  | nil => exact List.nodup_nil
  | append_singleton ms m ih =>
    rw [ofWritten_concat]
    exact nodup_set ih _ _

theorem mem_of_mem_ofWritten {m : List CodePoint × Json} (h : m ∈ ofWritten ms) : m ∈ ms := by
  induction ms using List.reverseRecOn with
  | nil => exact h
  | append_singleton ms n ih =>
    rw [ofWritten_concat] at h
    rw [List.mem_append, List.mem_singleton]
    exact (mem_of_mem_set h).symm.imp_left ih

/-- Members with distinct names are kept as they are written. -/
theorem ofWritten_of_nodup (h : (ms.map Prod.fst).Nodup) : ofWritten ms = ms := by
  induction ms using List.reverseRecOn with
  | nil => rfl
  | append_singleton ms m ih =>
    rw [List.map_append, List.map_singleton] at h
    obtain ⟨hms, -, hm⟩ := List.nodup_append'.1 h
    rw [ofWritten_concat, ih hms, set_of_notMem]
    simpa using hm

/-- The last member of the name `k` among those that are written has the value `v`. -/
def IsLast (k : List CodePoint) (v : Json) (ms : Members) : Prop :=
  ∃ before behind, ms = before ++ (k, v) :: behind ∧ ∀ m ∈ behind, m.1 ≠ k

/-- The last member is the one asked for, or has another name. -/
theorem IsLast.of_concat {m : List CodePoint × Json} (h : IsLast k v (ms ++ [m])) :
    m = (k, v) ∨ m.1 ≠ k ∧ IsLast k v ms := by
  obtain ⟨a, b, he, hb⟩ := h
  rcases List.eq_nil_or_concat' b with rfl | ⟨b, m', rfl⟩
  · cases (List.append_inj' he rfl).2
    exact .inl rfl
  · rw [← List.cons_append, ← List.append_assoc] at he
    cases (List.append_inj' he rfl).2
    exact .inr ⟨hb m (by simp), a, b, (List.append_inj' he rfl).1,
      fun n hn => hb n (List.mem_append_left _ hn)⟩

theorem isLast_concat_self : IsLast k v (ms ++ [(k, w)]) ↔ w = v := by
  constructor
  · intro h
    rcases h.of_concat with he | ⟨hne, -⟩
    · cases he
      rfl
    · exact absurd rfl hne
  · intro h
    rw [h]
    exact ⟨ms, [], rfl, by simp⟩

theorem isLast_concat_of_ne {name : List CodePoint} (hne : name ≠ k) :
    IsLast k v (ms ++ [(name, w)]) ↔ IsLast k v ms := by
  constructor
  · intro h
    rcases h.of_concat with he | ⟨-, hlast⟩
    · cases he
      exact absurd rfl hne
    · exact hlast
  · intro h
    obtain ⟨a, b, rfl, hb⟩ := h
    refine ⟨a, b ++ [(name, w)], by simp, ?_⟩
    intro m hm
    rcases List.mem_append.1 hm with hm | hm
    · exact hb m hm
    · rw [List.mem_singleton.1 hm]
      exact hne

/-- **The value of a name is the last one written for it.** -/
theorem get?_ofWritten : (ofWritten ms).get? k = some v ↔ IsLast k v ms := by
  induction ms using List.reverseRecOn with
  | nil =>
    constructor
    · intro h
      cases h
    · intro h
      obtain ⟨a, b, he, -⟩ := h
      cases a <;> cases he
  | append_singleton ms m ih =>
    obtain ⟨name, value⟩ := m
    rw [ofWritten_concat]
    by_cases hk : name = k
    · rw [hk, get?_set_self, isLast_concat_self, Option.some.injEq]
    · rw [get?_set_of_ne (Ne.symm hk), ih, isLast_concat_of_ne hk]

end Members
end Json
end Repin
