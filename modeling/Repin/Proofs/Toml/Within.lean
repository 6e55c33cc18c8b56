/-
  Repin.Proofs.Toml.Within
  ────────────────────────
  **THE SCALARS OF A TABLE ARE THOSE OF ITS STATEMENTS.**

  `v.Within q` says that all scalars of a value, with their places, satisfy `q`.  The
  operations that build a table bring in no scalars but those they are given:

      every value assigned is within q  →  the table built is within q .

  An operation changes the value of one key, so everything rests on `Table.alter?_eq`,
  which says what that does to the entries.
-/
import Repin.Toml.Basic

namespace Repin.Toml

/-- All scalars of a value satisfy `q`, each with its place. -/
inductive Within (q : Nat → Scalar → Prop) : Toml → Prop
  | scalar {place : Nat} {s : Scalar} : q place s → Within q (.scalar place s)
  | array {vs : List Toml} : (∀ v ∈ vs, Within q v) → Within q (.array vs)
  | table {o : Origin} {t : Table} : (∀ e ∈ t, Within q e.2) → Within q (.table o t)
  | tables {ts : List Table} : (∀ t ∈ ts, ∀ e ∈ t, Within q e.2) → Within q (.tables ts)

theorem Within.mono {q q' : Nat → Scalar → Prop} (hq : ∀ p s, q p s → q' p s) {v : Toml}
    (h : v.Within q) : v.Within q' := by
  induction h with
  | scalar h => exact .scalar (hq _ _ h)
  | array _ ih => exact .array ih
  | table _ ih => exact .table ih
  | tables _ ih => exact .tables ih

/-- All scalars of the value that a statement assigns satisfy `q`. -/
def Statement.Within (q : Nat → Scalar → Prop) : Statement → Prop
  | .assignment _ v => v.Within q
  | _ => True

namespace Table

variable {q : Nat → Scalar → Prop} {t u : Table} {key : Text} {v : Toml}

/-! ## §1. One key. -/

/-- The table with the value of a key set; a new key comes last. -/
def put (key : Text) (v : Toml) : Table → Table
  | [] => [(key, v)]
  | e :: t => if e.1 = key then (key, v) :: t else e :: put key v t

@[simp] theorem get?_nil (key : Text) : get? key [] = none := rfl

theorem get?_cons (key : Text) (e : Text × Toml) (t : Table) :
    get? key (e :: t) = if e.1 = key then some e.2 else get? key t := by
  unfold get?
  rw [List.find?_cons]
  by_cases h : e.1 = key
  · rw [if_pos h, decide_eq_true h]
    rfl
  · rw [if_neg h, decide_eq_false h]

theorem get?_put (n key : Text) (v : Toml) (t : Table) :
    get? n (put key v t) = if n = key then some v else get? n t := by
  induction t with
  | nil =>
    rw [put, get?_cons, get?_nil]
    simp only [eq_comm]
  | cons e t ih =>
    rw [put]
    by_cases he : e.1 = key
    · rw [if_pos he, get?_cons, get?_cons, he]
      by_cases hn : n = key
      · rw [if_pos hn.symm, if_pos hn]
      · rw [if_neg (Ne.symm hn), if_neg hn, if_neg (Ne.symm hn)]
    · rw [if_neg he, get?_cons, get?_cons, ih]
      by_cases hn : n = key
      · subst hn
        simp only [if_neg he, if_true]
      · simp only [if_neg hn]

/-- **Changing the value of a key is reading it and setting it.** -/
theorem alter?_eq (key : Text) (f : Option Toml → Option Toml) (t : Table) :
    t.alter? key f = (f (t.get? key)).map (fun v => t.put key v) := by
  induction t with
  | nil => rfl
  | cons e t ih =>
    rw [alter?, get?_cons, ih]
    by_cases he : e.1 = key
    · rw [if_pos he, if_pos he]
      simp only [put, if_pos he]
    · rw [if_neg he, if_neg he, Option.map_map]
      simp only [put, if_neg he]
      rfl

theorem mem_put {e : Text × Toml} (h : e ∈ put key v t) : e = (key, v) ∨ e ∈ t := by
  induction t with
  | nil => exact .inl (List.mem_singleton.1 h)
  | cons d t ih =>
    rw [put] at h
    split at h
    · rcases List.mem_cons.1 h with h | h
      · exact .inl h
      · exact .inr (List.mem_cons_of_mem d h)
    · rcases List.mem_cons.1 h with rfl | h
      · exact .inr List.mem_cons_self
      · rcases ih h with h | h
        · exact .inl h
        · exact .inr (List.mem_cons_of_mem d h)

/-- All scalars of a table satisfy `q`. -/
def Within (q : Nat → Scalar → Prop) (t : Table) : Prop := ∀ e ∈ t, e.2.Within q

theorem within_nil : Within q [] := by
  intro e he
  cases he

theorem Within.get? (h : Within q t) (hv : get? key t = some v) : v.Within q := by
  obtain ⟨e, he, rfl⟩ := Option.map_eq_some_iff.1 hv
  exact h e (List.mem_of_find?_eq_some he)

theorem Within.alter? {f : Option Toml → Option Toml} (ht : Within q t)
    (hf : ∀ o w, (∀ x, o = some x → x.Within q) → f o = some w → w.Within q)
    (h : t.alter? key f = some u) : Within q u := by
  rw [alter?_eq] at h
  obtain ⟨w, hw, rfl⟩ := Option.map_eq_some_iff.1 h
  intro e he
  rcases mem_put he with rfl | he
  · exact hf _ w (fun x hx => ht.get? hx) hw
  · exact ht e he

/-! ## §2. Assignments and headers. -/

theorem Within.assign? {path : KeyPath} (hv : v.Within q) (ht : Within q t)
    (h : assign? v path t = some u) : Within q u := by
  induction path generalizing t u with
  | nil => cases h
  | cons key path ih =>
    cases path with
    | nil =>
      refine ht.alter? (fun o w _ hw => ?_) h
      cases o with
      | none => cases hw; exact hv
      | some x => cases hw
    | cons key' path =>
      refine ht.alter? (fun o w ho hw => ?_) h
      split at hw
      · obtain ⟨s, hs, rfl⟩ := Option.map_eq_some_iff.1 hw
        exact .table (ih within_nil hs)
      · next sub =>
        obtain ⟨s, hs, rfl⟩ := Option.map_eq_some_iff.1 hw
        cases ho _ rfl with
        | table hsub => exact .table (ih hsub hs)
      · cases hw

theorem Within.assignAll? {items : List (KeyPath × Toml)} (hi : ∀ i ∈ items, i.2.Within q)
    (ht : Within q t) (h : assignAll? items t = some u) : Within q u := by
  induction items generalizing t with
  | nil => cases h; exact ht
  | cons i items ih =>
    obtain ⟨s, hs, h⟩ := Option.bind_eq_some_iff.1 h
    exact ih (fun j hj => hi j (List.mem_cons_of_mem i hj))
      (Within.assign? (hi i List.mem_cons_self) ht hs) h

theorem within_tables_concat {ts : List Table} (hts : ∀ t ∈ ts, Within q t) (hu : Within q u) :
    (Toml.tables (ts ++ [u])).Within q := by
  refine .tables (fun t ht => ?_)
  rcases List.mem_append.1 ht with ht | ht
  · exact hts t ht
  · obtain rfl := List.mem_singleton.1 ht
    exact hu

theorem Within.alterAt? {f : Option Toml → Option Toml} {path : KeyPath}
    (hf : ∀ o w, (∀ x, o = some x → x.Within q) → f o = some w → w.Within q) (ht : Within q t)
    (h : alterAt? f path t = some u) : Within q u := by
  induction path generalizing t u with
  | nil => cases h
  | cons key path ih =>
    cases path with
    | nil => exact ht.alter? hf h
    | cons key' path =>
      refine ht.alter? (fun o w ho hw => ?_) h
      split at hw
      · obtain ⟨s, hs, rfl⟩ := Option.map_eq_some_iff.1 hw
        exact .table (ih within_nil hs)
      · cases hw
      · obtain ⟨s, hs, rfl⟩ := Option.map_eq_some_iff.1 hw
        cases ho _ rfl with
        | table hsub => exact .table (ih hsub hs)
      · next ts =>
        split at hw
        · next sub hsub =>
          obtain ⟨s, hs, rfl⟩ := Option.map_eq_some_iff.1 hw
          cases ho _ rfl with
          | tables hts =>
            -- Only the last table of the array changes.
            exact within_tables_concat (fun t' ht' => hts t' (List.dropLast_subset _ ht'))
              (ih (hts sub (List.mem_of_getLast? hsub)) hs)
        · cases hw
      · cases hw

variable {items : List (KeyPath × Toml)}

theorem within_opened? (hi : ∀ i ∈ items, i.2.Within q) (o : Option Toml) (w : Toml)
    (ho : ∀ x, o = some x → x.Within q) (h : opened? items o = some w) : w.Within q := by
  unfold opened? at h
  split at h
  · obtain ⟨s, hs, rfl⟩ := Option.map_eq_some_iff.1 h
    exact .table (within_nil.assignAll? hi hs)
  · obtain ⟨s, hs, rfl⟩ := Option.map_eq_some_iff.1 h
    cases ho _ rfl with
    | table hsub => exact .table (Within.assignAll? hi hsub hs)
  · cases h

theorem within_extended? (hi : ∀ i ∈ items, i.2.Within q) (o : Option Toml) (w : Toml)
    (ho : ∀ x, o = some x → x.Within q) (h : extended? items o = some w) : w.Within q := by
  unfold extended? at h
  split at h
  · obtain ⟨s, hs, rfl⟩ := Option.map_eq_some_iff.1 h
    have hnone : ∀ t ∈ ([] : List Table), Within q t := nofun
    exact within_tables_concat hnone (within_nil.assignAll? hi hs)
  · obtain ⟨s, hs, rfl⟩ := Option.map_eq_some_iff.1 h
    cases ho _ rfl with
    | tables hts => exact within_tables_concat hts (within_nil.assignAll? hi hs)
  · cases h

/-! ## §3. Documents. -/

theorem within_sectionOf {ss : List Statement} (h : ∀ s ∈ ss, s.Within q) :
    (∀ i ∈ (sectionOf ss).1, i.2.Within q) ∧ ∀ s ∈ (sectionOf ss).2, s.Within q := by
  induction ss with
  | nil => exact ⟨fun i hi => absurd hi List.not_mem_nil, h⟩
  | cons s ss ih =>
    cases s with
    | assignment path v =>
      obtain ⟨hi, hs⟩ := ih (fun s hs => h s (List.mem_cons_of_mem _ hs))
      refine ⟨fun i hm => ?_, hs⟩
      rcases List.mem_cons.1 hm with rfl | hm
      · exact h _ List.mem_cons_self
      · exact hi i hm
    | header path => exact ⟨fun i hi => absurd hi List.not_mem_nil, h⟩
    | doubledHeader path => exact ⟨fun i hi => absurd hi List.not_mem_nil, h⟩

theorem Within.sections? {ss : List Statement} (hs : ∀ s ∈ ss, s.Within q) (ht : Within q t)
    (h : sections? ss t = some u) : Within q u := by
  induction ss generalizing t with
  | nil => cases h; exact ht
  | cons s ss ih =>
    have hss := fun s' hs' => hs s' (List.mem_cons_of_mem s hs')
    cases s with
    | assignment path v => exact ih hss ht h
    | header path =>
      obtain ⟨w, hw, h⟩ := Option.bind_eq_some_iff.1 h
      exact ih hss (ht.alterAt? (within_opened? (within_sectionOf hss).1) hw) h
    | doubledHeader path =>
      obtain ⟨w, hw, h⟩ := Option.bind_eq_some_iff.1 h
      exact ih hss (ht.alterAt? (within_extended? (within_sectionOf hss).1) hw) h

/-- **All scalars of a document are those of its assignments.** -/
theorem within_ofStatements? {ss : List Statement} (hs : ∀ s ∈ ss, s.Within q)
    (h : ofStatements? ss = some u) : Within q u := by
  obtain ⟨t, ht, h⟩ := Option.bind_eq_some_iff.1 h
  obtain ⟨hi, hr⟩ := within_sectionOf hs
  exact Within.sections? hr (within_nil.assignAll? hi ht) h

end Table
end Repin.Toml
