/-
  Repin.Proofs.Toml.Path
  ──────────────────────
  **DOCUMENTS COMPARED PATH BY PATH.**

  A path leads through keys and places of arrays into a document, and `at?` is the value
  that it leads to.  What a document says is the `Kind` of the value behind each path: a
  scalar, or a container with what its paths do not tell.

  A document has at most one scalar at each place, so one path at most leads to it
  (`eq_of_at?`).  Hence two documents that are alike but for one place are the same behind
  every path but one:

      kind_at?_of_alike — the scalar behind that path is set, all else is as it was.
-/
import Repin.Proofs.Toml.Following
import Repin.Proofs.Toml.Places
import Repin.Toml.Document

namespace Repin.Toml

/-! ## §1. Paths. -/

/-- One step into a container. -/
inductive Step where
  /-- To the value of a key. -/
  | key (name : Text)
  /-- To an element of an array, or to a table of an array of tables. -/
  | index (i : Nat)
  deriving DecidableEq, Repr

/-- The value that a step leads to. -/
def child? : Step → Toml → Option Toml
  | .key name, .table _ t => Table.get? name t
  | .index i, .array vs => vs[i]?
  | .index i, .tables ts => ts[i]?.map (.table .opened)
  | _, _ => none

/-- The value that a path leads to. -/
def at? : List Step → Toml → Option Toml
  | [], v => some v
  | s :: path, v => (child? s v).bind (at? path)

/-- What a value is, apart from what paths lead to inside it. -/
inductive Kind where
  | scalar (s : Scalar)
  /-- An array of so many elements. -/
  | array (length : Nat)
  | table (origin : Origin)
  /-- An array of so many tables. -/
  | tables (length : Nat)

def kind : Toml → Kind
  | .scalar _ s => .scalar s
  | .array vs => .array vs.length
  | .table o _ => .table o
  | .tables ts => .tables ts.length

/-- The value of a document that a path leads to. -/
def Document.at? (path : List Step) (d : Document) : Option Toml :=
  Toml.at? path (.table .opened d.root)

/-- What a document says behind a path. -/
def Document.kindAt? (path : List Step) (d : Document) : Option Kind := (d.at? path).map kind

/-! ## §2. One path to each place. -/

variable {k : Nat} {v v' c c' : Toml}

theorem countIn_set (k : Nat) {vs : List Toml} {i : Nat} (hi : vs[i]? = some c) (w : Toml) :
    countIn k (vs.set i w) + countAt k c = countIn k vs + countAt k w := by
  induction vs generalizing i with
  | nil => cases hi
  | cons v vs ih =>
    cases i with
    | zero =>
      cases hi
      simp only [List.set_cons_zero, countIn]
      omega
    | succ i =>
      have hrest := ih hi
      simp only [List.set_cons_succ, countIn]
      omega

theorem countThrough_set (k : Nat) {ts : List Table} {i : Nat} {t : Table} (hi : ts[i]? = some t)
    (u : Table) :
    countThrough k (ts.set i u) + countUnder k t = countThrough k ts + countUnder k u := by
  induction ts generalizing i with
  | nil => cases hi
  | cons v vs ih =>
    cases i with
    | zero =>
      cases hi
      simp only [List.set_cons_zero, countThrough]
      omega
    | succ i =>
      have hrest := ih hi
      simp only [List.set_cons_succ, countThrough]
      omega

/-- **A value with one child taken out** has the other children still, and fewer scalars. -/
theorem exists_without {s : Step} (h : v.child? s = some c) :
    ∃ w, countAt k w + countAt k c = countAt k v
      ∧ ∀ s', s' ≠ s → w.child? s' = v.child? s' := by
  cases s with
  | key name =>
    cases v with
    | table o t =>
      refine ⟨.table o (Table.put name (.array []) t), ?_, ?_⟩
      · have hput := Table.countUnder_put k name (.array []) t
        rw [show Table.get? name t = some c from h] at hput
        exact hput
      · intro s' hs
        cases s' with
        | index i => rfl
        | key name' =>
          show Table.get? name' (Table.put name (.array []) t) = Table.get? name' t
          rw [Table.get?_put, if_neg (fun he => hs (congrArg Step.key he))]
    | _ => cases h
  | index i =>
    cases v with
    | array vs =>
      refine ⟨.array (vs.set i (.array [])), countIn_set k h (.array []), ?_⟩
      intro s' hs
      cases s' with
      | key name => rfl
      | index j => exact List.getElem?_set_ne (fun he => hs (congrArg Step.index he.symm))
    | tables ts =>
      obtain ⟨t, ht, rfl⟩ := Option.map_eq_some_iff.1 h
      refine ⟨.tables (ts.set i []), countThrough_set k ht [], ?_⟩
      intro s' hs
      cases s' with
      | key name => rfl
      | index j =>
        show (ts.set i [])[j]?.map _ = _
        rw [List.getElem?_set_ne (fun he => hs (congrArg Step.index he.symm))]
        rfl
    | _ => cases h

theorem countAt_child?_le {s : Step} (h : v.child? s = some c) : countAt k c ≤ countAt k v := by
  obtain ⟨w, hw, -⟩ := exists_without (k := k) h
  omega

/-- Scalars with a place are among those that are counted. -/
theorem countAt_of_at? {path : List Step} {x : Scalar} (h : v.at? path = some (.scalar k x)) :
    1 ≤ countAt k v := by
  induction path generalizing v with
  | nil =>
    cases h
    simp [countAt]
  | cons s path ih =>
    obtain ⟨c, hc, h⟩ := Option.bind_eq_some_iff.1 h
    exact Nat.le_trans (ih h) (countAt_child?_le hc)

/-- **Two paths to one place are the same**, where the place is there only once. -/
theorem eq_of_at? {path path' : List Step} {x x' : Scalar} (hone : countAt k v ≤ 1)
    (h : v.at? path = some (.scalar k x)) (h' : v.at? path' = some (.scalar k x')) :
    path = path' := by
  induction path generalizing v path' with
  | nil =>
    cases h
    cases path' with
    | nil => rfl
    | cons s path' =>
      obtain ⟨c, hc, -⟩ := Option.bind_eq_some_iff.1 h'
      cases s <;> cases hc
  | cons s path ih =>
    obtain ⟨c, hc, hp⟩ := Option.bind_eq_some_iff.1 h
    cases path' with
    | nil =>
      cases h'
      cases s <;> cases hc
    | cons s' path' =>
      obtain ⟨c', hc', hp'⟩ := Option.bind_eq_some_iff.1 h'
      by_cases hs : s' = s
      · subst hs
        rw [hc] at hc'
        cases hc'
        rw [ih (Nat.le_trans (countAt_child?_le hc) hone) hp hp']
      · -- Without the first child the other one is still there.
        obtain ⟨w, hw, hsame⟩ := exists_without (k := k) hc
        rw [← hsame s' hs] at hc'
        have hfirst := countAt_of_at? hp
        have hsecond := Nat.le_trans (countAt_of_at? hp') (countAt_child?_le hc')
        omega

/-! ## §3. Documents that are alike. -/

variable {x : Scalar}

/-- Values that are alike have alike children. -/
theorem rel_child? (h : v.Alike False k x v') (s : Step) :
    Option.Rel (Alike False k x) (v.child? s) (v'.child? s) := by
  cases h with
  | scalar => cases s <;> exact .none
  | @table o t t' ht =>
    cases s with
    | key name => exact ht name False.elim
    | index i => exact .none
  | @array vs vs' hvs =>
    cases s with
    | key name => exact .none
    | index i =>
      show Option.Rel _ vs[i]? vs'[i]?
      induction hvs generalizing i with
      | nil => exact .none
      | cons hv _ ih =>
        cases i with
        | zero => exact .some hv
        | succ i => exact ih i
  | @tables ts ts' hts =>
    cases s with
    | key name => exact .none
    | index i =>
      show Option.Rel _ (ts[i]?.map _) (ts'[i]?.map _)
      induction hts generalizing i with
      | nil => exact .none
      | cons ht _ ih =>
        cases i with
        | zero => exact .some (.table ht)
        | succ i => exact ih i

/-- Values that are alike have alike values behind every path. -/
theorem rel_at? (h : v.Alike False k x v') (path : List Step) :
    Option.Rel (Alike False k x) (v.at? path) (v'.at? path) := by
  induction path generalizing v v' with
  | nil => exact .some h
  | cons s path ih =>
    show Option.Rel _ ((v.child? s).bind _) ((v'.child? s).bind _)
    have hc := rel_child? h s
    generalize v.child? s = o at hc
    generalize v'.child? s = o' at hc
    cases hc with
    | none => exact .none
    | some hc => exact ih hc

/-- **Documents that are alike but for one place are the same behind every path but one.** -/
theorem kind_at?_of_alike {target : List Step} {y : Scalar} (h : v.Alike False k x v')
    (hone : countAt k v ≤ 1) (ht : v.at? target = some (.scalar k y)) (path : List Step) :
    (v'.at? path).map kind
      = if path = target then some (.scalar x) else (v.at? path).map kind := by
  have hrel := rel_at? h path
  split
  · next hp =>
    rw [hp, ht] at hrel
    obtain ⟨w, hw, ha⟩ := exists_of_rel hrel
    rw [hp, hw]
    cases ha with
    | scalar hx => rw [hx rfl]; rfl
  · next hp =>
    cases hv : v.at? path with
    | none =>
      rw [hv] at hrel
      generalize v'.at? path = o at hrel
      cases hrel
      rfl
    | some w =>
      rw [hv] at hrel
      obtain ⟨w', hw, ha⟩ := exists_of_rel hrel
      rw [hw]
      cases ha with
      | @scalar p s s' _ hs =>
        -- Another path leads to another place.
        have hne : p ≠ k := by
          rintro rfl
          exact hp (eq_of_at? hone hv ht)
        rw [hs hne id]
      | array hvs => exact congrArg (fun n => some (Kind.array n)) hvs.length_eq.symm
      | table => rfl
      | tables hts => exact congrArg (fun n => some (Kind.tables n)) hts.length_eq.symm

end Repin.Toml
