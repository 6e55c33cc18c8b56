/-
  Repin.Proofs.Files.Directories
  ──────────────────────────────
  **MAKING DIRECTORIES.**

  Making a directory adds directories and takes nothing away, whether it succeeds or not;
  if it succeeds, the directory is there (`of_ensured`).

  A way along a path goes through directories only.  So it leads to the same place in every
  tree that has the same directories and more (`locate_of_directories`), as it does when a
  file has been written (`directories_put`).
-/
import Repin.Proofs.Files.Tree

namespace Repin
namespace Tree

variable {here l m : Location} {p q : Path} {a b : Bytes} {t u v : Tree}

/-! ## §1. Ways. -/

/-- Every directory of `t` is one of `u`. -/
def Directories (t u : Tree) : Prop := ∀ l, t.get? l = some .directory → u.get? l = some .directory

theorem walk_of_directories (h : Directories t u) {ps : List Text} (hw : walk t l ps = .ok m) :
    walk u l ps = .ok m := by
  induction ps generalizing l with
  | nil => exact hw
  | cons p ps ih =>
    unfold walk at hw ⊢
    split at hw
    · next hl =>
      rw [h l hl]
      exact ih hw
    · cases hw
    · cases hw

/-- **A way leads to the same place where there are more directories.** -/
theorem locate_of_directories (h : Directories t u) (hl : t.locate here p = .ok l) :
    u.locate here p = .ok l := by
  unfold locate at hl ⊢
  split at hl
  · next hp =>
    rw [if_pos hp]
    exact walk_of_directories h hl
  · cases hl

theorem walk_append (t : Tree) (l : Location) (ps qs : List Text) :
    walk t l (ps ++ qs) = (walk t l ps).bind (fun m => walk t m qs) := by
  induction ps generalizing l with
  | nil => rfl
  | cons p ps ih =>
    rw [List.cons_append, walk, walk]
    cases t.get? l with
    | none => rfl
    | some n =>
      cases n with
      | file b => rfl
      | directory => exact ih _

/-- A name that leads into a directory. -/
structure IsName (s : Text) : Prop where
  part : Path.ofText s = ⟨0, [s]⟩
  not_up : s ≠ ['.', '.']
  usable : s.contains '\x00' = false

theorem IsName.sub_eq {s : Text} (h : IsName s) (p : Path) : p.sub s = ⟨p.anchor, p.parts ++ [s]⟩ := by
  unfold Path.sub Path.join
  rw [h.part]
  rfl

/-- **A file or directory inside a directory is behind its name.** -/
theorem locate_sub_eq_ok_iff {s : Text} (h : IsName s) :
    t.locate here (p.sub s) = .ok m
      ↔ ∃ l, t.locate here p = .ok l ∧ t.get? l = some .directory ∧ m = l ++ [s] := by
  have husable : (p.sub s).isUsable = p.isUsable := by
    rw [h.sub_eq]
    unfold Path.isUsable
    rw [List.all_append, List.all_cons, List.all_nil, h.usable]
    simp
  have hstep : ∀ l, walk t l [s] = .ok m ↔ t.get? l = some .directory ∧ m = l ++ [s] := by
    intro l
    unfold walk
    cases hn : t.get? l with
    | none => simp
    | some n =>
      cases n with
      | file b => simp
      | directory =>
        rw [if_neg h.not_up]
        show Except.ok (l ++ [s]) = Except.ok m ↔ _
        rw [Except.ok.injEq]
        exact ⟨fun he => ⟨rfl, he.symm⟩, fun he => he.2.symm⟩
  unfold locate
  rw [husable]
  by_cases hp : p.isUsable = true
  · rw [if_pos hp, if_pos hp, h.sub_eq, walk_append]
    cases walk t (if p.anchor = 0 then here else []) p.parts with
    | error e => simp [Except.bind]
    | ok l =>
      show walk t l [s] = .ok m ↔ _
      rw [hstep l]
      simp
  · rw [if_neg hp, if_neg hp]
    simp

/-! ## §2. Growing. -/

/-- The tree `u` is `t` with more directories. -/
structure Grows (t u : Tree) : Prop where
  kept : ∀ l n, t.get? l = some n → u.get? l = some n
  made : ∀ l n, t.get? l = none → u.get? l = some n → n = .directory

theorem Grows.refl (t : Tree) : Grows t t where
  kept _ _ h := h
  made l n h h' := by
    rw [h] at h'
    cases h'

theorem Grows.trans (h : Grows t u) (h' : Grows u v) : Grows t v where
  kept l n hl := h'.kept l n (h.kept l n hl)
  made l n hl hn := by
    cases hu : u.get? l with
    | none => exact h'.made l n hu hn
    | some k =>
      obtain rfl : k = n := Option.some.inj ((h'.kept l k hu).symm.trans hn)
      exact h.made l k hl hu

theorem Grows.directories (h : Grows t u) : Directories t u := fun l => h.kept l .directory

/-- The files are the same. -/
theorem Grows.file_iff (h : Grows t u) (l : Location) (b : Bytes) :
    u.get? l = some (.file b) ↔ t.get? l = some (.file b) := by
  constructor
  · intro hu
    cases ht : t.get? l with
    | none => cases h.made l _ ht hu
    | some n =>
      rw [← hu]
      exact (h.kept l n ht).symm
  · exact h.kept l _

theorem Grows.holds (h : Grows t u) (ht : t.Holds here p l b) : u.Holds here p l b where
  locate := locate_of_directories h.directories ht.locate
  content := h.kept l _ ht.content

theorem isDirectory_iff :
    t.isDirectory here p = true ↔ ∃ l, t.locate here p = .ok l ∧ t.get? l = some .directory := by
  unfold isDirectory node?
  cases t.locate here p with
  | error e => simp
  | ok l =>
    cases hn : t.get? l with
    | none => simp [hn]
    | some n => cases n <;> simp [hn]

theorem grows_put_directory (h : t.get? l = none) : Grows t (t.put l .directory) where
  kept m n hm := by
    have hne : m ≠ l := by
      rintro rfl
      rw [h] at hm
      cases hm
    rw [get?_put_of_ne hne]
    exact hm
  made m n hm hn := by
    by_cases hne : m = l
    · subst hne
      have hroot : m ≠ [] := by
        rintro rfl
        cases h
      rw [get?_put_self hroot] at hn
      exact (Option.some.inj hn).symm
    · rw [get?_put_of_ne hne, hm] at hn
      cases hn

theorem of_makeDirectory (h : t.makeDirectory here p = .ok u) :
    Grows t u ∧ u.isDirectory here p = true := by
  unfold makeDirectory at h
  split at h
  · cases h
  · next l hl =>
    split at h
    · cases h
    · next hn =>
      cases h
      have hgrows := grows_put_directory hn
      have hroot : l ≠ [] := by
        rintro rfl
        cases hn
      exact ⟨hgrows, isDirectory_iff.2
        ⟨l, locate_of_directories hgrows.directories hl, get?_put_self hroot _ _⟩⟩

theorem of_settled {r : Option (Path × FileError)} (h : t.settled here p = (u, r)) :
    Grows t u ∧ (r = none → u.isDirectory here p = true) := by
  unfold settled at h
  split at h
  · next hm =>
    cases h
    exact ⟨(of_makeDirectory hm).1, fun _ => (of_makeDirectory hm).2⟩
  · split at h
    · next he =>
      cases h
      exact ⟨.refl _, fun _ => he.2⟩
    · cases h
      exact ⟨.refl _, nofun⟩

/-- **Making a directory only adds directories**, and afterwards it is there. -/
theorem of_ensured {r : Option (Path × FileError)} (h : t.ensured here p = (u, r)) :
    Grows t u ∧ (r = none → u.isDirectory here p = true) := by
  fun_induction ensured here p t generalizing u r with
  | case1 p v hm =>
    cases h
    exact ⟨(of_makeDirectory hm).1, fun _ => (of_makeDirectory hm).2⟩
  | case2 p hm hp =>
    cases h
    exact ⟨.refl _, nofun⟩
  | case3 p hm hp v hv ih =>
    -- The directory around it is there now.
    obtain ⟨hgrows, hdirectory⟩ := of_settled h
    exact ⟨(ih hv).1.trans hgrows, hdirectory⟩
  | case4 p hm hp hv ih =>
    refine ⟨(ih h).1, ?_⟩
    rintro rfl
    exact absurd h (hv u)
  | case5 p e hm he hd =>
    cases h
    exact ⟨.refl _, fun _ => hd⟩
  | case6 p e hm he hd =>
    cases h
    exact ⟨.refl _, nofun⟩

/-! ## §3. Writing. -/

/-- Writing a file leaves the directories as they are. -/
theorem directories_put (h : t.get? l ≠ some .directory) (b : Bytes) :
    Directories t (t.put l (.file b)) := by
  intro m hm
  have hne : m ≠ l := by
    rintro rfl
    exact h hm
  rw [get?_put_of_ne hne]
  exact hm

/-- What is written is where it was written. -/
theorem holds_put (hl : t.locate here p = .ok l) (h : t.get? l ≠ some .directory) (b : Bytes) :
    (t.put l (.file b)).Holds here p l b where
  locate := locate_of_directories (directories_put h b) hl
  content := by
    have hroot : l ≠ [] := by
      rintro rfl
      exact h rfl
    exact get?_put_self hroot _ _

/-- Another file is read as before. -/
theorem read_put (hm : t.locate here p = .ok m) (h : t.get? l ≠ some .directory) (hne : m ≠ l)
    (b : Bytes) : (t.put l (.file b)).read here p = t.read here p := by
  simp only [read, hm, locate_of_directories (directories_put h b) hm, get?_put_of_ne hne]

end Tree
end Repin
