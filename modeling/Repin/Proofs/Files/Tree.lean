/-
  Repin.Proofs.Files.Tree
  ───────────────────────
  **WRITING TO A FILE THAT IS THERE.**

  `Holds here p l b t` says that the path `p` leads to the location `l` and that a
  file with the content `b` stands there.  A file that can be read can be written,
  and the write changes nothing on the way to it, so it can be read again:

    • `read_eq_ok_iff` — a file can be read exactly when the path holds one,
    • `Holds.write` — writing puts the new content at the location,
    • `Holds.put` — the path then holds the new content.
-/
import Repin.Files.Tree

namespace Repin
namespace Tree

/-- The path `p` leads to the location `l`, and a file with the content `b` stands there. -/
structure Holds (here : Location) (p : Path) (l : Location) (b : Bytes) (t : Tree) : Prop where
  locate : t.locate here p = .ok l
  content : t.get? l = some (.file b)

variable {here l m : Location} {p : Path} {a b : Bytes} {t : Tree}

/-! ## §1. Reading. -/

theorem Holds.read (h : t.Holds here p l b) : t.read here p = .ok b := by
  simp only [Tree.read, h.locate, h.content]

/-- A file can be read exactly when its path leads to one. -/
theorem read_eq_ok_iff : t.read here p = .ok b ↔ ∃ l, t.Holds here p l b := by
  constructor
  · intro h
    unfold Tree.read at h
    split at h
    · cases h
    · next l hl =>
      split at h
      · next content hc =>
        cases h
        exact ⟨l, hl, hc⟩
      · cases h
      · cases h
  · rintro ⟨l, h⟩
    exact h.read

theorem isFile_iff : t.isFile here p = true ↔ ∃ b, t.read here p = .ok b := by
  unfold isFile node? read
  cases t.locate here p with
  | error e => simp
  | ok l =>
    cases hn : t.get? l with
    | none => simp [hn]
    | some n => cases n <;> simp [hn]

theorem Holds.ne_root (h : t.Holds here p l b) : l ≠ [] := by
  rintro rfl
  have hc := h.content
  unfold Tree.get? at hc
  rw [if_pos rfl] at hc
  cases hc

/-! ## §2. Writing. -/

/-- A file can be written wherever no directory is. -/
theorem write_eq (h : t.locate here p = .ok l) : t.write here p b
    = if t.get? l = some .directory then .error .isDirectory else .ok (t.put l (.file b)) := by
  simp only [Tree.write, h]
  cases t.get? l with
  | none => simp
  | some n => cases n <;> simp

theorem Holds.write (h : t.Holds here p l a) (b : Bytes) :
    t.write here p b = .ok (t.put l (.file b)) := by
  simp only [Tree.write, h.locate, h.content]

/-- A file with another content stands in the way exactly as it did before. -/
theorem walk_put_file (h : t.get? l = some (.file a)) (hl : l ≠ []) (b : Bytes) :
    ∀ (ps : List Text) (m : Location), walk (t.put l (.file b)) m ps = walk t m ps := by
  intro ps
  induction ps with
  | nil => intro m; rfl
  | cons p ps ih =>
    intro m
    unfold walk
    by_cases hm : m = l
    · rw [hm, get?_put_self hl, h]
    · rw [get?_put_of_ne hm]
      split
      · exact ih _
      · rfl
      · rfl

theorem Holds.put (h : t.Holds here p l a) (b : Bytes) :
    (t.put l (.file b)).Holds here p l b where
  locate := by
    have hl := h.locate
    unfold Tree.locate at hl ⊢
    rw [walk_put_file h.content h.ne_root]
    exact hl
  content := get?_put_self h.ne_root _ _

/-- Of two nodes put at one location, the later one stays. -/
theorem put_put (n k : Node) : (t.put l n).put l k = t.put l k := by
  obtain ⟨es⟩ := t
  unfold Tree.put
  congr 1
  induction es with
  | nil => simp [putIn]
  | cons e es ih =>
    by_cases he : e.1 = l
    · simp [putIn, he]
    · simp [putIn, he, ih]

end Tree
end Repin
