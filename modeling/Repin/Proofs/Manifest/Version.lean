/-
  Repin.Proofs.Manifest.Version
  ─────────────────────────────
  **THE VERSION THAT A MANIFEST DECLARES AFTER AN UPDATE.**

  A bump sets one token of the manifest, so the text that it writes is a document again,
  with the new version and no other change (`exists_of_bumped`, `declaredVersion_bumped`).

  The pin is moved afterwards by a replacement that knows nothing of documents.  It
  exchanges versions for versions everywhere in the text, in other keys and values too,
  and these may fall together so that no document is left.  But what is left of the text,
  if it is a document, still declares the new version, unless an occurrence of the old
  tag ends in the version itself (`declaredVersion_replaced`).
-/
import Repin.Proofs.Manifest.Writing
import Repin.Proofs.Toml.Setting

namespace Repin.Manifest

open Toml (Table Alike Seen watched Scalar)

/-! ## §1. Documents that are alike declare the same. -/

theorem rel_findSome? {α β : Type} {R : β → β → Prop} {f f' : α → Option β} {as : List α}
    (h : ∀ a ∈ as, Option.Rel R (f a) (f' a)) :
    Option.Rel R (as.findSome? f) (as.findSome? f') := by
  induction as with
  | nil => exact .none
  | cons a as ih =>
    rw [List.findSome?_cons, List.findSome?_cons]
    have ha := h a List.mem_cons_self
    generalize f a = o at ha
    generalize f' a = o' at ha
    cases ha with
    | some hab => exact .some hab
    | none => exact ih (fun b hb => h b (List.mem_cons_of_mem a hb))

variable {P : Prop} {k : Nat} {x y : Scalar} {root root' : Table}

theorem rel_declared? (h : root.Alike P k x root') :
    Option.Rel (Alike P k x) (declared? root) (declared? root') := by
  have seen : ∀ n ∈ watched, Seen P n := fun n hn _ => hn
  refine rel_findSome? (fun name hname => ?_)
  have hn : name ∈ watched := by
    unfold versionTables at hname
    unfold watched
    rcases List.mem_cons.1 hname with h | h
    · rw [h]
      exact List.mem_cons_self
    · rw [List.mem_singleton.1 h]
      exact List.mem_cons_of_mem _ List.mem_cons_self
  have hget := h name (seen name hn)
  generalize root.get? name = o at hget
  generalize root'.get? name = o' at hget
  cases hget with
  | none => exact .none
  | some hv =>
    cases hv with
    | scalar => exact .none
    | array => exact .none
    | tables => exact .none
    | table ht => exact ht _ (seen _ (by unfold watched; simp))

/-- A scalar that is set is the one that is declared. -/
theorem declared?_of_alike (h : root.Alike P k x root') (hd : declared? root = some (.scalar k y)) :
    declared? root' = some (.scalar k x) := by
  have hr := rel_declared? h
  rw [hd] at hr
  obtain ⟨v, hv, ha⟩ := Toml.exists_of_rel hr
  cases ha with
  | scalar hx => rw [hv, hx rfl]

/-- What is declared is a scalar if one is set and declared. -/
theorem exists_scalar_of_alike {z : Scalar} {v : Toml} (h : root.Alike P k x root')
    (hv : declared? root = some v) (hd : declared? root' = some (.scalar k z)) :
    ∃ y, v = .scalar k y := by
  have hr := rel_declared? h
  rw [hv, hd] at hr
  cases hr with
  | some ha =>
    cases ha with
    | scalar => exact ⟨_, rfl⟩

/-- What is declared is a value of the document. -/
theorem within_declared? {q : Nat → Scalar → Prop} {v : Toml} (h : root.Within q)
    (hd : declared? root = some v) : v.Within q := by
  obtain ⟨name, -, hn⟩ := List.exists_of_findSome?_eq_some hd
  obtain ⟨w, hw, hv⟩ := Option.bind_eq_some_iff.1 hn
  have hwq := Table.Within.get? h hw
  cases hwq with
  | table ht => exact Table.Within.get? ht hv
  | _ => cases hv

/-- A scalar that is declared is read from the token at its place. -/
theorem readIn_declared? {s : Text} {d : Toml.Document} (hd : Toml.Document.read? s = some d)
    (h : declared? d.root = some (.scalar k x)) : Toml.ReadIn d.tokens.zipIdx [] k x := by
  have hw := within_declared? (Toml.within_table? (Toml.Document.read?_eq_some.1 hd).2) h
  cases hw with
  | scalar hx => exact hx

/-! ## §2. A bumped manifest. -/

/-- The text before and behind the declared version, if one token spells it. -/
def around? (s : Text) : Option (Text × Text) :=
  (Toml.Document.read? s).bind (fun d =>
    match declared? d.root with
    | some (.scalar place _) =>
      some (Toml.spelled (d.tokens.take place), Toml.spelled (d.tokens.drop (place + 1)))
    | _ => none)

/-- **A bump sets the declared version**, and the manifest is a document again. -/
theorem exists_of_bumped {bump : Bump} {s t : Text} {change : VersionChange}
    (h : bumped bump s = .ok (change, t)) :
    ∃ d as old bs root, Toml.Document.read? s = some d ∧ d.tokens = as ++ old :: bs
      ∧ around? s = some (Toml.spelled as, Toml.spelled bs)
      ∧ t = Toml.spelled (as ++ .string .basic change.new :: bs)
      ∧ Toml.Document.read? t = some ⟨as ++ .string .basic change.new :: bs, root⟩
      ∧ d.root.Alike False as.length (.string change.new) root
      ∧ declared? root = some (.scalar as.length (.string change.new)) := by
  obtain ⟨d, v, hd, hv, hn, -, rfl⟩ := bumped_eq_ok h
  have hnew := Bump.isVersion_of_nextText hn
  -- The old version was read leniently, so one token spells it.
  obtain ⟨p, x, rfl, hm⟩ : ∃ p x, v = .scalar p x ∧ ∀ m, x ≠ .moment m := by
    obtain ⟨w, hl, -⟩ := Bump.exists_of_nextText hn
    exact Toml.scalar_of_lenient hl
  have hin := readIn_declared? hd hv
  have hp : ¬ d.root.Within (fun q _ => q ≠ p) := by
    intro hw
    cases within_declared? hw hv with
    | scalar h => exact h rfl
  obtain ⟨as, old, bs, root, hts, rfl, ht, hread, halike⟩ :=
    Toml.Document.exists_read?_textWith hd hin hm hp hnew
  refine ⟨d, as, old, bs, root, hd, hts, ?_, ht, hread, halike, declared?_of_alike halike hv⟩
  unfold around?
  rw [hd, Option.bind_some, hv, hts]
  simp

/-- A bumped manifest declares the new version. -/
theorem declaredVersion_bumped {bump : Bump} {s t : Text} {change : VersionChange}
    (h : bumped bump s = .ok (change, t)) : declaredVersion t = .ok change.new := by
  obtain ⟨d, as, old, bs, root, -, -, -, -, hread, -, hdecl⟩ := exists_of_bumped h
  unfold declaredVersion
  simp only [hread, hdecl]
  rfl

/-! ## §3. A bumped manifest in which the pin is moved. -/

/-- **Moving the pin leaves the new version as it is**, if the manifest is a document still
and no occurrence of the old tag ends in the version. -/
theorem declaredVersion_replaced {bump : Bump} {s t start v w a b : Text} {change : VersionChange}
    (h : bumped bump s = .ok (change, t)) (hv : Text.IsVersion v) (hw : Text.IsVersion w)
    (hab : around? s = some (a, b))
    (hspares : Text.Spares (start ++ v) a ('"' :: (change.new ++ ['"'])) b) :
    declaredVersion (Text.replaced (start ++ v) (start ++ w) t) = .ok change.new
      ∨ declaredVersion (Text.replaced (start ++ v) (start ++ w) t) = .error .notToml := by
  obtain ⟨d, as, old, bs, root, hd, hts, haround, rfl, hread, -, hdecl⟩ := exists_of_bumped h
  rw [haround] at hab
  cases hab
  have hnew : Text.IsVersion change.new := by
    obtain ⟨-, v, -, -, hn, -⟩ := bumped_eq_ok h
    exact Bump.isVersion_of_nextText hn
  -- The replacement exchanges versions before and behind the version only.
  obtain ⟨a, b, hr, ha, hb⟩ := Text.exists_replaced_of_spares (u := '"' :: change.new) (q := '"')
    hv hw (by decide) hspares
  have htext : Toml.spelled (as ++ .string .basic change.new :: bs)
      = Toml.spelled as ++ (('"' :: change.new ++ ['"']) ++ Toml.spelled bs) := by
    rw [Toml.spelled_append, Toml.spelled_string]
    simp
  have hr' : Text.replaced (start ++ v) (start ++ w)
      (Toml.spelled (as ++ .string .basic change.new :: bs))
      = a ++ '"' :: (change.new ++ '"' :: b) := by
    rw [htext, hr]
    simp
  have hin : ¬ root.Within (fun q _ => q ≠ as.length) := by
    intro hw
    cases within_declared? hw hdecl with
    | scalar h => exact h rfl
  have hf := Toml.Document.follows_read? hnew hread hin ha hb
  rw [← hr'] at hf
  unfold declaredVersion
  generalize Toml.Document.read? (Text.replaced (start ++ v) (start ++ w)
    (Toml.spelled (as ++ .string .basic change.new :: bs))) = o at hf
  cases hf with
  | none => exact .inr rfl
  | some halike =>
    left
    simp only [declared?_of_alike halike hdecl]
    rfl

end Repin.Manifest
