/-
  Repin.Proofs.Version.Reading
  ────────────────────────────
  **EVERY WELL-FORMED VERSION IS READ BACK FROM ITS TEXT.**

  Together with `text_of_read?` this makes reading and writing inverse to each other:

      v.WellFormed  →  Version.read? v.text = some v      (`read?_text`)

  The two signs cut the text where it was put together: no plus sign stands before the
  build part, and no hyphen in the three numbers.
-/
import Repin.Proofs.Version.Shape

namespace Repin

/-- An identifier is read back from its text. -/
theorem Identifier.read?_text {i : Identifier} (h : i.WellFormed) :
    Identifier.read? i.text = some i := by
  unfold Identifier.read?
  cases i with
  | number n =>
    show (if (Text.digits n).all Text.isDigit then _ else _) = _
    rw [if_pos (List.all_eq_true.2 (Text.isDigit_of_mem_digits n)), Identifier.text,
      Text.natural?_digits, Option.map_some]
  | word t =>
    obtain ⟨hchar, c, hc, hd⟩ := h
    have hword : t.all Text.isDigit = false := List.all_eq_false.2 ⟨c, hc, by simp [hd]⟩
    show (if t.all Text.isDigit then _ else _) = _
    rw [hword, if_neg Bool.false_ne_true, Identifier.text, if_pos (List.all_eq_true.2 hchar)]

namespace Version

/-! ## §1. Cutting where the parts meet. -/

theorem cut_append_suffix {c : Char} {s : Text} (h : c ∉ s) (o : Option Text) :
    Text.cut c (s ++ suffix c o) = (s, o) := by
  cases o with
  | none => rw [suffix, List.append_nil, Text.cut_eq_self h]
  | some t => exact Text.cut_append h

/-- A character that is neither of an identifier nor a dot stands in no part with another
sign. -/
theorem notMem_suffix {c sign : Char} {fields : List Text} (hc : Identifier.isChar c = false)
    (hdot : c ≠ '.') (hsign : c ≠ sign)
    (hf : ∀ f ∈ fields, ∀ d ∈ f, Identifier.isChar d = true) :
    c ∉ suffix sign (if fields.isEmpty then none else some (['.'].intercalate fields)) := by
  intro hm
  split at hm
  · cases hm
  · rcases List.mem_cons.1 hm with he | hm
    · exact hsign he
    · rcases Text.mem_of_mem_intercalate hm with he | ⟨f, hmf, hmc⟩
      · exact hdot he
      · rw [hf f hmf c hmc] at hc
        cases hc

theorem notMem_core {v : Version} {c : Char} (hc : Text.isDigit c = false) (hdot : c ≠ '.') :
    c ∉ v.core := by
  intro hm
  rcases isDigit_or_dot_of_mem_core c hm with hd | hd
  · rw [hc] at hd
    cases hd
  · exact hdot hd

/-! ## §2. Reading the parts. -/

/-- Fields that are read back one by one are read back from their dotted text. -/
theorem fields?_intercalate {α : Type} {field? : Text → Option α} {write : α → Text}
    {as : List α} (hr : ∀ a ∈ as, field? (write a) = some a) (hdot : ∀ a ∈ as, '.' ∉ write a) :
    fields? field? (if as.isEmpty then none else some (['.'].intercalate (as.map write)))
      = some as := by
  have hmap : ∀ bs : List α, (∀ b ∈ bs, field? (write b) = some b) →
      (bs.map write).mapM field? = some bs := by
    intro bs
    induction bs with
    | nil => exact fun _ => rfl
    | cons b bs ih =>
      intro h
      rw [List.map_cons, List.mapM_cons, h b List.mem_cons_self,
        ih (fun x hx => h x (List.mem_cons_of_mem b hx))]
      rfl
  cases as with
  | nil => rfl
  | cons a as =>
    have hsplit : (['.'].intercalate ((a :: as).map write)).splitOn '.' = (a :: as).map write :=
      List.splitOn_intercalate '.' (by simpa using hdot) (by simp)
    show (List.splitOn '.' _).mapM field? = _
    rw [hsplit]
    exact hmap (a :: as) hr

theorem core?_core (v : Version) : core? v.core = some (v.major, v.minor, v.patch) := by
  have hdot : ∀ f ∈ [Text.digits v.major, Text.digits v.minor, Text.digits v.patch], '.' ∉ f := by
    intro f hf
    simp only [List.mem_cons, List.not_mem_nil, or_false] at hf
    rcases hf with rfl | rfl | rfl <;> exact Text.dot_notMem_digits _
  have hcore : v.core = ['.'].intercalate
      [Text.digits v.major, Text.digits v.minor, Text.digits v.patch] := by
    unfold core
    simp
  unfold core?
  rw [hcore, List.splitOn_intercalate '.' hdot (by simp)]
  simp only [Text.natural?_digits]
  rfl

/-! ## §3. Reading versions. -/

/-- **Every well-formed version is read back from its text.** -/
theorem read?_text {v : Version} (h : v.WellFormed) : read? v.text = some v := by
  have hdotChar : Identifier.isChar '.' = false := by decide
  have hprechar : ∀ f ∈ v.pre.map Identifier.text, ∀ c ∈ f, Identifier.isChar c = true := by
    intro f hf
    obtain ⟨i, hi, rfl⟩ := List.mem_map.1 hf
    exact isChar_of_mem_text (h.1 i hi)
  have hplus : '+' ∉ v.core ++ suffix '-' v.preText? := by
    intro hm
    rcases List.mem_append.1 hm with hm | hm
    · exact notMem_core (by decide) (by decide) hm
    · unfold preText? at hm
      rw [← List.isEmpty_map (f := Identifier.text)] at hm
      exact notMem_suffix (by decide) (by decide) (by decide) hprechar hm
  have hhyphen : '-' ∉ v.core := notMem_core (by decide) (by decide)
  have hpre : fields? Identifier.read? v.preText? = some v.pre := by
    refine fields?_intercalate (fun i hi => Identifier.read?_text (h.1 i hi)) (fun i hi hm => ?_)
    have hc := isChar_of_mem_text (h.1 i hi) '.' hm
    rw [hdotChar] at hc
    cases hc
  have hbuild : fields? buildField? v.buildText? = some v.build := by
    have hread : ∀ b ∈ v.build, buildField? (id b) = some b := by
      intro b hb
      unfold buildField?
      rw [if_pos]
      · rfl
      · rw [Bool.and_eq_true, Bool.not_eq_true', List.isEmpty_eq_false_iff]
        exact ⟨(h.2 b hb).1, List.all_eq_true.2 (h.2 b hb).2⟩
    have hdot : ∀ b ∈ v.build, '.' ∉ id b := by
      intro b hb hm
      have hc := (h.2 b hb).2 '.' hm
      rw [hdotChar] at hc
      cases hc
    have hfields := fields?_intercalate hread hdot
    rwa [List.map_id] at hfields
  unfold read? text
  rw [cut_append_suffix hplus]
  dsimp only
  rw [cut_append_suffix hhyphen]
  simp only [core?_core, hpre, hbuild]
  rfl

theorem IsPlain.wellFormed {v : Version} (h : v.IsPlain) : v.WellFormed := by
  constructor
  · rw [h.1]
    exact fun i hi => absurd hi List.not_mem_nil
  · rw [h.2]
    exact fun b hb => absurd hb List.not_mem_nil

end Version
end Repin
