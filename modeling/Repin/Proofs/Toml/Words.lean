/-
  Repin.Proofs.Toml.Words
  ───────────────────────
  **WHICH VALUES CAN BE VERSIONS.**

  A version begins with digits and a dot, or with digits alone if it is read leniently.
  No array, table, date or time is written so (`scalar_of_lenient`), and a word that is a
  date is read as a date or a time only (`moment_of_spells`).  So a value that was read
  as a version is spelled by one token: a string, or a word that is no date.
-/
import Mathlib.Data.List.TakeDrop
import Repin.Proofs.Toml.Reading
import Repin.Proofs.Version.Shape
import Repin.Toml.Literal

namespace Repin

/-! ## §1. Words that begin with digits and a dash. -/

namespace Toml

variable {ds z : Text}

theorem exists_dash_of_isDate {w : Text} (h : isDate w = true) :
    ∃ ds z, w = ds ++ '-' :: z ∧ ds ≠ [] ∧ ∀ c ∈ ds, Text.isDigit c = true := by
  unfold isDate at h
  obtain ⟨⟨d, r⟩, hp, -⟩ := (Option.any_eq_true _ _).1 h
  unfold date? at hp
  simp only [Option.bind_eq_bind, Option.bind_eq_some_iff] at hp
  obtain ⟨y, hy, u, hu, -⟩ := hp
  refine ⟨w.takeWhile Text.isDigit, u, ?_, ?_, List.all_eq_true.1 List.all_takeWhile⟩
  · have hw := List.takeWhile_append_dropWhile (p := Text.isDigit) (l := w)
    rw [Text.behind?_eq_some_iff.1 hu] at hw
    exact hw.symm
  · intro he
    rw [he] at hy
    cases hy

theorem not_isDigit_dash : ¬ Text.isDigit '-' = true := by decide

theorem span_dash (hd : ∀ c ∈ ds, Text.isDigit c = true) (z : Text) :
    (ds ++ '-' :: z).span Text.isDigit = (ds, '-' :: z) := by
  rw [List.span_eq_takeWhile_dropWhile, List.takeWhile_append_of_pos hd,
    List.dropWhile_append_of_pos hd, List.takeWhile_cons_of_neg not_isDigit_dash,
    List.dropWhile_cons_of_neg not_isDigit_dash, List.append_nil]

/-- What begins with digits and a dash is not written as a number. -/
theorem digits?_dash (hd : ∀ c ∈ ds, Text.isDigit c = true) (negative : Bool) (z : Text) :
    Double.digits? negative (ds ++ '-' :: z) = none := by
  unfold Double.digits?
  rw [span_dash hd]
  have he : ∀ b : Bool, (if b = true then none else
      (Double.exponent? ('-' :: z)).bind (fun n => some (Double.ofParts negative ds [] n)))
        = none := by
    intro b
    cases b <;> rfl
  exact he _

theorem value?_dash (ds z : Text) : Text.value? (ds ++ '-' :: z) = none := by
  cases h : Text.value? (ds ++ '-' :: z) with
  | none => rfl
  | some n =>
    have hd : Text.digitValue? '-' = none := by decide
    exact absurd (by simp) (Text.notMem_of_valueIn? h hd)

theorem toLower_of_isDigit {c : Char} (h : Text.isDigit c = true) : c.toLower = c := by
  unfold Text.isDigit at h
  rw [Bool.and_eq_true, decide_eq_true_eq, decide_eq_true_eq] at h
  unfold Char.toLower
  rw [dif_neg]
  intro hu
  exact absurd (UInt32.le_trans hu.1 h.2) (by decide)

/-- The digits and the dash are the same in small letters and without underscores. -/
theorem ungrouped?_dash (hd : ∀ c ∈ ds, Text.isDigit c = true) {s : Text}
    (h : Text.ungrouped? (ds ++ '-' :: z) = some s) : ∃ y, Text.lowered s = ds ++ '-' :: y := by
  have hu : '_' ∉ ds := fun hm => absurd (hd _ hm) (by decide)
  -- The first group begins with the digits and the dash.
  have hsplit : ∃ f fs, (ds ++ '-' :: z).splitOn '_' = (ds ++ '-' :: f) :: fs := by
    have head : ∀ f, '_' ∉ f → '_' ∉ ds ++ '-' :: f := by
      intro f hf hm
      rcases List.mem_append.1 hm with hm | hm
      · exact hu hm
      · rcases List.mem_cons.1 hm with hm | hm
        · cases hm
        · exact hf hm
    by_cases hz : '_' ∈ z
    · obtain ⟨f, r, rfl, hf⟩ := List.eq_append_cons_of_mem hz
      have he : ds ++ '-' :: (f ++ '_' :: r) = (ds ++ '-' :: f) ++ '_' :: r := by simp
      exact ⟨f, _, by rw [he]; exact List.splitOn_append_cons_self_of_not_mem (head f hf) r⟩
    · exact ⟨z, [], List.splitOn_eq_singleton (head z hz)⟩
  obtain ⟨f, fs, hs⟩ := hsplit
  have hflat : s = ds ++ '-' :: (f ++ fs.flatten) := by
    unfold Text.ungrouped? at h
    dsimp only at h
    split at h
    · cases h
      rw [hs, List.flatten_cons, List.append_assoc, List.cons_append]
    · cases h
  -- Digits have no case.
  have hlow : Text.lowered ds = ds := by
    unfold Text.lowered
    exact (List.map_congr_left (fun c hc => toLower_of_isDigit (hd c hc))).trans (List.map_id _)
  refine ⟨Text.lowered (f ++ fs.flatten), ?_⟩
  have hcons : Text.lowered s = Text.lowered ds ++ '-' :: Text.lowered (f ++ fs.flatten) := by
    rw [hflat]
    unfold Text.lowered
    rw [List.map_append, List.map_cons]
    rfl
  rw [hcons, hlow]

theorem decimal?_dash (hd : ∀ c ∈ ds, Text.isDigit c = true) (negative : Bool)
    (z : Text) : decimal? negative (ds ++ '-' :: z) = none := by
  unfold decimal?
  cases hu : Text.ungrouped? (ds ++ '-' :: z) with
  | none => rfl
  | some s =>
    obtain ⟨y, hy⟩ := ungrouped?_dash hd hu
    simp only [Option.bind_eq_bind, Option.bind_some, hy, value?_dash, digits?_dash hd]
    split
    · rfl
    · rfl

/-- A text that begins with a digit is none that begins otherwise. -/
theorem ne_of_isDigit {c : Char} (hc : Text.isDigit c = true) {r s : Text}
    (hs : s.head?.any Text.isDigit = false) : c :: r ≠ s := by
  rintro rfl
  rw [List.head?_cons, Option.any_some, hc] at hs
  cases hs

theorem base?_dash (hd : ∀ c ∈ ds, Text.isDigit c = true) (c : Char) (z : Text) :
    base? (c :: (ds ++ '-' :: z)) = none := by
  -- A base is named by a letter behind the first digit, where digits or the dash stand.
  have second : ∀ b : Char, Text.isDigit b = false → b ≠ '-' →
      ∀ r, ds ++ '-' :: z ≠ b :: r := by
    intro b hb hne r he
    cases ds with
    | nil => exact hne (List.cons.inj he).1.symm
    | cons d ds =>
      rw [← (List.cons.inj he).1, hd d List.mem_cons_self] at hb
      cases hb
  unfold base?
  split
  · next r he => exact absurd (List.cons.inj he).2 (second 'b' rfl (by decide) r)
  · next r he => exact absurd (List.cons.inj he).2 (second 'o' rfl (by decide) r)
  · next r he => exact absurd (List.cons.inj he).2 (second 'x' rfl (by decide) r)
  · rfl

theorem number?_dash (hne : ds ≠ []) (hd : ∀ c ∈ ds, Text.isDigit c = true) (z : Text) :
    number? (ds ++ '-' :: z) = none := by
  cases ds with
  | nil => exact absurd rfl hne
  | cons c ds =>
    have hc := hd c List.mem_cons_self
    unfold number?
    split
    · next r he =>
      cases he
      cases hc
    · next r he =>
      cases he
      cases hc
    · -- Neither infinity nor the number that is none begins with a digit.
      split
      · next he => exact absurd he (ne_of_isDigit hc (by decide))
      · split
        · next he => exact absurd he (ne_of_isDigit hc (by decide))
        · split
          · next b hb =>
            have hn := base?_dash (fun d hm => hd d (List.mem_cons_of_mem c hm)) c z
            rw [List.cons_append, hn] at hb
            cases hb
          · rw [decimal?_dash hd, ite_self]

/-- What begins with digits and a dash is a date or a time, if it is anything. -/
theorem moment_of_dash (hne : ds ≠ []) (hd : ∀ c ∈ ds, Text.isDigit c = true) {x : Scalar}
    (h : wordValue? (ds ++ '-' :: z) = some x) : ∃ m, x = .moment m := by
  cases ds with
  | nil => exact absurd rfl hne
  | cons c ds =>
    have hc := hd c List.mem_cons_self
    have ht : (c :: ds) ++ '-' :: z ≠ ("true" : Text) := ne_of_isDigit hc (by decide)
    have hf : (c :: ds) ++ '-' :: z ≠ ("false" : Text) := ne_of_isDigit hc (by decide)
    unfold wordValue? at h
    rw [if_neg ht, if_neg hf, number?_dash hne hd, Option.or_none] at h
    obtain ⟨m, -, rfl⟩ := Option.map_eq_some_iff.1 h
    exact ⟨m, rfl⟩

/-- A word that is a date is read as a date or a time. -/
theorem moment_of_spells {u : Tokens} {p : Nat} {w : Text} {x : Scalar} (hw : isDate w = true)
    (h : Spells u p (.word w) x) : ∃ m, x = .moment m := by
  obtain ⟨ds, z, rfl, hne, hd⟩ := exists_dash_of_isDate hw
  obtain ⟨r, h⟩ := h
  rcases wordAt?_cases h with ⟨y, -, he, hy, -⟩ | ⟨y, t, q, q', -, -, he, hy⟩
  · cases he
    exact moment_of_dash hne hd hy
  · cases he
    rw [List.append_assoc, List.cons_append] at hy
    exact moment_of_dash hne hd hy

/-! ## §2. Values that are read as versions. -/

/-- No version begins with digits and another character than a dot. -/
theorem not_lenient (ds : Text) (c : Char) {s r : Text} {v : Version}
    (hd : ∀ d ∈ ds, Text.isDigit d = true) (hc : Text.isDigit c = false) (hdot : c ≠ '.')
    (hs : s = ds ++ c :: r) : Version.lenient s ≠ .ok v := by
  intro h
  obtain ⟨ds', r', hs', -, hd', hr'⟩ := Version.exists_of_lenient h
  have hn : ¬ Text.isDigit c = true := by rw [hc]; exact Bool.false_ne_true
  -- The digits that begin the text end at the character, and at the dot of a version.
  have hdrop : s.dropWhile Text.isDigit = c :: r := by
    rw [hs, List.dropWhile_append_of_pos hd, List.dropWhile_cons_of_neg hn]
  rw [hs', List.dropWhile_append_of_pos hd'] at hdrop
  cases r' with
  | nil => cases hdrop
  | cons d r' =>
    have hdd := hr' d rfl
    have hnd : ¬ Text.isDigit d = true := by rw [hdd]; decide
    rw [List.dropWhile_cons_of_neg hnd] at hdrop
    exact hdot ((List.cons.inj hdrop).1.symm.trans hdd)

theorem isDigit_of_mem_padded {width n : Nat} : ∀ c ∈ Text.padded 10 width n,
    Text.isDigit c = true := by
  intro c hc
  unfold Text.padded at hc
  rcases List.mem_append.1 hc with hc | hc
  · rw [List.eq_of_mem_replicate hc]
    decide
  · exact Text.isDigit_of_mem_digits n c hc

/-- The text of a date or a time is no version. -/
theorem not_lenient_moment (m : Moment) (v : Version) : Version.lenient m.text ≠ .ok v := by
  -- A dash follows the year.
  have date : ∀ (d : Date) (r : Text), Version.lenient (d.text ++ r) ≠ .ok v := by
    intro d r
    have he : d.text ++ r = Text.padded 10 4 d.year
        ++ '-' :: (Text.padded 10 2 d.month ++ '-' :: (Text.padded 10 2 d.day ++ r)) := by
      unfold Date.text
      simp only [List.append_assoc, List.cons_append]
    exact not_lenient _ '-' isDigit_of_mem_padded rfl (by decide) he
  cases m with
  | date d =>
    have h := date d []
    rwa [List.append_nil] at h
  | time t =>
    have he : (Moment.time t).text = Text.padded 10 2 t.hour ++ ':' :: (Text.padded 10 2 t.minute
        ++ ':' :: (Text.padded 10 2 t.second
          ++ (if t.micro = 0 then [] else '.' :: Text.padded 10 6 t.micro))) := by
      show t.text = _
      unfold Time.text
      simp only [List.append_assoc, List.cons_append]
    exact not_lenient _ ':' isDigit_of_mem_padded rfl (by decide) he
  | dateTime d t offset =>
    show Version.lenient (d.text ++ ' ' :: t.text ++ _) ≠ _
    rw [List.append_assoc]
    exact date d _

/-- **What is read as a version has one token and is neither a date nor a time.** -/
theorem scalar_of_lenient {value : Toml} {v : Version} (h : Version.lenient value.text = .ok v) :
    ∃ p x, value = .scalar p x ∧ ∀ m, x ≠ .moment m := by
  -- Arrays and tables are written in brackets and braces.
  have bracket : ∀ (c : Char) (r : Text), Text.isDigit c = false → c ≠ '.' →
      Version.lenient (c :: r) ≠ .ok v := by
    intro c r hc hdot
    exact not_lenient [] c (fun d hd => absurd hd List.not_mem_nil) hc hdot rfl
  cases value with
  | scalar p x =>
    refine ⟨p, x, rfl, ?_⟩
    rintro m rfl
    exact not_lenient_moment m v h
  | array vs => exact absurd h (bracket '[' _ rfl (by decide))
  | table o t => exact absurd h (bracket '\x7b' _ rfl (by decide))
  | tables ts => exact absurd h (bracket '[' _ rfl (by decide))

end Toml
end Repin
