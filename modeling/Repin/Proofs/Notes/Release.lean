/-
  Repin.Proofs.Notes.Release
  ──────────────────────────
  **WHAT A BUMP NAMES, THE NOTES KNOW AS A RELEASE.**

  A bump gives the text of a release, which an update commits and tags.  The notes look for
  such texts in the history: as a tag it is the previous one of every other version, and as
  the subject of a commit it makes no line of a changelog (`Recognised`).  Both hold of the
  text of every plain release:

    • `isRelease_text` — its three numerals and two dots are what the notes look for,
    • `headD_lines_trimmed` — it stays the first line of an output that is trimmed,
    • `mem_splitOn_changes` — the lines of a changelog are its bullets, since no subject
      holds a line end.
-/
import Repin.Proofs.Notes
import Repin.Proofs.Text.Blank
import Repin.Proofs.Text.Lines
import Repin.Proofs.Version.Next

namespace Repin

/-! ## §1. Numerals and releases. -/

/-- A plain release begins and ends with a digit. -/
theorem Version.IsPlain.ends_in_digits {v : Version} (h : v.IsPlain) :
    (∃ c t, v.text = c :: t ∧ Text.isDigit c = true)
      ∧ ∃ t c, v.text = t ++ [c] ∧ Text.isDigit c = true := by
  constructor
  · exact (Version.isVersion_text h.wellFormed).exists_digit
  · rw [h.text_eq]
    exact v.core_eq_append_digit

namespace Notes

theorem number?_digits (n : Nat) {r : Text} (hr : ∀ c ∈ r.head?, Text.isDecimal c = false) :
    number? (Text.digits n ++ r) = some r := by
  have hall : ∀ c ∈ Text.digits n, Text.isDecimal c = true :=
    fun c hc => Text.isDecimal_of_isDigit (Text.isDigit_of_mem_digits n c hc)
  have hdrop : (Text.digits n ++ r).dropWhile Text.isDecimal = r := by
    rw [List.dropWhile_append_of_pos hall]
    cases r with
    | nil => rfl
    | cons c r => exact List.dropWhile_cons_of_neg (Bool.eq_false_iff.1 (hr c rfl))
  unfold number?
  rw [hdrop]
  cases hd : Text.digits n with
  | nil => exact absurd hd (Text.digits_ne_nil n)
  | cons c t =>
    have hc : Text.isDecimal c = true := hall c (by rw [hd]; exact List.mem_cons_self)
    show (if Text.isDecimal c then some r else none) = some r
    rw [if_pos hc]

/-- **A plain release is one to the notes.** -/
theorem isRelease_text {v : Version} (h : v.IsPlain) : isRelease v.text = true := by
  have hdot : ∀ r : Text, ∀ c ∈ ('.' :: r).head?, Text.isDecimal c = false := by
    intro r c hc
    obtain rfl : '.' = c := Option.some.inj hc
    decide
  have hmajor : number? v.core
      = some ('.' :: (Text.digits v.minor ++ '.' :: Text.digits v.patch)) :=
    number?_digits v.major (hdot _)
  have hminor : number? (Text.digits v.minor ++ '.' :: Text.digits v.patch)
      = some ('.' :: Text.digits v.patch) := number?_digits v.minor (hdot _)
  have hpatch : number? (Text.digits v.patch) = some [] := by
    have hp := number?_digits v.patch (r := []) nofun
    rwa [List.append_nil] at hp
  -- It does not begin with the letter that may stand before a release.
  have hv : Text.behind? ['v'] v.core = none := by
    obtain ⟨⟨c, t, hc, hd⟩, -⟩ := h.ends_in_digits
    rw [← h.text_eq, hc]
    show (if 'v' = c then some t else none) = none
    rw [if_neg]
    rintro rfl
    exact absurd hd (by decide)
  have hbehind : ∀ r : Text, Text.behind? ['.'] ('.' :: r) = some r := Text.behind?_append ['.']
  unfold isRelease
  simp only [h.text_eq, hv, Option.getD_none, hmajor, hminor, hpatch, hbehind,
    Option.bind_eq_bind, Option.bind_some]
  rfl

/-! ## §2. The first tag of an output. -/

/-- The first line of an output is that of the trimmed output, if it begins and ends with
digits. -/
theorem headD_lines_trimmed {v : Version} (hv : v.IsPlain) {out : Text}
    (h : (Text.lines out).headD [] = v.text) :
    (Text.lines (Text.trimmed out)).headD [] = v.text := by
  obtain ⟨rest, hout, hline, hrest⟩ := Text.exists_append_of_lines out
  rw [h] at hout hline
  obtain ⟨⟨c, t, hfirst, hc⟩, u, d, hlast, hd⟩ := hv.ends_in_digits
  have hne : v.text ≠ [] := by
    rw [hfirst]
    exact List.cons_ne_nil c t
  have hhead : Text.isBlank (v.text.head hne) = false := by
    simp only [hfirst, List.head_cons]
    exact Text.isBlank_of_isDigit hc
  have hend : Text.isBlank (v.text.getLast hne) = false := by
    simp only [hlast, List.getLast_concat]
    exact Text.isBlank_of_isDigit hd
  rw [hout, Text.trimmed_append hne hhead hend]
  apply Text.headD_lines_append hline
  -- What is left behind the line begins as it did before, if anything is left.
  intro x hx
  obtain ⟨w, hw⟩ := rest.rdropWhile_prefix Text.isBlank
  apply hrest
  rw [← hw]
  cases hleft : rest.rdropWhile Text.isBlank with
  | nil =>
    rw [hleft] at hx
    cases hx
  | cons y ys =>
    rw [hleft] at hx
    exact hx

theorem previousOf_of_headD {v : Version} (hv : v.IsPlain) {version : Text} {ls : List Text}
    (h : ls.headD [] = v.text) (hne : version ≠ v.text) : previousOf version ls = some v.text := by
  cases ls with
  | nil =>
    obtain ⟨⟨c, t, hfirst, -⟩, -⟩ := hv.ends_in_digits
    rw [hfirst] at h
    cases h
  | cons l ls =>
    obtain rfl : l = v.text := h
    apply List.find?_cons_of_pos
    rw [isRelease_text hv, Bool.and_true, decide_eq_true_eq]
    exact hne.symm

/-! ## §3. The lines of a changelog. -/

/-- The lines of a changelog are its bullets; without one there is an empty line. -/
theorem mem_splitOn_changes {log line : Text}
    (h : line ∈ (['\n'].intercalate (bullets (subjectsIn log))).splitOn '\n') :
    line = [] ∨ line ∈ bullets (subjectsIn log) := by
  have hfeed : ∀ b ∈ bullets (subjectsIn log), '\n' ∉ b := by
    intro b hb hm
    obtain ⟨s, hs, rfl⟩ := List.mem_map.1 hb
    have hline : s ∈ Text.lines log := List.mem_of_mem_filter (List.mem_of_mem_filter hs)
    rcases List.mem_append.1 hm with hm | hm
    · exact absurd hm (by decide)
    · exact absurd (Text.endsLine_of_mem_lines hline '\n' hm) (by decide)
  by_cases hnil : bullets (subjectsIn log) = []
  · rw [hnil] at h
    exact .inl (List.mem_singleton.1 h)
  · rw [List.splitOn_intercalate '\n' hfeed hnil] at h
    exact .inr h

/-- No bullet is that of a release. -/
theorem notMem_bullets {r : Text} (h : isRelease r = true) (subjects : List Text) :
    "* " ++ r ∉ bullets subjects := by
  intro hm
  obtain ⟨s, hs, he⟩ := List.mem_map.1 hm
  obtain rfl : s = r := List.append_cancel_left he
  have hno := (List.mem_filter.1 hs).2
  rw [h] at hno
  cases hno

/-! ## §4. Releases in the history. -/

/-- How the notes treat the text of a release in the history. -/
structure Recognised (r : Text) : Prop where
  release : isRelease r = true
  /-- As the first tag it is the previous one of every other version. -/
  previous : ∀ (root : Path) (version : Text) (s : Site) (out : Text),
    Job.nextExit s.exits = .finished 0 out → (Text.lines out).head? = some r → version ≠ r →
      (Job.on (previousTag root version) s).1 = .ok (some r)
  /-- As a subject it makes no line of a changelog. -/
  dropped : ∀ (root : Path) (version : Text) (s : Site) (tags log : Text),
    Job.nextExit s.exits = .finished 0 tags → Job.nextExit s.exits.tail = .finished 0 log →
      ∃ changes, (Job.on (changelog root version) s).1 = .ok changes
        ∧ ∀ line ∈ changes.splitOn '\n', line ≠ "* " ++ r ∧ line ≠ r

/-- **The text of a plain release is recognised.** -/
theorem recognised_text {v : Version} (h : v.IsPlain) : Recognised v.text where
  release := isRelease_text h
  previous := by
    intro root version s out hexit hfirst hne
    have hhead : (Text.lines out).headD [] = v.text := by
      rw [List.headD_eq_head?_getD, hfirst]
      rfl
    rw [on_previousTag, hexit]
    show Except.ok (previousOf version (Text.lines (Text.trimmed out))) = _
    rw [previousOf_of_headD h (headD_lines_trimmed h hhead) hne]
  dropped := by
    intro root version s tags log htags hlog
    rw [on_changelog, htags, hlog]
    refine ⟨['\n'].intercalate (bullets (subjectsIn (Text.trimmed log))), rfl, ?_⟩
    intro line hline
    obtain ⟨⟨c, t, hfirst, hc⟩, -⟩ := h.ends_in_digits
    rcases mem_splitOn_changes hline with rfl | hb
    · refine ⟨nofun, ?_⟩
      rw [hfirst]
      exact nofun
    · refine ⟨fun he => notMem_bullets (isRelease_text h) _ (he ▸ hb), ?_⟩
      -- A bullet begins with an asterisk, and a release with a digit.
      rintro rfl
      obtain ⟨s, -, he⟩ := List.mem_map.1 hb
      rw [hfirst] at he
      obtain rfl : '*' = c := (List.cons.inj he).1
      exact absurd hc (by decide)

end Notes

/-- **What a bump gives is a later release, and the notes recognise it**: its three numbers in
canonical form, above the version that was read and of the same major, and read back whole. -/
theorem Bump.recognised_nextText {b : Bump} {s r : Text} (h : b.nextText s = .ok r) :
    ∃ v, Version.lenient s = .ok v
      ∧ (b = .patch → r = Text.digits v.major ++ '.' ::
          (Text.digits v.minor ++ '.' :: Text.digits (v.patch + 1)))
      ∧ (b = .minor → r = Text.digits v.major ++ '.' ::
          (Text.digits (v.minor + 1) ++ '.' :: ['0']))
      ∧ (∃ w, Version.lenient r = .ok w ∧ w.text = r ∧ w.IsPlain ∧ v.Below w
          ∧ w.major = v.major)
      ∧ Notes.Recognised r := by
  obtain ⟨v, hv, rfl⟩ := Bump.exists_of_nextText h
  have hplain := Version.isPlain_next b v
  refine ⟨v, hv, ?_, ?_, ?_, Notes.recognised_text hplain⟩
  · rintro rfl
    rw [hplain.text_eq, Version.core_next_patch]
  · rintro rfl
    rw [hplain.text_eq, Version.core_next_minor]
  · exact ⟨b.next v, Version.lenient_text hplain.wellFormed, rfl, hplain,
      Version.below_next b v, Version.major_next b v⟩

/-- A history whose latest tag is the release. -/
def taggedSite : Site := (Site.fresh []).exiting [.finished 0 "1.5.0\n1.4.1\n"]

theorem recognised_behind_candidate :
    Bump.minor.nextText "1.4.1-rc.2+x" = .ok "1.5.0"
      ∧ (∃ v w, Version.lenient "1.4.1-rc.2+x" = .ok v ∧ Version.lenient "1.5.0" = .ok w
          ∧ v.Below w ∧ w.major = v.major)
      ∧ Notes.Recognised "1.5.0"
      ∧ (Job.on (Notes.previousTag Path.here "1.5.1") taggedSite).1 = .ok (some "1.5.0") := by
  have h : Bump.minor.nextText "1.4.1-rc.2+x" = .ok "1.5.0" :=
    eq_ok_of_toOption (by decide +kernel)
  obtain ⟨v, hv, -, -, ⟨w, hw, -, -, hbelow, hmajor⟩, hr⟩ := Bump.recognised_nextText h
  refine ⟨h, ⟨v, w, hv, hw, hbelow, hmajor⟩, hr, ?_⟩
  exact hr.previous Path.here "1.5.1" taggedSite _ rfl (by decide) (by decide)

end Repin
