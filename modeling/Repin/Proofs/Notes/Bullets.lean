/-
  Repin.Proofs.Notes.Bullets
  ──────────────────────────
  **THE BULLETS OF A HISTORY WITH ONE SUBJECT A LINE.**

  The history puts a line feed between each two subjects.  The changelog splits its output
  at every character at which a line ends, and a subject may hold such a character that is
  no line feed: then it is cut there, and each piece that is not blank is taken for a
  subject of its own.

    • `pieces_intercalate` — the pieces of an output are those of its subjects, in order,
    • `changelog_of_subjects` — there is one bullet for each piece that names no release,
      hence one for each such subject exactly if no subject holds a line end.
-/
import Repin.Proofs.Notes.History
import Repin.Proofs.Text.Joined

namespace Repin
namespace Text

/-! ## §1. Pieces. -/

/-- Is there more than blanks in the text? -/
def isVisible (s : Text) : Bool := s.any (fun c => !isBlank c)

/-- The parts of a text between the characters at which a line ends, without the blank ones. -/
def pieces (s : Text) : List Text := (s.splitOnP endsLine).filter isVisible

variable {s t : Text} {ts : List Text}

theorem isVisible_eq (s : Text) : isVisible s = !(trimmed s).isEmpty := by
  have hall : trimmed s = [] ↔ ∀ c ∈ s, isBlank c = true := by
    rw [trimmed_eq, List.rdropWhile_eq_nil_iff]
    constructor
    · intro h
      have hdrop : s.dropWhile isBlank = [] := by
        cases hd : s.dropWhile isBlank with
        | nil => rfl
        | cons c r =>
          -- What is left begins with no blank.
          have hstop := List.head?_dropWhile_not isBlank s
          rw [hd] at hstop h
          exact absurd (h c List.mem_cons_self) (Bool.eq_false_iff.1 hstop)
      exact List.dropWhile_eq_nil_iff.1 hdrop
    · exact fun h c hc => h c (List.dropWhile_subset _ hc)
  rw [Bool.eq_iff_iff, isVisible, List.any_eq_true, Bool.not_eq_true', ← Bool.not_eq_true,
    List.isEmpty_iff, hall]
  simp

/-- Where there is no carriage return, the lines are the parts, but for an empty one at the
end. -/
theorem splitOnP_endsLine (h : '\r' ∉ s) :
    s.splitOnP endsLine = lines s ∨ s.splitOnP endsLine = lines s ++ [[]] := by
  fun_induction lines s with
  | case1 => exact .inr List.splitOnP_nil
  | case2 r ih => exact absurd List.mem_cons_self h
  | case3 c r _ hc ih =>
    rw [List.splitOnP_cons_eq_if_modifyHead, if_pos hc]
    rcases ih (fun hr => h (List.mem_cons_of_mem c hr)) with hr | hr
    · exact .inl (congrArg _ hr)
    · exact .inr (congrArg _ hr)
  | case4 c r _ hc hr ih =>
    rw [List.splitOnP_cons_eq_if_modifyHead, if_neg hc, lines_eq_nil_iff.1 hr]
    exact .inl rfl
  | case5 c r _ hc l ls hr ih =>
    rw [List.splitOnP_cons_eq_if_modifyHead, if_neg hc]
    rw [hr] at ih
    rcases ih (fun hr => h (List.mem_cons_of_mem c hr)) with hr | hr
    · rw [hr]
      exact .inl rfl
    · rw [hr]
      exact .inr rfl

theorem filter_isVisible_lines (h : '\r' ∉ s) : (lines s).filter isVisible = pieces s := by
  unfold pieces
  rcases splitOnP_endsLine h with he | he
  · rw [he]
  · rw [he, List.filter_append]
    exact (List.append_nil _).symm

theorem endsLine_of_mem_pieces (h : '\r' ∉ s) (ht : t ∈ pieces s) : ∀ c ∈ t, endsLine c = false := by
  rw [← filter_isVisible_lines h] at ht
  exact endsLine_of_mem_lines (List.mem_of_mem_filter ht)

/-- **The pieces of joined texts are those of the texts.** -/
theorem pieces_intercalate (ts : List Text) : pieces (['\n'].intercalate ts) = ts.flatMap pieces := by
  induction ts with
  | nil => rfl
  | cons t ts ih =>
    cases ts with
    | nil => rw [List.intercalate_singleton, List.flatMap_singleton]
    | cons u ts =>
      rw [List.intercalate_cons_cons, List.append_assoc, List.singleton_append,
        List.flatMap_cons, ← ih]
      unfold pieces
      rw [List.splitOnP_append_cons _ _ rfl, List.filter_append]

/-- A text without a line end is its only piece. -/
theorem pieces_eq_self (hv : isVisible s = true) (h : ∀ c ∈ s, endsLine c = false) :
    pieces s = [s] := by
  unfold pieces
  rw [List.splitOnP_eq_singleton h, List.filter_cons_of_pos hv]
  rfl

/-- A text that neither begins nor ends with a blank is not changed by trimming. -/
theorem trimmed_eq_self (hfirst : ∀ c ∈ s.head?, isBlank c = false)
    (hlast : ∀ c ∈ s.getLast?, isBlank c = false) : trimmed s = s := by
  by_cases hs : s = []
  · rw [hs]
    rfl
  · have h := trimmed_append hs (hfirst _ (List.head?_eq_some_head hs))
      (hlast _ (List.getLast?_eq_some_getLast hs)) []
    rwa [List.append_nil, List.rdropWhile_nil, List.append_nil] at h

end Text

namespace Notes

/-! ## §2. Subjects. -/

/-- The subject of a commit as the history writes it: on one line, and neither empty nor with
blanks at its ends. -/
structure IsSubject (t : Text) : Prop where
  ne_nil : t ≠ []
  lineFeed : '\n' ∉ t
  carriageReturn : '\r' ∉ t
  first : ∀ c ∈ t.head?, Text.isBlank c = false
  last : ∀ c ∈ t.getLast?, Text.isBlank c = false

instance (t : Text) : Decidable (IsSubject t) :=
  decidable_of_iff
    (t ≠ [] ∧ '\n' ∉ t ∧ '\r' ∉ t ∧ t.head?.all (fun c => !Text.isBlank c) = true
      ∧ t.getLast?.all (fun c => !Text.isBlank c) = true)
    (by
      simp only [Option.all_eq_true, Bool.not_eq_true']
      exact ⟨fun ⟨hn, hf, hr, hh, hl⟩ => ⟨hn, hf, hr, hh, hl⟩,
        fun h => ⟨h.ne_nil, h.lineFeed, h.carriageReturn, h.first, h.last⟩⟩)

variable {t : Text} {ts bs : List Text}

theorem IsSubject.isVisible (h : IsSubject t) : Text.isVisible t = true := by
  obtain ⟨c, r, rfl⟩ := List.exists_cons_of_ne_nil h.ne_nil
  have hc := h.first c rfl
  exact List.any_eq_true.2 ⟨c, List.mem_cons_self, by rw [hc]; rfl⟩

theorem return_notMem_joined (h : ∀ t ∈ ts, IsSubject t) : '\r' ∉ ['\n'].intercalate ts := by
  intro hm
  rcases Text.mem_of_mem_intercalate hm with he | ⟨t, ht, hc⟩
  · cases he
  · exact (h t ht).carriageReturn hc

/-- No blank is taken from the output. -/
theorem trimmed_joined (h : ∀ t ∈ ts, IsSubject t) :
    Text.trimmed (['\n'].intercalate ts) = ['\n'].intercalate ts := by
  have hne : ∀ t ∈ ts, t ≠ [] := fun t ht => (h t ht).ne_nil
  apply Text.trimmed_eq_self
  · intro c hc
    obtain ⟨t, ht, hc⟩ := Text.exists_of_mem_head?_intercalate hne hc
    exact (h t ht).first c hc
  · intro c hc
    obtain ⟨t, ht, hc⟩ := Text.exists_of_mem_getLast?_intercalate hne hc
    exact (h t ht).last c hc

/-- **The changelog takes the pieces of the subjects for subjects.** -/
theorem subjectsIn_joined (h : ∀ t ∈ ts, IsSubject t) :
    subjectsIn (Text.trimmed (['\n'].intercalate ts)) = ts.flatMap Text.pieces := by
  rw [trimmed_joined h, ← Text.pieces_intercalate,
    ← Text.filter_isVisible_lines (return_notMem_joined h)]
  unfold subjectsIn
  apply List.filter_congr
  exact fun t _ => (Text.isVisible_eq t).symm

theorem endsLine_of_mem_flatMap (h : ∀ t ∈ ts, IsSubject t) {u : Text}
    (hu : u ∈ ts.flatMap Text.pieces) : ∀ c ∈ u, Text.endsLine c = false := by
  obtain ⟨t, ht, hu⟩ := List.mem_flatMap.1 hu
  exact Text.endsLine_of_mem_pieces (h t ht).carriageReturn hu

theorem flatMap_pieces_eq_self (h : ∀ t ∈ ts, IsSubject t)
    (hends : ∀ t ∈ ts, ∀ c ∈ t, Text.endsLine c = false) : ts.flatMap Text.pieces = ts := by
  induction ts with
  | nil => rfl
  | cons t ts ih =>
    obtain ⟨ht, h⟩ := List.forall_mem_cons.1 h
    obtain ⟨he, hends⟩ := List.forall_mem_cons.1 hends
    rw [List.flatMap_cons, ih h hends, Text.pieces_eq_self ht.isVisible he]
    rfl

/-! ## §3. Bullets. -/

/-- The bullets `bs` are one for each of the subjects that names no release, in order. -/
inductive Listed : List Text → List Text → Prop
  | none : Listed [] []
  | release {t : Text} {ts bs : List Text} : NamesRelease t → Listed ts bs → Listed (t :: ts) bs
  | bullet {t : Text} {ts bs : List Text} : ¬ NamesRelease t → Listed ts bs →
      Listed (t :: ts) (("* " ++ t) :: bs)

theorem listed_iff (h : ∀ t ∈ ts, '\n' ∉ t) : Listed ts bs ↔ bs = bullets ts := by
  induction ts generalizing bs with
  | nil =>
    constructor
    · rintro ⟨⟩
      rfl
    · rintro rfl
      exact .none
  | cons t ts ih =>
    obtain ⟨ht, h⟩ := List.forall_mem_cons.1 h
    have hkeep : isRelease t = true ↔ NamesRelease t := isRelease_iff ht
    unfold bullets at ih ⊢
    by_cases hr : isRelease t = true
    · rw [List.filter_cons_of_neg (by simpa using hr), ← ih h]
      constructor
      · intro hl
        cases hl with
        | release _ hl => exact hl
        | bullet hn _ => exact absurd (hkeep.1 hr) hn
      · exact .release (hkeep.1 hr)
    · rw [List.filter_cons_of_pos (by simpa using hr), List.map_cons]
      have hn : ¬ NamesRelease t := fun hn => hr (hkeep.2 hn)
      constructor
      · intro hl
        cases hl with
        | release hn' _ => exact absurd hn' hn
        | bullet _ hl => rw [(ih h).1 hl]
      · rintro rfl
        exact .bullet hn ((ih h).2 rfl)

/-- The name of a release holds no character at which a line ends. -/
theorem NamesRelease.endsLine (h : NamesRelease t) : ∀ c ∈ t, Text.endsLine c = false := by
  have decimal : ∀ {c : Char}, Text.isDecimal c = true → Text.endsLine c = false := by
    intro c hc
    refine Bool.eq_false_iff.2 (fun he => ?_)
    have hten : c.toNat ∈ [10, 11, 12, 13, 28, 29, 30, 0x85, 0x2028, 0x2029] := by
      unfold Text.endsLine at he
      simp only [Bool.or_eq_true, Bool.and_eq_true, decide_eq_true_eq] at he
      simp only [List.mem_cons, List.not_mem_nil, or_false]
      omega
    have hnone : ∀ n ∈ [10, 11, 12, 13, 28, 29, 30, 0x85, 0x2028, 0x2029],
        Text.isDecimal (Char.ofNat n) = false := by decide
    have hno := hnone _ hten
    rw [Char.ofNat_toNat, hc] at hno
    cases hno
  have triple : ∀ {u : Text}, IsTriple u → ∀ c ∈ u, Text.endsLine c = false := by
    rintro u ⟨x, y, z, hx, hy, hz, rfl⟩ c hc
    simp only [List.mem_append, List.mem_cons] at hc
    rcases hc with hc | rfl | hc | rfl | hc
    · exact decimal (hx.2 c hc)
    · rfl
    · exact decimal (hy.2 c hc)
    · rfl
    · exact decimal (hz.2 c hc)
  rcases h with h | ⟨r, rfl, h⟩
  · exact triple h
  · exact List.forall_mem_cons.2 ⟨rfl, triple h⟩

/-- A character of a subject that names no release stands in a changelog with its bullet. -/
theorem mem_joined_of_listed (h : Listed ts bs) (ht : t ∈ ts) (hn : ¬ NamesRelease t) {c : Char}
    (hc : c ∈ t) : c ∈ ['\n'].intercalate bs := by
  refine Text.mem_intercalate_of_mem (t := "* " ++ t) ?_ (List.mem_append_right _ hc)
  induction h with
  | none => cases ht
  | release hr _ ih =>
    rcases List.mem_cons.1 ht with rfl | ht
    · exact absurd hr hn
    · exact ih ht
  | bullet _ _ ih =>
    rcases List.mem_cons.1 ht with rfl | ht
    · exact List.mem_cons_self
    · exact List.mem_cons_of_mem _ (ih ht)

theorem mem_of_mem_bullets {b : Text} (h : b ∈ bullets ts) : ∃ t ∈ ts, b = "* " ++ t := by
  obtain ⟨t, ht, rfl⟩ := List.mem_map.1 h
  exact ⟨t, List.mem_of_mem_filter ht, rfl⟩

/-- A changelog that lists the subjects as well as their pieces: then there is no line end in
them. -/
theorem endsLine_of_listed (h : ∀ t ∈ ts, IsSubject t) (hbs : Listed ts bs)
    (he : ['\n'].intercalate bs = ['\n'].intercalate (bullets (ts.flatMap Text.pieces))) :
    ∀ t ∈ ts, ∀ c ∈ t, Text.endsLine c = false := by
  intro t ht c hc
  by_cases hn : NamesRelease t
  · exact hn.endsLine c hc
  · have hm := mem_joined_of_listed hbs ht hn hc
    rw [he] at hm
    rcases Text.mem_of_mem_intercalate hm with rfl | ⟨b, hb, hc'⟩
    · exact absurd hc (h t ht).lineFeed
    · obtain ⟨u, hu, rfl⟩ := mem_of_mem_bullets hb
      rcases List.mem_append.1 hc' with hc' | hc'
      · have hstar : ("* " : Text).all (fun d => !Text.endsLine d) = true := by decide
        simpa using List.all_eq_true.1 hstar c hc'
      · exact endsLine_of_mem_flatMap h hu c hc'

/-! ## §4. The changelog. -/

variable {tags : Text} {s : Site}

theorem on_changelog_of_subjects (root : Path) (version : Text)
    (htags : Job.nextExit s.exits = .finished 0 tags)
    (hlog : Job.nextExit s.exits.tail = .finished 0 (['\n'].intercalate ts))
    (h : ∀ t ∈ ts, IsSubject t) :
    (Job.on (changelog root version) s).1
      = .ok (['\n'].intercalate (bullets (ts.flatMap Text.pieces))) := by
  rw [on_changelog, htags, hlog, ← subjectsIn_joined h]
  rfl

/-- **There is one bullet for each piece of a subject**, in order, but for those that name a
release.  So there is one for each subject exactly if no subject holds a character at which a
line ends. -/
theorem changelog_of_subjects (root : Path) (version : Text)
    (htags : Job.nextExit s.exits = .finished 0 tags)
    (hlog : Job.nextExit s.exits.tail = .finished 0 (['\n'].intercalate ts))
    (h : ∀ t ∈ ts, IsSubject t) :
    (∃ bs, Listed (ts.flatMap Text.pieces) bs
        ∧ (Job.on (changelog root version) s).1 = .ok (['\n'].intercalate bs))
      ∧ ((∃ bs, Listed ts bs ∧ (Job.on (changelog root version) s).1 = .ok (['\n'].intercalate bs))
        ↔ ∀ t ∈ ts, ∀ c ∈ t, Text.endsLine c = false) := by
  have hon := on_changelog_of_subjects root version htags hlog h
  have hfeed : ∀ t ∈ ts.flatMap Text.pieces, '\n' ∉ t := fun t ht hm =>
    absurd (endsLine_of_mem_flatMap h ht '\n' hm) (by decide)
  have hpieces := (listed_iff hfeed).2 rfl
  refine ⟨⟨_, hpieces, hon⟩, ?_, ?_⟩
  · rintro ⟨bs, hbs, he⟩
    exact endsLine_of_listed h hbs (Except.ok.inj (he.symm.trans hon))
  · intro hends
    rw [flatMap_pieces_eq_self h hends] at hpieces hon
    exact ⟨_, hpieces, hon⟩

/-- A site with two tags and the given subjects behind the later one. -/
def subjectSite (subjects : List Text) : Site :=
  (Site.fresh []).exiting
    [.finished 0 "0.4.0\n0.3.0\n", .finished 0 (['\n'].intercalate subjects)]

/-- Two subjects and the one of a release, a unit separator inside the first. -/
def plainSubjects : List Text := ["feat: css\x1fjs", "0.4.1", "fix: crash"]

theorem changelog_of_plainSubjects :
    (∀ t ∈ plainSubjects, IsSubject t)
      ∧ (∃ bs, Listed plainSubjects bs
        ∧ (Job.on (changelog Path.here "0.5.0") (subjectSite plainSubjects)).1
          = .ok (['\n'].intercalate bs)) := by
  have h : ∀ t ∈ plainSubjects, IsSubject t := by decide +kernel
  have hall := changelog_of_subjects Path.here "0.5.0" (s := subjectSite plainSubjects) rfl rfl h
  have hends : plainSubjects.all (fun t => t.all (fun c => !Text.endsLine c)) = true := by
    decide +kernel
  exact ⟨h, hall.2.2 (by simpa using hends)⟩

/-- A subject with a line separator. -/
def separatedSubject : Text := "feat: css\u2028js"

/-- **A subject can be split in two.** -/
theorem separatedSubject_split :
    IsSubject separatedSubject
      ∧ (Job.on (changelog Path.here "0.5.0") (subjectSite [separatedSubject])).1
        = .ok "* feat: css\n* js"
      ∧ ¬ ∃ bs, Listed [separatedSubject] bs
        ∧ (Job.on (changelog Path.here "0.5.0") (subjectSite [separatedSubject])).1
          = .ok (['\n'].intercalate bs) := by
  have h : IsSubject separatedSubject := by decide +kernel
  have hon : (Job.on (changelog Path.here "0.5.0") (subjectSite [separatedSubject])).1
      = .ok "* feat: css\n* js" := eq_ok_of_toOption (by decide +kernel)
  refine ⟨h, hon, ?_⟩
  rintro ⟨bs, hbs, he⟩
  have hbs := (listed_iff (List.forall_mem_singleton.2 h.lineFeed)).1 hbs
  rw [hon, hbs] at he
  exact absurd (Except.ok.inj he) (by decide +kernel)

end Notes
end Repin
