/-
  Repin.Proofs.Notes.History
  ──────────────────────────
  **WHAT THE NOTES ASK THE HISTORY, WHATEVER IT ANSWERS.**

  The notes ask for the tags and then for the commits since one of them.  A tag is whatever
  a line of an output says, so what goes into the second call has to be harmless whatever
  the first one gives:

    • `isRelease_iff` — a line names a release if it is three numbers with dots between
      them, behind a `v` or not,
    • `rangeOf_previous` — the range of commits begins at the first line that names another
      release, and no line makes it look like an option; there is one such range
      (`Since.unique`).

  `compose_cases` lists the three ways in which the notes can end, each with its calls.
-/
import Repin.Proofs.Notes
import Repin.Proofs.Text.Trimmed

namespace Repin
namespace Notes

/-! ## §1. Names of releases. -/

/-- A number: decimal digits of any script, at least one of them. -/
def IsNumber (s : Text) : Prop := s ≠ [] ∧ ∀ c ∈ s, Text.isDecimal c = true

/-- Three numbers with dots between them. -/
def IsTriple (s : Text) : Prop :=
  ∃ a b c, IsNumber a ∧ IsNumber b ∧ IsNumber c ∧ s = a ++ '.' :: (b ++ '.' :: c)

/-- The name of a release: three numbers, with a `v` before them or not. -/
def NamesRelease (s : Text) : Prop := IsTriple s ∨ ∃ r, s = 'v' :: r ∧ IsTriple r

variable {s r : Text}

theorem number?_eq_some :
    number? s = some r
      ↔ ∃ a, IsNumber a ∧ s = a ++ r ∧ ∀ c ∈ r.head?, Text.isDecimal c = false := by
  unfold number?
  constructor
  · intro h
    split at h
    · next hs =>
      cases h
      refine ⟨s.takeWhile Text.isDecimal, ⟨?_, fun c hc => List.mem_takeWhile_imp hc⟩, ?_, ?_⟩
      · cases s with
        | nil => cases hs
        | cons c s =>
          have hc : Text.isDecimal c = true := hs
          rw [List.takeWhile_cons_of_pos hc]
          exact List.cons_ne_nil _ _
      · exact List.takeWhile_append_dropWhile.symm
      · intro c hc
        have hstop := List.head?_dropWhile_not Text.isDecimal s
        rw [Option.mem_def.1 hc] at hstop
        exact hstop
    · cases h
  · rintro ⟨a, ⟨hne, ha⟩, rfl, hr⟩
    cases a with
    | nil => exact absurd rfl hne
    | cons c a =>
      have hc : Option.any Text.isDecimal (c :: a ++ r).head? = true := ha c List.mem_cons_self
      rw [if_pos hc, List.dropWhile_append_of_pos ha]
      cases r with
      | nil => rfl
      | cons d r => rw [List.dropWhile_cons_of_neg (Bool.eq_false_iff.1 (hr d rfl))]

/-- Behind three numbers with dots between them. -/
def triple? (s : Text) : Option Text := do
  let r ← Text.behind? ['.'] (← number? s)
  let r ← Text.behind? ['.'] (← number? r)
  number? r

theorem triple?_eq_some :
    triple? s = some r ↔ ∃ a b c, IsNumber a ∧ IsNumber b ∧ IsNumber c
      ∧ s = a ++ '.' :: (b ++ '.' :: (c ++ r)) ∧ ∀ d ∈ r.head?, Text.isDecimal d = false := by
  have hdot : ∀ t : Text, ∀ c ∈ ('.' :: t).head?, Text.isDecimal c = false := by
    intro t c hc
    obtain rfl : '.' = c := Option.some.inj hc
    decide
  unfold triple?
  simp only [Option.bind_eq_bind, Option.bind_eq_some_iff, number?_eq_some,
    Text.behind?_eq_some_iff]
  constructor
  · rintro ⟨x, ⟨a, ha, rfl, -⟩, y, rfl, z, ⟨b, hb, rfl, -⟩, w, rfl, c, hc, rfl, hr⟩
    exact ⟨a, b, c, ha, hb, hc, rfl, hr⟩
  · rintro ⟨a, b, c, ha, hb, hc, rfl, hr⟩
    exact ⟨_, ⟨a, ha, rfl, hdot _⟩, _, rfl, _, ⟨b, hb, rfl, hdot _⟩, _, rfl, c, hc, rfl, hr⟩

theorem triple?_eq_nil_iff : triple? s = some [] ↔ IsTriple s := by
  rw [triple?_eq_some]
  constructor
  · rintro ⟨a, b, c, ha, hb, hc, he, -⟩
    rw [List.append_nil] at he
    exact ⟨a, b, c, ha, hb, hc, he⟩
  · rintro ⟨a, b, c, ha, hb, hc, he⟩
    refine ⟨a, b, c, ha, hb, hc, ?_, nofun⟩
    rw [List.append_nil]
    exact he

/-- A number does not begin with the letter that may stand before a release. -/
theorem not_isTriple_v (r : Text) : ¬ IsTriple ('v' :: r) := by
  rintro ⟨a, b, c, ⟨hne, ha⟩, -, -, he⟩
  cases a with
  | nil => exact hne rfl
  | cons d a =>
    obtain rfl : 'v' = d := (List.cons.inj he).1
    exact absurd (ha 'v' List.mem_cons_self) (by decide)

/-- **A line is known as a release if it names one.** -/
theorem isRelease_iff (h : '\n' ∉ s) : isRelease s = true ↔ NamesRelease s := by
  have heq : isRelease s = (decide (triple? ((Text.behind? ['v'] s).getD s) = some [])
      || decide (triple? ((Text.behind? ['v'] s).getD s) = some ['\n'])) := rfl
  -- Without a line feed there is nothing behind the last number.
  have hfeed : ∀ t : Text, '\n' ∉ t → triple? t ≠ some ['\n'] := by
    intro t ht he
    obtain ⟨a, b, c, -, -, -, rfl, -⟩ := triple?_eq_some.1 he
    exact ht (by simp)
  rw [heq, Bool.or_eq_true, decide_eq_true_eq, decide_eq_true_eq]
  by_cases hv : ∃ r, s = 'v' :: r
  · obtain ⟨r, rfl⟩ := hv
    have hr : (Text.behind? ['v'] ('v' :: r)).getD ('v' :: r) = r := rfl
    have hno := hfeed r (fun hm => h (List.mem_cons_of_mem 'v' hm))
    rw [hr, or_iff_left hno, triple?_eq_nil_iff]
    constructor
    · exact fun ht => .inr ⟨r, rfl, ht⟩
    · rintro (ht | ⟨r', he, ht⟩)
      · exact absurd ht (not_isTriple_v r)
      · cases he
        exact ht
  · have hs : (Text.behind? ['v'] s).getD s = s := by
      cases hb : Text.behind? ['v'] s with
      | none => rfl
      | some r => exact absurd ⟨r, Text.behind?_eq_some_iff.1 hb⟩ hv
    rw [hs, or_iff_left (hfeed s h), triple?_eq_nil_iff]
    constructor
    · exact .inl
    · rintro (ht | ⟨r, he, -⟩)
      · exact ht
      · exact absurd ⟨r, he⟩ hv

/-! ## §2. The range of commits. -/

variable {version output : Text} {tags : List Text}

/-- The tag names a release other than the given version. -/
def NamesOther (version t : Text) : Prop := t ≠ version ∧ NamesRelease t

/-- The range of the commits since the first tag that names another release; all of them
without one. -/
inductive Since (version : Text) : List Text → Text → Prop
  | all {tags : List Text} : (∀ t ∈ tags, ¬ NamesOther version t) → Since version tags "HEAD"
  | tag {before : List Text} {t : Text} (behind : List Text) :
      (∀ u ∈ before, ¬ NamesOther version u) → NamesOther version t →
      Since version (before ++ t :: behind) (t ++ "..HEAD")

/-- The first tag decides, or the tags behind it do. -/
theorem Since.cons_cases {t r : Text} (h : Since version (t :: tags) r) :
    (NamesOther version t ∧ r = t ++ "..HEAD") ∨ (¬ NamesOther version t ∧ Since version tags r) := by
  generalize hl : t :: tags = l at h
  cases h with
  | all hno =>
    subst hl
    exact .inr ⟨hno t List.mem_cons_self, .all fun u hu => hno u (List.mem_cons_of_mem t hu)⟩
  | @tag before u behind hbefore hu =>
    cases before with
    | nil =>
      cases hl
      exact .inl ⟨hu, rfl⟩
    | cons b before =>
      cases hl
      exact .inr ⟨hbefore t List.mem_cons_self,
        .tag behind (fun w hw => hbefore w (List.mem_cons_of_mem t hw)) hu⟩

/-- There is one such range. -/
theorem Since.unique {r r' : Text} (h : Since version tags r) (h' : Since version tags r') :
    r = r' := by
  induction tags with
  | nil =>
    have hnil : ∀ {r : Text}, Since version [] r → r = "HEAD" := by
      intro r h
      generalize hl : [] = l at h
      cases h with
      | all _ => rfl
      | tag behind _ _ => exact absurd hl.symm (List.append_ne_nil_of_right_ne_nil _ nofun)
    rw [hnil h, hnil h']
  | cons t tags ih =>
    rcases h.cons_cases with ⟨ht, rfl⟩ | ⟨hno, h⟩
    · rcases h'.cons_cases with ⟨-, rfl⟩ | ⟨hno, -⟩
      · rfl
      · exact absurd ht hno
    · rcases h'.cons_cases with ⟨ht, -⟩ | ⟨-, h'⟩
      · exact absurd ht hno
      · exact ih h h'

/-- The name of a release begins with its first letter or with a digit. -/
theorem NamesRelease.exists_cons (h : NamesRelease s) : ∃ c t, s = c :: t ∧ c ≠ '-' := by
  have triple : ∀ {t : Text}, IsTriple t → ∃ c u, t = c :: u ∧ c ≠ '-' := by
    rintro t ⟨a, b, c, ⟨hne, ha⟩, -, -, rfl⟩
    cases a with
    | nil => exact absurd rfl hne
    | cons d a =>
      refine ⟨d, _, rfl, ?_⟩
      rintro rfl
      exact absurd (ha '-' List.mem_cons_self) (by decide)
  rcases h with h | ⟨r, rfl, -⟩
  · exact triple h
  · exact ⟨'v', r, rfl, by decide⟩

/-- **No range looks like an option.** -/
theorem Since.head?_ne (h : Since version tags r) : r.head? ≠ some '-' := by
  cases h with
  | all => decide
  | tag behind _ ht =>
    obtain ⟨c, u, rfl, hc⟩ := ht.2.exists_cons
    exact fun he => hc (Option.some.inj he)

theorem namesOther_iff (h : '\n' ∉ s) :
    (s ≠ version && isRelease s) = true ↔ NamesOther version s := by
  rw [Bool.and_eq_true, decide_eq_true_eq, isRelease_iff h]
  exact Iff.rfl

/-- The range is the one that the previous tag begins. -/
theorem since_previousOf (version : Text) (h : ∀ t ∈ tags, '\n' ∉ t) :
    Since version tags (range (previousOf version tags)) := by
  unfold previousOf
  cases hf : tags.find? (fun t => t ≠ version && isRelease t) with
  | none =>
    refine .all (fun t ht hn => ?_)
    exact List.find?_eq_none.1 hf t ht ((namesOther_iff (h t ht)).2 hn)
  | some t =>
    obtain ⟨ht, before, behind, rfl, hbefore⟩ := List.find?_eq_some_iff_append.1 hf
    have hline : '\n' ∉ t := h t (List.mem_append_right _ List.mem_cons_self)
    have hn := (namesOther_iff hline).1 ht
    have hrange : range (some t) = t ++ "..HEAD" := by
      obtain ⟨c, u, rfl, -⟩ := hn.2.exists_cons
      rfl
    rw [hrange]
    refine .tag behind (fun u hu hother => ?_) hn
    have hno := hbefore u hu
    rw [(namesOther_iff (h u (List.mem_append_left _ hu))).2 hother] at hno
    cases hno

theorem lineFeed_notMem_of_mem_lines {t : Text} (h : t ∈ Text.lines output) : '\n' ∉ t :=
  fun hm => absurd (Text.endsLine_of_mem_lines h '\n' hm) (by decide)

/-- What holds of the range of commits that an output for the tags leads to. -/
structure RangeOf (version output r : Text) : Prop where
  since : Since version (Text.lines (Text.trimmed output)) r
  /-- The blanks that are trimmed play a part only where they belong to a line. -/
  untrimmed : Text.NoBlankEnds (Text.lines output) → Since version (Text.lines output) r
  /-- It does not look like an option. -/
  safe : r.head? ≠ some '-'

/-- **The range of commits, for every output.** -/
theorem rangeOf_previous (version output : Text) :
    RangeOf version output (range (previousOf version (Text.lines (Text.trimmed output)))) where
  since := since_previousOf version (fun _ ht => lineFeed_notMem_of_mem_lines ht)
  untrimmed := by
    intro h
    have hempty : ∀ t : Text, t.isEmpty = true → (t ≠ version && isRelease t) = false := by
      intro t ht
      rw [List.isEmpty_iff.1 ht, Bool.and_eq_false_iff]
      exact .inr (by decide)
    have hsame : previousOf version (Text.lines (Text.trimmed output))
        = previousOf version (Text.lines output) := by
      unfold previousOf
      rw [Text.lines_trimmed h]
      exact Text.find?_rdropWhile_dropWhile hempty _
    rw [hsame]
    exact since_previousOf version (fun _ ht => lineFeed_notMem_of_mem_lines ht)
  safe := (since_previousOf version (fun _ ht => lineFeed_notMem_of_mem_lines ht)).head?_ne

/-! ## §3. How the notes end. -/

/-- The call for the subjects of the commits in a range. -/
def logCall (root : Path) (r : Text) : Call :=
  Job.gitCall ["log", r, "--pretty=format:%s"] (some root) true

/-- The changelog made of an output for the subjects. -/
def changesIn (log : Text) : Text := ['\n'].intercalate (bullets (subjectsIn (Text.trimmed log)))

/-- The call has failed, with what can be said about it: its status is not zero, or it could not
be started. -/
inductive Failed (c : Call) : Exit → Text → Prop
  | status {n : Int} (output : Text) : n ≠ 0 → Failed c (.finished n output) (c.failureMessage n)
  | notStarted (e : SystemError) : Failed c (.notStarted e) e.message

/-- How the notes end and which calls they make, by how the two calls end. -/
inductive Composed (root : Path) (version : Text) (first second : Exit) :
    Except Fault Text → List Call → Prop
  | noTags {reason : Text} : Failed (tagsCall root) first reason →
      Composed root version first second (.error (.historyUnreadable root reason)) [tagsCall root]
  | noCommits {output r reason : Text} : first = .finished 0 output → RangeOf version output r →
      Failed (logCall root r) second reason →
      Composed root version first second (.error (.historyUnreadable root reason))
        [tagsCall root, logCall root r]
  | notes {output r log : Text} : first = .finished 0 output → RangeOf version output r →
      second = .finished 0 log →
      Composed root version first second (.ok (composed (changesIn log)))
        [tagsCall root, logCall root r]

/-- What a call gives that is not stopped while it runs. -/
theorem outputOf_cases {c : Call} (hc : c.checked = true) {e : Exit} (he : e ≠ .timedOut) :
    (∃ output, e = .finished 0 output ∧ Job.outputOf c e = .ok (Text.trimmed output))
      ∨ ∃ f reason, Job.outputOf c e = .error f ∧ Failed c e reason
        ∧ ∀ root, unreadable root f = .historyUnreadable root reason := by
  cases e with
  | finished n output =>
    by_cases hn : n = 0
    · subst hn
      refine .inl ⟨output, rfl, ?_⟩
      unfold Job.outputOf
      simp
    · refine .inr ⟨.commandFailed c n, c.failureMessage n, ?_, .status output hn, fun _ => rfl⟩
      unfold Job.outputOf
      simp [hc, hn]
  | timedOut => exact absurd rfl he
  | notStarted x => exact .inr ⟨.system x, x.message, rfl, .notStarted x, fun _ => rfl⟩

/-- The notes are made of the changelog of two exits. -/
theorem on_compose (root : Path) (version : Text) (s : Site) :
    Job.on (compose root version) s
      = (((changesOf root version (Job.nextExit s.exits) (Job.nextExit s.exits.tail)).mapError
          (unreadable root)).map composed,
        { s with exits := s.exits.drop (callsOf root version (Job.nextExit s.exits)).length
                 log := s.log
                  ++ (callsOf root version (Job.nextExit s.exits)).map Event.called }) := by
  unfold compose
  rw [Job.on_bind, ← on_changelog, ← after_changelog]
  rcases Job.on (changelog root version) s with ⟨f | changes, t⟩ <;> rfl

theorem nextExit_ne_timedOut {exits : List Exit} {n k : Nat} (hk : k < n)
    (h : ∀ e ∈ exits.take n, e ≠ .timedOut) : Job.nextExit (exits.drop k) ≠ .timedOut := by
  cases hd : exits.drop k with
  | nil => exact nofun
  | cons e es =>
    have hget : exits[k]? = some e := by
      rw [← Nat.add_zero k, ← List.getElem?_drop, hd]
      rfl
    refine h e (List.mem_of_getElem? (i := k) ?_)
    rw [List.getElem?_take_of_lt hk, hget]

/-- **The notes end in one of three ways**, and leave nothing behind but their calls. -/
theorem compose_cases (root : Path) (version : Text) {s : Site}
    (hexits : ∀ e ∈ s.exits.take 2, e ≠ .timedOut) :
    ∃ result calls, Composed root version (Job.nextExit s.exits) (Job.nextExit s.exits.tail)
        result calls
      ∧ Job.on (compose root version) s = (result,
        { s with exits := s.exits.drop calls.length, log := s.log ++ calls.map Event.called }) := by
  have hfirst : Job.nextExit s.exits ≠ .timedOut := nextExit_ne_timedOut (k := 0) (by decide) hexits
  have hsecond : Job.nextExit s.exits.tail ≠ .timedOut := by
    rw [← List.drop_one]
    exact nextExit_ne_timedOut (by decide) hexits
  rw [on_compose]
  unfold changesOf callsOf
  rcases outputOf_cases (c := tagsCall root) rfl hfirst with
    ⟨output, he, hout⟩ | ⟨f, reason, hout, hfailed, hf⟩
  · have hrange := rangeOf_previous version output
    rw [hout]
    simp only [Except.map, bind, Except.bind]
    generalize previousOf version (Text.lines (Text.trimmed output)) = since at hrange
    rcases outputOf_cases (c := commitsCall root since) rfl hsecond with
      ⟨log, he', hlog⟩ | ⟨f, reason, hlog, hfailed, hf⟩
    · rw [hlog]
      exact ⟨_, _, .notes he hrange he', rfl⟩
    · rw [hlog]
      refine ⟨_, _, .noCommits he hrange hfailed, ?_⟩
      rw [← hf root]
      rfl
  · rw [hout]
    refine ⟨_, _, .noTags hfailed, ?_⟩
    rw [← hf root]
    rfl

end Notes
end Repin
