/-
  Repin.Proofs.Update.Commands
  ────────────────────────────
  **THE COMMANDS OF AN UPDATE, AND WHERE THEY STOP.**

  The tests and the five commands that publish are one list of steps.  `advance`
  says how far such a list comes when the commands end as listed: it is the
  smallest model of "one after the other, up to the first failure".

    • `advance_cases` — every step before the last one that was started succeeded,
      and there is a fault exactly if the last one did not,
    • `Performs.bind` — steps behind steps are the steps of the two lists in a row,
    • `performs_runTests`, `performs_publish` — the jobs of `Repin.Update` are such
      lists.

  The result is `calls_of_run`: the commands that a run starts are a beginning of
  the plan, and how long it is and how the run ends determine each other.  `plan`
  spells the six commands out; that they are those of the job is `take_stepsOf`.
-/
import Repin.Proofs.Update.Stages

namespace Repin

/-- Did the command end with status zero? -/
def Exit.isSuccess : Exit → Bool
  | .finished status _ => status = 0
  | .timedOut => false
  | .notStarted _ => false

/-- How the `i`-th of the next commands ends: as is listed, or well where nothing is. -/
def exitAt (exits : List Exit) (i : Nat) : Exit := exits[i]?.getD (.finished 0 [])

theorem exitAt_tail (exits : List Exit) (i : Nat) : exitAt exits.tail i = exitAt exits (i + 1) := by
  unfold exitAt
  rw [List.getElem?_tail]

theorem nextExit_eq (exits : List Exit) : Job.nextExit exits = exitAt exits 0 := by
  cases exits <;> rfl

namespace Update

/-! ## §1. Steps up to the first failure. -/

/-- A command as an update starts it: in the repository, within the limit on time,
with its status unchecked and its output left alone. -/
def callOf (c : Config) (args : List Text) : Call :=
  { args, directory := some c.root, timeout := c.commandTimeout, checked := false,
    captured := false }

/-- A command, and the fault that keeping it from its work is. -/
structure Step where
  call : Call
  fault : Obstacle → Fault

theorem obstacle?_eq_none_iff {call : Call} {e : Exit} :
    obstacle? call e = none ↔ e.isSuccess = true := by
  unfold obstacle? Exit.isSuccess
  cases e with
  | finished status output => by_cases h : status = 0 <;> simp [h]
  | timedOut => simp
  | notStarted e => simp

/-- How many of the steps are started, and the fault that ends them, if one does. -/
def advance : List Step → List Exit → Nat × Option Fault
  | [], _ => (0, none)
  | st :: steps, exits =>
    match obstacle? st.call (exitAt exits 0) with
    | some o => (1, some (st.fault o))
    | none => ((advance steps exits.tail).1 + 1, (advance steps exits.tail).2)

/-- Each step but the last one that was started succeeded; the last one did not
exactly if there is a fault, which is then the fault of that step. -/
theorem advance_cases (steps : List Step) (exits : List Exit) :
    (∀ i, i + 1 < (advance steps exits).1 → (exitAt exits i).isSuccess = true)
    ∧ (((advance steps exits).2 = none ∧ (advance steps exits).1 = steps.length
          ∧ ∀ i, i < steps.length → (exitAt exits i).isSuccess = true)
      ∨ ∃ n st o, (advance steps exits).1 = n + 1 ∧ steps[n]? = some st
          ∧ obstacle? st.call (exitAt exits n) = some o
          ∧ (advance steps exits).2 = some (st.fault o)) := by
  induction steps generalizing exits with
  | nil => exact ⟨fun i hi => absurd hi (Nat.not_lt_zero _), .inl ⟨rfl, rfl, by simp⟩⟩
  | cons st steps ih =>
    cases ho : obstacle? st.call (exitAt exits 0) with
    | some o =>
      simp only [advance, ho]
      exact ⟨fun i hi => absurd hi (by omega), .inr ⟨0, st, o, rfl, rfl, ho, rfl⟩⟩
    | none =>
      have h0 := obstacle?_eq_none_iff.1 ho
      obtain ⟨hbefore, hlast⟩ := ih exits.tail
      simp only [advance, ho]
      refine ⟨fun i hi => ?_, ?_⟩
      · cases i with
        | zero => exact h0
        | succ i => rw [← exitAt_tail]; exact hbefore i (by omega)
      · rcases hlast with ⟨hf, hn, hall⟩ | ⟨n, st', o, hn, hst, hob, hf⟩
        · refine .inl ⟨hf, by rw [hn]; rfl, fun i hi => ?_⟩
          cases i with
          | zero => exact h0
          | succ i => rw [← exitAt_tail]; exact hall i (by simpa using hi)
        · rw [exitAt_tail] at hob
          exact .inr ⟨n + 1, st', o, by rw [hn], hst, hob, hf⟩

theorem advance_le (steps : List Step) (exits : List Exit) :
    (advance steps exits).1 ≤ steps.length := by
  rcases (advance_cases steps exits).2 with ⟨-, hn, -⟩ | ⟨n, st, o, hn, hst, -, -⟩
  · omega
  · have := (List.getElem?_eq_some_iff.1 hst).1
    omega

theorem advance_append (steps more : List Step) (exits : List Exit) :
    advance (steps ++ more) exits
      = match (advance steps exits).2 with
        | some f => ((advance steps exits).1, some f)
        | none => (steps.length + (advance more (exits.drop steps.length)).1,
            (advance more (exits.drop steps.length)).2) := by
  induction steps generalizing exits with
  | nil => simp [advance]
  | cons st steps ih =>
    cases ho : obstacle? st.call (exitAt exits 0) with
    | some o => simp [advance, ho]
    | none =>
      have hd : exits.drop (st :: steps).length = exits.tail.drop steps.length := by
        rw [List.length_cons, List.drop_tail]
      rw [List.cons_append, hd]
      simp only [advance, ho, ih]
      cases (advance steps exits.tail).2 with
      | some f => rfl
      | none =>
        simp only [List.length_cons]
        congr 1
        omega

/-! ## §2. Jobs that perform steps. -/

/-- The end of a list of steps. -/
def ending : Option Fault → Except Fault Unit
  | none => .ok ()
  | some f => .error f

/-- The job starts the commands of the steps up to the first failure, and does
nothing else that the files, the exits or later commands can tell. -/
structure Performs (x : Job Unit) (steps : List Step) : Prop where
  result : ∀ s, (Job.on x s).1 = ending (advance steps s.exits).2
  calls : ∀ s, (Job.on x s).2.calls
    = s.calls ++ (steps.map Step.call).take (advance steps s.exits).1
  exits : ∀ s, (Job.on x s).2.exits = s.exits.drop (advance steps s.exits).1
  tree : ∀ s, (Job.on x s).2.tree = s.tree

namespace Performs

theorem say (m : Text) : Performs (Job.say m) [] where
  result s := rfl
  calls s := by simp [Site.calls, Event.call?, advance]
  exits s := rfl
  tree s := rfl

theorem pure : Performs (pure ()) [] where
  result s := rfl
  calls s := by simp [advance]
  exits s := rfl
  tree s := rfl

theorem bind {x y : Job Unit} {steps more : List Step} (hx : Performs x steps)
    (hy : Performs y more) : Performs (x >>= fun _ => y) (steps ++ more) := by
  have key : ∀ s, (Job.on (x >>= fun _ => y) s).1 = ending (advance (steps ++ more) s.exits).2
      ∧ (Job.on (x >>= fun _ => y) s).2.calls
        = s.calls ++ ((steps ++ more).map Step.call).take (advance (steps ++ more) s.exits).1
      ∧ (Job.on (x >>= fun _ => y) s).2.exits = s.exits.drop (advance (steps ++ more) s.exits).1
      ∧ (Job.on (x >>= fun _ => y) s).2.tree = s.tree := by
    intro s
    have hr := hx.result s
    have hc := hx.calls s
    have he := hx.exits s
    have ht := hx.tree s
    rcases hs : Job.on x s with ⟨r, t⟩
    rw [hs] at hr hc he ht
    simp only at hr hc he ht
    rcases (advance_cases steps s.exits).2 with ⟨hf, hn, -⟩ | ⟨n, st, o, -, -, -, hf⟩
    · -- All steps of `x` succeeded, so `y` goes on from there.
      have ha : advance (steps ++ more) s.exits
          = (steps.length + (advance more t.exits).1, (advance more t.exits).2) := by
        rw [advance_append, hf, he, hn]
      rw [hf] at hr
      rw [hr] at hs
      rw [hn, List.take_of_length_le (by simp)] at hc
      rw [Job.on_bind_ok hs, hy.result t, hy.calls t, hy.exits t, hy.tree t, ha]
      refine ⟨rfl, ?_, ?_, ht⟩
      · rw [hc, List.append_assoc, List.map_append, ← List.length_map Step.call,
          List.take_length_add_append]
      · rw [he, hn, List.drop_drop]
    · -- A step of `x` failed, so `y` is not come to.
      have ha : advance (steps ++ more) s.exits
          = ((advance steps s.exits).1, some (st.fault o)) := by
        rw [advance_append, hf]
      rw [hf] at hr
      rw [hr] at hs
      rw [show Job.on (x >>= fun _ => y) s = (.error (st.fault o), t) from
        Job.on_bind_error hs _, ha]
      refine ⟨rfl, ?_, he, ht⟩
      rw [List.map_append, List.take_append_of_le_length
        (by rw [List.length_map]; exact advance_le steps s.exits)]
      exact hc
  exact ⟨fun s => (key s).1, fun s => (key s).2.1, fun s => (key s).2.2.1,
    fun s => (key s).2.2.2⟩

theorem forM {α : Type} {f : α → Job PUnit} {step : α → Step} (h : ∀ a, Performs (f a) [step a])
    (as : List α) : Performs (as.forM f) (as.map step) := by
  induction as with
  | nil => exact pure
  | cons a as ih =>
    show Performs (f a >>= fun _ => as.forM f) ([step a] ++ as.map step)
    exact (h a).bind ih

end Performs

theorem performs_runStep (c : Config) (args : List Text) (fault : Obstacle → Fault) :
    Performs (runStep c args fault) [⟨callOf c args, fault⟩] := by
  have key : ∀ s, Job.on (runStep c args fault) s
      = (ending ((obstacle? (callOf c args) (exitAt s.exits 0)).map fault),
        { s with exits := s.exits.tail, log := s.log ++ [.called (callOf c args)] }) := by
    intro s
    unfold runStep callOf
    rw [Job.on_bind_ok (Job.on_start _ s), nextExit_eq]
    cases obstacle? _ (exitAt s.exits 0) <;> rfl
  refine ⟨fun s => ?_, fun s => ?_, fun s => ?_, fun s => ?_⟩
  · rw [key]
    unfold advance
    cases obstacle? (callOf c args) (exitAt s.exits 0) <;> rfl
  · rw [key]
    unfold advance
    cases obstacle? (callOf c args) (exitAt s.exits 0) <;> simp [Site.calls, Event.call?, advance]
  · rw [key]
    unfold advance
    cases obstacle? (callOf c args) (exitAt s.exits 0) <;> simp [advance]
  · rw [key]

/-- The step that tests an update. -/
def testStep (c : Config) : Step := ⟨callOf c c.testCommand, .testsFailed⟩

/-- The steps that publish a version. -/
def publishSteps (c : Config) (version : Text) : List Step :=
  (publishCommands c version).map
    (fun args => ⟨callOf c args, .publishFailed ([' '].intercalate args)⟩)

theorem performs_runTests (c : Config) : Performs (runTests c) [testStep c] :=
  (Performs.say _).bind (performs_runStep c c.testCommand .testsFailed)

theorem performs_publish (c : Config) (version : Text) :
    Performs (publish c version) (publishSteps c version) := by
  have hstep : ∀ args : List Text, Performs
      (Job.say ("  $ " ++ [' '].intercalate args) >>= fun _ =>
        runStep c args (.publishFailed ([' '].intercalate args)))
      [⟨callOf c args, .publishFailed ([' '].intercalate args)⟩] :=
    fun args => (Performs.say _).bind (performs_runStep c args _)
  exact (Performs.say _).bind (Performs.forM hstep (publishCommands c version))

/-! ## §3. The whole run. -/

/-- The commands that an update starts if all goes well, in order: the tests, and
those that publish the version. -/
def plan (c : Config) (version : Text) : List Call :=
  [callOf c c.testCommand,
   callOf c ["git", "add", "."],
   callOf c ["git", "commit", "-m", version],
   callOf c ["git", "push", c.remote, c.branch],
   callOf c ["git", "tag", version],
   callOf c ["git", "push", c.remote, version]]

/-- The steps of an update. -/
def stepsOf (c : Config) (skipPublish : Bool) (version : Text) : List Step :=
  testStep c :: if skipPublish then [] else publishSteps c version

theorem take_stepsOf (c : Config) (skipPublish : Bool) (version : Text) {n : Nat}
    (h : n ≤ (stepsOf c skipPublish version).length) :
    ((stepsOf c skipPublish version).map Step.call).take n = (plan c version).take n := by
  cases skipPublish with
  | true =>
    have hn : n ≤ 1 := h
    obtain rfl | rfl : n = 0 ∨ n = 1 := by omega
    · rfl
    · rfl
  | false => rfl

/-- A job that performs the steps of a run, followed by a last line and an outcome. -/
theorem on_then_say_of_performs {c : Config} {skipPublish : Bool} {new : Text} {x : Job Unit}
    (hx : Performs x (stepsOf c skipPublish new)) (line : Text) (outcome : Outcome) (s : Site) :
    (Job.on (x >>= fun _ => Job.say line >>= fun _ => pure outcome) s).1
        = (match (advance (stepsOf c skipPublish new) s.exits).2 with
          | some f => .error f
          | none => .ok outcome)
      ∧ (Job.on (x >>= fun _ => Job.say line >>= fun _ => pure outcome) s).2.calls
        = s.calls ++ (plan c new).take (advance (stepsOf c skipPublish new) s.exits).1
      ∧ (Job.on (x >>= fun _ => Job.say line >>= fun _ => pure outcome) s).2.tree = s.tree := by
  have hr := hx.result s
  have hc := hx.calls s
  have ht := hx.tree s
  rw [take_stepsOf c skipPublish new (advance_le _ _)] at hc
  rcases hs : Job.on x s with ⟨r, t⟩
  rw [hs] at hr hc ht
  simp only at hr hc ht
  cases hf : (advance (stepsOf c skipPublish new) s.exits).2 with
  | none =>
    rw [hf] at hr
    rw [hr] at hs
    rw [Job.on_bind_ok hs, Job.on_bind_ok (Job.on_say _ t), Job.on_pure]
    refine ⟨rfl, ?_, ht⟩
    rw [← hc]
    simp [Site.calls, Event.call?]
  | some f =>
    rw [hf] at hr
    rw [hr] at hs
    rw [show Job.on (x >>= fun _ => Job.say line >>= fun _ => pure outcome) s = (.error f, t) from
      Job.on_bind_error hs _]
    exact ⟨rfl, hc, ht⟩

/-- From its tests on, a run performs its steps; it comes to its end without a fault
of theirs. -/
theorem on_concluded (c : Config) (skipPublish : Bool) (change : VersionChange) (s : Site) :
    (Job.on (concluded c skipPublish (some change)) s).1
        = (match (advance (stepsOf c skipPublish change.new) s.exits).2 with
          | some f => .error f
          | none => .ok (if skipPublish then .updatedOnly else .updatedAndPublished))
      ∧ (Job.on (concluded c skipPublish (some change)) s).2.calls
        = s.calls ++ (plan c change.new).take
            (advance (stepsOf c skipPublish change.new) s.exits).1
      ∧ (Job.on (concluded c skipPublish (some change)) s).2.tree = s.tree := by
  cases skipPublish with
  | true =>
    have htests : Performs (runTests c) (stepsOf c true change.new) := performs_runTests c
    exact on_then_say_of_performs htests _ _ s
  | false =>
    -- Publishing comes behind the tests, and they are performed one after the other.
    have hp : Performs (runTests c >>= fun _ => publish c change.new)
        (stepsOf c false change.new) :=
      (performs_runTests c).bind (performs_publish c change.new)
    have h := on_then_say_of_performs hp
      ('\n' :: List.replicate 60 '=' ++ "\nPublished " ++ change.new
        ++ '\n' :: List.replicate 60 '=') .updatedAndPublished s
    rw [bind_assoc] at h
    exact h

variable {c : Config} {s : Site}

theorem on_run_of_error {f : Fault} (skipPublish : Bool)
    (h : (Job.on (prepared c) s).1 = .error f) :
    (Job.on (run c skipPublish) s).1 = .error f
      ∧ (Job.on (run c skipPublish) s).2.calls = s.calls
      ∧ (Job.on (run c skipPublish) s).2.tree = (Job.on (prepared c) s).2.tree := by
  have hc := (startsNothing_prepared c).calls_eq s
  rcases hp : Job.on (prepared c) s with ⟨r, t⟩
  rw [hp] at h hc
  cases h
  rw [run_eq, Job.on_bind_error hp]
  exact ⟨rfl, hc, rfl⟩

theorem on_run_of_none (skipPublish : Bool) (h : (Job.on (prepared c) s).1 = .ok none) :
    (Job.on (run c skipPublish) s).1 = .ok .noUpdateAvailable
      ∧ (Job.on (run c skipPublish) s).2.calls = s.calls
      ∧ (Job.on (run c skipPublish) s).2.tree = (Job.on (prepared c) s).2.tree := by
  have hc := (startsNothing_prepared c).calls_eq s
  rcases hp : Job.on (prepared c) s with ⟨r, t⟩
  rw [hp] at h hc
  cases h
  rw [run_eq, Job.on_bind_ok hp]
  unfold concluded
  rw [Job.on_bind_ok (Job.on_say _ t), Job.on_pure]
  refine ⟨rfl, ?_, rfl⟩
  rw [← hc]
  simp [Site.calls, Event.call?]

theorem on_run_of_some {change : VersionChange} (skipPublish : Bool)
    (h : (Job.on (prepared c) s).1 = .ok (some change)) :
    (Job.on (run c skipPublish) s).1
        = (match (advance (stepsOf c skipPublish change.new) s.exits).2 with
          | some f => .error f
          | none => .ok (if skipPublish then .updatedOnly else .updatedAndPublished))
      ∧ (Job.on (run c skipPublish) s).2.calls
        = s.calls ++ (plan c change.new).take
            (advance (stepsOf c skipPublish change.new) s.exits).1
      ∧ (Job.on (run c skipPublish) s).2.tree = (Job.on (prepared c) s).2.tree := by
  have hc := (startsNothing_prepared c).calls_eq s
  have he := (startsNothing_prepared c).exits_eq s
  rcases hp : Job.on (prepared c) s with ⟨r, t⟩
  rw [hp] at h hc he
  cases h
  rw [run_eq, Job.on_bind_ok hp, ← hc, ← show t.exits = s.exits from he]
  exact on_concluded c skipPublish change t

/-- Every fault of a step is that of a command. -/
theorem isOfCommand_of_advance {skipPublish : Bool} {version : Text} {n : Nat} {st : Step}
    (h : (stepsOf c skipPublish version)[n]? = some st) (o : Obstacle) :
    isOfCommand (st.fault o) = true := by
  cases n with
  | zero => cases h; rfl
  | succ n =>
    cases skipPublish with
    | true => cases h
    | false =>
      have hm : (publishSteps c version)[n]? = some st := h
      obtain ⟨args, -, rfl⟩ := List.mem_map.1 (List.mem_of_getElem? hm)
      rfl

theorem not_endsEarly_of_some {change : VersionChange} (skipPublish : Bool)
    (h : (Job.on (prepared c) s).1 = .ok (some change)) :
    ¬ EndsEarly (Job.on (run c skipPublish) s).1 := by
  rw [(on_run_of_some skipPublish h).1]
  rcases (advance_cases (stepsOf c skipPublish change.new) s.exits).2 with
    ⟨hf, -, -⟩ | ⟨n, st, o, -, hst, -, hf⟩
  · rw [hf]
    cases skipPublish <;> exact Outcome.noConfusion
  · rw [hf]
    intro he
    exact absurd ((isOfCommand_of_advance hst o).symm.trans he) (by decide)

/-! ## §4. The commands and the result determine each other. -/

/-- How a run ends that has started `n` commands of its plan, for exits of which
`succeeds i` says that the `i`-th is a success. -/
structure Ends (skipPublish : Bool) (succeeds : Nat → Prop) (n : Nat)
    (result : Except Fault Outcome) : Prop where
  le_six : n ≤ 6
  /-- A further command is started only if the one before it succeeded. -/
  goes_on : ∀ i, i + 1 < n → succeeds i
  early : n = 0 ↔ EndsEarly result
  testsFailed : (∃ o, result = .error (.testsFailed o)) ↔ n = 1 ∧ ¬ succeeds 0
  updatedOnly : result = .ok .updatedOnly ↔ skipPublish = true ∧ n = 1 ∧ succeeds 0
  published : result = .ok .updatedAndPublished
    ↔ skipPublish = false ∧ n = 6 ∧ ∀ i, i < 6 → succeeds i
  publishFailed : (∃ step o, result = .error (.publishFailed step o))
    ↔ skipPublish = false ∧ 2 ≤ n ∧ n ≤ 6 ∧ ¬ succeeds (n - 1)

theorem Ends.of_early {skipPublish : Bool} {succeeds : Nat → Prop} {result : Except Fault Outcome}
    (h : EndsEarly result) : Ends skipPublish succeeds 0 result where
  le_six := Nat.zero_le 6
  goes_on i hi := absurd hi (Nat.not_lt_zero _)
  early := ⟨fun _ => h, fun _ => rfl⟩
  testsFailed := by
    refine ⟨?_, fun h => absurd h.1 (by decide)⟩
    rintro ⟨o, rfl⟩
    cases (show true = false from h)
  updatedOnly := by
    refine ⟨?_, fun h => absurd h.2.1 (by decide)⟩
    rintro rfl
    exact absurd h Outcome.noConfusion
  published := by
    refine ⟨?_, fun h => absurd h.2.1 (by decide)⟩
    rintro rfl
    exact absurd h Outcome.noConfusion
  publishFailed := by
    refine ⟨?_, fun h => absurd h.2.1 (by decide)⟩
    rintro ⟨step, o, rfl⟩
    cases (show true = false from h)

theorem Ends.of_all {skipPublish : Bool} {succeeds : Nat → Prop} {n : Nat}
    (hn : n = if skipPublish then 1 else 6) (hall : ∀ i, i < n → succeeds i) :
    Ends skipPublish succeeds n
      (.ok (if skipPublish then .updatedOnly else .updatedAndPublished)) := by
  cases skipPublish with
  | true =>
    obtain rfl : n = 1 := hn
    have h0 := hall 0 (by omega)
    refine ⟨by omega, fun i hi => hall i (by omega), by simp [EndsEarly], by simp [h0],
      by simp [h0], by simp, by simp⟩
  | false =>
    obtain rfl : n = 6 := hn
    have h5 := hall 5 (by omega)
    refine ⟨Nat.le_refl 6, fun i hi => hall i (by omega), by simp [EndsEarly], by simp, by simp,
      ?_, by simp [h5]⟩
    exact ⟨fun _ => ⟨rfl, rfl, hall⟩, fun _ => rfl⟩

theorem Ends.of_stop {c : Config} {skipPublish : Bool} {succeeds : Nat → Prop} {version : Text}
    {k : Nat} {st : Step} (hst : (stepsOf c skipPublish version)[k]? = some st) (o : Obstacle)
    (hbefore : ∀ i, i + 1 < k + 1 → succeeds i) (hlast : ¬ succeeds k) :
    Ends skipPublish succeeds (k + 1) (.error (st.fault o)) := by
  have hearly : ¬ EndsEarly (.error (st.fault o)) := fun h =>
    absurd ((isOfCommand_of_advance hst o).symm.trans h) (by decide)
  cases k with
  | zero =>
    obtain rfl : testStep c = st := Option.some.inj hst
    refine ⟨by omega, hbefore, by simpa using hearly, ?_, by simp [hlast], by simp, ?_⟩
    · exact ⟨fun _ => ⟨rfl, hlast⟩, fun _ => ⟨o, rfl⟩⟩
    · refine ⟨?_, fun h => absurd h.2.1 (by decide)⟩
      rintro ⟨step, o', h⟩
      cases h
  | succ k =>
    have hlen := (List.getElem?_eq_some_iff.1 hst).1
    cases skipPublish with
    | true => cases hst
    | false =>
      have hm : (publishSteps c version)[k]? = some st := hst
      obtain ⟨args, -, rfl⟩ := List.mem_map.1 (List.mem_of_getElem? hm)
      have hk : k + 1 < 6 := hlen
      refine ⟨by omega, hbefore, by simpa using hearly, by simp, by simp,
        ⟨nofun, fun h => absurd (h.2.2 (k + 1) hk) hlast⟩, ?_⟩
      exact ⟨fun _ => ⟨rfl, by omega, by omega, hlast⟩, fun _ => ⟨_, o, rfl⟩⟩

/-- **The commands of a run are a beginning of the plan, and how many they are and how
the run ends determine each other.**  The version of the plan is the one to which the
manifest has been bumped. -/
theorem calls_of_run (c : Config) (s : Site) (skipPublish : Bool) :
    ∃ version n,
      (Job.on (run c skipPublish) s).2.calls = s.calls ++ (plan c version).take n
        ∧ (0 < n → ∃ pin latest bump change, Moves c s pin latest bump
          ∧ (Job.on (Manifest.bumpVersion c bump) s).1 = .ok change ∧ change.new = version)
        ∧ Ends skipPublish (fun i => (exitAt s.exits i).isSuccess = true) n
          (Job.on (run c skipPublish) s).1 := by
  rcases prepared_cases c s with ⟨f, t, hp, -, hf⟩ | ⟨pin, latest, t, hp, -⟩ |
    ⟨pin, latest, bump, change, l, b, text, written, t, hp, hmoves, hl, htext, hb, -⟩
  · obtain ⟨hr, hc, -⟩ := on_run_of_error skipPublish (congrArg Prod.fst hp)
    refine ⟨[], 0, by rw [hc]; simp, fun h => absurd h (by decide), ?_⟩
    rw [hr]
    exact .of_early hf
  · obtain ⟨hr, hc, -⟩ := on_run_of_none skipPublish (congrArg Prod.fst hp)
    refine ⟨[], 0, by rw [hc]; simp, fun h => absurd h (by decide), ?_⟩
    rw [hr]
    exact .of_early rfl
  · obtain ⟨hr, hc, -⟩ := on_run_of_some skipPublish (congrArg Prod.fst hp)
    refine ⟨change.new, _, hc, fun _ => ?_, ?_⟩
    · exact ⟨pin, latest, bump, change, hmoves,
        congrArg Prod.fst (Manifest.on_bumpVersion hl htext hb), rfl⟩
    · obtain ⟨hbefore, hlast⟩ := advance_cases (stepsOf c skipPublish change.new) s.exits
      rw [hr]
      rcases hlast with ⟨hf, hn, hall⟩ | ⟨k, st, o, hn, hst, ho, hf⟩
      · rw [hf, hn]
        refine .of_all ?_ hall
        cases skipPublish <;> rfl
      · rw [hf, hn]
        rw [hn] at hbefore
        refine .of_stop hst o hbefore (fun h => ?_)
        rw [obstacle?_eq_none_iff.2 h] at ho
        cases ho

/-- Every command on the small site ends well, so all six are started. -/
theorem calls_of_smallSite :
    (Job.on (run smallConfig false) smallSite).1 = .ok .updatedAndPublished
      ∧ (Job.on (run smallConfig false) smallSite).2.calls
        = [⟨["cargo", "test"], some Path.here, none, false, false⟩,
           ⟨["git", "add", "."], some Path.here, none, false, false⟩,
           ⟨["git", "commit", "-m", "0.2.0"], some Path.here, none, false, false⟩,
           ⟨["git", "push", "origin", "main"], some Path.here, none, false, false⟩,
           ⟨["git", "tag", "0.2.0"], some Path.here, none, false, false⟩,
           ⟨["git", "push", "origin", "0.2.0"], some Path.here, none, false, false⟩] := by
  obtain ⟨version, n, hcalls, hversion, hends⟩ := calls_of_run smallConfig smallSite false
  obtain ⟨-, rfl, -⟩ := hends.published.1 published_of_smallSite
  -- The version is that to which the manifest of the small site is bumped.
  obtain ⟨pin, latest, bump, change, hmoves, hbump, rfl⟩ := hversion (by decide)
  obtain ⟨-, -, rfl⟩ := moves_of_smallSite.unique hmoves
  obtain rfl := Except.ok.inj (bumpVersion_of_smallSite.symm.trans hbump)
  exact ⟨published_of_smallSite, hcalls⟩

end Update
end Repin
