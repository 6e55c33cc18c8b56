/-
  Repin.Cli.Run
  ─────────────
  **THE COMMAND LINE.**

  `Cli.run` reads a command line, carries it out and gives the status with which
  the program ends: 0, or 2 for a misuse of the command line, or 1 for a fault
  that is reported.  Other faults are passed on.
-/
import Repin.Cli.Arguments
import Repin.Cli.Words
import Repin.Decimal.Reader
import Repin.Notes
import Repin.Package
import Repin.Text.Numeral
import Repin.Update

namespace Repin
namespace Cli

/-! ## §1. Values. -/

/-- A text without white space at its ends and with ASCII digits for those of other
scripts. -/
def plain (s : Text) : Text :=
  (Text.trimmedOf Text.isSpace s).map (fun c => ((Text.decimalValue? c).map Text.digitOf).getD c)

/-- The number that a value stands for. -/
def number? (s : Text) : Option Double := (Text.ungrouped? (plain s)).bind Double.read?

/-- Does the value name a file?  A path that ends in a slash or in a slash and a
dot names a directory only. -/
def namesFile (s : Site) (value : Text) : Bool :=
  Path.isPart ((value.splitOn '/').getLast?.getD []) && s.tree.isFile s.here (Path.ofText value)

/-- What is wrong with the value of an option. -/
def wrongValue? (s : Site) (option : Text) (value : Text) : Option Misuse :=
  if option = "--repo-root" then
    if namesFile s value then
      some (.invalidValue option ("Directory " ++ Text.quoted value ++ " is a file."))
    else none
  else if option = "--http-timeout" ∨ option = "--command-timeout" then
    if (number? value).isNone then
      some (.invalidValue option (Text.quoted value ++ " is not a valid float."))
    else none
  else none

/-- What is wrong with the options of a command and with its arguments. -/
def misuse? (s : Site) (c : Command) (l : Line) : Option Misuse :=
  let wrong := l.given.findSome? (fun name =>
    (l.value? name).bind (fun value => wrongValue? s name value))
  let missing :=
    if c = .releaseNotes ∧ l.arguments = [] then some (.missingArgument "VERSION") else none
  let extra := l.arguments.drop c.arguments
  (wrong.or missing).or (if extra = [] then none else some (.extraArguments extra))

/-- A path from the root of the tree, without double dots. -/
def resolved (here : Location) (p : Path) : Path :=
  ⟨1, p.parts.foldl (fun done part => if part = ['.', '.'] then done.dropLast else done ++ [part])
    (if p.anchor = 0 then here else [])⟩

/-- The root of the repository that a command line names. -/
def root (s : Site) (l : Line) : Path :=
  resolved s.here (Path.ofText ((l.value? "--repo-root").getD ['.']))

/-! ## §2. Commands. -/

/-- The value of the first variable that is set and not empty. -/
def setting? (env : List (Text × Text)) (names : List Text) : Option Text :=
  names.findSome? (fun name =>
    match env.find? (fun e => e.1 = name) with
    | some (_, c :: value) => some (c :: value)
    | _ => none)

/-- The configuration of an update. -/
def updateConfig (env : List (Text × Text)) (s : Site) (l : Line) : Except Refusal Config := do
  let d : Config := {}
  let text (option : Text) (default : Text) : Text := (l.value? option).getD default
  let testCommand ← words (text "--test-command" "cargo test")
  return {
    root := root s l
    manifest := text "--manifest" d.manifest
    owner := text "--owner" d.owner
    repo := text "--repo" d.repo
    tagPrefix := text "--tag-prefix" d.tagPrefix
    allowPrerelease := l.has "--allow-prerelease"
    apiToken := (l.value? "--token").or (setting? env ["GITHUB_TOKEN", "GH_TOKEN"])
    testCommand
    remote := text "--remote" d.remote
    branch := text "--branch" d.branch
    httpTimeout := (l.value? "--http-timeout").bind number?
    commandTimeout := (l.value? "--command-timeout").bind number? }

/-- Updates. -/
def update (c : Config) (skipPublish : Bool) : Job Unit := do
  let outcome ← Update.run c skipPublish
  Job.say ("Outcome: " ++ outcome.name)

/-- Prints release notes. -/
def releaseNotes (root : Path) (version : Text) : Job Unit := do
  Job.note (.printed (← Notes.compose root version))

/-- Packages. -/
def package (c : Config) (version : Option Text) : Job Unit := do
  let target ← Package.make c.buildOutputPath c.distPath version
  Job.say ("✓ Wrote " ++ target.text)

/-- Carries out a job and gives the status; a reported fault becomes a message. -/
def reporting (job : Job Unit) : Job Nat :=
  tryCatch
    (do job; return 0)
    (fun f => if f.isReported then do Job.warn f.message; return 1 else throw f)

/-- Carries out a command. -/
def carryOut (env : List (Text × Text)) (s : Site) (c : Command) (l : Line) : Job Nat := do
  match c with
  | .update =>
    let config ← Job.ofExcept .refused (updateConfig env s l)
    reporting (update config (l.has "--skip-publish"))
  | .releaseNotes => reporting (releaseNotes (root s l) (l.arguments.head?.getD []))
  | .package =>
    let d : Config := {}
    let config : Config := { d with
      root := root s l
      buildOutput := (l.value? "--build-output").getD d.buildOutput
      distDir := (l.value? "--dist-dir").getD d.distDir }
    reporting (package config l.arguments.head?)

/-! ## §3. The program. -/

/-- Reports a misuse. -/
def refuse (l : Level) (m : Misuse) : Job Nat := do
  Job.note (.warned (m.report l))
  return 2

/-- Prints a text and a line end, and is done. -/
def answer (s : Text) : Job Nat := do
  Job.say s
  return 0

/-- What an option of the program itself prints; the first one given counts. -/
def programAnswer? (l : Line) : Option Text :=
  l.given.head?.map (fun (name : Text) =>
    if name = "--version" then versionLine else Level.program.help)

/-- Runs a command with its part of the command line. -/
def runCommand (env : List (Text × Text)) (c : Command) (args : List Text) : Job Nat := do
  let level := Level.command c
  match readLine level.choices true args with
  | .error m => refuse level m
  | .ok l =>
    if l.has "--help" then answer level.help
    else
      if (l.value? "--repo-root").any (·.contains '\x00') then throw (.refused .zeroInPath)
      let s ← get
      match misuse? s c l with
      | some m => refuse level m
      | none => carryOut env s c l

/-- What is said about a name that is no command. -/
def unknownCommand (name : Text) : Misuse :=
  let candidates := commands.map Command.name
  let similar := closest name candidates ++ closest (Text.lowered name) candidates
  .noSuchCommand name (candidates.filter similar.contains)

/-- Runs the program: a name that is no command but looks like an option is taken
for one. -/
def run (env : List (Text × Text)) (args : List Text) : Job Nat := do
  if args = [] then
    Job.note (.warned (Level.program.help ++ ['\n']))
    return 2
  match readLine Level.program.choices false args with
  | .error m => refuse .program m
  | .ok l =>
    match programAnswer? l, l.arguments with
    | some text, _ => answer text
    | none, [] => refuse .program .missingCommand
    | none, name :: rest =>
      match commands.find? (fun c => c.name = name) with
      | some c => runCommand env c rest
      | none =>
        match readLine Level.program.choices false (name :: rest) with
        | .error m => refuse .program m
        | .ok l =>
          match programAnswer? l with
          | some text => answer text
          | none => refuse .program (unknownCommand name)

end Cli
end Repin
