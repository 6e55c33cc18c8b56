/-
  Repin.Main
  ──────────
  **THE PROGRAM.**

  The program reads from disk the files that a command line names, carries the
  command line out on them and writes back what has changed.  It opens no
  connection and starts no other program: standard input stands in for both.  All
  of it is the body of the host's reply and, cut at its zero characters, what the
  commands print, one after the other; they are taken to end with status zero.
-/
import Repin.Cli.Run

namespace Repin
namespace Main

/-- The paths of the files that a command line may read or write. -/
def paths (here : Location) (args : List Text) : List Path :=
  let line := match args with
    | name :: rest =>
      match Cli.commands.find? (fun (c : Cli.Command) => c.name = name) with
      | some c => (Cli.readLine (Cli.Level.command c).choices true rest).toOption
      | none => none
    | [] => none
  let value (option : Text) (default : Text) : Text :=
    ((line.bind (fun l => l.value? option)).getD default)
  let d : Config := {}
  let root := Cli.resolved here (Path.ofText (value "--repo-root" ['.']))
  let dist := root.sub (value "--dist-dir" d.distDir)
  [root.sub (value "--manifest" d.manifest), root.sub (value "--build-output" d.buildOutput),
    dist.sub Package.pluginFile, dist.sub Package.descriptorFile]

/-- A path as the system takes it. -/
def name (p : Path) : String := String.ofList p.text

/-- The tree with a file and the directories that lead to it. -/
def withFile (t : Tree) (p : Path) (content : Bytes) : Tree :=
  let (t, _) := t.ensured [] p.parent
  match t.write [] p content with
  | .ok t => t
  | .error _ => t

/-- The files that are there, of those at the given paths. -/
def load (here : Location) (ps : List Path) : IO Tree := do
  let mut t := ((Tree.mk []).ensured [] ⟨1, here⟩).1
  for p in ps do
    try
      let bytes ← IO.FS.readBinFile (name p)
      t := withFile t (Cli.resolved here p) bytes.toList
    catch _ => pure ()
  return t

/-- Writes the files that differ. -/
def store (old new : Tree) : IO Unit := do
  for (l, n) in new.entries do
    match n with
    | .file content =>
      if old.get? l ≠ some n then
        let p : Path := ⟨1, l⟩
        IO.FS.createDirAll (name p.parent)
        IO.FS.writeBinFile (name p) (ByteArray.mk content.toArray)
    | .directory => pure ()

/-- The variables of the environment that matter. -/
def environment : IO (List (Text × Text)) := do
  let mut env := []
  for name in ["GITHUB_TOKEN", "GH_TOKEN"] do
    if let some value ← IO.getEnv name then
      env := env ++ [(name.toList, value.toList)]
  return env

/-- What is left of a stream. -/
partial def readAll (stream : IO.FS.Stream) : IO String := do
  let l ← stream.getLine
  if l.isEmpty then return "" else return l ++ (← readAll stream)

/-- All of standard input, if the command line asks for something beyond files. -/
def input (args : List Text) : IO Text := do
  if args.head? = some Cli.Command.update.name ∨ args.head? = some Cli.Command.releaseNotes.name then
    return (← readAll (← IO.getStdin)).toList
  else return []

/-- Shows what a run printed. -/
def display (log : List Event) : IO Unit := do
  for e in log do
    match e with
    | .printed s => IO.print (String.ofList s)
    | .warned s => IO.eprint (String.ofList s)
    | _ => pure ()

/-- Runs the program on a command line. -/
def program (args : List Text) : IO UInt32 := do
  let here := (Path.ofText (← IO.currentDir).toString.toList).parts
  let given ← input args
  let tree ← load here (paths here args)
  let site : Site :=
    { here, tree, replies := [.response 200 none (Text.encode given)]
      exits := (given.splitOn '\x00').map (fun s => .finished 0 s), log := [] }
  let (result, after) := StateT.run (ExceptT.run (Cli.run (← environment) args)) site
  display after.log
  store tree after.tree
  match result with
  | .ok status => return UInt32.ofNat status
  | .error f =>
    IO.eprintln (String.ofList f.message)
    return 1

end Main
end Repin

/-- Runs the program. -/
def main (args : List String) : IO UInt32 := Repin.Main.program (args.map String.toList)
