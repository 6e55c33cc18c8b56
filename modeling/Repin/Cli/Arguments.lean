/-
  Repin.Cli.Arguments
  ───────────────────
  **READING A COMMAND LINE.**

  Options may be given as `--name value` or `--name=value`.  Two dashes alone end
  the options.  A command takes options behind its arguments as well, the program
  itself only before the name of a command.
-/
import Repin.Cli.Similar
import Repin.Cli.Usage
import Repin.Text.Quoted

namespace Repin
namespace Cli

/-! ## §1. Errors. -/

/-- What is wrong with a command line. -/
inductive Misuse where
  | noSuchOption (name : Text) (similar : List Text)
  | noSuchCommand (name : Text) (similar : List Text)
  | missingCommand
  | missingArgument (name : Text)
  | extraArguments (args : List Text)
  /-- The value of an option is not what it has to be. -/
  | invalidValue (option reason : Text)
  /-- An option stands at the end without its value. -/
  | needsValue (option : Text)
  /-- An option has a value but takes none. -/
  | takesNoValue (option : Text)
  deriving DecidableEq, Repr

namespace Misuse

/-- The question whether something similar was meant. -/
def suggestion : List Text → Text
  | [] => []
  | [s] => " Did you mean " ++ Text.quoted s ++ "?"
  | ss =>
    " (Did you mean one of: "
      ++ (", " : Text).intercalate ((alphabetical ss).map Text.quoted) ++ "?)"

/-- What is said about a misuse. -/
def message : Misuse → Text
  | .noSuchOption name similar =>
    "No such option " ++ Text.quoted name ++ '.' :: suggestion similar
  | .noSuchCommand name similar =>
    "No such command " ++ Text.quoted name ++ '.' :: suggestion similar
  | .missingCommand => "Missing command."
  | .missingArgument name => "Missing argument " ++ Text.quoted name ++ ['.']
  | .extraArguments args =>
    "Got unexpected extra argument" ++ (if args.length = 1 then [] else ['s'])
      ++ " (" ++ [' '].intercalate args ++ [')']
  | .invalidValue option reason =>
    "Invalid value for " ++ Text.quoted option ++ ": " ++ reason
  | .needsValue option => "Option " ++ Text.quoted option ++ " requires an argument."
  | .takesNoValue option => "Option " ++ Text.quoted option ++ " does not take a value."

/-- Is the form of the level shown with the message? -/
def showsUsage : Misuse → Bool
  | .needsValue _ => false
  | .takesNoValue _ => false
  | _ => true

/-- The whole text for a misuse at a level. -/
def report (l : Level) (m : Misuse) : Text :=
  (if m.showsUsage then
    l.usage ++ "\nTry '" ++ l.path ++ " --help' for help.\n\n" else [])
  ++ "Error: " ++ m.message ++ ['\n']

end Misuse

/-! ## §2. Options and arguments. -/

/-- An option as it was given. -/
structure Given where
  name : Text
  value : Option Text
  deriving DecidableEq, Repr

/-- What a command line consists of. -/
structure Line where
  /-- The options, in order. -/
  options : List Given
  /-- The other arguments, in order. -/
  arguments : List Text
  deriving DecidableEq, Repr

/-- Looks like an option. -/
def isOption : Text → Bool
  | '-' :: _ :: _ => true
  | _ => false

/-- The option that an argument names and that does not exist: a long one with
what is similar to it, or the first letter of short ones. -/
def unknown (choices : List Choice) (arg : Text) : Misuse :=
  match arg with
  | '-' :: '-' :: _ =>
    let name := (Text.cut '=' arg).1
    .noSuchOption name (closest name (choices.map Choice.name))
  | _ => .noSuchOption (arg.take 2) []

/-- The line with one more option in front. -/
def Line.withOption (name : Text) (value : Option Text) (l : Line) : Line :=
  { l with options := ⟨name, value⟩ :: l.options }

/-- Reads a command line; `mixed` says whether options may stand behind arguments. -/
def readLine (choices : List Choice) (mixed : Bool) : List Text → Except Misuse Line
  | [] => .ok ⟨[], []⟩
  | arg :: rest =>
    if arg = "--" then .ok ⟨[], rest⟩
    else if isOption arg then
      let (name, value) := Text.cut '=' arg
      match choices.find? (fun c => c.name = name) with
      | none => .error (unknown choices arg)
      | some c =>
        match c.takesValue, value, rest with
        | true, some v, rest => (readLine choices mixed rest).map (Line.withOption name (some v))
        | true, none, v :: rest => (readLine choices mixed rest).map (Line.withOption name (some v))
        | true, none, [] => .error (.needsValue name)
        | false, none, rest => (readLine choices mixed rest).map (Line.withOption name none)
        | false, some _, _ => .error (.takesNoValue name)
    else if mixed then
      (readLine choices mixed rest).map (fun l => { l with arguments := arg :: l.arguments })
    else .ok ⟨[], arg :: rest⟩

/-- Was the option given? -/
def Line.has (name : Text) (l : Line) : Bool := l.options.any (fun o => o.name = name)

/-- The value of an option: the last one that was given. -/
def Line.value? (name : Text) (l : Line) : Option Text :=
  (l.options.reverse.find? (fun o => o.name = name)).bind Given.value

/-- The options that were given, each once, in the order of their first places. -/
def Line.given (l : Line) : List Text :=
  l.options.foldl (fun names o => if names.contains o.name then names else names ++ [o.name]) []

end Cli
end Repin
