/-
  Repin.Command
  ─────────────
  **COMMANDS AND HOW THEY END.**

  A run starts other programs.  A `Call` is what was asked for, an `Exit` how it
  went: the command ended with a status, took too long, or could not be started.
  A negative status is the number of the signal that ended the command.
-/
import Repin.Decimal.Notation
import Repin.Files.SystemError

namespace Repin

/-- A command as it was started. -/
structure Call where
  args : List Text
  /-- The directory in which the command runs; without one, the working directory. -/
  directory : Option Path
  /-- How many seconds the command may take; without one, as many as it needs. -/
  timeout : Option Double
  /-- Is a status other than zero an error by itself? -/
  checked : Bool
  /-- Is the output of the command read? -/
  captured : Bool
  deriving DecidableEq, Repr

/-- How a command ends. -/
inductive Exit where
  | finished (status : Int) (output : Text)
  | timedOut
  | notStarted (e : SystemError)
  deriving DecidableEq, Repr

namespace Call

/-! ## §1. Commands in messages. -/

/-- The arguments of a command, quoted and with commas between them. -/
def listed (args : List Text) : Text := (", " : Text).intercalate (args.map Text.quoted)

/-- A command whose output is read is shown between brackets, any other between
parentheses, with a comma behind a single argument. -/
def shown (c : Call) : Text :=
  if c.captured then '[' :: listed c.args ++ [']']
  else
    match c.args with
    | [_] => '(' :: listed c.args ++ [',', ')']
    | args => '(' :: listed args ++ [')']

/-! ## §2. Signals. -/

/-- The signals that have a name. -/
def signals : List (Nat × String) :=
  [(1, "SIGHUP"), (2, "SIGINT"), (3, "SIGQUIT"), (4, "SIGILL"), (5, "SIGTRAP"), (6, "SIGABRT"),
   (7, "SIGBUS"), (8, "SIGFPE"), (9, "SIGKILL"), (10, "SIGUSR1"), (11, "SIGSEGV"),
   (12, "SIGUSR2"), (13, "SIGPIPE"), (14, "SIGALRM"), (15, "SIGTERM"), (16, "SIGSTKFLT"),
   (17, "SIGCHLD"), (18, "SIGCONT"), (19, "SIGSTOP"), (20, "SIGTSTP"), (21, "SIGTTIN"),
   (22, "SIGTTOU"), (23, "SIGURG"), (24, "SIGXCPU"), (25, "SIGXFSZ"), (26, "SIGVTALRM"),
   (27, "SIGPROF"), (28, "SIGWINCH"), (29, "SIGIO"), (30, "SIGPWR"), (31, "SIGSYS"),
   (34, "SIGRTMIN"), (64, "SIGRTMAX")]

/-- How a command ended that did not end with status zero. -/
def ending (status : Int) : Text :=
  if 0 ≤ status then "returned non-zero exit status " ++ Text.integer status ++ "."
  else
    let n := status.natAbs
    match signals.find? (fun s => s.1 = n) with
    | some (_, name) => "died with <Signals." ++ name.toList ++ ": " ++ Text.digits n ++ ">."
    | none => "died with unknown signal " ++ Text.digits n ++ "."

/-! ## §3. Messages. -/

/-- What is said about a command that failed. -/
def failureMessage (c : Call) (status : Int) : Text :=
  "Command '" ++ c.shown ++ "' " ++ ending status

/-- What is said about a command that took too long.  It is formed from the command and its limit
in every case; a message that comes with the timeout itself is left out. -/
def timeoutMessage (c : Call) : Text :=
  "Command '" ++ c.shown ++ "' timed out after "
    ++ (match c.timeout with
      | some seconds => seconds.text
      | none => "None") ++ " seconds"

end Call
end Repin
