/-
  Repin.Cli.Usage
  ───────────────
  **COMMANDS, THEIR OPTIONS AND THEIR HELP.**

  The program has three commands.  A form says what may stand on the command line
  of the program or of one of its commands.
-/
import Repin.Text.Basic

namespace Repin
namespace Cli

/-! ## §1. Forms. -/

/-- An option. -/
structure Choice where
  name : Text
  takesValue : Bool
  deriving DecidableEq, Repr

/-- A command of the program. -/
inductive Command where
  | update
  | releaseNotes
  | package
  deriving DecidableEq, Repr

/-- The program itself or one of its commands. -/
inductive Level where
  | program
  | command (c : Command)
  deriving DecidableEq, Repr

/-- All commands. -/
def commands : List Command := [.package, .releaseNotes, .update]

/-- The name of a command. -/
def Command.name : Command → Text
  | .update => "update"
  | .releaseNotes => "release-notes"
  | .package => "package"

/-- The name of the program. -/
def programName : Text := "plugin-release"

/-- What is printed for the version of the program. -/
def versionLine : Text := programName ++ ", version 0.1.0"

/-- What has to be typed for a level. -/
def Level.path : Level → Text
  | .program => programName
  | .command c => programName ++ ' ' :: c.name

/-- The options with a value and those without one. -/
def choices (valued plain : List String) : List Choice :=
  valued.map (fun s => ⟨s.toList, true⟩) ++ plain.map (fun s => ⟨s.toList, false⟩)

/-- The options of a level. -/
def Level.choices : Level → List Choice
  | .program => Cli.choices [] ["--version", "--help"]
  | .command .update =>
    Cli.choices
      ["--repo-root", "--manifest", "--owner", "--repo", "--tag-prefix", "--token",
        "--test-command", "--remote", "--branch", "--http-timeout", "--command-timeout"]
      ["--allow-prerelease", "--skip-publish", "--help"]
  | .command .releaseNotes => Cli.choices ["--repo-root"] ["--help"]
  | .command .package =>
    Cli.choices ["--repo-root", "--build-output", "--dist-dir"] ["--help"]

/-- How many arguments a level takes beside its options. -/
def Command.arguments : Command → Nat
  | .update => 0
  | .releaseNotes => 1
  | .package => 1

/-! ## §2. Help. -/

/-- The line that shows the form of a level. -/
def Level.usage : Level → Text
  | .program => "Usage: plugin-release [OPTIONS] COMMAND [ARGS]..."
  | .command .update => "Usage: plugin-release update [OPTIONS]"
  | .command .releaseNotes => "Usage: plugin-release release-notes [OPTIONS] VERSION"
  | .command .package => "Usage: plugin-release package [OPTIONS] [VERSION]"

/-- What is said about a level and its options. -/
def Level.description : Level → Text
  | .program => "  Keep a vendored upstream dependency current and release the plugin.

Options:
  --version  Show the version and exit.
  --help     Show this message and exit.

Commands:
  package        Copy the compiled plugin into the npm package, optionally...
  release-notes  Print the release notes for VERSION.
  update         Check upstream for a new release and, if found, update and..."
  | .command .update => "  Check upstream for a new release and, if found, update and publish.

Options:
  --repo-root DIRECTORY    Root of the plugin repository.  [default: .]
  --manifest TEXT          Manifest holding the pinned tag, relative to the repo
                           root.  [default: Cargo.toml]
  --owner TEXT             Upstream owner.  [default: biomejs]
  --repo TEXT              Upstream repository.  [default: biome]
  --tag-prefix TEXT        Prefix of upstream release tags.  [default: cli/v]
  --allow-prerelease       Accept release tags with pre-release or build
                           suffixes.
  --token TEXT             API token (defaults to $GITHUB_TOKEN or $GH_TOKEN).
  --test-command TEXT      Command that validates the update.  [default: cargo
                           test]
  --remote TEXT            Git remote.  [default: origin]
  --branch TEXT            Branch to push.  [default: main]
  --http-timeout FLOAT     Seconds to wait for the tag listing. Waits forever if
                           unset.
  --command-timeout FLOAT  Seconds to wait for each test/git command. Waits
                           forever if unset.
  --skip-publish           Stop after a successful test run without committing
                           or pushing.
  --help                   Show this message and exit."
  | .command .releaseNotes => "  Print the release notes for VERSION.

Options:
  --repo-root DIRECTORY  Root of the plugin repository.  [default: .]
  --help                 Show this message and exit."
  | .command .package => "  Copy the compiled plugin into the npm package, optionally setting VERSION.

Options:
  --repo-root DIRECTORY  Root of the plugin repository.  [default: .]
  --build-output TEXT    Compiled plugin module, relative to the repo root.
                         [default: target/wasm32-unknown-
                         unknown/release/dprint_plugin_biome.wasm]
  --dist-dir TEXT        npm package directory, relative to the repo root.
                         [default: deployment/npm]
  --help                 Show this message and exit."

/-- The help of a level. -/
def Level.help (l : Level) : Text := l.usage ++ "\n\n" ++ l.description

end Cli
end Repin
