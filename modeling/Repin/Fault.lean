/-
  Repin.Fault
  ───────────
  **WHY A RUN STOPS.**

  Each way in which a run can stop is a constructor that holds what its message
  shows.  The first group, for which `isReported` holds, is what a user of the
  command line sees as an error message; the others are passed on as they are.
-/
import Repin.Command
import Repin.Json.Literal
import Repin.Json.Reader
import Repin.Refusal

namespace Repin

/-- Why a command did not do its work. -/
structure Obstacle where
  /-- The status with which it ended; -1 if it did not end by itself. -/
  status : Int
  /-- What is known beside the status. -/
  detail : Option Text
  deriving DecidableEq, Repr

/-- What is said about an obstacle: its detail, or else its status. -/
def Obstacle.reason (o : Obstacle) : Text :=
  match o.detail with
  | some (c :: s) => c :: s
  | _ => "exit code " ++ Text.integer o.status

/-- Why a package descriptor cannot be read. -/
inductive Unreadable where
  | system (e : SystemError)
  /-- The content is no JSON document. -/
  | json (content : Text) (f : Json.Fault)
  deriving DecidableEq, Repr

/-- What is said about a package descriptor that cannot be read. -/
def Unreadable.message : Unreadable → Text
  | .system e => e.message
  | .json content f => f.message content

/-- Why a run stops. -/
inductive Fault where
  /-- The manifest has no pin of the source. -/
  | pinMissing (url file : Text)
  /-- The tag that the manifest pins is no release tag. -/
  | pinNotRelease (tag file : Text)
  /-- The manifest declares no version. -/
  | versionMissing
  /-- The listing could not be fetched. -/
  | listingFailed (owner repo reason : Text)
  | listingNotJson (owner repo : Text)
  | listingNotArray (owner repo : Text)
  /-- An element of the listing has no name. -/
  | recordMalformed (owner repo : Text) (record : Json)
  /-- No listed tag has the shape of the pattern. -/
  | noRelease (pattern : Text)
  | testsFailed (o : Obstacle)
  | publishFailed (step : Text) (o : Obstacle)
  | buildMissing (p : Path)
  | descriptorUnreadable (p : Path) (why : Unreadable)
  | historyUnreadable (root : Path) (reason : Text)
  /-- A text is not what it has to be. -/
  | refused (r : Refusal)
  | system (e : SystemError)
  /-- A file would be copied onto itself. -/
  | sameFile (source target : Path)
  | commandFailed (c : Call) (status : Int)
  | commandTimedOut (c : Call)
  /-- A file is not in UTF-8. -/
  | notUtf8
  /-- The manifest is no TOML document. -/
  | notToml
  /-- The package descriptor is no JSON object. -/
  | notObject
  /-- The address of the listing cannot be read. -/
  | badUrl
  /-- The credentials for the listing are not ASCII. -/
  | badToken
  deriving Repr

namespace Fault

/-- A path inside a message. -/
def shown (p : Path) : Text := "PosixPath(" ++ Text.quoted p.text ++ ")"

/-- What is said about a fault; empty where there is nothing to say. -/
def message : Fault → Text
  | .pinMissing url file => "Could not find a tag for " ++ url ++ " in " ++ file
  | .pinNotRelease tag file =>
    "Pinned tag " ++ Text.quoted tag ++ " in " ++ file ++ " is not a release tag"
  | .versionMissing => "No version declared in [package] or [project] of the manifest"
  | .listingFailed owner repo reason =>
    "Failed to list tags of " ++ owner ++ '/' :: repo ++ ": " ++ reason
  | .listingNotJson owner repo =>
    "Tag listing for " ++ owner ++ '/' :: repo ++ " is not valid JSON"
  | .listingNotArray owner repo => "Unexpected tag listing payload for " ++ owner ++ '/' :: repo
  | .recordMalformed owner repo record =>
    "Malformed tag record for " ++ owner ++ '/' :: repo ++ ": " ++ record.literal
  | .noRelease pattern => "No tags match " ++ pattern
  | .testsFailed o => "Tests failed (" ++ o.reason ++ ")"
  | .publishFailed step o => "Publish step '" ++ step ++ "' failed (" ++ o.reason ++ ")"
  | .buildMissing p => "Build output not found: " ++ p.text
  | .descriptorUnreadable p why => "Cannot read " ++ p.text ++ ": " ++ why.message
  | .historyUnreadable root reason =>
    "Cannot read git history in " ++ root.text ++ ": " ++ reason
  | .refused r => r.message
  | .system e => e.message
  | .sameFile source target =>
    shown source ++ " and " ++ shown target ++ " are the same file"
  | .commandFailed c status => c.failureMessage status
  | .commandTimedOut c => c.timeoutMessage
  | .notUtf8 => []
  | .notToml => []
  | .notObject => []
  | .badUrl => []
  | .badToken => []

/-- Is the fault reported to the user as an error of the run? -/
def isReported : Fault → Bool
  | .pinMissing .. => true
  | .pinNotRelease .. => true
  | .versionMissing => true
  | .listingFailed .. => true
  | .listingNotJson .. => true
  | .listingNotArray .. => true
  | .recordMalformed .. => true
  | .noRelease .. => true
  | .testsFailed .. => true
  | .publishFailed .. => true
  | .buildMissing .. => true
  | .descriptorUnreadable .. => true
  | .historyUnreadable .. => true
  | _ => false

end Fault
end Repin
