/-
  Repin.Update
  ────────────
  **MOVING THE PIN AND PUBLISHING THE RESULT.**

  An update reads the pinned tag, finds the latest release and decides which bump
  the move calls for.  It then bumps the version, moves the pin, runs the tests,
  and unless told otherwise commits, pushes, tags and pushes the tag.  The first
  failure ends it; nothing is undone.
-/
import Repin.Listing
import Repin.Manifest

namespace Repin

/-- How far an update came. -/
inductive Outcome where
  | noUpdateAvailable
  | updatedOnly
  | updatedAndPublished
  deriving DecidableEq, Repr

/-- The name of an outcome. -/
def Outcome.name : Outcome → Text
  | .noUpdateAvailable => "no_update_available"
  | .updatedOnly => "updated_only"
  | .updatedAndPublished => "updated_and_published"

namespace Update

/-! ## §1. Finding out. -/

/-- Reads the pinned tag and shows it. -/
def readPin (c : Config) : Job Pin := do
  Job.announce "Reading pinned version"
  let pin ← Manifest.readPin c
  Job.say ("  Found tag in " ++ c.manifestPath.name ++ ": " ++ pin.tag)
  return pin

/-- Fetches the releases, shows them and picks the latest.  Nothing is shown when
the host cannot be asked. -/
def fetchLatest (c : Config) : Job Release := do
  let _ ← Job.ofExcept id (Listing.host c)
  Job.announce "Getting latest version"
  let rs ← Listing.fetchReleases c c.owner c.repo
  rs.forM (fun r => Job.say ("  * " ++ r.name))
  let latest ← Job.ofExcept id (Listing.pick (Listing.pattern c) rs)
  Job.say ("  Latest tag: " ++ latest.name)
  return latest

/-! ## §2. Changing the manifest. -/

/-- Bumps the version, then moves every occurrence of the pinned tag to the latest
one.  The two changes are written one after the other. -/
def changeManifest (c : Config) (pin : Pin) (latest : Release) (bump : Bump) :
    Job VersionChange := do
  Job.announce ("Updating " ++ c.manifestPath.name)
  let change ← Manifest.bumpVersion c bump
  Job.say ("  version (" ++ bump.name ++ "): " ++ change.old ++ " → " ++ change.new)
  let count ← Manifest.replaceAll c pin.tag latest.name
  Job.say ("  tag: " ++ pin.tag ++ " → " ++ latest.name ++ " (" ++ Text.digits count
    ++ " occurrence(s))")
  return change

/-! ## §3. Commands. -/

/-- What kept a command of an update from doing its work, if anything did. -/
def obstacle? (c : Call) : Exit → Option Obstacle
  | .finished status _ => if status = 0 then none else some ⟨status, none⟩
  | .timedOut => some ⟨-1, some c.timeoutMessage⟩
  | .notStarted e => some ⟨-1, some e.message⟩

/-- Runs a command in the repository and stops with a fault unless it ends with
status zero. -/
def runStep (c : Config) (args : List Text) (fault : Obstacle → Fault) : Job Unit := do
  let call : Call :=
    { args, directory := some c.root, timeout := c.commandTimeout, checked := false,
      captured := false }
  match obstacle? call (← Job.start call) with
  | none => return ()
  | some o => throw (fault o)

/-- Runs the tests. -/
def runTests (c : Config) : Job Unit := do
  Job.announce "Running tests"
  runStep c c.testCommand .testsFailed

/-- The commands that publish a version, in order. -/
def publishCommands (c : Config) (version : Text) : List (List Text) :=
  [["git", "add", "."], ["git", "commit", "-m", version], ["git", "push", c.remote, c.branch],
   ["git", "tag", version], ["git", "push", c.remote, version]]

/-- Publishes a version. -/
def publish (c : Config) (version : Text) : Job Unit := do
  Job.announce ("Committing and publishing " ++ version)
  (publishCommands c version).forM (fun args => do
    let step := [' '].intercalate args
    Job.say ("  $ " ++ step)
    runStep c args (.publishFailed step))

/-! ## §4. The whole update. -/

/-- Runs an update; with `skipPublish` it ends behind the tests. -/
def run (c : Config) (skipPublish : Bool) : Job Outcome := do
  let pin ← readPin c
  let latest ← fetchLatest c
  match Bump.between pin latest with
  | none =>
    Job.say "\nNo new update found."
    return .noUpdateAvailable
  | some bump =>
    Job.say ("\nFound new version: " ++ latest.name)
    let change ← changeManifest c pin latest bump
    runTests c
    if skipPublish then
      Job.say "\nSkipping publish; manifest changes left uncommitted."
      return .updatedOnly
    publish c change.new
    let rule := List.replicate 60 '='
    Job.say ('\n' :: rule ++ "\nPublished " ++ change.new ++ '\n' :: rule)
    return .updatedAndPublished

end Update
end Repin
