/-
  Repin.Config.Basic
  ──────────────────
  **WHAT A RUN NEEDS TO KNOW.**

  A configuration names the repository and its files, the dependency and the host
  that lists its tags, the commands and the limits on time.  Paths inside the
  repository are seen from its root.
-/
import Repin.Decimal.Double
import Repin.Files.Path

namespace Repin

/-- How many tags one request asks for: one to a hundred. -/
abbrev PageSize := { n : Nat // 1 ≤ n ∧ n ≤ 100 }

/-- The most tags that one request can ask for. -/
def PageSize.most : PageSize := ⟨100, by decide⟩

/-- The settings of a run. -/
structure Config where
  /-- The root of the repository; commands run here. -/
  root : Path := Path.here
  /-- The manifest, seen from the root. -/
  manifest : Text := "Cargo.toml"
  owner : Text := "biomejs"
  repo : Text := "biome"
  /-- The URL that pins name; derived from owner and repository when empty. -/
  sourceUrl : Text := []
  /-- What stands before the version in a release tag. -/
  tagPrefix : Text := "cli/v"
  /-- Are tags with a pre-release or build part releases too? -/
  allowPrerelease : Bool := false
  /-- Where the interface of the host is found. -/
  apiUrl : Text := "https://api.github.com"
  /-- The credentials for the host. -/
  apiToken : Option Text := none
  perPage : PageSize := .most
  /-- The command that tests an update. -/
  testCommand : List Text := ["cargo".toList, "test".toList]
  remote : Text := "origin"
  branch : Text := "main"
  /-- How many seconds the listing may take. -/
  httpTimeout : Option Double := none
  /-- How many seconds each command may take. -/
  commandTimeout : Option Double := none
  /-- The build output, seen from the root. -/
  buildOutput : Text := "target/wasm32-unknown-unknown/release/dprint_plugin_biome.wasm"
  /-- The directory of the package, seen from the root. -/
  distDir : Text := "deployment/npm"
  deriving DecidableEq, Repr

namespace Config

/-- The path of the manifest. -/
def manifestPath (c : Config) : Path := c.root.sub c.manifest

/-- The path of the build output. -/
def buildOutputPath (c : Config) : Path := c.root.sub c.buildOutput

/-- The path of the directory of the package. -/
def distPath (c : Config) : Path := c.root.sub c.distDir

/-- The URL that pins of the dependency name. -/
def dependencyUrl (c : Config) : Text :=
  if c.sourceUrl = [] then "https://github.com/" ++ c.owner ++ '/' :: c.repo else c.sourceUrl

end Config
end Repin
