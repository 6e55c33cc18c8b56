import Repin.Config.Reader
import Repin.Main
import Repin.Proofs.Files.Tree
import Repin.Proofs.Job
import Repin.Proofs.Text.Encoding
import Repin.Proofs.Text.Numeral
import Repin.Proofs.Version.Text
import Repin.Proofs.Manifest.Writing
import Repin.Proofs.Text.Replace
import Repin.Proofs.Update.Stages
import Repin.Proofs.Update.Commands
import Repin.Proofs.Update.Files
import Repin.Proofs.Tag.Entry
import Repin.Proofs.Listing
import Repin.Proofs.Update.Convergence
import Repin.Proofs.Version.Shape
import Repin.Proofs.Text.Exchange
import Repin.Proofs.Toml.Strings
import Repin.Proofs.Toml.Tokens
import Repin.Proofs.Toml.Reading
import Repin.Proofs.Toml.Alike
import Repin.Proofs.Toml.Keys
import Repin.Proofs.Toml.Following
import Repin.Proofs.Toml.Setting
import Repin.Proofs.Toml.Words
import Repin.Proofs.Manifest.Version
import Repin.Proofs.Update.Version
import Repin.Proofs.Listing.Order
import Repin.Proofs.Version.Reading
import Repin.Proofs.Listing.Names
import Repin.Proofs.Toml.Places
import Repin.Proofs.Toml.Path
import Repin.Proofs.Manifest.Meaning
import Repin.Proofs.Update.Entries
import Repin.Proofs.Tag.Identity
import Repin.Proofs.Text.Blank
import Repin.Proofs.Version.Next
import Repin.Proofs.Notes
import Repin.Proofs.Notes.Release
import Repin.Proofs.Listing.Permuted
import Repin.Proofs.Update.Findings
import Repin.Proofs.Update.Upgrade
import Repin.Proofs.Update.Credentials
import Repin.Proofs.Manifest.Formatting
import Repin.Proofs.Text.Trimmed
import Repin.Proofs.Notes.History
import Repin.Proofs.Cli.Accepted
import Repin.Proofs.Cli.Notes
import Repin.Proofs.Update.Escaping
import Repin.Proofs.Cli.Update
import Repin.Proofs.Manifest.Pins
import Repin.Proofs.Tag.Acceptance
import Repin.Proofs.Listing.Fetching
import Repin.Proofs.Package.Stamping
import Repin.Proofs.Notes.Bullets
import Repin.Proofs.Package.Descriptor
import Repin.Proofs.Package.Frame
import Repin.Proofs.Manifest.Bytes
import Repin.Proofs.Text.Segments
import Repin.Proofs.Manifest.Counting
import Repin.Proofs.Manifest.Search
import Repin.Proofs.Version.Lenient
