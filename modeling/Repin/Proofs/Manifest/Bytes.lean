/-
  Repin.Proofs.Manifest.Bytes
  ───────────────────────────
  **THE BYTES OF A MANIFEST WHEN A TEXT IN IT IS REPLACED.**

  Reading a manifest unifies its line ends, and the manifest is written as it was read.  So
  the bytes written are those that replacing makes of the bytes with unified line ends
  (`bytes_behind_replaceAll`):

    • without a carriage return, only the occurrences of `old` are other ones,
    • with one, a manifest that holds no `old` is written nevertheless, and it is not what it
      was (`return_lost`).
-/
import Repin.Proofs.Manifest.Writing
import Repin.Proofs.Text.Bytes

namespace Repin
namespace Manifest

open Text (Replaces encode unifiedBytes)

variable {c : Config} {s : Site} {b : Bytes} {t old : Text}

/-- **Replacing writes the bytes with unified line ends and the occurrences replaced.**  Of all
files only the manifest is another one.  If it holds no carriage return, its bytes are those it
had with the occurrences replaced.  If `old` does not occur, the count is zero, and the
manifest is what it was exactly if it holds no carriage return. -/
theorem bytes_behind_replaceAll (h : s.tree.read s.here c.manifestPath = .ok b)
    (ht : Text.decode? b = some t) (ho : old ≠ []) (new : Text) :
    ∃ l after n, s.tree.locate s.here c.manifestPath = .ok l
      ∧ Job.on (replaceAll c old new) s = (.ok n, { s with tree := s.tree.put l (.file after) })
      ∧ Replaces (encode old) (encode new) (unifiedBytes b) after n
      ∧ (0x0D ∉ b → Replaces (encode old) (encode new) b after n)
      ∧ (¬ encode old <:+: unifiedBytes b → n = 0 ∧ (after = b ↔ 0x0D ∉ b)) := by
  obtain rfl : b = encode t := Text.decode?_eq_some_iff.1 ht
  obtain ⟨l, hl⟩ := Tree.read_eq_ok_iff.1 h
  have hreplaces := (Text.replaces_replaced ho new (Text.unified t)).bytes ho
  rw [Text.encode_unified] at hreplaces
  refine ⟨l, _, _, hl.locate, on_replaceAll hl (Site.textAt_of_holds hl) old new, hreplaces,
    ?_, ?_⟩
  · intro hno
    rwa [Text.unifiedBytes_eq_self hno] at hreplaces
  · intro hno
    obtain ⟨hsame, hcount⟩ := hreplaces.eq_of_not_infix hno
    rw [hsame]
    exact ⟨hcount, Text.unifiedBytes_eq_self_iff⟩

/-- A manifest with two letters that take two bytes each. -/
def accentedManifest : Text := "é = \"v1.0.0\" # é\n"

theorem bytes_behind_accentedManifest :
    ∃ after, Job.on (replaceAll {} "é" "e") (Site.holding (encode accentedManifest))
        = (.ok 2, Site.holding after)
      ∧ Replaces (encode "é") (encode "e") (encode accentedManifest) after 2 := by
  have hread : (Site.holding (encode accentedManifest)).tree.read
      (Site.holding (encode accentedManifest)).here (Config.manifestPath {})
        = .ok (encode accentedManifest) := rfl
  have hcount : (Job.on (replaceAll {} "é" "e") (Site.holding (encode accentedManifest))).1
      = .ok 2 := eq_ok_of_toOption (by decide +kernel)
  have ho : ("é" : Text) ≠ [] := by decide
  obtain ⟨l, after, n, hl, hon, -, hreplaces, -⟩ :=
    bytes_behind_replaceAll hread (Text.decode?_encode _) ho "e"
  obtain rfl : ["Cargo.toml".toList] = l := Except.ok.inj hl
  obtain rfl : n = 2 := by
    rw [hon] at hcount
    exact Except.ok.inj hcount
  exact ⟨after, hon, hreplaces (by decide +kernel)⟩

/-- The bytes of a manifest behind a replacement in it. -/
def bytesBehind (old new : Text) (b : Bytes) : Option Bytes :=
  ((Job.on (replaceAll {} old new) (Site.holding b)).2.tree.read [] (Config.manifestPath {})).toOption

/-- **A carriage return is lost where nothing is replaced.** -/
theorem return_lost :
    Text.decode? (encode "a\r\nb\r\n") = some "a\r\nb\r\n".toList
      ∧ ¬ encode "zz" <:+: encode "a\r\nb\r\n"
      ∧ bytesBehind "zz" "y" (encode "a\r\nb\r\n") = some (encode "a\nb\n") := by
  decide +kernel

end Manifest
end Repin
