/-
  Repin.Proofs.Manifest.Counting
  ──────────────────────────────
  **THE COUNT OF A REPLACEMENT IS THE NUMBER OF TEXTS REPLACED.**

  A replacement counts in one scan and writes in another.  Both go along the same parts of
  the manifest, the only ones there are (`Text.Parted`), so the count says how many times the
  new text was put in, and with it how much longer the manifest has become
  (`count_of_replaceAll`).
-/
import Repin.Proofs.Manifest.Bytes
import Repin.Proofs.Text.Segments

namespace Repin
namespace Manifest

open Text (encode)

variable {c : Config} {s : Site} {text : Text}

/-- **A replacement says how often it replaced.**  For a nonempty `old` the text of the manifest
has just one list of parts between the occurrences of `old`; the count is one less than there are
parts, and the parts are written with `new` between them.  An empty `old` occurs before, between
and behind all characters.  Either way the text grows by the difference of the two texts, once for
each replacement. -/
theorem count_of_replaceAll (ht : s.textAt c.manifestPath = .ok text) (old new : Text) :
    ∃ l n after, s.tree.locate s.here c.manifestPath = .ok l
      ∧ Job.on (replaceAll c old new) s
        = (.ok n, { s with tree := s.tree.put l (.file (encode after)) })
      ∧ (old ≠ [] → (∃! parts, Text.Parted old text parts)
          ∧ ∀ parts, Text.Parted old text parts →
              parts.length = n + 1 ∧ after = new.intercalate parts)
      ∧ (old = [] → n = text.length + 1 ∧ after = new ++ text.flatMap (fun x => x :: new))
      ∧ (after.length : Int) = text.length + n * (new.length - old.length : Int) := by
  obtain ⟨l, b, hl, -⟩ := Site.exists_holds_of_textAt ht
  refine ⟨l, _, _, hl.locate, on_replaceAll hl ht old new, ?_, ?_, ?_⟩
  · intro ho
    refine ⟨Text.existsUnique_parted ho text, ?_⟩
    intro parts hparts
    obtain rfl := (Text.parted_iff ho).1 hparts
    have hpos := List.length_pos_iff.2 (Text.segments_ne_nil old text)
    refine ⟨?_, rfl⟩
    unfold Text.occurrences
    omega
  · rintro rfl
    exact ⟨Text.occurrences_empty text, Text.replaced_empty new text⟩
  · have hlen := congrArg (Nat.cast (R := Int)) (Text.length_replaced old new text)
    push_cast at hlen
    rw [Int.mul_sub]
    omega

/-- Where `aa` lies across itself, it is found twice in five letters and not four times. -/
theorem count_of_overlapping :
    (Site.holding (encode "aaaaa")).textAt (Config.manifestPath {}) = .ok "aaaaa".toList
      ∧ (∃! parts, Text.Parted "aa" "aaaaa" parts)
      ∧ Text.Parted "aa" "aaaaa" [[], [], ['a']]
      ∧ ∃ after, Job.on (replaceAll {} "aa" "b") (Site.holding (encode "aaaaa"))
          = (.ok 2, Site.holding (encode after))
        ∧ after = "bba".toList ∧ (after.length : Int) = 5 + 2 * (1 - 2) := by
  have ht : (Site.holding (encode "aaaaa")).textAt (Config.manifestPath {}) = .ok "aaaaa".toList :=
    eq_ok_of_toOption (by decide +kernel)
  have ho : ("aa" : Text) ≠ [] := by decide
  have hparts : Text.Parted "aa" "aaaaa" [[], [], ['a']] :=
    (Text.parted_iff ho).2 (by decide +kernel)
  obtain ⟨l, n, after, hl, hon, hold, -, hlen⟩ := count_of_replaceAll ht "aa" "b"
  obtain ⟨honly, hcount⟩ := hold ho
  obtain ⟨hn, hafter⟩ := hcount _ hparts
  obtain rfl : ["Cargo.toml".toList] = l := Except.ok.inj hl
  obtain rfl : n = 2 := Nat.succ.inj hn.symm
  exact ⟨ht, honly, hparts, after, hon, hafter, hlen⟩

end Manifest
end Repin
