/-
  Repin.Proofs.Version.Next
  ─────────────────────────
  **THE NEXT VERSION IS A LATER RELEASE.**

  A bump of a text reads it leniently and writes the version that follows.  That version
  is a release in its canonical form, so it is read back whole (`lenient_text`), and it
  comes after the version that was read, even if that one is a pre-release of the same
  numbers or carries a build part (`below_next`).
-/
import Repin.Proofs.Version.Order
import Repin.Proofs.Version.Reading

namespace Repin

namespace Version

theorem below_next (b : Bump) (v : Version) : v.Below (b.next v) := by
  cases b with
  | patch => exact .inr ⟨rfl, .inr ⟨rfl, .inl (Nat.lt_succ_self v.patch)⟩⟩
  | minor => exact .inr ⟨rfl, .inl (Nat.lt_succ_self v.minor)⟩

theorem major_next (b : Bump) (v : Version) : (b.next v).major = v.major := by
  cases b <;> rfl

theorem core_next_patch (v : Version) : (Bump.patch.next v).core
    = Text.digits v.major ++ '.' :: (Text.digits v.minor ++ '.' :: Text.digits (v.patch + 1)) :=
  rfl

theorem core_next_minor (v : Version) : (Bump.minor.next v).core
    = Text.digits v.major ++ '.' :: (Text.digits (v.minor + 1) ++ '.' :: ['0']) := by
  show Text.digits v.major ++ '.' :: (Text.digits (v.minor + 1) ++ '.' :: Text.digits 0) = _
  rw [Text.digits_of_lt (n := 0) (by omega)]
  rfl

theorem lenient_text {v : Version} (h : v.WellFormed) : lenient v.text = .ok v := by
  unfold lenient
  rw [read?_text h]

end Version

end Repin
