/-
  Repin.Proofs.Text.Encoding
  ──────────────────────────
  **TEXTS AND THEIR BYTES.**

  The four lengths of a character are taken one by one, for reading
  (`decodePoints?_encodeChar`) and for what has been read
  (`exists_of_decodePoints?_cons`); a text follows by induction:

      decode? (encode s) = some s                       (`decode?_encode`)
      decode? b = some s ↔ b = encode s                 (`decode?_eq_some_iff`)

  So a text has one spelling in UTF-8, and no two texts share theirs.
-/
import Repin.Text.Encoding

namespace Repin.Text

/-! ## §1. The bytes of one character. -/

theorem toNat_continuation (n : Nat) : (continuation n).toNat = 0x80 + n % 64 := by
  unfold continuation
  rw [UInt8.toNat_ofNat', Nat.mod_eq_of_lt (by omega)]

theorem tail?_continuation (n : Nat) : tail? (continuation n) = some (n % 64) := by
  unfold tail?
  rw [toNat_continuation, if_pos (by omega), Nat.add_sub_cancel_left]

/-- A continuation byte is the one that carries the bits it carries. -/
theorem continuation_of_tail? {b : UInt8} {x : Nat} (h : tail? b = some x) :
    x < 64 ∧ ∀ n, n % 64 = x → b = continuation n := by
  unfold tail? at h
  split at h
  · have hx := Option.some.inj h
    refine ⟨by omega, fun n hn => UInt8.toNat_inj.1 ?_⟩
    rw [toNat_continuation]
    omega
  · cases h

/-- The byte of a number. -/
theorem eq_ofNat {b : UInt8} {n : Nat} (h : b.toNat = n) : b = UInt8.ofNat n := by
  rw [← h, UInt8.ofNat_toNat]

/-- A character is found again from its number. -/
theorem pointFrom?_toNat {least : Nat} {c : Char} (h : least ≤ c.toNat) :
    pointFrom? least c.toNat = some (.char c) := by
  have hv : c.toNat.isValidChar := c.valid
  unfold pointFrom? CodePoint.ofNat?
  rw [if_pos h, if_pos hv, Char.ofNat_toNat]

theorem of_pointFrom? {least n : Nat} {c : Char} (h : pointFrom? least n = some (.char c)) :
    least ≤ n ∧ c.toNat = n := by
  unfold pointFrom? CodePoint.ofNat? at h
  split at h
  · next hn =>
    split at h
    · next hv =>
      cases h
      refine ⟨hn, ?_⟩
      rw [Char.ofNat, dif_pos hv]
      rfl
    · split at h <;> cases h
  · cases h

theorem toNat_lt (c : Char) : c.toNat < 0x110000 := by
  have hv : c.toNat.isValidChar := c.valid
  unfold Nat.isValidChar at hv
  omega

variable {c : Char}

theorem encodeChar_one (h : c.toNat < 0x80) : encodeChar c = [UInt8.ofNat c.toNat] := by
  simp [encodeChar, h]

theorem encodeChar_two (h : 0x80 ≤ c.toNat) (h' : c.toNat < 0x800) :
    encodeChar c = [UInt8.ofNat (0xC0 + c.toNat / 0x40), continuation c.toNat] := by
  simp [encodeChar, Nat.not_lt.2 h, h']

theorem encodeChar_three (h : 0x800 ≤ c.toNat) (h' : c.toNat < 0x10000) :
    encodeChar c = [UInt8.ofNat (0xE0 + c.toNat / 0x1000), continuation (c.toNat / 0x40),
      continuation c.toNat] := by
  have h1 : ¬ c.toNat < 0x80 := by omega
  simp [encodeChar, h1, Nat.not_lt.2 h, h']

theorem encodeChar_four (h : 0x10000 ≤ c.toNat) :
    encodeChar c = [UInt8.ofNat (0xF0 + c.toNat / 0x40000), continuation (c.toNat / 0x1000),
      continuation (c.toNat / 0x40), continuation c.toNat] := by
  have h1 : ¬ c.toNat < 0x80 := by omega
  have h2 : ¬ c.toNat < 0x800 := by omega
  simp [encodeChar, h1, h2, Nat.not_lt.2 h]

theorem decodePoints?_encodeChar (c : Char) (r : Bytes) :
    decodePoints? (encodeChar c ++ r) = (decodePoints? r).map (.char c :: ·) := by
  have hlt := toNat_lt c
  by_cases h1 : c.toNat < 0x80
  · have hn : (UInt8.ofNat c.toNat).toNat = c.toNat := by rw [UInt8.toNat_ofNat']; omega
    rw [encodeChar_one h1, List.singleton_append, decodePoints?.eq_def]
    simp only [hn, h1, if_true, pointFrom?_toNat (Nat.zero_le _)]
    cases decodePoints? r <;> rfl
  by_cases h2 : c.toNat < 0x800
  · have hn : (UInt8.ofNat (0xC0 + c.toNat / 0x40)).toNat = 0xC0 + c.toNat / 0x40 := by
      rw [UInt8.toNat_ofNat']; omega
    have hs : (0xC0 + c.toNat / 0x40 - 0xC0) * 64 + c.toNat % 64 = c.toNat := by omega
    rw [encodeChar_two (by omega) h2, List.cons_append, List.singleton_append,
      decodePoints?.eq_def]
    simp only [hn, tail?_continuation, Option.bind_eq_bind, Option.bind_some, hs]
    rw [if_neg (by omega), if_pos (by omega), pointFrom?_toNat (by omega)]
    cases decodePoints? r <;> rfl
  by_cases h3 : c.toNat < 0x10000
  · have hn : (UInt8.ofNat (0xE0 + c.toNat / 0x1000)).toNat = 0xE0 + c.toNat / 0x1000 := by
      rw [UInt8.toNat_ofNat']; omega
    have hs : ((0xE0 + c.toNat / 0x1000 - 0xE0) * 64 + c.toNat / 0x40 % 64) * 64
        + c.toNat % 64 = c.toNat := by omega
    rw [encodeChar_three (by omega) h3, List.cons_append, List.cons_append,
      List.singleton_append, decodePoints?.eq_def]
    simp only [hn, tail?_continuation, Option.bind_eq_bind, Option.bind_some, hs]
    rw [if_neg (by omega), if_neg (by omega), if_pos (by omega), pointFrom?_toNat (by omega)]
    cases decodePoints? r <;> rfl
  · have hn : (UInt8.ofNat (0xF0 + c.toNat / 0x40000)).toNat = 0xF0 + c.toNat / 0x40000 := by
      rw [UInt8.toNat_ofNat']; omega
    have hs : (((0xF0 + c.toNat / 0x40000 - 0xF0) * 64 + c.toNat / 0x1000 % 64) * 64
        + c.toNat / 0x40 % 64) * 64 + c.toNat % 64 = c.toNat := by omega
    rw [encodeChar_four (by omega), List.cons_append, List.cons_append, List.cons_append,
      List.singleton_append, decodePoints?.eq_def]
    simp only [hn, tail?_continuation, Option.bind_eq_bind, Option.bind_some, hs]
    rw [if_neg (by omega), if_neg (by omega), if_neg (by omega), if_pos (by omega),
      pointFrom?_toNat (by omega)]
    cases decodePoints? r <;> rfl

/-- What is read behind the number of a code point. -/
theorem exists_of_point {least n : Nat} {r : Bytes} {ps : List CodePoint}
    (h : (pointFrom? least n).bind (fun p => (decodePoints? r).bind (fun qs => some (p :: qs)))
      = some ps) :
    ∃ p qs, ps = p :: qs ∧ decodePoints? r = some qs
      ∧ ∀ c, p = .char c → least ≤ n ∧ c.toNat = n := by
  obtain ⟨p, hp, h⟩ := Option.bind_eq_some_iff.1 h
  obtain ⟨qs, hqs, h⟩ := Option.bind_eq_some_iff.1 h
  refine ⟨p, qs, (Option.some.inj h).symm, hqs, ?_⟩
  rintro c rfl
  exact of_pointFrom? hp

/-- What is read as a character is the spelling of that character. -/
theorem exists_of_decodePoints?_cons {a : UInt8} {r : Bytes} {ps : List CodePoint}
    (h : decodePoints? (a :: r) = some ps) :
    ∃ p r' qs, ps = p :: qs ∧ decodePoints? r' = some qs
      ∧ ∀ c, p = .char c → a :: r = encodeChar c ++ r' := by
  rw [decodePoints?.eq_def] at h
  simp only [Option.bind_eq_bind, Option.pure_def] at h
  -- One byte.
  split at h
  · obtain ⟨p, qs, rfl, hqs, hp⟩ := exists_of_point h
    refine ⟨p, r, qs, rfl, hqs, fun c hpc => ?_⟩
    obtain ⟨-, hc⟩ := hp c hpc
    rw [encodeChar_one (by omega), hc, UInt8.ofNat_toNat]
    rfl
  split at h
  · cases h
  next b r =>
  -- Two bytes.
  split at h
  · obtain ⟨x, hx, h⟩ := Option.bind_eq_some_iff.1 h
    obtain ⟨p, qs, rfl, hqs, hp⟩ := exists_of_point h
    refine ⟨p, r, qs, rfl, hqs, fun c hpc => ?_⟩
    obtain ⟨hle, hc⟩ := hp c hpc
    obtain ⟨hx, hb⟩ := continuation_of_tail? hx
    have ha : a = UInt8.ofNat (0xC0 + c.toNat / 0x40) := eq_ofNat (by omega)
    rw [encodeChar_two (by omega) (by omega), ← ha, ← hb _ (by omega)]
    rfl
  split at h
  · cases h
  next d r =>
  -- Three bytes.
  split at h
  · obtain ⟨x, hx, h⟩ := Option.bind_eq_some_iff.1 h
    obtain ⟨y, hy, h⟩ := Option.bind_eq_some_iff.1 h
    obtain ⟨p, qs, rfl, hqs, hp⟩ := exists_of_point h
    refine ⟨p, r, qs, rfl, hqs, fun c hpc => ?_⟩
    obtain ⟨hle, hc⟩ := hp c hpc
    obtain ⟨hx, hb⟩ := continuation_of_tail? hx
    obtain ⟨hy, hd⟩ := continuation_of_tail? hy
    have ha : a = UInt8.ofNat (0xE0 + c.toNat / 0x1000) := eq_ofNat (by omega)
    rw [encodeChar_three (by omega) (by omega), ← ha, ← hb _ (by omega), ← hd _ (by omega)]
    rfl
  split at h
  · cases h
  next e r =>
  -- Four bytes.
  split at h
  · obtain ⟨x, hx, h⟩ := Option.bind_eq_some_iff.1 h
    obtain ⟨y, hy, h⟩ := Option.bind_eq_some_iff.1 h
    obtain ⟨z, hz, h⟩ := Option.bind_eq_some_iff.1 h
    obtain ⟨p, qs, rfl, hqs, hp⟩ := exists_of_point h
    refine ⟨p, r, qs, rfl, hqs, fun c hpc => ?_⟩
    obtain ⟨hle, hc⟩ := hp c hpc
    obtain ⟨hx, hb⟩ := continuation_of_tail? hx
    obtain ⟨hy, hd⟩ := continuation_of_tail? hy
    obtain ⟨hz, he⟩ := continuation_of_tail? hz
    have ha : a = UInt8.ofNat (0xF0 + c.toNat / 0x40000) := eq_ofNat (by omega)
    rw [encodeChar_four (by omega), ← ha, ← hb _ (by omega), ← hd _ (by omega), ← he _ (by omega)]
    rfl
  · cases h

/-! ## §2. Texts. -/

theorem decodePoints?_encode (s : Text) : decodePoints? (encode s) = some (CodePoint.ofText s) := by
  induction s with
  | nil => rfl
  | cons c s ih =>
    show decodePoints? (encodeChar c ++ encode s) = some (.char c :: CodePoint.ofText s)
    rw [decodePoints?_encodeChar, ih]
    rfl

/-- A text is read back from its bytes. -/
theorem decode?_encode (s : Text) : decode? (encode s) = some s := by
  unfold decode?
  rw [decodePoints?_encode]
  exact CodePoint.text?_ofText s

theorem eq_encode_of_decodePoints? {b : Bytes} {s : Text}
    (h : decodePoints? b = some (CodePoint.ofText s)) : b = encode s := by
  induction s generalizing b with
  | nil =>
    cases b with
    | nil => rfl
    | cons a r =>
      obtain ⟨p, r', qs, hps, -, -⟩ := exists_of_decodePoints?_cons h
      cases hps
  | cons c s ih =>
    cases b with
    | nil => cases h
    | cons a r =>
      obtain ⟨p, r', qs, hps, hqs, hp⟩ := exists_of_decodePoints?_cons h
      cases hps
      rw [hp c rfl, ih hqs]
      rfl

/-- **A text has one spelling.** -/
theorem decode?_eq_some_iff {b : Bytes} {s : Text} : decode? b = some s ↔ b = encode s := by
  constructor
  · intro h
    obtain ⟨ps, hps, h⟩ := Option.bind_eq_some_iff.1 h
    rw [CodePoint.text?_eq_some_iff] at h
    rw [h] at hps
    exact eq_encode_of_decodePoints? hps
  · rintro rfl
    exact decode?_encode s

end Repin.Text
