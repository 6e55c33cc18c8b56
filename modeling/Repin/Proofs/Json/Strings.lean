/-
  Repin.Proofs.Json.Strings
  ─────────────────────────
  **STRINGS ARE READ AS THEY ARE WRITTEN.**

  A string in a document is spelled piece by piece: a character as it is, the escape of
  a character, the escape of a UTF-16 unit.  `PiecesAt` says so without a reader, and
  the reader finds these spellings and no others (`pieces_eq_ok_iff`).

  Every code point has a spelling, which is the one that is written.  Half a surrogate
  pair has an escape of its own, so the two halves of a pair must not stand side by side:
  as two escapes in a row they would be read as one character.  In what is read from a
  document they never do (`settled_joined`), and such a string is read back as it was:

      joined (s.flatMap piecesOf) = s      for `Settled s`      (`joined_piecesOf`)
-/
import Mathlib.Data.List.Chain
import Repin.Json.Reader
import Repin.Json.Writer
import Repin.Proofs.Job
import Repin.Proofs.Text.Encoding
import Repin.Proofs.Text.Numeral

namespace Repin

/-! ## §1. Code points by their numbers. -/

namespace CodePoint

/-- A character is no surrogate. -/
theorem not_surrogate (c : Char) : c.toNat < 0xD800 ∨ 0xE000 ≤ c.toNat := by
  have hv : c.toNat.isValidChar := c.valid
  unfold Nat.isValidChar at hv
  omega

theorem ofNat?_toNat (p : CodePoint) : ofNat? p.toNat = some p := by
  cases p with
  | char c =>
    have hv : c.toNat.isValidChar := c.valid
    unfold ofNat?
    show (if c.toNat.isValidChar then _ else _) = _
    rw [if_pos hv]
    show some (CodePoint.char (Char.ofNat c.toNat)) = _
    rw [Char.ofNat_toNat]
  | surrogate s =>
    have hs := s.isLt
    have hv : ¬ (0xD800 + s.val).isValidChar := by
      unfold Nat.isValidChar
      omega
    show ofNat? (0xD800 + s.val) = _
    unfold ofNat?
    rw [if_neg hv, dif_pos (by omega)]
    simp

theorem eq_char_of_toNat {p : CodePoint} {c : Char} (h : p.toNat = c.toNat) : p = .char c := by
  have hp := ofNat?_toNat p
  rw [h] at hp
  exact Option.some.inj (hp.symm.trans (ofNat?_toNat (.char c)))

theorem toNat_lt (p : CodePoint) : p.toNat < 0x110000 := by
  cases p with
  | char c => exact Text.toNat_lt c
  | surrogate s =>
    have hs := s.isLt
    show 0xD800 + s.val < 0x110000
    omega

end CodePoint

/-! ## §2. The four digits of a unit. -/

namespace Text

/-- The last digit of a padded numeral, and those before it. -/
theorem padded_succ {width : Nat} (hw : 0 < width) (n : Nat) :
    padded 16 (width + 1) n = padded 16 width (n / 16) ++ [digitOf (n % 16)] := by
  by_cases hn : 16 ≤ n
  · have hdigits : digitsIn 16 n = digitsIn 16 (n / 16) ++ [digitOf (n % 16)] := by
      rw [digitsIn.eq_def, dif_pos ⟨by omega, hn⟩]
    simp only [padded, hdigits, List.length_append, List.length_singleton,
      Nat.add_sub_add_right, List.append_assoc]
  · have hzero : digitsIn 16 0 = ['0'] := by
      rw [digitsIn.eq_def, dif_neg (by omega)]
      rfl
    have hdigits : digitsIn 16 n = [digitOf n] := by
      rw [digitsIn.eq_def, dif_neg (by omega)]
    simp only [padded, hdigits, show n / 16 = 0 by omega, hzero,
      Nat.mod_eq_of_lt (by omega : n < 16), List.length_singleton, Nat.add_sub_cancel]
    rw [← List.replicate_succ', Nat.sub_add_cancel hw]

theorem padded_one {n : Nat} (hn : n < 16) : padded 16 1 n = [digitOf n] := by
  unfold padded
  rw [digitsIn.eq_def, dif_neg (by omega)]
  rfl

theorem padded_four {n : Nat} (hn : n < 0x10000) : padded 16 4 n
    = [digitOf (n / 16 / 16 / 16), digitOf (n / 16 / 16 % 16), digitOf (n / 16 % 16),
        digitOf (n % 16)] := by
  rw [padded_succ (by omega), padded_succ (by omega), padded_succ (by omega),
    padded_one (by omega)]
  rfl

theorem step_hexDigit {d : Nat} (hd : d < 16) (m : Nat) :
    valueIn?.step 16 m (digitOf d) = some (m * 16 + d) := by
  have hall : ∀ d : Fin 16, digitValue? (digitOf d.val) = some d.val := by decide
  unfold valueIn?.step
  rw [hall ⟨d, hd⟩]
  show (if d < 16 then _ else _) = _
  rw [if_pos hd]

/-- **Four digits are read as the unit that they are written for.** -/
theorem exists_digits_of_unit {n : Nat} (hn : n < 0x10000) :
    ∃ a b c d, padded 16 4 n = [a, b, c, d] ∧ valueIn? 16 [a, b, c, d] = some n := by
  refine ⟨_, _, _, _, padded_four hn, ?_⟩
  unfold valueIn?
  rw [if_neg (by simp)]
  simp only [List.foldlM_cons, List.foldlM_nil, Option.bind_eq_bind, Option.bind_some,
    step_hexDigit (show n / 16 / 16 / 16 < 16 by omega),
    step_hexDigit (show n / 16 / 16 % 16 < 16 by omega),
    step_hexDigit (show n / 16 % 16 < 16 by omega), step_hexDigit (show n % 16 < 16 by omega)]
  exact congrArg some (by omega)

end Text

namespace Json

/-! ## §3. The spellings of a string. -/

/-- A piece stands at the beginning of the first rest, and the second one is behind it. -/
inductive Piece.At : Piece → Rest → Rest → Prop
  | plain {p : CodePoint} {r : Rest} : p ≠ .char '"' → p ≠ .char '\\' → 0x20 ≤ p.toNat →
      Piece.At (.plain p) (p :: r) r
  | escaped {e c : Char} {r : Rest} : escaped? e = some c →
      Piece.At (.plain (.char c)) (.char '\\' :: .char e :: r) r
  | unit {a b c d : Char} {n : Nat} {r : Rest} : Text.valueIn? 16 [a, b, c, d] = some n →
      Piece.At (.unit n)
        (.char '\\' :: .char 'u' :: .char a :: .char b :: .char c :: .char d :: r) r

/-- The pieces of a string stand at the beginning of a rest, up to the closing quote. -/
inductive PiecesAt : List Piece → Rest → Rest → Prop
  | close {r : Rest} : PiecesAt [] (.char '"' :: r) r
  | cons {x : Piece} {xs : List Piece} {s t r : Rest} : x.At s t → PiecesAt xs t r →
      PiecesAt (x :: xs) s r

variable {xs : List Piece} {s r opening : Rest}

theorem PiecesAt.exists_cons (h : PiecesAt xs s r) : ∃ p t, s = p :: t := by
  cases h with
  | close => exact ⟨_, _, rfl⟩
  | cons hx _ => cases hx <;> exact ⟨_, _, rfl⟩

/-- What is behind a string is a shorter end of what the string stands in. -/
theorem PiecesAt.behind (h : PiecesAt xs s r) : ∃ a, a ≠ [] ∧ s = a ++ r := by
  induction h with
  | close => exact ⟨[_], by simp, rfl⟩
  | @cons x xs s t r hx _ ih =>
    obtain ⟨a, -, rfl⟩ := ih
    have hs : ∃ b, b ≠ [] ∧ s = b ++ (a ++ r) := by
      cases hx with
      | plain => exact ⟨[_], by simp, rfl⟩
      | escaped => exact ⟨[_, _], by simp, rfl⟩
      | unit => exact ⟨[_, _, _, _, _, _], by simp, rfl⟩
    obtain ⟨b, hb, rfl⟩ := hs
    exact ⟨b ++ a, by simp [hb], (List.append_assoc ..).symm⟩

theorem PiecesAt.length_lt (h : PiecesAt xs s r) : r.length < s.length := by
  obtain ⟨a, ha, rfl⟩ := h.behind
  have hpos := List.length_pos_of_ne_nil ha
  rw [List.length_append]
  omega

theorem pieces_of_at {x : Piece} {t : Rest} (h : x.At s t) (ht : ∃ p u, t = p :: u)
    (hr : pieces opening t = .ok (xs, r)) : pieces opening s = .ok (x :: xs, r) := by
  cases h with
  | @plain p t hquote hslash hlow =>
    rw [pieces]
    · rw [if_neg (by omega), hr]
      rfl
    · exact hquote
    · exact fun he _ => hslash he
    · exact fun _ _ _ _ _ he _ => hslash he
    · exact fun _ he _ => hslash he
    · exact fun _ _ he _ => hslash he
  | @escaped e c t he =>
    have hu : e ≠ 'u' := by
      intro hu
      rw [hu] at he
      cases he
    rw [pieces]
    · have hmeaning : (CodePoint.char e).char?.bind escaped? = some c := he
      simp only [hmeaning, hr]
      rfl
    · exact fun _ _ _ _ _ hp _ => hu (CodePoint.char.inj hp)
    · exact fun hp => hu (CodePoint.char.inj hp)
  | @unit a b c d n t hn =>
    obtain ⟨p, u, rfl⟩ := ht
    have hdigits : [.char a, .char b, .char c, .char d].mapM CodePoint.char? = some [a, b, c, d] :=
      CodePoint.text?_ofText [a, b, c, d]
    rw [pieces.eq_4 _ _ _ _ _ _ _ n (by rw [hdigits]; exact hn), hr]
    rfl

/-- Reading one piece more. -/
theorem exists_of_more {x : Piece} {t : Except Miss (List Piece × Rest)}
    (h : (do let (ps, r) ← t; return (x :: ps, r)) = Except.ok (xs, r)) :
    ∃ ps, t = .ok (ps, r) ∧ xs = x :: ps := by
  obtain ⟨⟨ps, u⟩, hps, h⟩ := exists_of_bind_eq_ok h
  cases h
  exact ⟨ps, hps, rfl⟩

/-- What the reader takes for a string is spelled as one. -/
theorem piecesAt_of_pieces (h : pieces opening s = .ok (xs, r)) : PiecesAt xs s r := by
  fun_induction pieces opening s generalizing xs with
  | case1 => cases h
  | case2 t =>
    cases h
    exact .close
  | case3 => cases h
  | case4 a b c d p t n hn ih =>
    obtain ⟨ps, hps, rfl⟩ := exists_of_more h
    obtain ⟨digits, hdigits, hvalue⟩ := Option.bind_eq_some_iff.1 hn
    have htext : [a, b, c, d] = CodePoint.ofText digits := CodePoint.text?_eq_some_iff.1 hdigits
    match digits with
    | [a, b, c, d] =>
      cases htext
      exact .cons (.unit hvalue) (ih hps)
  | case5 => cases h
  | case6 => cases h
  | case7 p t _ _ c hc ih =>
    obtain ⟨ps, hps, rfl⟩ := exists_of_more h
    obtain ⟨e, he, hc⟩ := Option.bind_eq_some_iff.1 hc
    cases p with
    | surrogate n => cases he
    | char x =>
      cases he
      exact .cons (.escaped hc) (ih hps)
  | case8 => cases h
  | case9 => cases h
  | case10 p t hquote hend _ _ hslash hlow ih =>
    obtain ⟨ps, hps, rfl⟩ := exists_of_more h
    have hp : p ≠ .char '\\' := by
      intro hp
      cases t with
      | nil => exact hend hp rfl
      | cons q t => exact hslash q t hp rfl
    exact .cons (.plain hquote hp (by omega)) (ih hps)

/-- **The reader finds the spellings of strings and nothing else.** -/
theorem pieces_eq_ok_iff : pieces opening s = .ok (xs, r) ↔ PiecesAt xs s r := by
  constructor
  · exact piecesAt_of_pieces
  · intro h
    induction h with
    | close => rw [pieces]
    | cons hx ht ih => exact pieces_of_at hx ht.exists_cons ih

/-! ## §4. Halves of surrogate pairs. -/

/-- No first half of a surrogate pair stands just before a second half. -/
def Settled (s : List CodePoint) : Prop :=
  s.IsChain (fun p q => ¬ (Text.isHigh p.toNat = true ∧ Text.isLow q.toNat = true))

theorem isHigh_char (c : Char) : Text.isHigh c.toNat = false := by
  have hc := CodePoint.not_surrogate c
  unfold Text.isHigh
  simp only [Bool.and_eq_false_iff, decide_eq_false_iff_not]
  omega

theorem isLow_char (c : Char) : Text.isLow c.toNat = false := by
  have hc := CodePoint.not_surrogate c
  unfold Text.isLow
  simp only [Bool.and_eq_false_iff, decide_eq_false_iff_not]
  omega

theorem settled_ofText (t : Text) : Settled (CodePoint.ofText t) := by
  induction t with
  | nil => exact .nil
  | cons c t ih =>
    refine ih.cons (fun q _ h => ?_)
    exact absurd h.1 (Bool.eq_false_iff.1 (isHigh_char c))

/-- The code point of a number has this number, if it is one of a code point. -/
theorem toNat_point (n : Nat) : (joined.point n).toNat = n ∨ (joined.point n).toNat = 0 := by
  unfold joined.point CodePoint.ofNat?
  by_cases hv : n.isValidChar
  · rw [if_pos hv]
    have hn : (Char.ofNat n).toNat = n := by
      rw [Char.ofNat, dif_pos hv]
      rfl
    exact .inl hn
  · rw [if_neg hv]
    by_cases hs : 0xD800 ≤ n ∧ n < 0xE000
    · rw [dif_pos hs]
      left
      show 0xD800 + (n - 0xD800) = n
      omega
    · rw [dif_neg hs]
      exact .inr rfl

theorem isHigh_of_point {n : Nat} (h : Text.isHigh (joined.point n).toNat = true) :
    Text.isHigh n = true := by
  rcases toNat_point n with he | he
  · rwa [he] at h
  · rw [he] at h
    cases h

theorem isLow_of_point {n : Nat} (h : Text.isLow (joined.point n).toNat = true) :
    Text.isLow n = true := by
  rcases toNat_point n with he | he
  · rwa [he] at h
  · rw [he] at h
    cases h

theorem not_isHigh_of_isLow {n : Nat} (h : Text.isLow n = true) : ¬ Text.isHigh n = true := by
  unfold Text.isLow at h
  unfold Text.isHigh
  simp only [Bool.and_eq_true, decide_eq_true_eq] at h ⊢
  omega

/-- A pair stands for a character behind all of the units. -/
theorem le_pairValue (a b : Nat) : 0x10000 ≤ Text.pairValue a b := by
  unfold Text.pairValue
  omega

theorem not_surrogate_of_ge {n : Nat} (h : 0x10000 ≤ n) :
    Text.isHigh n = false ∧ Text.isLow n = false := by
  unfold Text.isHigh Text.isLow
  simp only [Bool.and_eq_false_iff, decide_eq_false_iff_not]
  omega

/-- The pieces that are code points as they are, are characters. -/
def CharsPlain (xs : List Piece) : Prop := ∀ p, Piece.plain p ∈ xs → ∃ c, p = .char c

/-- What is joined begins with a second half only if an escape of one stands there. -/
theorem exists_of_isLow_head {q : CodePoint} (hx : CharsPlain xs)
    (hq : q ∈ (joined xs).head?) (hlow : Text.isLow q.toNat = true) :
    ∃ b ys, xs = .unit b :: ys ∧ Text.isLow b = true := by
  fun_cases joined xs with
  | case1 => cases hq
  | case2 p ys =>
    cases hq
    obtain ⟨c, rfl⟩ := hx _ List.mem_cons_self
    exact absurd hlow (Bool.eq_false_iff.1 (isLow_char c))
  | case3 a b ys hpair =>
    rw [joined, if_pos hpair] at hq
    rw [← Option.some.inj hq] at hlow
    exact absurd (isLow_of_point hlow)
      (Bool.eq_false_iff.1 (not_surrogate_of_ge (le_pairValue a b)).2)
  | case4 a b ys hpair =>
    rw [joined, if_neg hpair] at hq
    cases hq
    exact ⟨a, _, rfl, isLow_of_point hlow⟩
  | case5 a ys hys =>
    rw [joined.eq_4 _ _ hys] at hq
    cases hq
    exact ⟨a, _, rfl, isLow_of_point hlow⟩

/-- **In what the pieces of a string are joined to, no two halves of a pair stand side by side.** -/
theorem settled_joined (hx : CharsPlain xs) : Settled (joined xs) := by
  have htail : ∀ {x : Piece} {ys : List Piece}, CharsPlain (x :: ys) → CharsPlain ys :=
    fun h p hp => h p (List.mem_cons_of_mem _ hp)
  fun_induction joined xs with
  | case1 => exact .nil
  | case2 p ys ih =>
    obtain ⟨c, rfl⟩ := hx _ List.mem_cons_self
    refine (ih (htail hx)).cons (fun q _ h => ?_)
    exact absurd h.1 (Bool.eq_false_iff.1 (isHigh_char c))
  | case3 a b ys hpair ih =>
    refine (ih (htail (htail hx))).cons (fun q _ h => ?_)
    exact absurd (isHigh_of_point h.1)
      (Bool.eq_false_iff.1 (not_surrogate_of_ge (le_pairValue a b)).1)
  | case4 a b ys hpair ih =>
    refine (ih (htail hx)).cons (fun q hq h => ?_)
    obtain ⟨d, zs, he, hd⟩ := exists_of_isLow_head (htail hx) hq h.2
    cases he
    exact hpair (Bool.and_eq_true_iff.2 ⟨isHigh_of_point h.1, hd⟩)
  | case5 a ys hys ih =>
    refine (ih (htail hx)).cons (fun q hq h => ?_)
    obtain ⟨d, zs, he, -⟩ := exists_of_isLow_head (htail hx) hq h.2
    exact hys d zs he

/-- The rest of a document that is given as text. -/
def IsText (s : Rest) : Prop := ∀ p ∈ s, ∃ c, p = .char c

theorem isText_ofText (t : Text) : IsText (CodePoint.ofText t) := by
  intro p hp
  obtain ⟨c, -, rfl⟩ := List.mem_map.1 hp
  exact ⟨c, rfl⟩

theorem IsText.behind {a : Rest} (h : IsText (a ++ r)) : IsText r :=
  fun p hp => h p (List.mem_append_right _ hp)

theorem IsText.tail {p : CodePoint} (h : IsText (p :: s)) : IsText s :=
  fun q hq => h q (List.mem_cons_of_mem _ hq)

/-- In a string that stands in a text, the pieces that are no escapes are characters. -/
theorem charsPlain_of_at (h : PiecesAt xs s r) (hs : IsText s) : CharsPlain xs := by
  induction h with
  | close =>
    intro p hp
    cases hp
  | @cons x xs s t r hx ht ih =>
    obtain ⟨a, ha, hxp⟩ : ∃ a, s = a ++ t ∧ ∀ p, x = .plain p → ∃ c, p = .char c := by
      cases hx with
      | @plain p t =>
        refine ⟨[p], rfl, ?_⟩
        intro q hq
        cases hq
        exact hs p List.mem_cons_self
      | @escaped e c t he =>
        refine ⟨[_, _], rfl, ?_⟩
        intro q hq
        cases hq
        exact ⟨c, rfl⟩
      | unit hn => exact ⟨[_, _, _, _, _, _], rfl, fun q hq => by cases hq⟩
    rw [ha] at hs
    intro p hp
    rcases List.mem_cons.1 hp with hp | hp
    · exact hxp p hp.symm
    · exact ih hs.behind p hp

/-! ## §5. The spelling that is written. -/

/-- The numbers of the characters that are written as they are or behind a backslash. -/
def isShort (n : Nat) : Prop := n ∈ [0x8, 0x9, 0xA, 0xC, 0xD] ∨ 0x20 ≤ n ∧ n < 0x7F

instance (n : Nat) : Decidable (isShort n) := by
  unfold isShort
  infer_instance

/-- The halves of the surrogate pair for a number behind all of the units. -/
def firstHalf (n : Nat) : Nat := 0xD800 + (n - 0x10000) / 0x400

def secondHalf (n : Nat) : Nat := 0xDC00 + (n - 0x10000) % 0x400

/-- The pieces of the spelling in which a code point is written. -/
def piecesOf (p : CodePoint) : List Piece :=
  let n := p.toNat
  if isShort n then [.plain p]
  else if n < 0x10000 then [.unit n]
  else [.unit (firstHalf n), .unit (secondHalf n)]

theorem piecesOf_short {p : CodePoint} (h : isShort p.toNat) : piecesOf p = [.plain p] := if_pos h

theorem piecesOf_unit {p : CodePoint} (h : ¬ isShort p.toNat) (hlt : p.toNat < 0x10000) :
    piecesOf p = [.unit p.toNat] := by
  unfold piecesOf
  rw [if_neg h, if_pos hlt]

theorem piecesOf_pair {p : CodePoint} (hge : 0x10000 ≤ p.toNat) :
    piecesOf p = [.unit (firstHalf p.toNat), .unit (secondHalf p.toNat)] := by
  have hshort : ¬ isShort p.toNat := by
    simp only [isShort, List.mem_cons, List.not_mem_nil, or_false]
    omega
  unfold piecesOf
  rw [if_neg hshort, if_neg (by omega)]

theorem halves_lt {n : Nat} (hlt : n < 0x110000) :
    firstHalf n < 0x10000 ∧ secondHalf n < 0x10000 := by
  unfold firstHalf secondHalf
  omega

/-- The two halves of a pair are what their names say, and the pair stands for the number. -/
theorem halves {n : Nat} (hge : 0x10000 ≤ n) (hlt : n < 0x110000) :
    (Text.isHigh (firstHalf n) && Text.isLow (secondHalf n)) = true
      ∧ Text.pairValue (firstHalf n) (secondHalf n) = n := by
  unfold Text.isHigh Text.isLow Text.pairValue firstHalf secondHalf
  simp only [Bool.and_eq_true, decide_eq_true_eq]
  omega

/-- How code points are written. -/
inductive Escaped : CodePoint → Text → Prop
  /-- As a letter behind a backslash. -/
  | letter {c e : Char} : escaped? e = some c → isShort c.toNat → Escaped (.char c) ['\\', e]
  /-- As it is. -/
  | plain {c : Char} : c ≠ '"' → c ≠ '\\' → 0x20 ≤ c.toNat → c.toNat < 0x7F →
      Escaped (.char c) [c]
  | unit {p : CodePoint} : ¬ isShort p.toNat → p.toNat < 0x10000 → Escaped p (unitEscape p.toNat)
  /-- As the two halves of a pair. -/
  | pair {p : CodePoint} : 0x10000 ≤ p.toNat →
      Escaped p (unitEscape (firstHalf p.toNat) ++ unitEscape (secondHalf p.toNat))

theorem escaped_escape (p : CodePoint) : Escaped p (escape p) := by
  -- The characters that are written as a letter behind a backslash.
  have hletter : ∀ c e : Char, p.toNat = c.toNat → isShort c.toNat → escaped? e = some c →
      Escaped p ['\\', e] := by
    intro c e hp hc he
    rw [CodePoint.eq_char_of_toNat hp]
    exact .letter he hc
  unfold escape
  simp only []
  split_ifs with h1 h2 h3 h4 h5 h6 h7 h8 h9
  · exact hletter '"' _ h1 (by decide) rfl
  · exact hletter '\\' _ h2 (by decide) rfl
  · exact hletter '\n' _ h3 (by decide) rfl
  · exact hletter '\r' _ h4 (by decide) rfl
  · exact hletter '\t' _ h5 (by decide) rfl
  · exact hletter '\x0c' _ h6 (by decide) rfl
  · exact hletter '\x08' _ h7 (by decide) rfl
  · obtain ⟨c, rfl⟩ : ∃ c, p = .char c := by
      refine ⟨Char.ofNat p.toNat, CodePoint.eq_char_of_toNat ?_⟩
      rw [Char.ofNat, dif_pos (.inl (by omega))]
      rfl
    show Escaped (.char c) [Char.ofNat c.toNat]
    rw [Char.ofNat_toNat]
    refine .plain ?_ ?_ h8.1 h8.2
    · intro he
      rw [he] at h1
      exact h1 rfl
    · intro he
      rw [he] at h2
      exact h2 rfl
  · refine .unit ?_ h9
    simp only [isShort, List.mem_cons, List.not_mem_nil, or_false]
    omega
  · exact .pair (by omega)

theorem piecesAt_unitEscape {n : Nat} (hn : n < 0x10000) (h : PiecesAt xs s r) :
    PiecesAt (.unit n :: xs) (CodePoint.ofText (unitEscape n) ++ s) r := by
  obtain ⟨a, b, c, d, htext, hvalue⟩ := Text.exists_digits_of_unit hn
  unfold unitEscape
  rw [htext]
  exact .cons (.unit hvalue) h

/-- A code point is spelled by its escape. -/
theorem piecesAt_escaped {p : CodePoint} {t : Text} (he : Escaped p t) (h : PiecesAt xs s r) :
    PiecesAt (piecesOf p ++ xs) (CodePoint.ofText t ++ s) r := by
  cases he with
  | @letter c e he hc =>
    have hpieces : piecesOf (.char c) = [.plain (.char c)] := piecesOf_short hc
    rw [hpieces]
    exact .cons (.escaped he) h
  | @plain c hquote hslash hlow hhigh =>
    have hpieces : piecesOf (.char c) = [.plain (.char c)] := piecesOf_short (.inr ⟨hlow, hhigh⟩)
    rw [hpieces]
    exact .cons (.plain (by simpa using hquote) (by simpa using hslash) hlow) h
  | unit hshort hlt =>
    rw [piecesOf_unit hshort hlt]
    exact piecesAt_unitEscape hlt h
  | pair hge =>
    obtain ⟨hfirst, hsecond⟩ := halves_lt p.toNat_lt
    rw [piecesOf_pair hge, CodePoint.ofText_append, List.append_assoc]
    exact piecesAt_unitEscape hfirst (piecesAt_unitEscape hsecond h)

/-- **The spelling that is written for a string is one of its spellings.** -/
theorem piecesAt_quoted (s : List CodePoint) (r : Rest) :
    PiecesAt (s.flatMap piecesOf) (CodePoint.ofText (s.flatMap escape ++ ['"']) ++ r) r := by
  induction s with
  | nil => exact .close
  | cons p s ih =>
    have h := piecesAt_escaped (escaped_escape p) ih
    rwa [List.flatMap_cons, List.flatMap_cons, List.append_assoc, CodePoint.ofText_append,
      List.append_assoc]

theorem point_toNat (p : CodePoint) : joined.point p.toNat = p := by
  unfold joined.point
  rw [CodePoint.ofNat?_toNat]
  rfl

/-- A unit alone stands for itself, unless it makes a pair with what follows. -/
theorem joined_unit {n : Nat} {ys : List Piece}
    (h : ∀ b zs, ys = .unit b :: zs → (Text.isHigh n && Text.isLow b) = false) :
    joined (.unit n :: ys) = joined.point n :: joined ys := by
  cases ys with
  | nil => rfl
  | cons y ys =>
    cases y with
    | plain p => rfl
    | unit b => rw [joined, if_neg (Bool.eq_false_iff.1 (h b ys rfl))]

/-- What is written begins with a second half only if one stands there. -/
theorem exists_of_isLow_piecesOf {s : List CodePoint} {b : Nat} {zs : List Piece}
    (h : s.flatMap piecesOf = .unit b :: zs) (hlow : Text.isLow b = true) :
    ∃ q ∈ s.head?, q.toNat = b := by
  cases s with
  | nil => cases h
  | cons q s =>
    refine ⟨q, rfl, ?_⟩
    rw [List.flatMap_cons] at h
    by_cases hshort : isShort q.toNat
    · rw [piecesOf_short hshort] at h
      cases h
    · by_cases hlt : q.toNat < 0x10000
      · rw [piecesOf_unit hshort hlt] at h
        cases h
        rfl
      · -- A pair begins with its first half.
        have hge : 0x10000 ≤ q.toNat := by omega
        rw [piecesOf_pair hge] at h
        cases h
        exact absurd (Bool.and_eq_true_iff.1 (halves hge q.toNat_lt).1).1 (not_isHigh_of_isLow hlow)

/-- **The spelling that is written stands for the string**, if no halves of a pair stand side by
side in it. -/
theorem joined_piecesOf {s : List CodePoint} (h : Settled s) : joined (s.flatMap piecesOf) = s := by
  induction s with
  | nil => rfl
  | cons p s ih =>
    obtain ⟨hp, hs⟩ := List.isChain_cons.1 h
    rw [List.flatMap_cons]
    by_cases hshort : isShort p.toNat
    · rw [piecesOf_short hshort]
      show p :: joined (s.flatMap piecesOf) = _
      rw [ih hs]
    · by_cases hlt : p.toNat < 0x10000
      · rw [piecesOf_unit hshort hlt, List.singleton_append, joined_unit, point_toNat, ih hs]
        intro b zs he
        apply Bool.eq_false_iff.2
        intro hpair
        obtain ⟨hhigh, hlow⟩ := Bool.and_eq_true_iff.1 hpair
        obtain ⟨q, hq, rfl⟩ := exists_of_isLow_piecesOf he hlow
        exact hp q hq ⟨hhigh, hlow⟩
      · have hge : 0x10000 ≤ p.toNat := by omega
        obtain ⟨hpair, hvalue⟩ := halves hge p.toNat_lt
        rw [piecesOf_pair hge]
        show joined (.unit _ :: .unit _ :: s.flatMap piecesOf) = _
        rw [joined, if_pos hpair, hvalue, point_toNat, ih hs]

end Json
end Repin
