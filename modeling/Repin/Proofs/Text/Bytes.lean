/-
  Repin.Proofs.Text.Bytes
  ───────────────────────
  **REPLACING IN THE BYTES OF A TEXT.**

  `Replaces` says what it is to replace in a list of any kind, and there is one way to do
  it (`Replaces.unique`).  The function for texts does it (`replaces_replaced`).

  In UTF-8 the first byte of a character is none of those that may follow it.  So the bytes
  of a text, wherever they occur in those of another, begin and end between two characters
  (`exists_of_encode_eq`), and

      replacing a text replaces its bytes ,             (`Replaces.bytes`)
      unifying its line ends unifies theirs .           (`encode_unified`)
-/
import Mathlib.Data.List.Infix
import Repin.Proofs.Text.Encoding
import Repin.Proofs.Text.Lines
import Repin.Proofs.Text.Replace

namespace Repin.Text

/-! ## §1. Replacing in a list. -/

/-- The list `s` with the occurrences of `old` replaced by `new` is `t`.  There are `n` of them:
from the left to the right, each found behind the one before. -/
inductive Replaces {α : Type} (old new : List α) : (s t : List α) → (n : Nat) → Prop
  | none {s : List α} : ¬ old <:+: s → Replaces old new s s 0
  | more {a b c : List α} {n : Nat} : FirstBehind old a → Replaces old new b c n →
      Replaces old new (a ++ (old ++ b)) (a ++ (new ++ c)) (n + 1)

theorem infix_append_append {α : Type} (a old b : List α) : old <:+: a ++ (old ++ b) :=
  ⟨a, b, List.append_assoc a old b⟩

/-- There is one way to replace. -/
theorem Replaces.unique {α : Type} {old new s t u : List α} {n m : Nat}
    (h : Replaces old new s t n) (h' : Replaces old new s u m) : t = u ∧ n = m := by
  induction h generalizing u m with
  | none hs =>
    cases h' with
    | none _ => exact ⟨rfl, rfl⟩
    | more _ _ => exact absurd (infix_append_append _ _ _) hs
  | @more a b c n ha _ ih =>
    generalize he : a ++ (old ++ b) = s at h'
    cases h' with
    | none hs =>
      rw [← he] at hs
      exact absurd (infix_append_append a old b) hs
    | more ha' hb' =>
      obtain ⟨rfl, rfl⟩ := ha.eq_of_append_eq ha' he
      obtain ⟨rfl, rfl⟩ := ih hb'
      exact ⟨rfl, rfl⟩

theorem Replaces.eq_of_not_infix {α : Type} {old new s t : List α} {n : Nat}
    (h : Replaces old new s t n) (hs : ¬ old <:+: s) : t = s ∧ n = 0 :=
  h.unique (.none hs)

variable {old new s : Text}

theorem occurrences_of_none (ho : old ≠ []) (h : splitFirst? old s = none) :
    occurrences old s = 0 := by
  unfold occurrences
  rw [segments_of_none ho h]
  rfl

theorem occurrences_of_some {a b : Text} (ho : old ≠ []) (h : splitFirst? old s = some (a, b)) :
    occurrences old s = occurrences old b + 1 := by
  have hpos := List.length_pos_iff.2 (segments_ne_nil old b)
  unfold occurrences
  rw [segments_of_some ho h, List.length_cons]
  omega

/-- Replacing in a text, and counting, is replacing in the list of its characters. -/
theorem replaces_replaced (ho : old ≠ []) (new s : Text) :
    Replaces old new s (replaced old new s) (occurrences old s) := by
  induction s using segments_induction ho with
  | last s h =>
    rw [replaced_of_none ho h, occurrences_of_none ho h]
    exact .none (splitFirst?_eq_none_iff.1 h)
  | more a b h ih =>
    rw [replaced_of_some ho h, occurrences_of_some ho h]
    exact .more (splitFirst?_eq_some_iff.1 h).2 ih

/-! ## §2. Where characters begin. -/

theorem encode_cons (c : Char) (s : Text) : encode (c :: s) = encodeChar c ++ encode s := rfl

theorem encode_append (s t : Text) : encode (s ++ t) = encode s ++ encode t := List.flatMap_append

/-- The first byte of a character, and no other of its bytes, is none that carries further bits. -/
theorem exists_encodeChar (c : Char) :
    ∃ b bs, encodeChar c = b :: bs ∧ tail? b = none ∧ ∀ x ∈ bs, tail? x ≠ none := by
  have hlt := toNat_lt c
  have hfirst : ∀ n, n < 0x80 ∨ 0xC0 ≤ n → n < 0x100 → tail? (UInt8.ofNat n) = none := by
    intro n hn hn'
    unfold tail?
    rw [UInt8.toNat_ofNat', if_neg (by omega)]
  have hmore : ∀ n, tail? (continuation n) ≠ none := by
    intro n
    rw [tail?_continuation]
    exact nofun
  by_cases h1 : c.toNat < 0x80
  · exact ⟨_, _, encodeChar_one h1, hfirst _ (by omega) (by omega), by simp⟩
  by_cases h2 : c.toNat < 0x800
  · exact ⟨_, _, encodeChar_two (by omega) h2, hfirst _ (by omega) (by omega), by simp [hmore]⟩
  by_cases h3 : c.toNat < 0x10000
  · exact ⟨_, _, encodeChar_three (by omega) h3, hfirst _ (by omega) (by omega), by simp [hmore]⟩
  · exact ⟨_, _, encodeChar_four (by omega), hfirst _ (by omega) (by omega), by simp [hmore]⟩

/-- **The bytes of a text can be cut only between characters**, if what follows is to begin as a
character does. -/
theorem exists_of_encode_eq_append {u : Text} {x y : Bytes} (h : encode u = x ++ y)
    (hy : ∀ b ∈ y.head?, tail? b = none) : ∃ v w, u = v ++ w ∧ encode v = x ∧ encode w = y := by
  induction u generalizing x with
  | nil =>
    obtain ⟨rfl, rfl⟩ := List.append_eq_nil_iff.1 h.symm
    exact ⟨[], [], rfl, rfl, rfl⟩
  | cons c u ih =>
    rw [encode_cons] at h
    rcases List.append_eq_append_iff.1 h with ⟨z, rfl, hz⟩ | ⟨z, hx, rfl⟩
    · obtain ⟨v, w, rfl, rfl, rfl⟩ := ih hz
      exact ⟨c :: v, w, rfl, rfl, rfl⟩
    · obtain ⟨b, bs, hb, -, hbs⟩ := exists_encodeChar c
      cases x with
      | nil =>
        rw [List.nil_append] at hx
        exact ⟨[], c :: u, rfl, rfl, by rw [encode_cons, hx]⟩
      | cons a x =>
        cases z with
        | nil =>
          rw [List.append_nil] at hx
          exact ⟨[c], u, rfl, by rw [← hx]; exact List.append_nil _, rfl⟩
        | cons d z =>
          -- The cut would be inside of `c`, before one of its further bytes.
          rw [hb, List.cons_append, List.cons.injEq] at hx
          have hd : d ∈ bs := by
            rw [hx.2]
            simp
          exact absurd (hy d rfl) (hbs d hd)

theorem exists_of_encode_eq_encode_append {u : Text} {y : Bytes} (h : encode u = encode old ++ y) :
    ∃ w, u = old ++ w ∧ encode w = y := by
  induction old generalizing u with
  | nil => exact ⟨u, rfl, h⟩
  | cons c old ih =>
    rw [encode_cons, List.append_assoc] at h
    cases u with
    | nil =>
      obtain ⟨b, bs, hb, -⟩ := exists_encodeChar c
      rw [hb] at h
      cases h
    | cons d u =>
      have hread := congrArg decodePoints? h
      rw [encode_cons, decodePoints?_encodeChar, decodePoints?_encodeChar, decodePoints?_encode]
        at hread
      obtain ⟨ps, -, hps⟩ := Option.map_eq_some_iff.1 hread.symm
      cases hps
      rw [encode_cons] at h
      obtain ⟨w, rfl, hw⟩ := ih (List.append_cancel_left h)
      exact ⟨w, rfl, hw⟩

/-- **Where the bytes of a text occur, the text does.** -/
theorem exists_of_encode_eq {u : Text} {x y : Bytes} (ho : old ≠ [])
    (h : encode u = x ++ (encode old ++ y)) :
    ∃ v w, u = v ++ (old ++ w) ∧ encode v = x ∧ encode w = y := by
  have hfirst : ∀ b ∈ (encode old ++ y).head?, tail? b = none := by
    cases old with
    | nil => exact absurd rfl ho
    | cons c old =>
      obtain ⟨b, bs, hb, htail, -⟩ := exists_encodeChar c
      rw [encode_cons, hb]
      rintro _ ⟨⟩
      exact htail
  obtain ⟨v, u', rfl, hv, hu'⟩ := exists_of_encode_eq_append h hfirst
  obtain ⟨w, rfl, hw⟩ := exists_of_encode_eq_encode_append hu'
  exact ⟨v, w, rfl, hv, hw⟩

/-! ## §3. Replacing in the bytes. -/

theorem infix_encode_iff {u : Text} (ho : old ≠ []) : encode old <:+: encode u ↔ old <:+: u := by
  constructor
  · rintro ⟨x, y, h⟩
    rw [List.append_assoc] at h
    obtain ⟨v, w, rfl, -, -⟩ := exists_of_encode_eq ho h.symm
    exact infix_append_append v old w
  · rintro ⟨v, w, rfl⟩
    rw [encode_append, encode_append, List.append_assoc]
    exact infix_append_append _ _ _

/-- A character of one byte occurs where this byte does. -/
theorem mem_encode_iff {b : UInt8} {c : Char} {u : Text} (h : encodeChar c = [b]) :
    b ∈ encode u ↔ c ∈ u := by
  have he : encode [c] = [b] := by rw [encode_cons, h]; rfl
  rw [← List.singleton_infix_iff, ← he, infix_encode_iff (List.cons_ne_nil c []),
    List.singleton_infix_iff]

theorem FirstBehind.bytes {a : Text} (ho : old ≠ []) (h : FirstBehind old a) :
    FirstBehind (encode old) (encode a) := by
  intro x y he
  rw [← encode_append] at he
  obtain ⟨v, w, hvw, -, rfl⟩ := exists_of_encode_eq ho he
  rw [h v w hvw]
  rfl

/-- **Replacing a text replaces its bytes.** -/
theorem Replaces.bytes {t : Text} {n : Nat} (ho : old ≠ []) (h : Replaces old new s t n) :
    Replaces (encode old) (encode new) (encode s) (encode t) n := by
  induction h with
  | none hs => exact .none (fun hi => hs ((infix_encode_iff ho).1 hi))
  | more ha _ ih =>
    simp only [encode_append]
    exact .more (ha.bytes ho) ih

/-! ## §4. Line ends. -/

/-- Bytes with line feeds for the three common line ends. -/
def unifiedBytes : Bytes → Bytes
  | [] => []
  | 0x0D :: 0x0A :: r => 0x0A :: unifiedBytes r
  | b :: r => (if b = 0x0D then 0x0A else b) :: unifiedBytes r

theorem unifiedBytes_append {x : Bytes} (hx : 0x0D ∉ x) (y : Bytes) :
    unifiedBytes (x ++ y) = x ++ unifiedBytes y := by
  induction x with
  | nil => rfl
  | cons b x ih =>
    rw [List.mem_cons, not_or] at hx
    rw [List.cons_append, unifiedBytes, ih hx.2, if_neg (fun e => hx.1 e.symm)]
    · rfl
    · rintro r rfl
      exact absurd rfl hx.1

theorem unifiedBytes_eq_self {b : Bytes} (h : 0x0D ∉ b) : unifiedBytes b = b := by
  simpa [unifiedBytes] using unifiedBytes_append h []

theorem return_notMem_unifiedBytes (b : Bytes) : 0x0D ∉ unifiedBytes b := by
  fun_induction unifiedBytes b with
  | case1 => simp
  | case2 r ih => simpa using ih
  | case3 b r _ ih =>
    intro h
    rcases List.mem_cons.1 h with h | h
    · split at h
      · exact absurd h (by decide)
      · next hb => exact hb h.symm
    · exact ih h

theorem unifiedBytes_eq_self_iff {b : Bytes} : unifiedBytes b = b ↔ 0x0D ∉ b := by
  refine ⟨fun h => ?_, unifiedBytes_eq_self⟩
  rw [← h]
  exact return_notMem_unifiedBytes b

theorem return_notMem_encodeChar {c : Char} (h : c ≠ '\r') : 0x0D ∉ encodeChar c := by
  intro hmem
  have hin : 0x0D ∈ encode [c] := List.mem_append_left _ hmem
  exact h (List.mem_singleton.1 ((mem_encode_iff (by decide +kernel)).1 hin)).symm

/-- **Unifying the line ends of a text unifies those of its bytes.** -/
theorem encode_unified (t : Text) : encode (unified t) = unifiedBytes (encode t) := by
  fun_induction unified t with
  | case1 => rfl
  | case2 r ih =>
    rw [encode_cons, encode_cons, encode_cons, ih]
    rfl
  | case3 c r hc ih =>
    rw [encode_cons, encode_cons, ih]
    by_cases hr : c = '\r'
    · subst hr
      rw [if_pos rfl]
      show 0x0A :: unifiedBytes (encode r) = unifiedBytes (0x0D :: encode r)
      rw [unifiedBytes, if_pos rfl]
      intro y _ hy
      -- The bytes begin with a line feed only if the text does.
      have hstart : encode r = encode ['\n'] ++ y := hy
      obtain ⟨w, rfl, -⟩ := exists_of_encode_eq_encode_append hstart
      exact hc w rfl rfl
    · rw [if_neg hr, unifiedBytes_append (return_notMem_encodeChar hr)]

end Repin.Text
