/-
  Repin.Proofs.Json.Grammar
  ─────────────────────────
  **THE GRAMMAR OF DOCUMENTS.**

  `Phrase.At` says which values, elements and members stand at the beginning of a rest
  and what is left behind them.  It has neither fuel nor faults.  The reader finds these
  phrases and no others:

    • `at_of_read` — what it finds, stands there, by induction on the fuel,
    • `read_of_at` — what stands there, it finds: each step of the recursion reads
      something, so fuel for as many steps as something is read in is enough,
    • `document_eq_ok_iff` — a document is a value with nothing but blanks around it.
-/
import Repin.Proofs.Json.Members
import Repin.Proofs.Json.Strings

namespace Repin
namespace Json

/-! ## §1. Words and numbers. -/

/-- A value without parts that is no string. -/
def IsSimple : Json → Prop
  | .null => True
  | .bool _ => True
  | .int _ => True
  | .float _ => True
  | _ => False

/-- The characters with which words and numbers begin. -/
def beginsSimple (c : Char) : Bool := c = '-' || Text.isDigit c || "ntfNI".toList.contains c

theorem eq_append_of_behindWord? {word : Text} {s r : Rest} (h : behindWord? word s = some r) :
    s = CodePoint.ofText word ++ r := by
  unfold behindWord? at h
  split at h
  · next hp =>
    obtain ⟨t, rfl⟩ := List.isPrefixOf_iff_prefix.1 hp
    have hlen : word.length = (CodePoint.ofText word).length := (List.length_map _).symm
    rw [hlen, List.drop_left] at h
    cases h
    rfl
  · cases h

theorem exists_of_word? {s r : Rest} {v : Json} (h : word? s = some (v, r)) :
    ∃ word, (word, v) ∈ words ∧ s = CodePoint.ofText word ++ r := by
  unfold word? at h
  obtain ⟨w, hw, h⟩ := List.exists_of_findSome?_eq_some h
  obtain ⟨t, ht, h⟩ := Option.map_eq_some_iff.1 h
  cases h
  exact ⟨w.1, hw, eq_append_of_behindWord? ht⟩

/-- Each word is written for a simple value and begins like one, but not like a numeral. -/
theorem exists_of_mem_words {word : Text} {v : Json} (h : (word, v) ∈ words) :
    IsSimple v ∧ ∃ c d u, word = c :: d :: u ∧ beginsSimple c = true
      ∧ Text.isDigit c = false ∧ Text.isDigit d = false := by
  have hall : ∀ w ∈ words, IsSimple w.2 ∧ ∃ c d u, w.1 = c :: d :: u ∧ beginsSimple c = true
      ∧ Text.isDigit c = false ∧ Text.isDigit d = false := by
    unfold words
    simp only [List.forall_mem_cons]
    exact ⟨⟨trivial, 'n', 'u', "ll", rfl, rfl, rfl, rfl⟩,
      ⟨trivial, 't', 'r', "ue", rfl, rfl, rfl, rfl⟩,
      ⟨trivial, 'f', 'a', "lse", rfl, rfl, rfl, rfl⟩,
      ⟨trivial, 'N', 'a', "N", rfl, rfl, rfl, rfl⟩,
      ⟨trivial, 'I', 'n', "finity", rfl, rfl, rfl, rfl⟩,
      ⟨trivial, '-', 'I', "nfinity", rfl, rfl, rfl, rfl⟩, by simp⟩
  exact hall _ h

theorem eq_digitRun_append (s : Rest) :
    s = CodePoint.ofText (digitRun s).1 ++ (digitRun s).2
      ∧ ∀ c ∈ (digitRun s).1, Text.isDigit c = true := by
  fun_induction digitRun s with
  | case1 c r hc ih =>
    refine ⟨?_, List.forall_mem_cons.2 ⟨hc, ih.2⟩⟩
    show CodePoint.char c :: r = .char c :: (CodePoint.ofText (digitRun r).1 ++ (digitRun r).2)
    rw [← ih.1]
  | case2 c r hc => exact ⟨rfl, by simp⟩
  | case3 s hs => exact ⟨rfl, by simp⟩

theorem exists_of_wholePart? {s r : Rest} {whole : Text} (h : wholePart? s = some (whole, r)) :
    ∃ c u, Text.isDigit c = true ∧ s = .char c :: CodePoint.ofText u ++ r := by
  unfold wholePart? at h
  split at h
  · cases h
    exact ⟨'0', [], rfl, rfl⟩
  · next hs =>
    split at h
    · cases h
    · next hne =>
      obtain ⟨he, hdigits⟩ := eq_digitRun_append s
      rw [List.isEmpty_iff] at hne
      obtain ⟨c, u, hu⟩ := List.exists_cons_of_ne_nil hne
      rw [Option.some.inj h] at he hu hdigits
      rw [hu] at he hdigits
      exact ⟨c, u, hdigits c List.mem_cons_self, he⟩

theorem exists_fractionPart (s : Rest) : ∃ a, s = a ++ (fractionPart s).2 := by
  unfold fractionPart
  split
  · next r =>
    split
    · exact ⟨[], rfl⟩
    · exact ⟨.char '.' :: CodePoint.ofText (digitRun r).1,
        congrArg (CodePoint.char '.' :: ·) (eq_digitRun_append r).1⟩
  · exact ⟨[], rfl⟩

theorem exists_exponentPart? (s : Rest) : ∃ a, s = a ++ (exponentPart? s).2 := by
  unfold exponentPart?
  split
  · next e r =>
    split
    · split
      next negative u hu =>
      have hsign : ∃ a, r = a ++ u := by
        split at hu
        · cases hu
          exact ⟨[_], rfl⟩
        · cases hu
          exact ⟨[_], rfl⟩
        · cases hu
          exact ⟨[], rfl⟩
      obtain ⟨a, rfl⟩ := hsign
      split
      · refine ⟨.char e :: a ++ CodePoint.ofText (digitRun u).1, ?_⟩
        rw [List.append_assoc, ← (eq_digitRun_append u).1]
        rfl
      · exact ⟨[], rfl⟩
    · exact ⟨[], rfl⟩
  · exact ⟨[], rfl⟩

theorem exists_of_number? {s r : Rest} {v : Json} (h : number? s = some (v, r)) :
    IsSimple v ∧ ∃ c a, beginsSimple c = true ∧ s = .char c :: a ++ r := by
  unfold number? at h
  split at h
  next negative u hu =>
  obtain ⟨⟨whole, t⟩, hwhole, h⟩ := Option.bind_eq_some_iff.1 h
  obtain ⟨b, hb⟩ := exists_fractionPart t
  rcases hf : fractionPart t with ⟨fraction, t'⟩
  obtain ⟨d, hd⟩ := exists_exponentPart? t'
  rcases he : exponentPart? t' with ⟨exponent?, t''⟩
  rw [hf] at hb
  rw [he] at hd
  simp only [hf, he] at h
  -- What is read is a run of digits at least, behind a sign if there is one.
  obtain ⟨c, x, hc, hx⟩ := exists_of_wholePart? hwhole
  have hs : ∃ c a, beginsSimple c = true ∧ s = .char c :: a ++ t'' := by
    split at hu
    · cases hu
      exact ⟨'-', .char c :: CodePoint.ofText x ++ b ++ d, rfl, by rw [hx, hb, hd]; simp⟩
    · cases hu
      refine ⟨c, CodePoint.ofText x ++ b ++ d, ?_, by rw [hx, hb, hd]; simp⟩
      unfold beginsSimple
      rw [hc, Bool.or_true, Bool.true_or]
  split at h
  · obtain ⟨n, -, h⟩ := Option.bind_eq_some_iff.1 h
    cases h
    exact ⟨trivial, hs⟩
  · cases h
    exact ⟨trivial, hs⟩

/-- A word or a number is a simple value, and begins like one. -/
theorem exists_of_simple {s r : Rest} {v : Json} (h : (word? s).or (number? s) = some (v, r)) :
    IsSimple v ∧ ∃ c a, beginsSimple c = true ∧ s = .char c :: a ++ r := by
  rcases Option.or_eq_some_iff.1 h with h | ⟨-, h⟩
  · obtain ⟨word, hword, rfl⟩ := exists_of_word? h
    obtain ⟨hv, c, d, u, rfl, hc, -, -⟩ := exists_of_mem_words hword
    exact ⟨hv, c, CodePoint.ofText (d :: u), hc, rfl⟩
  · exact exists_of_number? h

/-! ## §2. Phrases. -/

/-- What the grammar speaks of. -/
inductive Phrase where
  | value (v : Json)
  /-- The elements of an array, up to its closing bracket. -/
  | elements (vs : List Json)
  /-- The members of an object as they are written, up to its closing brace. -/
  | members (ms : Members)

/-- A phrase stands at the beginning of the first rest, and the second one is behind it. -/
inductive Phrase.At : Phrase → Rest → Rest → Prop
  | simple {v : Json} {s r : Rest} : (word? s).or (number? s) = some (v, r) →
      Phrase.At (.value v) s r
  | string {xs : List Piece} {s r : Rest} : PiecesAt xs s r →
      Phrase.At (.value (.string (joined xs))) (.char '"' :: s) r
  | emptyArray {s r : Rest} : skipBlanks s = .char ']' :: r →
      Phrase.At (.value (.array [])) (.char '[' :: s) r
  | array {vs : List Json} {s r : Rest} : Phrase.At (.elements vs) (skipBlanks s) r →
      Phrase.At (.value (.array vs)) (.char '[' :: s) r
  | emptyObject {s r : Rest} : skipBlanks s = .char '}' :: r →
      Phrase.At (.value (.object [])) (.char '{' :: s) r
  | object {ms : Members} {s r : Rest} : Phrase.At (.members ms) (skipBlanks s) r →
      Phrase.At (.value (.object (Members.ofWritten ms))) (.char '{' :: s) r
  | lastElement {v : Json} {s t r : Rest} : Phrase.At (.value v) s t →
      skipBlanks t = .char ']' :: r → Phrase.At (.elements [v]) s r
  | moreElements {v : Json} {vs : List Json} {s t u r : Rest} : Phrase.At (.value v) s t →
      skipBlanks t = .char ',' :: u → Phrase.At (.elements vs) (skipBlanks u) r →
      Phrase.At (.elements (v :: vs)) s r
  | lastMember {xs : List Piece} {v : Json} {s t u w r : Rest} : PiecesAt xs s t →
      skipBlanks t = .char ':' :: u → Phrase.At (.value v) (skipBlanks u) w →
      skipBlanks w = .char '}' :: r → Phrase.At (.members [(joined xs, v)]) (.char '"' :: s) r
  | moreMembers {xs : List Piece} {v : Json} {ms : Members} {s t u w x r : Rest} :
      PiecesAt xs s t → skipBlanks t = .char ':' :: u → Phrase.At (.value v) (skipBlanks u) w →
      skipBlanks w = .char ',' :: x → Phrase.At (.members ms) (skipBlanks x) r →
      Phrase.At (.members ((joined xs, v) :: ms)) (.char '"' :: s) r

/-- Blanks are skipped from the front. -/
theorem exists_skipBlanks (s : Rest) : ∃ a, s = a ++ skipBlanks s :=
  ⟨s.takeWhile isBlank, List.takeWhile_append_dropWhile.symm⟩

/-- The characters with which phrases begin. -/
def begins (c : Char) : Bool := beginsSimple c || ['"', '[', '{'].contains c

/-- **What is behind a phrase is a shorter end of what it stands in**, and the phrase begins with
one of a few characters. -/
theorem Phrase.At.behind {ph : Phrase} {s r : Rest} (h : ph.At s r) :
    ∃ c a, begins c = true ∧ s = .char c :: a ++ r := by
  induction h with
  | simple h =>
    obtain ⟨-, c, a, hc, hs⟩ := exists_of_simple h
    refine ⟨c, a, ?_, hs⟩
    unfold begins
    rw [hc, Bool.true_or]
  | string h =>
    obtain ⟨a, -, rfl⟩ := h.behind
    exact ⟨'"', a, rfl, rfl⟩
  | @emptyArray s r h =>
    obtain ⟨a, ha⟩ := exists_skipBlanks s
    exact ⟨'[', a ++ [.char ']'], rfl, by rw [ha, h]; simp⟩
  | @array vs s r _ ih =>
    obtain ⟨a, ha⟩ := exists_skipBlanks s
    obtain ⟨c, b, -, hb⟩ := ih
    exact ⟨'[', a ++ .char c :: b, rfl, by rw [ha, hb]; simp⟩
  | @emptyObject s r h =>
    obtain ⟨a, ha⟩ := exists_skipBlanks s
    exact ⟨'{', a ++ [.char '}'], rfl, by rw [ha, h]; simp⟩
  | @object ms s r _ ih =>
    obtain ⟨a, ha⟩ := exists_skipBlanks s
    obtain ⟨c, b, -, hb⟩ := ih
    exact ⟨'{', a ++ .char c :: b, rfl, by rw [ha, hb]; simp⟩
  | @lastElement v s t r _ h ih =>
    obtain ⟨c, a, hc, rfl⟩ := ih
    obtain ⟨b, hb⟩ := exists_skipBlanks t
    exact ⟨c, a ++ b ++ [.char ']'], hc, by rw [hb, h]; simp⟩
  | @moreElements v vs s t u r _ h _ ih₁ ih₂ =>
    obtain ⟨c, a, hc, rfl⟩ := ih₁
    obtain ⟨b, hb⟩ := exists_skipBlanks t
    obtain ⟨b', hb'⟩ := exists_skipBlanks u
    obtain ⟨c', a', -, ha'⟩ := ih₂
    exact ⟨c, a ++ b ++ .char ',' :: b' ++ .char c' :: a', hc, by rw [hb, h, hb', ha']; simp⟩
  | @lastMember xs v s t u w r h hcolon _ hbrace ih =>
    obtain ⟨a, -, rfl⟩ := h.behind
    obtain ⟨b, hb⟩ := exists_skipBlanks t
    obtain ⟨b', hb'⟩ := exists_skipBlanks u
    obtain ⟨c, a', -, ha'⟩ := ih
    obtain ⟨b'', hb''⟩ := exists_skipBlanks w
    exact ⟨'"', a ++ b ++ .char ':' :: b' ++ .char c :: a' ++ b'' ++ [.char '}'], rfl,
      by rw [hb, hcolon, hb', ha', hb'', hbrace]; simp⟩
  | @moreMembers xs v ms s t u w x r h hcolon _ hcomma _ ih₁ ih₂ =>
    obtain ⟨a, -, rfl⟩ := h.behind
    obtain ⟨b, hb⟩ := exists_skipBlanks t
    obtain ⟨b', hb'⟩ := exists_skipBlanks u
    obtain ⟨c, a', -, ha'⟩ := ih₁
    obtain ⟨b'', hb''⟩ := exists_skipBlanks w
    obtain ⟨d, hd⟩ := exists_skipBlanks x
    obtain ⟨c', a'', -, ha''⟩ := ih₂
    exact ⟨'"', a ++ b ++ .char ':' :: b' ++ .char c :: a' ++ b'' ++ .char ',' :: d
      ++ .char c' :: a'', rfl, by rw [hb, hcolon, hb', ha', hb'', hcomma, hd, ha'']; simp⟩

/-! ## §3. One step of the reader.

Each production has one equation, and `value_cases`, `elements_cases` and `members_cases` say
that there are no others. -/

section Step

variable {fuel : Nat} {s t u w x r : Rest} {v : Json} {vs : List Json} {ms : Members}
  {xs : List Piece}

theorem value_simple (h : (word? s).or (number? s) = some (v, r)) :
    value (fuel + 1) s = .ok (v, r) := by
  obtain ⟨-, c, a, hc, rfl⟩ := exists_of_simple h
  have hne : c ≠ '"' ∧ c ≠ '[' ∧ c ≠ '{' := by
    refine ⟨?_, ?_, ?_⟩ <;>
    · intro he
      rw [he] at hc
      revert hc
      decide
  unfold value
  split
  · next he =>
    cases he
    exact absurd rfl hne.1
  · next he =>
    cases he
    exact absurd rfl hne.2.1
  · next he =>
    cases he
    exact absurd rfl hne.2.2
  · rw [h]

theorem stringBody_of_pieces (h : PiecesAt xs s r) : stringBody t s = .ok (joined xs, r) := by
  rw [stringBody, pieces_eq_ok_iff.2 h]
  rfl

theorem value_string (h : PiecesAt xs s r) :
    value (fuel + 1) (.char '"' :: s) = .ok (.string (joined xs), r) := by
  show (stringBody (.char '"' :: s) s).bind (fun p => .ok (Json.string p.1, p.2)) = _
  rw [stringBody_of_pieces h]
  rfl

/-- Behind an opening bracket stands the closing one, or the first element. -/
theorem value_bracket (fuel : Nat) (s : Rest) :
    value (fuel + 1) (.char '[' :: s) = (match skipBlanks s with
      | .char ']' :: r => .ok (.array [], r)
      | r => do
        let (vs, r) ← elements fuel r
        return (.array vs, r)) := rfl

theorem value_emptyArray (h : skipBlanks s = .char ']' :: r) :
    value (fuel + 1) (.char '[' :: s) = .ok (.array [], r) := by
  rw [value_bracket, h]
  rfl

theorem value_array (hne : ∀ t, skipBlanks s ≠ .char ']' :: t)
    (h : elements fuel (skipBlanks s) = .ok (vs, r)) :
    value (fuel + 1) (.char '[' :: s) = .ok (.array vs, r) := by
  rw [value_bracket]
  split
  · next hclose => exact absurd hclose (hne _)
  · rw [h]
    rfl

/-- Behind an opening brace stands the closing one, or the first member. -/
theorem value_brace (fuel : Nat) (s : Rest) :
    value (fuel + 1) (.char '{' :: s) = (match skipBlanks s with
      | .char '}' :: r => .ok (.object [], r)
      | r => do
        let (ms, r) ← members fuel r
        return (.object (Members.ofWritten ms), r)) := rfl

theorem value_emptyObject (h : skipBlanks s = .char '}' :: r) :
    value (fuel + 1) (.char '{' :: s) = .ok (.object [], r) := by
  rw [value_brace, h]
  rfl

theorem value_object (hne : ∀ t, skipBlanks s ≠ .char '}' :: t)
    (h : members fuel (skipBlanks s) = .ok (ms, r)) :
    value (fuel + 1) (.char '{' :: s) = .ok (.object (Members.ofWritten ms), r) := by
  rw [value_brace]
  split
  · next hclose => exact absurd hclose (hne _)
  · rw [h]
    rfl

theorem elements_succ (fuel : Nat) (s : Rest) :
    elements (fuel + 1) s = (do
      let (v, r) ← value fuel s
      match skipBlanks r with
      | .char ']' :: r => return ([v], r)
      | .char ',' :: r =>
        let (vs, r) ← elements fuel (skipBlanks r)
        return (v :: vs, r)
      | r => .error (.expectedComma, r)) := rfl

theorem elements_last (hv : value fuel s = .ok (v, t)) (hclose : skipBlanks t = .char ']' :: r) :
    elements (fuel + 1) s = .ok ([v], r) := by
  rw [elements_succ, hv]
  simp only [bind, Except.bind, pure, Except.pure, hclose]

theorem elements_more (hv : value fuel s = .ok (v, t)) (hcomma : skipBlanks t = .char ',' :: u)
    (hvs : elements fuel (skipBlanks u) = .ok (vs, r)) :
    elements (fuel + 1) s = .ok (v :: vs, r) := by
  rw [elements_succ, hv]
  simp only [bind, Except.bind, pure, Except.pure, hcomma, hvs]

/-- A member is its name, a colon and its value; the closing brace or a comma is behind it. -/
theorem members_quote (fuel : Nat) (s : Rest) :
    members (fuel + 1) (.char '"' :: s) = (do
      let (name, r) ← stringBody (.char '"' :: s) s
      match skipBlanks r with
      | .char ':' :: r =>
        let (v, r) ← value fuel (skipBlanks r)
        match skipBlanks r with
        | .char '}' :: r => return ([(name, v)], r)
        | .char ',' :: r =>
          let (ms, r) ← members fuel (skipBlanks r)
          return ((name, v) :: ms, r)
        | r => .error (.expectedComma, r)
      | r => .error (.expectedColon, r)) := rfl

theorem members_last (hxs : PiecesAt xs s t) (hcolon : skipBlanks t = .char ':' :: u)
    (hv : value fuel (skipBlanks u) = .ok (v, w)) (hclose : skipBlanks w = .char '}' :: r) :
    members (fuel + 1) (.char '"' :: s) = .ok ([(joined xs, v)], r) := by
  rw [members_quote, stringBody_of_pieces hxs]
  simp only [bind, Except.bind, pure, Except.pure, hcolon, hv, hclose]

theorem members_more (hxs : PiecesAt xs s t) (hcolon : skipBlanks t = .char ':' :: u)
    (hv : value fuel (skipBlanks u) = .ok (v, w)) (hcomma : skipBlanks w = .char ',' :: x)
    (hms : members fuel (skipBlanks x) = .ok (ms, r)) :
    members (fuel + 1) (.char '"' :: s) = .ok ((joined xs, v) :: ms, r) := by
  rw [members_quote, stringBody_of_pieces hxs]
  simp only [bind, Except.bind, pure, Except.pure, hcolon, hv, hcomma, hms]

theorem value_cases (h : value (fuel + 1) s = .ok (v, r)) :
    (word? s).or (number? s) = some (v, r)
      ∨ (∃ xs t, s = .char '"' :: t ∧ v = .string (joined xs) ∧ PiecesAt xs t r)
      ∨ (∃ t, s = .char '[' :: t ∧ v = .array [] ∧ skipBlanks t = .char ']' :: r)
      ∨ (∃ vs t, s = .char '[' :: t ∧ v = .array vs ∧ elements fuel (skipBlanks t) = .ok (vs, r))
      ∨ (∃ t, s = .char '{' :: t ∧ v = .object [] ∧ skipBlanks t = .char '}' :: r)
      ∨ (∃ ms t, s = .char '{' :: t ∧ v = .object (Members.ofWritten ms)
          ∧ members fuel (skipBlanks t) = .ok (ms, r)) := by
  unfold value at h
  split at h
  · obtain ⟨⟨t, u⟩, ht, h⟩ := exists_of_bind_eq_ok h
    cases h
    obtain ⟨⟨xs, w⟩, hxs, ht⟩ := exists_of_bind_eq_ok ht
    cases ht
    exact .inr (.inl ⟨xs, _, rfl, rfl, pieces_eq_ok_iff.1 hxs⟩)
  · split at h
    · next hclose =>
      cases h
      exact .inr (.inr (.inl ⟨_, rfl, rfl, hclose⟩))
    · obtain ⟨⟨vs, u⟩, hvs, h⟩ := exists_of_bind_eq_ok h
      cases h
      exact .inr (.inr (.inr (.inl ⟨vs, _, rfl, rfl, hvs⟩)))
  · split at h
    · next hclose =>
      cases h
      exact .inr (.inr (.inr (.inr (.inl ⟨_, rfl, rfl, hclose⟩))))
    · obtain ⟨⟨ms, u⟩, hms, h⟩ := exists_of_bind_eq_ok h
      cases h
      exact .inr (.inr (.inr (.inr (.inr ⟨ms, _, rfl, rfl, hms⟩))))
  · split at h
    · next found hfound =>
      cases h
      exact .inl hfound
    · cases h

theorem elements_cases (h : elements (fuel + 1) s = .ok (vs, r)) :
    ∃ v t, value fuel s = .ok (v, t)
      ∧ ((vs = [v] ∧ skipBlanks t = .char ']' :: r)
        ∨ ∃ ws u, vs = v :: ws ∧ skipBlanks t = .char ',' :: u
          ∧ elements fuel (skipBlanks u) = .ok (ws, r)) := by
  rw [elements_succ] at h
  obtain ⟨⟨v, t⟩, hv, h⟩ := exists_of_bind_eq_ok h
  refine ⟨v, t, hv, ?_⟩
  simp only [] at h
  split at h
  · next hclose =>
    cases h
    exact .inl ⟨rfl, hclose⟩
  · next u hcomma =>
    obtain ⟨⟨ws, w⟩, hws, h⟩ := exists_of_bind_eq_ok h
    cases h
    exact .inr ⟨ws, u, rfl, hcomma, hws⟩
  · cases h

theorem members_cases (h : members (fuel + 1) s = .ok (ms, r)) :
    ∃ xs v t u w x, s = .char '"' :: t ∧ PiecesAt xs t u ∧ skipBlanks u = .char ':' :: w
      ∧ value fuel (skipBlanks w) = .ok (v, x)
      ∧ ((ms = [(joined xs, v)] ∧ skipBlanks x = .char '}' :: r)
        ∨ ∃ ns y, ms = (joined xs, v) :: ns ∧ skipBlanks x = .char ',' :: y
          ∧ members fuel (skipBlanks y) = .ok (ns, r)) := by
  unfold members at h
  split at h
  · obtain ⟨⟨name, u⟩, hname, h⟩ := exists_of_bind_eq_ok h
    obtain ⟨⟨xs, u'⟩, hxs, hname⟩ := exists_of_bind_eq_ok hname
    cases hname
    simp only [] at h
    split at h
    · next w hcolon =>
      obtain ⟨⟨v, x⟩, hv, h⟩ := exists_of_bind_eq_ok h
      refine ⟨xs, v, _, u, w, x, rfl, pieces_eq_ok_iff.1 hxs, hcolon, hv, ?_⟩
      simp only [] at h
      split at h
      · next hclose =>
        cases h
        exact .inl ⟨rfl, hclose⟩
      · next y hcomma =>
        obtain ⟨⟨ns, z⟩, hns, h⟩ := exists_of_bind_eq_ok h
        cases h
        exact .inr ⟨ns, y, rfl, hcomma, hns⟩
      · cases h
    · cases h
  · cases h

end Step

/-! ## §4. The reader finds the phrases. -/

/-- The reader finds the phrase with the given fuel. -/
def Phrase.Read (fuel : Nat) (s r : Rest) : Phrase → Prop
  | .value v => Json.value fuel s = .ok (v, r)
  | .elements vs => Json.elements fuel s = .ok (vs, r)
  | .members ms => Json.members fuel s = .ok (ms, r)

/-- **What the reader finds stands there.** -/
theorem Phrase.at_of_read {fuel : Nat} (ph : Phrase) {s r : Rest} (h : ph.Read fuel s r) :
    ph.At s r := by
  induction fuel generalizing ph s r with
  | zero => cases ph <;> cases h
  | succ fuel ih =>
    cases ph with
    | value v =>
      obtain hfound | ⟨xs, t, rfl, rfl, hxs⟩ | ⟨t, rfl, rfl, hclose⟩ | ⟨vs, t, rfl, rfl, hvs⟩
        | ⟨t, rfl, rfl, hclose⟩ | ⟨ms, t, rfl, rfl, hms⟩ := value_cases h
      · exact .simple hfound
      · exact .string hxs
      · exact .emptyArray hclose
      · exact .array (ih (.elements vs) hvs)
      · exact .emptyObject hclose
      · exact .object (ih (.members ms) hms)
    | elements vs =>
      obtain ⟨v, t, hv, ⟨rfl, hclose⟩ | ⟨ws, u, rfl, hcomma, hws⟩⟩ := elements_cases h
      · exact .lastElement (ih (.value v) hv) hclose
      · exact .moreElements (ih (.value v) hv) hcomma (ih (.elements ws) hws)
    | members ms =>
      obtain ⟨xs, v, t, u, w, x, rfl, hxs, hcolon, hv,
        ⟨rfl, hclose⟩ | ⟨ns, y, rfl, hcomma, hns⟩⟩ := members_cases h
      · exact .lastMember hxs hcolon (ih (.value v) hv) hclose
      · exact .moreMembers hxs hcolon (ih (.value v) hv) hcomma (ih (.members ns) hns)

theorem Phrase.At.length_lt {ph : Phrase} {s r : Rest} (h : ph.At s r) :
    r.length < s.length := by
  obtain ⟨c, a, -, rfl⟩ := h.behind
  rw [List.length_append, List.length_cons]
  omega

theorem length_skipBlanks_le (s : Rest) : (skipBlanks s).length ≤ s.length := by
  obtain ⟨a, ha⟩ := exists_skipBlanks s
  have hlen := congrArg List.length ha
  rw [List.length_append] at hlen
  omega

theorem length_lt_of_skipBlanks {s r : Rest} {p : CodePoint} (h : skipBlanks s = p :: r) :
    r.length < s.length := by
  have hle := length_skipBlanks_le s
  rw [h, List.length_cons] at hle
  exact hle

/-- A character with which no phrase begins does not stand where one does. -/
theorem Phrase.At.ne_cons {ph : Phrase} {s r t : Rest} {c : Char} (h : ph.At s r)
    (hc : begins c = false) : s ≠ .char c :: t := by
  obtain ⟨d, a, hd, rfl⟩ := h.behind
  intro he
  cases he
  rw [hc] at hd
  cases hd

/-- Something is read, so there is fuel for one step. -/
theorem Phrase.At.exists_fuel {ph : Phrase} {s r : Rest} {fuel : Nat} (h : ph.At s r)
    (hfuel : s.length ≤ fuel + r.length) : ∃ n, fuel = n + 1 := by
  have hlt := h.length_lt
  exact Nat.exists_eq_add_one.2 (show 0 < fuel by omega)

/-- **The reader finds what stands there**, with fuel for as many steps as it reads. -/
theorem Phrase.read_of_at {fuel : Nat} {ph : Phrase} {s r : Rest} (h : ph.At s r)
    (hfuel : s.length ≤ fuel + r.length) : ph.Read fuel s r := by
  induction h generalizing fuel with
  | simple h =>
    obtain ⟨n, rfl⟩ := (Phrase.At.simple h).exists_fuel hfuel
    exact value_simple h
  | string h =>
    obtain ⟨n, rfl⟩ := (Phrase.At.string h).exists_fuel hfuel
    exact value_string h
  | emptyArray h =>
    obtain ⟨n, rfl⟩ := (Phrase.At.emptyArray h).exists_fuel hfuel
    exact value_emptyArray h
  | @array vs s r h ih =>
    obtain ⟨n, rfl⟩ := (Phrase.At.array h).exists_fuel hfuel
    have hle := length_skipBlanks_le s
    rw [List.length_cons] at hfuel
    exact value_array (fun t => h.ne_cons rfl) (ih (by omega))
  | emptyObject h =>
    obtain ⟨n, rfl⟩ := (Phrase.At.emptyObject h).exists_fuel hfuel
    exact value_emptyObject h
  | @object ms s r h ih =>
    obtain ⟨n, rfl⟩ := (Phrase.At.object h).exists_fuel hfuel
    have hle := length_skipBlanks_le s
    rw [List.length_cons] at hfuel
    exact value_object (fun t => h.ne_cons rfl) (ih (by omega))
  | lastElement hv hclose ih =>
    obtain ⟨n, rfl⟩ := (Phrase.At.lastElement hv hclose).exists_fuel hfuel
    have ht := length_lt_of_skipBlanks hclose
    exact elements_last (ih (by omega)) hclose
  | @moreElements v vs s t u r hv hcomma hvs ih₁ ih₂ =>
    obtain ⟨n, rfl⟩ := (Phrase.At.moreElements hv hcomma hvs).exists_fuel hfuel
    have ht := length_lt_of_skipBlanks hcomma
    have hu := length_skipBlanks_le u
    have hlt := hv.length_lt
    have hlt' := hvs.length_lt
    exact elements_more (ih₁ (by omega)) hcomma (ih₂ (by omega))
  | @lastMember xs v s t u w r hxs hcolon hv hclose ih =>
    obtain ⟨n, rfl⟩ := (Phrase.At.lastMember hxs hcolon hv hclose).exists_fuel hfuel
    have hs := hxs.length_lt
    have ht := length_lt_of_skipBlanks hcolon
    have hu := length_skipBlanks_le u
    have hw := length_lt_of_skipBlanks hclose
    rw [List.length_cons] at hfuel
    exact members_last hxs hcolon (ih (by omega)) hclose
  | @moreMembers xs v ms s t u w x r hxs hcolon hv hcomma hms ih₁ ih₂ =>
    obtain ⟨n, rfl⟩ := (Phrase.At.moreMembers hxs hcolon hv hcomma hms).exists_fuel hfuel
    have hs := hxs.length_lt
    have ht := length_lt_of_skipBlanks hcolon
    have hu := length_skipBlanks_le u
    have hw := length_lt_of_skipBlanks hcomma
    have hx := length_skipBlanks_le x
    have hlt := hv.length_lt
    have hlt' := hms.length_lt
    rw [List.length_cons] at hfuel
    exact members_more hxs hcolon (ih₁ (by omega)) hcomma (ih₂ (by omega))

/-! ## §5. Documents. -/

/-- The value stands in a document, with nothing but blanks around it. -/
def IsDocument (s : Rest) (v : Json) : Prop :=
  ∃ r, (Phrase.value v).At (skipBlanks s) r ∧ skipBlanks r = []

/-- **The reader finds the value of a document**, and it finds one in documents only. -/
theorem document_eq_ok_iff {s : Rest} {v : Json} : document s = .ok v ↔ IsDocument s v := by
  unfold document
  constructor
  · intro h
    obtain ⟨⟨w, r⟩, hw, h⟩ := exists_of_bind_eq_ok h
    simp only [] at h
    split at h
    · next hend =>
      cases h
      exact ⟨r, Phrase.at_of_read (.value v) hw, hend⟩
    · cases h
  · intro h
    obtain ⟨r, hv, hend⟩ := h
    have hle := length_skipBlanks_le s
    have hread : Json.value (s.length + 1) (skipBlanks s) = .ok (v, r) :=
      Phrase.read_of_at hv (by omega)
    rw [hread]
    simp only [bind, Except.bind, pure, Except.pure, hend]

/-- The elements of an array stand in it as values. -/
theorem exists_at_of_mem {vs : List Json} {v : Json} {s r : Rest} (h : (Phrase.elements vs).At s r)
    (hv : v ∈ vs) : ∃ t u, (Phrase.value v).At t u := by
  induction vs generalizing s with
  | nil => cases hv
  | cons w vs ih =>
    cases h with
    | lastElement hw _ =>
      rw [List.mem_singleton.1 hv]
      exact ⟨_, _, hw⟩
    | moreElements hw _ hvs =>
      rcases List.mem_cons.1 hv with he | hv
      · rw [he]
        exact ⟨_, _, hw⟩
      · exact ih hvs hv

theorem exists_at_of_mem_array {vs : List Json} {v : Json} {s r : Rest}
    (h : (Phrase.value (.array vs)).At s r) (hv : v ∈ vs) : ∃ t u, (Phrase.value v).At t u := by
  cases h with
  | simple h => exact absurd (exists_of_simple h).1 id
  | emptyArray => cases hv
  | array h => exact exists_at_of_mem h hv

/-- An object keeps the members that are written for it. -/
theorem exists_written {ms : Members} {s r : Rest} (h : (Phrase.value (.object ms)).At s r) :
    ∃ written, ms = Members.ofWritten written := by
  cases h with
  | simple h => exact absurd (exists_of_simple h).1 id
  | emptyObject => exact ⟨[], rfl⟩
  | object => exact ⟨_, rfl⟩

end Json
end Repin
