/-
  Repin.Toml.Token
  ────────────────
  **TOML TEXT AS A LIST OF TOKENS.**

  A document is cut into tokens that together spell it out, blanks, comments and
  line ends included:

      tokens? s = some ts  →  spelled ts = s                  (`spelled_tokens?`)

  The cut needs no context.  A word is a longest run of characters that are
  neither blanks nor quotes, marks or controls, so a dotted key, a number and a
  time are words alike; what a word or a string means is decided elsewhere.
-/
import Repin.Text.Basic

namespace Repin.Toml

/-! ## §1. Tokens and their spelling. -/

/-- The four ways to quote a string. -/
inductive Quote where
  /-- Between double quotes, with escapes. -/
  | basic
  /-- Between single quotes. -/
  | literal
  /-- Between three double quotes, with escapes, over several lines. -/
  | basicBlock
  /-- Between three single quotes, over several lines. -/
  | literalBlock
  deriving DecidableEq, Repr

/-- The quotes at each end. -/
def Quote.mark : Quote → Text
  | .basic => "\""
  | .literal => "'"
  | .basicBlock => "\"\"\""
  | .literalBlock => "'''"

/-- A token. -/
inductive Token where
  /-- Spaces and tabs. -/
  | blank (s : Text)
  /-- A line feed, with a carriage return before it or not. -/
  | lineEnd (withReturn : Bool)
  /-- A number sign and what follows it on its line. -/
  | comment (s : Text)
  /-- An equals sign, a comma, a bracket or a brace. -/
  | mark (c : Char)
  /-- A quoted string with what stands between its quotes, escapes unread. -/
  | string (quote : Quote) (body : Text)
  /-- A run of other characters. -/
  | word (s : Text)
  deriving DecidableEq, Repr

/-- The text of a token. -/
def Token.spelling : Token → Text
  | .blank s => s
  | .lineEnd true => "\r\n"
  | .lineEnd false => "\n"
  | .comment s => '#' :: s
  | .mark c => [c]
  | .string q body => q.mark ++ body ++ q.mark
  | .word s => s

/-- The text of a list of tokens. -/
def spelled (ts : List Token) : Text := ts.flatMap Token.spelling

/-! ## §2. Classes of characters. -/

/-- A space or a tab. -/
def isBlank (c : Char) : Bool := c = ' ' || c = '\t'

/-- A character that is no control character, or a tab. -/
def isPlain (c : Char) : Bool := c = '\t' || (0x20 ≤ c.toNat && c.toNat ≠ 0x7F)

/-- A character that is a token by itself. -/
def isMark (c : Char) : Bool := "=,[]\x7b\x7d".toList.contains c

/-- A character that can be part of a word. -/
def isWord (c : Char) : Bool :=
  isPlain c && !isBlank c && !isMark c && c ≠ '"' && c ≠ '\'' && c ≠ '#'

/-! ## §3. Strings.  Each function gives the body and what follows the closing
quotes. -/

/-- The body of a basic string. -/
def basicBody? : Text → Option (Text × Text)
  | [] => none
  | '"' :: r => some ([], r)
  | '\\' :: '"' :: r => (basicBody? r).map (fun p => ('\\' :: '"' :: p.1, p.2))
  | '\\' :: '\\' :: r => (basicBody? r).map (fun p => ('\\' :: '\\' :: p.1, p.2))
  | c :: r => if isPlain c then (basicBody? r).map (fun p => (c :: p.1, p.2)) else none

/-- The body of a literal string. -/
def literalBody? : Text → Option (Text × Text)
  | [] => none
  | '\'' :: r => some ([], r)
  | c :: r => if isPlain c then (literalBody? r).map (fun p => (c :: p.1, p.2)) else none

/-- At three to five quotes a block string ends; all but the last three of them
belong to its body. -/
def closing? (q : Char) (s : Text) : Option (Text × Text) :=
  let n := min 5 (s.takeWhile (· = q)).length
  if 3 ≤ n then some (List.replicate (n - 3) q, s.drop n) else none

/-- The body of a block string in quotes `q`. -/
def blockBody? (q : Char) (escapes : Bool) : Text → Option (Text × Text)
  | [] => none
  | '\\' :: d :: r =>
    -- A quote behind a backslash ends nothing, nor does a backslash behind one escape.
    if escapes && (d = q || d = '\\') then
      (blockBody? q escapes r).map (fun p => ('\\' :: d :: p.1, p.2))
    else (blockBody? q escapes (d :: r)).map (fun p => ('\\' :: p.1, p.2))
  | '\r' :: '\n' :: r => (blockBody? q escapes r).map (fun p => ('\r' :: '\n' :: p.1, p.2))
  | c :: r =>
    match closing? q (c :: r) with
    | some found => some found
    | none =>
      if isPlain c || c = '\n' then
        (blockBody? q escapes r).map (fun p => (c :: p.1, p.2))
      else none

/-! ## §4. The cut. -/

/-- The first token of a text, and what follows it. -/
def next? : Text → Option (Token × Text)
  | [] => none
  | '\n' :: r => some (.lineEnd false, r)
  | '\r' :: '\n' :: r => some (.lineEnd true, r)
  | '#' :: r => some (.comment (r.takeWhile isPlain), r.dropWhile isPlain)
  -- Three quotes open a block; two alone are a string without a character.
  | '"' :: '"' :: '"' :: r => (blockBody? '"' true r).map (fun p => (.string .basicBlock p.1, p.2))
  | '\'' :: '\'' :: '\'' :: r =>
    (blockBody? '\'' false r).map (fun p => (.string .literalBlock p.1, p.2))
  | '"' :: r => (basicBody? r).map (fun p => (.string .basic p.1, p.2))
  | '\'' :: r => (literalBody? r).map (fun p => (.string .literal p.1, p.2))
  | c :: r =>
    -- Blanks and words reach as far as they can.
    if isMark c then some (.mark c, r)
    else if isBlank c then some (.blank (c :: r.takeWhile isBlank), r.dropWhile isBlank)
    else if isWord c then some (.word (c :: r.takeWhile isWord), r.dropWhile isWord)
    else none

theorem basicBody?_append {s a b : Text} (h : basicBody? s = some (a, b)) :
    s = a ++ '"' :: b := by
  fun_induction basicBody? s generalizing a b <;>
    simp_all only [Option.map_eq_some_iff, Prod.mk.injEq, reduceCtorEq, Option.some.injEq]
  all_goals grind

theorem literalBody?_append {s a b : Text} (h : literalBody? s = some (a, b)) :
    s = a ++ '\'' :: b := by
  fun_induction literalBody? s generalizing a b <;>
    simp_all only [Option.map_eq_some_iff, Prod.mk.injEq, reduceCtorEq, Option.some.injEq]
  all_goals grind

theorem closing?_append {q : Char} {s a b : Text} (h : closing? q s = some (a, b)) :
    s = a ++ (List.replicate 3 q ++ b) := by
  simp only [closing?] at h
  generalize hn : min 5 (s.takeWhile (· = q)).length = n at h
  split at h
  · next h3 =>
    cases h
    -- The first `n` characters are quotes, of which the last three close the string.
    have hle : n ≤ (s.takeWhile (· = q)).length := by omega
    have he : s.take n = (s.takeWhile (· = q)).take n := by
      have := List.takeWhile_append_dropWhile (p := (· = q)) (l := s)
      calc
        s.take n = (s.takeWhile (· = q) ++ s.dropWhile (· = q)).take n := by rw [this]
        _ = _ := List.take_append_of_le_length hle
    have ht : s.take n = List.replicate n q := by
      refine List.eq_replicate_iff.2 ⟨?_, fun c hc => ?_⟩
      · rw [he, List.length_take]; omega
      · have hall := List.all_takeWhile (p := (· = q)) (l := s)
        rw [he] at hc
        simpa using (List.all_eq_true.1 hall) c (List.mem_of_mem_take hc)
    calc
      s = s.take n ++ s.drop n := (List.take_append_drop n s).symm
      _ = List.replicate (n - 3 + 3) q ++ s.drop n := by rw [ht, Nat.sub_add_cancel h3]
      _ = _ := by rw [← List.replicate_append_replicate, List.append_assoc]
  · cases h

theorem blockBody?_append {q : Char} {e : Bool} {s a b : Text}
    (h : blockBody? q e s = some (a, b)) : s = a ++ (List.replicate 3 q ++ b) := by
  fun_induction blockBody? q e s generalizing a b with
  | case1 => cases h
  | case2 d r _ ih =>
    simp only [Option.map_eq_some_iff, Prod.mk.injEq] at h
    obtain ⟨⟨x, y⟩, hp, rfl, rfl⟩ := h
    simp [ih hp]
  | case3 d r _ ih =>
    simp only [Option.map_eq_some_iff, Prod.mk.injEq] at h
    obtain ⟨⟨x, y⟩, hp, rfl, rfl⟩ := h
    simp [ih hp]
  | case4 r ih =>
    simp only [Option.map_eq_some_iff, Prod.mk.injEq] at h
    obtain ⟨⟨x, y⟩, hp, rfl, rfl⟩ := h
    simp [ih hp]
  | case5 c r _ _ found hf =>
    cases h
    exact closing?_append hf
  | case6 c r _ _ _ _ ih =>
    simp only [Option.map_eq_some_iff, Prod.mk.injEq] at h
    obtain ⟨⟨x, y⟩, hp, rfl, rfl⟩ := h
    simp [ih hp]
  | case7 => cases h

/-- A token spells out what was cut off, and it is not empty. -/
theorem next?_spelling {s r : Text} {t : Token} (h : next? s = some (t, r)) :
    s = t.spelling ++ r ∧ t.spelling ≠ [] := by
  unfold next? at h
  split at h
  · cases h
  · cases h; simp [Token.spelling]
  · cases h; simp [Token.spelling]
  · cases h; simp [Token.spelling]
  · simp only [Option.map_eq_some_iff, Prod.mk.injEq] at h
    obtain ⟨⟨x, y⟩, hp, rfl, rfl⟩ := h
    simp [Token.spelling, Quote.mark, blockBody?_append hp]
  · simp only [Option.map_eq_some_iff, Prod.mk.injEq] at h
    obtain ⟨⟨x, y⟩, hp, rfl, rfl⟩ := h
    simp [Token.spelling, Quote.mark, blockBody?_append hp]
  · simp only [Option.map_eq_some_iff, Prod.mk.injEq] at h
    obtain ⟨⟨x, y⟩, hp, rfl, rfl⟩ := h
    simp [Token.spelling, Quote.mark, basicBody?_append hp]
  · simp only [Option.map_eq_some_iff, Prod.mk.injEq] at h
    obtain ⟨⟨x, y⟩, hp, rfl, rfl⟩ := h
    simp [Token.spelling, Quote.mark, literalBody?_append hp]
  · split at h
    · cases h; simp [Token.spelling]
    · split at h
      · cases h; simp [Token.spelling]
      · split at h
        · cases h; simp [Token.spelling]
        · cases h

/-- The tokens of a text, unless a string in it does not end or a control
character stands where none may. -/
def tokens? (s : Text) : Option (List Token) :=
  if s = [] then some []
  else
    match _h : next? s with
    | none => none
    | some (t, r) => (tokens? r).map (t :: ·)
termination_by s.length
decreasing_by
  obtain ⟨rfl, hne⟩ := next?_spelling _h
  have := List.length_pos_iff.2 hne
  simp only [List.length_append]
  omega

/-- The tokens of a text spell it out. -/
theorem spelled_tokens? {s : Text} {ts : List Token} (h : tokens? s = some ts) :
    spelled ts = s := by
  fun_induction tokens? s generalizing ts with
  | case1 => cases h; rfl
  | case2 => cases h
  | case3 s _ t r hn ih =>
    simp only [Option.map_eq_some_iff] at h
    obtain ⟨us, hu, rfl⟩ := h
    simp only [spelled, List.flatMap_cons] at ih ⊢
    rw [ih hu, ← (next?_spelling hn).1]

end Repin.Toml
