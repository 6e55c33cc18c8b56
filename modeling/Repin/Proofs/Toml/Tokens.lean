/-
  Repin.Proofs.Toml.Tokens
  ────────────────────────
  **THE TOKENS OF A TEXT IN WHICH VERSIONS ARE EXCHANGED.**

  The characters of versions are all characters of words, so a version lies in one
  token: in a word, in a string or in a comment.  Exchanging versions in a text
  exchanges versions in its tokens and keeps their number and their kinds:

      exchanged_next? — one token,   exchanged_tokens? — all of them.
-/
import Mathlib.Data.List.Forall2
import Repin.Proofs.Toml.Strings

namespace Repin.Toml

/-! ## §1. The first token. -/

/-- The tokens differ in exchanged versions only. -/
inductive Token.Exchanged (P : Prop) : Token → Token → Prop
  | same (t : Token) : Token.Exchanged P t t
  | comment {a b : Text} : Text.Exchanged P [] [] a b →
      Token.Exchanged P (.comment a) (.comment b)
  | string (quote : Quote) {a b : Text} : Text.Exchanged P [] [] a b →
      Token.Exchanged P (.string quote a) (.string quote b)
  | word {a b : Text} : Text.Exchanged P [] [] a b → Token.Exchanged P (.word a) (.word b)

/-- Nothing is exchanged that may not be. -/
theorem Token.Exchanged.eq_of_not {P : Prop} (hP : ¬ P) {t t' : Token}
    (h : Token.Exchanged P t t') : t = t' := by
  cases h with
  | same => rfl
  | comment h => rw [h.eq_of_not hP]
  | string quote h => rw [h.eq_of_not hP]
  | word h => rw [h.eq_of_not hP]

theorem next?_of_notMem {c : Char} (h : c ∉ ['\n', '\r', '#', '"', '\'']) (x : Text) :
    next? (c :: x)
      = if isMark c then some (.mark c, x)
        else if isBlank c then some (.blank (c :: x.takeWhile isBlank), x.dropWhile isBlank)
        else if isWord c then some (.word (c :: x.takeWhile isWord), x.dropWhile isWord)
        else none := by
  simp only [List.mem_cons, List.not_mem_nil, or_false, not_or] at h
  rw [next?]
  · exact h.1
  · intro x' he
    exact absurd he h.2.1
  · exact h.2.2.1
  · intro x' he
    exact absurd he h.2.2.2.1
  · intro x' he
    exact absurd he h.2.2.2.2
  · exact h.2.2.2.1
  · exact h.2.2.2.2

theorem next?_of_isWord {c : Char} (h : isWord c = true) (x : Text) :
    next? (c :: x) = some (.word ((c :: x).takeWhile isWord), (c :: x).dropWhile isWord) := by
  have hw := h
  unfold isWord at hw
  simp only [Bool.and_eq_true, Bool.not_eq_true', decide_eq_true_eq] at hw
  obtain ⟨⟨⟨⟨⟨hp, hb⟩, hm⟩, hq⟩, hl⟩, hc⟩ := hw
  have hno : c ∉ ['\n', '\r', '#', '"', '\''] := by
    simp only [List.mem_cons, List.not_mem_nil, or_false, not_or]
    refine ⟨?_, ?_, hc, hq, hl⟩
    · rintro rfl
      cases hp
    · rintro rfl
      cases hp
  rw [next?_of_notMem hno, hm, hb, h, List.takeWhile_cons_of_pos h, List.dropWhile_cons_of_pos h]
  rfl

theorem next?_quote (h : ∀ z, x ≠ '"' :: '"' :: z) :
    next? ('"' :: x) = (basicBody? x).map (fun p => (.string .basic p.1, p.2)) := by
  rw [next?]
  intro z he
  exact h z he

theorem next?_apostrophe (h : ∀ z, x ≠ '\'' :: '\'' :: z) :
    next? ('\'' :: x) = (literalBody? x).map (fun p => (.string .literal p.1, p.2)) := by
  rw [next?]
  intro z he
  exact h z he

variable {P : Prop} {r r' x y u : Text} {t : Token}

/-- A carriage return stands before a line feed only. -/
theorem eq_lineFeed_of_next? (h : next? ('\r' :: x) = some (t, u)) : ∃ z, x = '\n' :: z := by
  cases x with
  | nil => cases h
  | cons c x =>
    by_cases hc : c = '\n'
    · exact ⟨x, by rw [hc]⟩
    · rw [next?] at h
      · cases h
      · decide
      · intro x' _ he
        cases he
        exact hc rfl
      · decide
      · intro x' he
        cases he
      · intro x' he
        cases he
      · decide
      · decide

theorem length_of_next? (h : next? x = some (t, u)) : u.length < x.length := by
  obtain ⟨rfl, hne⟩ := next?_spelling h
  have hpos := List.length_pos_iff.2 hne
  rw [List.length_append]
  omega

/-- A word is exchanged for a word. -/
theorem exchanged_next?_word (hf : Text.Fence r r') {c d : Char} {x y : Text}
    (h : Text.Exchanged P r r' (c :: x) (d :: y)) (hc : isWord c = true) (hd : isWord d = true)
    (hn : next? (c :: x) = some (t, u)) (hl : r.length ≤ u.length) :
    ∃ t' u', next? (d :: y) = some (t', u') ∧ Token.Exchanged P t t'
      ∧ Text.Exchanged P r r' u u' := by
  rw [next?_of_isWord hc] at hn
  cases hn
  obtain ⟨ht, hu⟩ := h.span (fun _ => isWord_of_isVersionChar) hf.head hl
  exact ⟨_, _, next?_of_isWord hd y, .word ht, hu⟩

/-- A string in quotes `q` is exchanged for one in the same quotes, given how a string in
one such quote and one in three are read. -/
theorem exchanged_next?_string (hf : Text.Fence r r') {q : Char} (hq : q = '"' ∨ q = '\'')
    {quote block : Quote} {e : Bool} {body? : Text → Option (Text × Text)}
    (hthree : ∀ z, next? (q :: q :: q :: z)
      = (blockBody? q e z).map (fun p => (.string block p.1, p.2)))
    (hone : ∀ z, (∀ w, z ≠ q :: q :: w) → next? (q :: z)
      = (body? z).map (fun p => (.string quote p.1, p.2)))
    (hbody : BodyFollows P r r' body? x y) (h : Text.Exchanged P r r' x y)
    (hn : next? (q :: x) = some (t, u)) (hl : r.length ≤ u.length) :
    ∃ t' u', next? (q :: y) = some (t', u') ∧ Token.Exchanged P t t'
      ∧ Text.Exchanged P r r' u u' := by
  have hdig : Text.isDigit q = false := by rcases hq with rfl | rfl <;> rfl
  by_cases hx : ∃ z, x = q :: q :: z
  · obtain ⟨x, rfl⟩ := hx
    rw [hthree] at hn
    obtain ⟨b, hb, rfl⟩ := exists_of_map_body (Token.string block) hn
    have hlen := consumes_blockBody? _ _ _ hb
    obtain ⟨y₁, rfl, h₁⟩ := h.of_cons hdig (by rw [List.length_cons]; omega)
    obtain ⟨y₂, rfl, h₂⟩ := h₁.of_cons hdig (by omega)
    obtain ⟨b', u', hb', hbb, huu⟩ := bodyFollows_blockBody? hf hq h₂ _ _ hb hl
    exact ⟨.string block b', u', by rw [hthree, hb']; rfl, .string _ hbb, huu⟩
  · have hx' : ∀ z, x ≠ q :: q :: z := fun z he => hx ⟨z, he⟩
    rw [hone x hx'] at hn
    obtain ⟨b, hb, rfl⟩ := exists_of_map_body (Token.string quote) hn
    have hy : ∀ z, y ≠ q :: q :: z := by
      rintro z rfl
      -- As many quotes begin both texts.
      have ht := h.takeWhile_quotes hf hq
      have hs := List.takeWhile_append_dropWhile (p := fun a => decide (a = q)) (l := x)
      rw [ht] at hs
      refine hx' (z.takeWhile (· = q) ++ x.dropWhile (· = q)) ?_
      calc x = (q :: q :: z).takeWhile (· = q) ++ x.dropWhile (· = q) := hs.symm
        _ = q :: q :: (z.takeWhile (· = q) ++ x.dropWhile (· = q)) := by simp
    obtain ⟨b', u', hb', hbb, huu⟩ := hbody _ _ hb hl
    exact ⟨.string quote b', u', by rw [hone y hy, hb']; rfl, .string _ hbb, huu⟩

/-- **The first token is exchanged for one of its kind.** -/
theorem exchanged_next? (hf : Text.Fence r r') (h : Text.Exchanged P r r' x y)
    (hn : next? x = some (t, u)) (hl : r.length ≤ u.length) :
    ∃ t' u', next? y = some (t', u') ∧ Token.Exchanged P t t' ∧ Text.Exchanged P r r' u u' := by
  have hlen := length_of_next? hn
  have hxy := h
  cases h with
  | base => omega
  | @swap v w x y hp hv hw h =>
    obtain ⟨c, v, rfl, -⟩ := hv.exists_digit
    obtain ⟨d, w, rfl, -⟩ := hw.exists_digit
    exact exchanged_next?_word hf hxy (isWord_of_isVersionChar (hv.chars c List.mem_cons_self))
      (isWord_of_isVersionChar (hw.chars d List.mem_cons_self)) hn hl
  | @keep c x y h =>
    -- The kind of a token shows in its first character, which stays.
    cases hw : isWord c with
    | true => exact exchanged_next?_word hf hxy hw hw hn hl
    | false =>
    by_cases hc : c ∈ ['\n', '\r', '#', '"', '\'']
    · simp only [List.mem_cons, List.not_mem_nil, or_false] at hc
      rcases hc with rfl | rfl | rfl | rfl | rfl
      · cases hn
        exact ⟨_, y, rfl, .same _, h⟩
      · -- A carriage return stands before a line feed.
        obtain ⟨x, rfl⟩ := eq_lineFeed_of_next? hn
        cases hn
        rw [List.length_cons] at hlen
        obtain ⟨z, rfl, hz⟩ := h.of_cons rfl hl
        exact ⟨_, z, rfl, .same _, hz⟩
      · cases hn
        obtain ⟨ht, hu⟩ := h.span (fun _ => isPlain_of_isVersionChar) hf.head hl
        exact ⟨_, _, rfl, .comment ht, hu⟩
      · exact exchanged_next?_string hf (.inl rfl) (fun z => rfl) (fun z => next?_quote)
          (bodyFollows_basicBody? h) h hn hl
      · exact exchanged_next?_string hf (.inr rfl) (fun z => rfl) (fun z => next?_apostrophe)
          (bodyFollows_literalBody? h) h hn hl
    · rw [next?_of_notMem hc, hw] at hn ⊢
      split at hn
      · next hm =>
        cases hn
        rw [if_pos hm]
        exact ⟨_, y, rfl, .same _, h⟩
      · next hm =>
        rw [if_neg hm]
        split at hn
        · next hb =>
          cases hn
          obtain ⟨ht, hu⟩ := h.span_of_not (fun _ => isBlank_of_isVersionChar) hf.head hl
          rw [if_pos hb, ← ht]
          exact ⟨_, _, rfl, .same _, hu⟩
        · cases hn

/-! ## §2. All tokens. -/

@[simp] theorem tokens?_nil : tokens? [] = some [] := by
  rw [tokens?, if_pos rfl]

theorem tokens?_of_next? (h : next? x = some (t, u)) : tokens? x = (tokens? u).map (t :: ·) := by
  have hne : x ≠ [] := by
    rintro rfl
    cases h
  rw [tokens?, if_neg hne]
  split
  · next hn => rw [h] at hn; cases hn
  · next t' u' hn =>
    rw [h] at hn
    cases hn
    rfl

theorem exists_of_tokens?_cons {ts : List Token} (h : tokens? x = some (t :: ts)) :
    ∃ u, next? x = some (t, u) ∧ tokens? u = some ts := by
  by_cases hne : x = []
  · subst hne
    rw [tokens?_nil] at h
    cases h
  · rw [tokens?, if_neg hne] at h
    split at h
    · cases h
    · next t' u hn =>
      obtain ⟨us, hu, he⟩ := Option.map_eq_some_iff.1 h
      cases he
      exact ⟨u, hn, hu⟩

theorem spelled_append (as bs : List Token) : spelled (as ++ bs) = spelled as ++ spelled bs :=
  List.flatMap_append

theorem spelled_cons (t : Token) (ts : List Token) : spelled (t :: ts) = t.spelling ++ spelled ts :=
  List.flatMap_cons

/-- **The tokens before the end are exchanged one by one.** -/
theorem exchanged_tokens? {as bs : List Token} (hf : Text.Fence r r')
    (h : Text.Exchanged P r r' x y) (hx : tokens? x = some (as ++ bs)) (hr : spelled bs = r) :
    ∃ as', List.Forall₂ (Token.Exchanged P) as as'
      ∧ tokens? y = (tokens? r').map (as' ++ ·) := by
  induction as generalizing x y with
  | nil =>
    rw [List.nil_append] at hx
    have hxr : x = r := by rw [← hr, spelled_tokens? hx]
    refine ⟨[], .nil, ?_⟩
    rw [h.eq_end hxr]
    show tokens? r' = (tokens? r').map id
    rw [Option.map_id, id]
  | cons t as ih =>
    rw [List.cons_append] at hx
    obtain ⟨u, hn, hu⟩ := exists_of_tokens?_cons hx
    have hl : r.length ≤ u.length := by
      rw [← spelled_tokens? hu, spelled_append, hr, List.length_append]
      omega
    obtain ⟨t', u', hn', ht, huu⟩ := exchanged_next? hf h hn hl
    obtain ⟨as', has, hy⟩ := ih huu hu
    refine ⟨t' :: as', .cons ht has, ?_⟩
    rw [tokens?_of_next? hn', hy, Option.map_map]
    rfl

end Repin.Toml
