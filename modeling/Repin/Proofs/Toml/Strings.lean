/-
  Repin.Proofs.Toml.Strings
  ─────────────────────────
  **QUOTED STRINGS IN WHICH VERSIONS ARE EXCHANGED.**

  A version holds no quote, no backslash and no control character, so exchanging
  versions in a text does not move the end of a quoted string in it.  For each of the
  readers of a string: where it finds a body in `x`, it finds one in the exchanged
  text `y`, and body and rest are exchanged for body and rest,

    • `bodyFollows_basicBody?`, `bodyFollows_literalBody?`, `bodyFollows_blockBody?`.

  The rest has to reach back to the end `r` of the texts at least: what stands from
  there on is not the same in both.
-/
import Repin.Proofs.Text.Exchange
import Repin.Toml.Token

namespace Repin.Toml

/-! ## §1. The characters of versions. -/

theorem toNat_of_isVersionChar {c : Char} (h : isVersionChar c = true) :
    c.toNat = 43 ∨ c.toNat = 45 ∨ c.toNat = 46 ∨ 48 ≤ c.toNat ∧ c.toNat ≤ 57
      ∨ 65 ≤ c.toNat ∧ c.toNat ≤ 90 ∨ 97 ≤ c.toNat ∧ c.toNat ≤ 122 := by
  unfold isVersionChar Identifier.isChar at h
  simp only [Bool.or_eq_true, Bool.and_eq_true, decide_eq_true_eq, Char.le_def,
    UInt32.le_iff_toNat_le] at h
  simp only [Char.toNat]
  rcases h with ((((h | h) | h) | rfl) | rfl) | rfl
  · have h₁ : ('0' : Char).val.toNat = 48 := rfl
    have h₂ : ('9' : Char).val.toNat = 57 := rfl
    omega
  · have h₁ : ('A' : Char).val.toNat = 65 := rfl
    have h₂ : ('Z' : Char).val.toNat = 90 := rfl
    omega
  · have h₁ : ('a' : Char).val.toNat = 97 := rfl
    have h₂ : ('z' : Char).val.toNat = 122 := rfl
    omega
  · exact .inr (.inl rfl)
  · exact .inr (.inr (.inl rfl))
  · exact .inl rfl

theorem isPlain_of_isVersionChar {c : Char} (h : isVersionChar c = true) : isPlain c = true := by
  have hn := toNat_of_isVersionChar h
  unfold isPlain
  simp only [Bool.or_eq_true, Bool.and_eq_true, decide_eq_true_eq]
  right
  omega

/-- A character of a version is none of the given ones. -/
theorem notMem_of_isVersionChar {c : Char} {s : Text} (h : isVersionChar c = true)
    (hs : s.all (fun d => !isVersionChar d) = true) : c ∉ s := by
  intro hm
  have hd := List.all_eq_true.1 hs c hm
  rw [h] at hd
  cases hd

theorem isWord_of_isVersionChar {c : Char} (h : isVersionChar c = true) : isWord c = true := by
  have hm : c ∉ [' ', '\t', '=', ',', '[', ']', '\x7b', '\x7d', '"', '\'', '#'] :=
    notMem_of_isVersionChar h (by decide)
  have hmarks : "=,[]\x7b\x7d".toList = ['=', ',', '[', ']', '\x7b', '\x7d'] := by decide
  simp only [List.mem_cons, List.not_mem_nil, or_false, not_or] at hm
  unfold isWord isBlank isMark
  rw [isPlain_of_isVersionChar h, hmarks]
  simp [hm]

theorem isBlank_of_isVersionChar {c : Char} (h : isVersionChar c = true) : isBlank c = false := by
  have hw := isWord_of_isVersionChar h
  unfold isWord at hw
  simp only [Bool.and_eq_true, Bool.not_eq_true'] at hw
  exact hw.1.1.1.1.2

/-! ## §2. Readers of bodies. -/

/-- What is made of a body comes from one with the same rest. -/
theorem exists_of_map_body {α : Type} (f : Text → α) {o : Option (Text × Text)} {b : α} {u : Text}
    (h : o.map (fun p => (f p.1, p.2)) = some (b, u)) : ∃ a, o = some (a, u) ∧ f a = b := by
  obtain ⟨⟨a, z⟩, ho, he⟩ := Option.map_eq_some_iff.1 h
  cases he
  exact ⟨a, ho, rfl⟩

/-- The reader goes on over the characters of versions. -/
def PassesVersions (f : Text → Option (Text × Text)) : Prop :=
  ∀ c x, isVersionChar c = true → f (c :: x) = (f x).map (fun p => (c :: p.1, p.2))

/-- What the reader leaves is shorter than what it is given. -/
def Consumes (f : Text → Option (Text × Text)) : Prop :=
  ∀ x b u, f x = some (b, u) → u.length < x.length

/-- The body that `f` reads from `x` is exchanged for the one that it reads from `y`. -/
def BodyFollows (P : Prop) (r r' : Text) (f : Text → Option (Text × Text)) (x y : Text) : Prop :=
  ∀ b u, f x = some (b, u) → r.length ≤ u.length →
    ∃ b' u', f y = some (b', u') ∧ Text.Exchanged P [] [] b b' ∧ Text.Exchanged P r r' u u'

/-- Bodies are exchanged in all texts that are shorter than `n`. -/
def BodiesFollow (P : Prop) (r r' : Text) (f : Text → Option (Text × Text)) (n : Nat) : Prop :=
  ∀ x y, x.length < n → Text.Exchanged P r r' x y → BodyFollows P r r' f x y

variable {P : Prop} {r r' x y b u : Text} {f : Text → Option (Text × Text)}

theorem PassesVersions.append (hf : PassesVersions f) {v : Text}
    (hv : ∀ c ∈ v, isVersionChar c = true) (x : Text) :
    f (v ++ x) = (f x).map (fun p => (v ++ p.1, p.2)) := by
  induction v with
  | nil =>
    show f x = (f x).map id
    rw [Option.map_id, id]
  | cons c v ih =>
    rw [List.cons_append, hf c _ (hv c List.mem_cons_self),
      ih (fun d hd => hv d (List.mem_cons_of_mem c hd)), Option.map_map]
    rfl

/-- Bodies are exchanged if they are put together from bodies that are. -/
theorem BodyFollows.of_map {x₀ y₀ : Text} {g g' : Text → Text} (h : BodyFollows P r r' f x₀ y₀)
    (hx : f x = (f x₀).map (fun p => (g p.1, p.2)))
    (hy : f y = (f y₀).map (fun p => (g' p.1, p.2)))
    (hg : ∀ a a', Text.Exchanged P [] [] a a' → Text.Exchanged P [] [] (g a) (g' a')) :
    BodyFollows P r r' f x y := by
  intro b u hb hl
  rw [hx] at hb
  obtain ⟨a, ha, rfl⟩ := exists_of_map_body g hb
  obtain ⟨a', u', ha', haa, huu⟩ := h a u ha hl
  refine ⟨g' a', u', ?_, hg a a' haa, huu⟩
  rw [hy, ha']
  rfl

/-- **A reader exchanges bodies** if it does so where a character stays. -/
theorem bodyFollows (hf : PassesVersions f) (hc : Consumes f)
    (hkeep : ∀ c x y, Text.Exchanged P r r' x y → BodiesFollow P r r' f (x.length + 1) →
      BodyFollows P r r' f (c :: x) (c :: y))
    (h : Text.Exchanged P r r' x y) : BodyFollows P r r' f x y := by
  induction hn : x.length using Nat.strongRecOn generalizing x y with
  | ind n ih =>
  have below : BodiesFollow P r r' f n := fun x y hlt hxy => ih x.length hlt hxy rfl
  cases h with
  | base =>
    intro b u hb hl
    have hlen := hc _ _ _ hb
    omega
  | @swap v w x y hp hv hw h =>
    have hpos := List.length_pos_iff.2 hv.ne_nil
    have hlt : x.length < n := by
      rw [← hn, List.length_append]
      omega
    exact (below x y hlt h).of_map (hf.append hv.chars x) (hf.append hw.chars y)
      (fun _ _ haa => .swap hp hv hw haa)
  | @keep c x y h =>
    rw [List.length_cons] at hn
    rw [← hn] at below
    exact hkeep c x y h below

/-! ## §3. Basic strings. -/

theorem basicBody?_of_ne {c : Char} (hq : c ≠ '"') (hb : c ≠ '\\') (x : Text) :
    basicBody? (c :: x)
      = if isPlain c then (basicBody? x).map (fun p => (c :: p.1, p.2)) else none := by
  rw [basicBody?]
  · exact hq
  · intro x' he
    exact absurd he hb
  · intro x' he
    exact absurd he hb

theorem basicBody?_escaped {c : Char} (h : c = '"' ∨ c = '\\') (x : Text) :
    basicBody? ('\\' :: c :: x)
      = (basicBody? x).map (fun p => ('\\' :: c :: p.1, p.2)) := by
  rcases h with rfl | rfl <;> rfl

theorem basicBody?_backslash {c : Char} (hq : c ≠ '"') (hb : c ≠ '\\') (x : Text) :
    basicBody? ('\\' :: c :: x)
      = (basicBody? (c :: x)).map (fun p => ('\\' :: p.1, p.2)) := by
  rw [basicBody?]
  · rfl
  · decide
  · intro x' _ he
    cases he
    exact absurd rfl hq
  · intro x' _ he
    cases he
    exact absurd rfl hb

theorem passesVersions_basicBody? : PassesVersions basicBody? := by
  intro c x hc
  have hm : c ∉ ['"', '\\'] := notMem_of_isVersionChar hc (by decide)
  simp only [List.mem_cons, List.not_mem_nil, or_false, not_or] at hm
  rw [basicBody?_of_ne hm.1 hm.2, if_pos (isPlain_of_isVersionChar hc)]

theorem consumes_basicBody? : Consumes basicBody? := by
  intro x b u h
  rw [basicBody?_append h, List.length_append, List.length_cons]
  omega

theorem bodyFollows_backslash (h : Text.Exchanged P r r' x y)
    (ih : BodiesFollow P r r' basicBody? (x.length + 1)) :
    BodyFollows P r r' basicBody? ('\\' :: x) ('\\' :: y) := by
  intro b u hb hl
  cases x with
  | nil => cases hb
  | cons d x =>
  by_cases hd : d = '"' ∨ d = '\\'
  · -- An escaped quote or backslash: both characters stay.
    obtain ⟨a, ha, -⟩ := exists_of_map_body (fun a => '\\' :: d :: a) (basicBody?_escaped hd x ▸ hb)
    have hx := consumes_basicBody? _ _ _ ha
    obtain ⟨z, rfl, hz⟩ := h.of_cons (by rcases hd with rfl | rfl <;> rfl) (by omega)
    have hlt : x.length < (d :: x).length + 1 := by
      rw [List.length_cons]
      omega
    exact (ih x z hlt hz).of_map (basicBody?_escaped hd x) (basicBody?_escaped hd z)
      (fun _ _ haa => .keep _ (.keep _ haa)) b u hb hl
  · rw [not_or] at hd
    obtain ⟨a, ha, -⟩ := exists_of_map_body ('\\' :: ·) (basicBody?_backslash hd.1 hd.2 x ▸ hb)
    have hx := consumes_basicBody? _ _ _ ha
    rw [List.length_cons] at hx
    obtain ⟨e, z, rfl, he⟩ := h.exists_cons (by omega)
    have hne : e ≠ '"' ∧ e ≠ '\\' := by
      rcases he with rfl | he
      · exact hd
      · constructor
        · rintro rfl
          cases he
        · rintro rfl
          cases he
    exact (ih _ _ (Nat.lt_succ_self _) h).of_map (basicBody?_backslash hd.1 hd.2 x)
      (basicBody?_backslash hne.1 hne.2 z) (fun _ _ haa => .keep _ haa) b u hb hl

/-- **The body of a basic string is exchanged for one.** -/
theorem bodyFollows_basicBody? (h : Text.Exchanged P r r' x y) :
    BodyFollows P r r' basicBody? x y := by
  refine bodyFollows passesVersions_basicBody? consumes_basicBody? (fun c x y h ih => ?_) h
  by_cases hq : c = '"'
  · subst hq
    intro b u hb _
    cases hb
    exact ⟨[], y, rfl, .base, h⟩
  by_cases hs : c = '\\'
  · subst hs
    exact bodyFollows_backslash h ih
  by_cases hp : isPlain c = true
  · refine (ih x y (Nat.lt_succ_self _) h).of_map ?_ ?_ (fun _ _ haa => .keep c haa)
    · rw [basicBody?_of_ne hq hs, if_pos hp]
    · rw [basicBody?_of_ne hq hs, if_pos hp]
  · intro b u hb
    rw [basicBody?_of_ne hq hs, if_neg hp] at hb
    cases hb

/-! ## §4. Literal strings. -/

theorem literalBody?_of_ne {c : Char} (hq : c ≠ '\'') (x : Text) :
    literalBody? (c :: x)
      = if isPlain c then (literalBody? x).map (fun p => (c :: p.1, p.2)) else none := by
  rw [literalBody?]
  exact hq

theorem passesVersions_literalBody? : PassesVersions literalBody? := by
  intro c x hc
  have hm : c ∉ ['\''] := notMem_of_isVersionChar hc (by decide)
  rw [List.mem_singleton] at hm
  rw [literalBody?_of_ne hm, if_pos (isPlain_of_isVersionChar hc)]

theorem consumes_literalBody? : Consumes literalBody? := by
  intro x b u h
  rw [literalBody?_append h, List.length_append, List.length_cons]
  omega

/-- **The body of a literal string is exchanged for one.** -/
theorem bodyFollows_literalBody? (h : Text.Exchanged P r r' x y) :
    BodyFollows P r r' literalBody? x y := by
  refine bodyFollows passesVersions_literalBody? consumes_literalBody? (fun c x y h ih => ?_) h
  by_cases hq : c = '\''
  · subst hq
    intro b u hb _
    cases hb
    exact ⟨[], y, rfl, .base, h⟩
  by_cases hp : isPlain c = true
  · refine (ih x y (Nat.lt_succ_self _) h).of_map ?_ ?_ (fun _ _ haa => .keep c haa)
    · rw [literalBody?_of_ne hq, if_pos hp]
    · rw [literalBody?_of_ne hq, if_pos hp]
  · intro b u hb
    rw [literalBody?_of_ne hq, if_neg hp] at hb
    cases hb

/-! ## §5. Block strings. -/

variable {q : Char}

/-- **The end of a block string stays.** -/
theorem exchanged_closing? (hf : Text.Fence r r') (h : Text.Exchanged P r r' x y)
    (hq : q = '"' ∨ q = '\'') (hc : closing? q x = some (b, u)) (hl : r.length ≤ u.length) :
    ∃ u', closing? q y = some (b, u') ∧ Text.Exchanged P r r' u u' := by
  have ht := h.takeWhile_quotes hf hq
  unfold closing? at hc ⊢
  rw [← ht]
  simp only at hc ⊢
  split at hc
  · next h3 =>
    cases hc
    rw [if_pos h3]
    exact ⟨_, rfl, h.drop_quotes hq (by omega) hl⟩
  · cases hc

theorem closing?_eq_none_iff : closing? q x = none ↔ (x.takeWhile (· = q)).length < 3 := by
  unfold closing?
  simp only
  split
  · next h =>
    constructor
    · nofun
    · omega
  · next h => exact ⟨fun _ => by omega, fun _ => rfl⟩

theorem closing?_of_ne {c : Char} (hc : c ≠ q) (x : Text) : closing? q (c :: x) = none := by
  rw [closing?_eq_none_iff, List.takeWhile_cons, if_neg (by simpa using hc)]
  decide

variable {e : Bool}

theorem blockBody?_of_ne {c : Char} (hb : c ≠ '\\') (hr : c ≠ '\r') (x : Text) :
    blockBody? q e (c :: x) = match closing? q (c :: x) with
      | some found => some found
      | none =>
        if isPlain c || c = '\n' then (blockBody? q e x).map (fun p => (c :: p.1, p.2))
        else none := by
  rw [blockBody?.eq_def q e (c :: x)]
  split
  · next he => cases he
  · next he =>
    cases he
    exact absurd rfl hb
  · next he =>
    cases he
    exact absurd rfl hr
  · next he =>
    cases he
    rfl

theorem blockBody?_lineEnd (x : Text) :
    blockBody? q e ('\r' :: '\n' :: x)
      = (blockBody? q e x).map (fun p => ('\r' :: '\n' :: p.1, p.2)) := by
  rw [blockBody?]

/-- A carriage return stands before a line feed only. -/
theorem eq_lineFeed_of_blockBody? (hq : q = '"' ∨ q = '\'')
    (h : blockBody? q e ('\r' :: x) = some (b, u)) : ∃ z, x = '\n' :: z := by
  have hcl : closing? q ('\r' :: x) = none :=
    closing?_of_ne (by rcases hq with rfl | rfl <;> decide) x
  cases x with
  | nil =>
    rw [blockBody?, hcl] at h
    · cases h
    · intro d x' he
      cases he
    · intro x' _ he
      cases he
  | cons c x =>
    by_cases hc : c = '\n'
    · exact ⟨x, by rw [hc]⟩
    · rw [blockBody?, hcl] at h
      · cases h
      · intro d x' he
        cases he
      · intro x' _ he
        cases he
        exact absurd rfl hc

theorem blockBody?_backslash (c : Char) (x : Text) :
    blockBody? q e ('\\' :: c :: x)
      = if e && (c = q || c = '\\') then
          (blockBody? q e x).map (fun p => ('\\' :: c :: p.1, p.2))
        else (blockBody? q e (c :: x)).map (fun p => ('\\' :: p.1, p.2)) := by
  rw [blockBody?]

theorem passesVersions_blockBody? (hq : q = '"' ∨ q = '\'') :
    PassesVersions (blockBody? q e) := by
  intro c x hc
  have hm : c ∉ ['\\', '\r', '"', '\''] := notMem_of_isVersionChar hc (by decide)
  simp only [List.mem_cons, List.not_mem_nil, or_false, not_or] at hm
  have hcq : c ≠ q := by
    rcases hq with rfl | rfl
    · exact hm.2.2.1
    · exact hm.2.2.2
  rw [blockBody?_of_ne hm.1 hm.2.1, closing?_of_ne hcq, isPlain_of_isVersionChar hc]
  rfl

theorem consumes_blockBody? : Consumes (blockBody? q e) := by
  intro x b u h
  rw [blockBody?_append h, List.length_append, List.length_append, List.length_replicate]
  omega

theorem bodyFollows_blockBody?_backslash (hq : q = '"' ∨ q = '\'')
    (h : Text.Exchanged P r r' x y) (ih : BodiesFollow P r r' (blockBody? q e) (x.length + 1)) :
    BodyFollows P r r' (blockBody? q e) ('\\' :: x) ('\\' :: y) := by
  intro b u hb hl
  cases x with
  | nil => rcases hq with rfl | rfl <;> cases e <;> cases hb
  | cons d x =>
  by_cases hd : (e && (d = q || d = '\\')) = true
  · -- An escaped quote or backslash: both characters stay.
    have hx := blockBody?_backslash (q := q) (e := e) d x
    rw [if_pos hd] at hx
    obtain ⟨a, ha, -⟩ := exists_of_map_body (fun a => '\\' :: d :: a) (hx ▸ hb)
    have hlen := consumes_blockBody? _ _ _ ha
    have hdig : Text.isDigit d = false := by
      simp only [Bool.and_eq_true, Bool.or_eq_true, decide_eq_true_eq] at hd
      rcases hd.2 with rfl | rfl
      · rcases hq with rfl | rfl <;> rfl
      · rfl
    obtain ⟨z, rfl, hz⟩ := h.of_cons hdig (by omega)
    have hy := blockBody?_backslash (q := q) (e := e) d z
    rw [if_pos hd] at hy
    have hlt : x.length < (d :: x).length + 1 := by
      rw [List.length_cons]
      omega
    exact (ih x z hlt hz).of_map hx hy (fun _ _ haa => .keep _ (.keep _ haa)) b u hb hl
  · have hx := blockBody?_backslash (q := q) (e := e) d x
    rw [if_neg hd] at hx
    obtain ⟨a, ha, -⟩ := exists_of_map_body ('\\' :: ·) (hx ▸ hb)
    have hlen := consumes_blockBody? _ _ _ ha
    rw [List.length_cons] at hlen
    obtain ⟨f, z, rfl, hf⟩ := h.exists_cons (by omega)
    have hno : ¬ (e && (f = q || f = '\\')) = true := by
      rcases hf with rfl | hf
      · exact hd
      · simp only [Bool.and_eq_true, Bool.or_eq_true, decide_eq_true_eq]
        rintro ⟨-, rfl | rfl⟩
        · rcases hq with rfl | rfl <;> cases hf
        · cases hf
    have hy := blockBody?_backslash (q := q) (e := e) f z
    rw [if_neg hno] at hy
    exact (ih _ _ (Nat.lt_succ_self _) h).of_map hx hy (fun _ _ haa => .keep _ haa) b u hb hl

theorem bodyFollows_blockBody?_return (hq : q = '"' ∨ q = '\'')
    (h : Text.Exchanged P r r' x y) (ih : BodiesFollow P r r' (blockBody? q e) (x.length + 1)) :
    BodyFollows P r r' (blockBody? q e) ('\r' :: x) ('\r' :: y) := by
  intro b u hb hl
  obtain ⟨x, rfl⟩ := eq_lineFeed_of_blockBody? hq hb
  obtain ⟨a, ha, -⟩ := exists_of_map_body (fun a => '\r' :: '\n' :: a) (blockBody?_lineEnd x ▸ hb)
  have hx := consumes_blockBody? _ _ _ ha
  obtain ⟨z, rfl, hz⟩ := h.of_cons rfl (by omega)
  have hlt : x.length < ('\n' :: x).length + 1 := by
    rw [List.length_cons]
    omega
  exact (ih x z hlt hz).of_map (blockBody?_lineEnd x) (blockBody?_lineEnd z)
    (fun _ _ haa => .keep _ (.keep _ haa)) b u hb hl

/-- **The body of a block string is exchanged for one.** -/
theorem bodyFollows_blockBody? (hf : Text.Fence r r') (hq : q = '"' ∨ q = '\'')
    (h : Text.Exchanged P r r' x y) : BodyFollows P r r' (blockBody? q e) x y := by
  refine bodyFollows (passesVersions_blockBody? hq) consumes_blockBody? (fun c x y h ih => ?_) h
  have hxy := Text.Exchanged.keep c h
  by_cases hs : c = '\\'
  · subst hs
    exact bodyFollows_blockBody?_backslash hq h ih
  by_cases hret : c = '\r'
  · subst hret
    exact bodyFollows_blockBody?_return hq h ih
  cases hc : closing? q (c :: x) with
  | some found =>
    intro b u hb hl
    rw [blockBody?_of_ne hs hret, hc] at hb
    cases hb
    obtain ⟨u', hu', huu⟩ := exchanged_closing? hf hxy hq hc hl
    rw [blockBody?_of_ne hs hret, hu']
    exact ⟨b, u', rfl, Text.exchanged_refl b, huu⟩
  | none =>
    have hc' : closing? q (c :: y) = none := by
      rw [closing?_eq_none_iff] at hc ⊢
      rw [← hxy.takeWhile_quotes hf hq]
      exact hc
    have hx := blockBody?_of_ne (q := q) (e := e) hs hret x
    have hy := blockBody?_of_ne (q := q) (e := e) hs hret y
    rw [hc] at hx
    rw [hc'] at hy
    by_cases hp : (isPlain c || c = '\n') = true
    · simp only [if_pos hp] at hx hy
      exact (ih x y (Nat.lt_succ_self _) h).of_map hx hy (fun _ _ haa => .keep c haa)
    · simp only [if_neg hp] at hx
      intro b u hb
      rw [hx] at hb
      cases hb

end Repin.Toml
