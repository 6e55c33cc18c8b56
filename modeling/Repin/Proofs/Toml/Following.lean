/-
  Repin.Proofs.Toml.Following
  ───────────────────────────
  **READING TWO LISTS OF TOKENS IN STEP.**

  The second list has the basic string `s` at the place `k`, where the first one has a
  string or a word that is no date; versions may be exchanged in the other tokens, if
  `P` holds.  As long as the parser reads the token at `k` as a value, or has not come to
  it, it reads the second list as it reads the first, and what it reads is alike.

  Three things can happen to a part of the document (`InStep`):

    • both lists are read in step, and what is read is alike,
    • the second one is refused, which can happen if `P` holds only,
    • the token at `k` was read as a part of a key or of a time; then no value of the
      document stands at the place `k` any more.
-/
import Repin.Proofs.Toml.Keys
import Repin.Proofs.Toml.Reading

namespace Repin.Toml

/-! ## §1. Tokens that match. -/

/-- A token that a quoted string can replace where a value is read. -/
def Token.isReplaceable : Token → Bool
  | .string _ _ => true
  | .word w => !isDate w
  | _ => false

/-- The tokens have the same place; at the place `k` the second one is the string `s`. -/
inductive Matches (P : Prop) (k : Nat) (s : Text) : Token × Nat → Token × Nat → Prop
  | other {t t' : Token} {p : Nat} : p ≠ k → Token.Exchanged P t t' → Matches P k s (t, p) (t', p)
  | value {t : Token} : t.isReplaceable = true → Matches P k s (t, k) (.string .basic s, k)

/-- The tokens match one by one. -/
abbrev TokensMatch (P : Prop) (k : Nat) (s : Text) : Tokens → Tokens → Prop :=
  List.Forall₂ (Matches P k s)

variable {P : Prop} {k : Nat} {s : Text} {ts ts' r r' u u' : Tokens} {a b : Token × Nat}

theorem Matches.isBlank_eq (h : Matches P k s a b) : a.1.isBlank = b.1.isBlank := by
  cases h with
  | other _ h => cases h <;> rfl
  | @value t h =>
    cases t with
    | string => rfl
    | word => rfl
    | _ => cases h

theorem Matches.isSpace_eq (h : Matches P k s a b) : a.1.isSpace = b.1.isSpace := by
  cases h with
  | other _ h => cases h <;> rfl
  | @value t h =>
    cases t with
    | string => rfl
    | word => rfl
    | _ => cases h

theorem Matches.isOfKey_eq (h : Matches P k s a b) (hk : a.2 ≠ k) : a.1.isOfKey = b.1.isOfKey := by
  cases h with
  | other _ h =>
    cases h with
    | same => rfl
    | comment => rfl
    | word => rfl
    | string quote => cases quote <;> rfl
  | value => exact absurd rfl hk

theorem Matches.eq_mark {c : Char} {p : Nat} (h : Matches P k s (.mark c, p) b) :
    b = (.mark c, p) := by
  cases h with
  | other _ h =>
    cases h
    rfl
  | value h => cases h

theorem Matches.eq_lineEnd {withReturn : Bool} {p : Nat}
    (h : Matches P k s (.lineEnd withReturn, p) b) : b = (.lineEnd withReturn, p) := by
  cases h with
  | other _ h =>
    cases h
    rfl
  | value h => cases h

theorem Matches.exists_comment {c : Text} {p : Nat} (h : Matches P k s (.comment c, p) b) :
    ∃ c', b = (.comment c', p) := by
  cases h with
  | other _ h => cases h <;> exact ⟨_, rfl⟩
  | value h => cases h

theorem exists_of_matches_mark {c : Char} {p : Nat}
    (h : TokensMatch P k s ((.mark c, p) :: u) ts') :
    ∃ u', ts' = (.mark c, p) :: u' ∧ TokensMatch P k s u u' := by
  obtain ⟨b, u', hb, hu, rfl⟩ := List.forall₂_cons_left_iff.1 h
  rw [hb.eq_mark]
  exact ⟨u', rfl, hu⟩

theorem exists_of_matches_lineEnd {withReturn : Bool} {p : Nat}
    (h : TokensMatch P k s ((.lineEnd withReturn, p) :: u) ts') :
    ∃ u', ts' = (.lineEnd withReturn, p) :: u' ∧ TokensMatch P k s u u' := by
  obtain ⟨b, u', hb, hu, rfl⟩ := List.forall₂_cons_left_iff.1 h
  rw [hb.eq_lineEnd]
  exact ⟨u', rfl, hu⟩

theorem exists_of_matches_comment {c : Text} {p : Nat}
    (h : TokensMatch P k s ((.comment c, p) :: u) ts') :
    ∃ c' u', ts' = (.comment c', p) :: u' ∧ TokensMatch P k s u u' := by
  obtain ⟨b, u', hb, hu, rfl⟩ := List.forall₂_cons_left_iff.1 h
  obtain ⟨c', rfl⟩ := hb.exists_comment
  exact ⟨c', u', rfl, hu⟩

theorem forall₂_dropWhile {α β : Type} {R : α → β → Prop} {p : α → Bool} {q : β → Bool}
    (hp : ∀ a b, R a b → p a = q b) {as : List α} {bs : List β} (h : List.Forall₂ R as bs) :
    List.Forall₂ R (as.dropWhile p) (bs.dropWhile q) := by
  induction h with
  | nil => exact .nil
  | @cons a b as bs hab hs ih =>
    rw [List.dropWhile_cons, List.dropWhile_cons, hp a b hab]
    split
    · exact ih
    · exact .cons hab hs

theorem matches_skipBlanks (h : TokensMatch P k s ts ts') :
    TokensMatch P k s (skipBlanks ts) (skipBlanks ts') :=
  forall₂_dropWhile (fun _ _ h => h.isBlank_eq) h

theorem matches_skipSpaces (h : TokensMatch P k s ts ts') :
    TokensMatch P k s (skipSpaces ts) (skipSpaces ts') :=
  forall₂_dropWhile (fun _ _ h => h.isSpace_eq) h

theorem exists_of_rel {α β : Type} {R : α → β → Prop} {x : α} {o : Option β}
    (h : Option.Rel R (some x) o) : ∃ y, o = some y ∧ R x y := by
  cases h with
  | some h => exact ⟨_, rfl, h⟩

theorem none_of_rel {α β : Type} {R : α → β → Prop} {o : Option β}
    (h : Option.Rel R none o) : o = none := by
  cases h
  rfl

/-- Marks stand at the same places. -/
theorem matches_behindMark? (c : Char) (h : TokensMatch P k s ts ts') :
    Option.Rel (TokensMatch P k s) (behindMark? c ts) (behindMark? c ts') := by
  cases h with
  | nil => exact .none
  | cons hab hs =>
    cases hab with
    | @other t t' p _ ht =>
      cases ht with
      | comment => exact .none
      | string => exact .none
      | word => exact .none
      | same =>
        -- Only tokens that are the same can be marks.
        cases t with
        | mark d =>
          simp only [behindMark?]
          split
          · exact .some hs
          · exact .none
        | _ => exact .none
    | @value t ht =>
      cases t with
      | string => exact .none
      | word => exact .none
      | _ => cases ht

/-- The tokens without a comment at their head. -/
def withoutComment : Tokens → Tokens
  | (.comment _, _) :: r => r
  | ts => ts

/-- What is left behind a line end, if nothing stands before it. -/
def behindEnd? : Tokens → Option Tokens
  | [] => some []
  | (.lineEnd _, _) :: r => some r
  | _ => none

theorem behindLine?_eq (ts : Tokens) :
    behindLine? ts = behindEnd? (withoutComment (skipBlanks ts)) := by
  unfold behindLine?
  split
  · next h => rw [h]; rfl
  · next e p r h => rw [h]; rfl
  · next c p h => rw [h]; rfl
  · next c p e q r h => rw [h]; rfl
  · next h₁ h₂ h₃ h₄ =>
    -- Whatever else stands there, with or without a comment before it, ends no line.
    generalize skipBlanks ts = u at *
    match u with
    | [] => exact absurd rfl h₁
    | (.lineEnd e, p) :: r => exact absurd rfl (h₂ e p r)
    | (.comment c, p) :: [] => exact absurd rfl (h₃ c p)
    | (.comment c, p) :: (.lineEnd e, q) :: r => exact absurd rfl (h₄ c p e q r)
    | (.comment c, p) :: (.blank b, q) :: r => rfl
    | (.comment c, p) :: (.comment b, q) :: r => rfl
    | (.comment c, p) :: (.mark b, q) :: r => rfl
    | (.comment c, p) :: (.word b, q) :: r => rfl
    | (.comment c, p) :: (.string b d, q) :: r => rfl
    | (.blank b, q) :: r => rfl
    | (.mark b, q) :: r => rfl
    | (.word b, q) :: r => rfl
    | (.string b d, q) :: r => rfl

theorem matches_withoutComment (h : TokensMatch P k s ts ts') :
    TokensMatch P k s (withoutComment ts) (withoutComment ts') := by
  cases h with
  | nil => exact .nil
  | cons hab hs =>
    have hm := List.Forall₂.cons hab hs
    cases hab with
    | @other t t' p _ ht =>
      cases ht with
      | comment => exact hs
      | string => exact hm
      | word => exact hm
      | same =>
        cases t with
        | comment => exact hs
        | _ => exact hm
    | @value t ht =>
      cases t with
      | string => exact hm
      | word => exact hm
      | _ => cases ht

theorem matches_behindEnd? (h : TokensMatch P k s ts ts') :
    Option.Rel (TokensMatch P k s) (behindEnd? ts) (behindEnd? ts') := by
  cases h with
  | nil => exact .some .nil
  | cons hab hs =>
    cases hab with
    | @other t t' p _ ht =>
      cases ht with
      | comment => exact .none
      | string => exact .none
      | word => exact .none
      | same =>
        cases t with
        | lineEnd => exact .some hs
        | _ => exact .none
    | @value t ht =>
      cases t with
      | string => exact .none
      | word => exact .none
      | _ => cases ht

/-- Lines end at the same places. -/
theorem matches_behindLine? (h : TokensMatch P k s ts ts') :
    Option.Rel (TokensMatch P k s) (behindLine? ts) (behindLine? ts') := by
  rw [behindLine?_eq, behindLine?_eq]
  exact matches_behindEnd? (matches_withoutComment (matches_skipBlanks h))

/-- What follows a part is of the same kind, with tokens that match. -/
inductive AfterMatch (P : Prop) (k : Nat) (s : Text) : After → After → Prop
  | done {r r' : Tokens} : TokensMatch P k s r r' → AfterMatch P k s (.done r) (.done r')
  | more {r r' : Tokens} : TokensMatch P k s r r' → AfterMatch P k s (.more r) (.more r')

theorem matches_after? (close : Char) (h : TokensMatch P k s ts ts') :
    Option.Rel (AfterMatch P k s) (after? close ts) (after? close ts') := by
  have hs := matches_skipSpaces h
  unfold after?
  have hm := matches_behindMark? close hs
  generalize behindMark? close (skipSpaces ts) = o at hm
  generalize behindMark? close (skipSpaces ts') = o' at hm
  cases hm with
  | some hu => exact .some (AfterMatch.done hu)
  | none =>
    -- No closing mark on either side: a comma on both sides, or on none.
    have hc := matches_behindMark? ',' hs
    generalize behindMark? ',' (skipSpaces ts) = o at hc
    generalize behindMark? ',' (skipSpaces ts') = o' at hc
    cases hc with
    | none => exact .none
    | @some u u' hu =>
      dsimp only
      have hs := matches_skipSpaces hu
      have hm := matches_behindMark? close hs
      generalize behindMark? close (skipSpaces u) = o at hm
      generalize behindMark? close (skipSpaces u') = o' at hm
      cases hm with
      | some hw => exact .some (AfterMatch.done hw)
      | none => exact .some (AfterMatch.more hs)

/-! ## §2. Steps. -/

/-- How a step on the second list goes: it gives what `R` asks for, or it is refused where
it may, or nothing more is asked because `Q` holds. -/
inductive InStep {α : Type} (Q P : Prop) (R : α → Prop) : Option α → Prop
  | off {o : Option α} : Q → InStep Q P R o
  | some {x : α} : R x → InStep Q P R (some x)
  | none : P → InStep Q P R none

variable {α β : Type} {Q Q' : Prop} {R : α → Prop} {S : β → Prop} {o : Option α}

theorem InStep.bind {f : α → Option β} (h : InStep Q P R o) (hq : Q → Q')
    (hf : ∀ x, R x → InStep Q' P S (f x)) : InStep Q' P S (o.bind f) := by
  cases h with
  | off h => exact .off (hq h)
  | some h => exact hf _ h
  | none h => exact .none h

theorem InStep.mono (h : InStep Q P R o) (hq : Q → Q') : InStep Q' P R o := by
  cases h with
  | off h => exact .off (hq h)
  | some h => exact .some h
  | none h => exact .none h

theorem InStep.map {f : α → β} (h : InStep Q P R o) (hq : Q → Q') (hf : ∀ x, R x → S (f x)) :
    InStep Q' P S (o.map f) := by
  cases h with
  | off h => exact .off (hq h)
  | some h => exact .some (hf _ h)
  | none h => exact .none h

theorem Follows.inStep {γ : Type} {T : γ → α → Prop} {c : γ} (h : Follows P T c o) :
    InStep Q P (T c) o := by
  cases h with
  | some h => exact .some h
  | none h => exact .none h

/-- The place `k` is not among those of the tokens. -/
def Past (k : Nat) (ts : Tokens) : Prop := k ∉ ts.map Prod.snd

/-- No scalar of the value stands at the place `k`. -/
def Missed (k : Nat) (v : Toml) : Prop := v.Within (fun p _ => p ≠ k)

/-- All tokens have different places. -/
def Distinct (ts : Tokens) : Prop := (ts.map Prod.snd).Nodup

theorem Past.of_suffix (h : Past k ts) (hs : r <:+ ts) : Past k r := by
  intro hm
  obtain ⟨t, ht, rfl⟩ := List.mem_map.1 hm
  exact h (List.mem_map_of_mem (hs.subset ht))

theorem Distinct.of_suffix (h : Distinct ts) (hs : r <:+ ts) : Distinct r :=
  h.sublist (hs.sublist.map Prod.snd)

theorem Distinct.past {as : Tokens} (h : Distinct (as ++ r)) (hk : k ∈ as.map Prod.snd) :
    Past k r := by
  unfold Distinct at h
  rw [List.map_append] at h
  exact fun hm => (List.nodup_append.1 h).2.2 k hk k hm rfl

/-- A value that is read behind the token at `k` misses it. -/
theorem missed_of_past {v : Toml} (h : Past k ts) (hv : v.Within (ReadIn ts r)) : Missed k v := by
  refine hv.mono (fun p x hx => ?_)
  obtain ⟨t, w, hw, -⟩ := hx
  rintro rfl
  exact h (List.mem_map_of_mem (hw.suffix.subset List.mem_cons_self))

/-- A value that is read before the token at `k` misses it. -/
theorem missed_of_mem {v : Toml} (hd : Distinct ts) (h : k ∈ r.map Prod.snd)
    (hv : v.Within (ReadIn ts r)) : Missed k v := by
  refine hv.mono (fun p x hx => ?_)
  obtain ⟨t, w, hw, hrw, -⟩ := hx
  rintro rfl
  have hdw : Distinct ([(t, p)] ++ w) := hd.of_suffix hw.suffix
  exact (hdw.past List.mem_cons_self).of_suffix hrw h

/-- The token at the place `k` stands in `ts` before `r`. -/
structure PassedOver (k : Nat) (ts r : Tokens) : Prop where
  mem : k ∈ ts.map Prod.snd
  past : Past k r

theorem PassedOver.mono (h : PassedOver k u r) (hu : u <:+ ts) (hr : r' <:+ r) :
    PassedOver k ts r' :=
  ⟨(hu.map Prod.snd).subset h.mem, h.past.of_suffix hr⟩

/-! ## §3. Keys. -/

theorem key?_eq (ts : Tokens) :
    key? ts = ((ts.takeWhile (fun t => t.1.isOfKey)).mapM (fun t => keyParts? t.1)).bind
      (fun parts => (dottedNames? parts.flatten).map
        (fun path => (path, ts.dropWhile (fun t => t.1.isOfKey)))) := by
  unfold key?
  simp only [Option.bind_eq_bind, Option.map_eq_bind]
  rfl

theorem exists_append_of_forall₂ {α β : Type} {R : α → β → Prop} {as bs : List α} {cs : List β}
    (h : List.Forall₂ R (as ++ bs) cs) :
    ∃ as' bs', cs = as' ++ bs' ∧ List.Forall₂ R as as' ∧ List.Forall₂ R bs bs' := by
  induction as generalizing cs with
  | nil => exact ⟨[], cs, rfl, .nil, h⟩
  | cons a as ih =>
    cases h with
    | cons hab hs =>
      obtain ⟨as', bs', rfl, ha, hb⟩ := ih hs
      exact ⟨_ :: as', bs', rfl, .cons hab ha, hb⟩

/-- The tokens of a key, the one at `k` not among them, match those of a key. -/
theorem exchanged_of_matches (h : TokensMatch P k s ts ts') (hk : Past k ts)
    (ht : ∀ a ∈ ts, a.1.isOfKey = true) :
    List.Forall₂ (fun a b => Token.Exchanged P a.1 b.1) ts ts' ∧ ∀ b ∈ ts', b.1.isOfKey = true := by
  induction h with
  | nil => exact ⟨.nil, fun b hb => absurd hb List.not_mem_nil⟩
  | @cons a b ts ts' hab _ ih =>
    obtain ⟨hs, hall⟩ := ih (hk.of_suffix (List.suffix_cons a ts))
      (fun c hc => ht c (List.mem_cons_of_mem a hc))
    have hne : a.2 ≠ k := by
      rintro rfl
      exact hk List.mem_cons_self
    have hof := hab.isOfKey_eq hne
    rw [ht a List.mem_cons_self] at hof
    cases hab with
    | value => exact absurd rfl hne
    | other _ hex =>
      refine ⟨.cons hex hs, fun c hc => ?_⟩
      rcases List.mem_cons.1 hc with rfl | hc
      · exact hof.symm
      · exact hall c hc

/-- **Keys are read in step**, with the mark behind them. -/
theorem inStep_keyBefore? {c : Char} {path : KeyPath} (hm : TokensMatch P k s ts ts')
    (hd : Distinct ts) (h : keyBefore? c ts = some (path, u)) :
    InStep (PassedOver k ts u) P (fun q => PathAlike P path q.1 ∧ TokensMatch P k s u q.2)
      (keyBefore? c ts') := by
  obtain ⟨r, hk, hc⟩ := keyBefore?_eq_some h
  obtain ⟨⟨parts, hp, hn⟩, hr⟩ := key?_eq_some hk
  obtain ⟨p, hru⟩ := eq_cons_of_behindMark? hc
  have hts : ts.takeWhile (fun t => t.1.isOfKey) ++ (.mark c, p) :: u = ts := by
    rw [← hru, hr]
    exact List.takeWhile_append_dropWhile
  have hof : ∀ a ∈ ts.takeWhile (fun t => t.1.isOfKey), a.1.isOfKey = true :=
    List.all_eq_true.1 List.all_takeWhile
  generalize ts.takeWhile (fun t => t.1.isOfKey) = as at hts hp hof
  subst hts
  by_cases hkk : k ∈ as.map Prod.snd
  · -- The token at `k` is a part of the key, so what is left lies behind it.
    refine .off ⟨?_, (hd.past hkk).of_suffix (List.suffix_cons _ u)⟩
    rw [List.map_append]
    exact List.mem_append_left _ hkk
  · obtain ⟨as', bs', rfl, has, hbs⟩ := exists_append_of_forall₂ hm
    obtain ⟨hex, hof'⟩ := exchanged_of_matches has hkk hof
    obtain ⟨u', rfl, hu⟩ := exists_of_matches_mark hbs
    -- The second key ends at the mark as well.
    have hstop : (as' ++ (Token.mark c, p) :: u').takeWhile (fun t => t.1.isOfKey) = as'
        ∧ (as' ++ (Token.mark c, p) :: u').dropWhile (fun t => t.1.isOfKey)
          = (.mark c, p) :: u' := by
      rw [List.takeWhile_append_of_pos hof', List.dropWhile_append_of_pos hof']
      exact ⟨List.append_nil as', rfl⟩
    rw [keyBefore?, key?_eq, hstop.1, hstop.2]
    refine InStep.bind (R := fun q => PathAlike P path q.1 ∧ q.2 = (.mark c, p) :: u') ?_ id ?_
    · refine InStep.bind (follows_mapM_keyParts? hex hof hp).inStep id (fun parts' hpp => ?_)
      exact (follows_dottedNames? hpp hn).inStep.map id (fun path' hpath => ⟨hpath, rfl⟩)
    · rintro ⟨path', r'⟩ ⟨hpath, rfl⟩
      have hback : behindMark? c ((Token.mark c, p) :: u') = some u' := if_pos rfl
      rw [hback]
      exact .some ⟨hpath, hu⟩

/-! ## §4. Values. -/

/-- What a value is read as, on both lists. -/
def ValueMatch (P : Prop) (k : Nat) (s : Text) (v : Toml) (r : Tokens) (q : Toml × Tokens) : Prop :=
  v.Alike P k (.string s) q.1 ∧ TokensMatch P k s r q.2

theorem timeFollows_of_matches (h : TokensMatch P k s u u') (ht : TimeFollows u') :
    TimeFollows u := by
  obtain ⟨q, t, q', r, rfl⟩ := ht
  cases h with
  | cons hab hs =>
    cases hs with
    | cons hcd hs =>
      cases hab with
      | other _ hab =>
        cases hab
        cases hcd with
        | other _ hcd =>
          cases hcd with
          | same => exact ⟨q, t, q', _, rfl⟩
          | word => exact ⟨q, _, q', _, rfl⟩

variable {p : Nat} {v : Toml}

/-- What stands at another place than `k` may be read as something else, if `P` holds. -/
theorem inStep_scalar {x : Scalar} {o : Option Scalar} (hpk : p ≠ k) (h : o = some x ∨ P)
    (hm : TokensMatch P k s r r') :
    InStep Q P (ValueMatch P k s (.scalar p x) r) (o.map (fun y => (.scalar p y, r'))) := by
  cases o with
  | none =>
    rcases h with h | hP
    · cases h
    · exact .none hP
  | some y =>
    refine .some ⟨.scalar (fun hp => absurd hp hpk) (fun _ hP => ?_), hm⟩
    rcases h with h | h
    · exact Option.some.inj h
    · exact absurd h hP

/-- **Strings are read in step**, at another place than `k`. -/
theorem inStep_string {quote : Quote} {body body' y : Text} (hpk : p ≠ k)
    (hy : stringValue? quote body = some y) (hbody : body' = body ∨ P)
    (hm : TokensMatch P k s r r') (fuel : Nat) :
    InStep Q P (ValueMatch P k s (.scalar p (.string y)) r)
      (value? (fuel + 1) ((.string quote body', p) :: r')) := by
  have hv : value? (fuel + 1) ((.string quote body', p) :: r')
      = ((stringValue? quote body').map Scalar.string).map (fun z => (.scalar p z, r')) := by
    rw [value?, Option.map_map]
    rfl
  rw [hv]
  refine inStep_scalar hpk ?_ hm
  rcases hbody with rfl | hP
  · rw [hy]
    exact .inl rfl
  · exact .inr hP

/-- **Words are read in step**, at another place than `k`. -/
theorem inStep_wordAt? {w w' : Text} (hpk : p ≠ k) (hw : Text.Exchanged P [] [] w w')
    (hm : TokensMatch P k s u u') (hd : Distinct ((.word w, p) :: u))
    (h : wordAt? p w u = some (v, r)) :
    InStep (Missed k v ∧ PassedOver k ((.word w, p) :: u) r) P (ValueMatch P k s v r)
      (wordAt? p w' u') := by
  rcases isDate_of_exchanged hw with rfl | ⟨hP, hdw, hdw'⟩
  · rcases wordAt?_cases h with ⟨x, hnot, rfl, hx, rfl⟩ | ⟨x, t, q, q', hdate, rfl, rfl, hx⟩
    · have hnot' : isDate w = true → ¬ TimeFollows u' :=
        fun hdate ht => hnot hdate (timeFollows_of_matches hm ht)
      rw [wordAt?_of_not hnot']
      exact inStep_scalar hpk (.inl hx) hm
    · cases hm with
      | cons hblank hs =>
        cases hblank with
        | value hb => cases hb
        | other _ hblank =>
          cases hblank
          cases hs with
          | cons htime hs =>
            cases htime with
            | value _ =>
              -- The token at `k` was the time behind the date.
              have hdd : Distinct ([(.word w, p), (.blank [' '], q), (.word t, k)] ++ r) := hd
              exact .off ⟨.scalar hpk, by simp, hdd.past (by simp)⟩
            | other _ htime =>
              cases htime with
              | same =>
                rw [wordAt?_of_time hdate]
                exact inStep_scalar hpk (.inl hx) hs
              | word ht =>
                rw [wordAt?_of_time hdate]
                rcases ht.eq_or_exists with rfl | ⟨hP, -⟩
                · exact inStep_scalar hpk (.inl hx) hs
                · exact inStep_scalar hpk (.inr hP) hs
  · -- A version was exchanged in the word; neither it nor the new one is a date.
    rcases wordAt?_cases h with ⟨x, -, rfl, -, rfl⟩ | ⟨x, t, q, q', hdate, -⟩
    · have hnot' : isDate w' = true → ¬ TimeFollows u' := by
        rw [hdw']
        exact nofun
      rw [wordAt?_of_not hnot']
      exact inStep_scalar hpk (.inr hP) hm
    · rw [hdw] at hdate
      cases hdate

/-- The string at the place `k` is read as a value. -/
theorem value?_string (fuel : Nat) (hs : stringValue? .basic s = some s) (k : Nat) (r : Tokens) :
    value? (fuel + 1) ((.string .basic s, k) :: r) = some (.scalar k (.string s), r) := by
  rw [value?, hs]
  rfl

/-- With the given fuel, values are read in step. -/
def ValuesInStep (P : Prop) (k : Nat) (s : Text) (fuel : Nat) : Prop :=
  ∀ ts ts' v r, TokensMatch P k s ts ts' → Distinct ts → value? fuel ts = some (v, r) →
    InStep (Missed k v ∧ PassedOver k ts r) P (ValueMatch P k s v r) (value? fuel ts')

/-- Readers of lists of parts, with `f` as the value of a part, go in step; parts are alike
as `R` says. -/
def ListsInStep {α : Type} (P : Prop) (k : Nat) (s : Text) (f : α → Toml) (R : α → α → Prop)
    (reader : Tokens → Option (List α × Tokens)) : Prop :=
  ∀ ts ts' xs r, TokensMatch P k s ts ts' → Distinct ts → reader ts = some (xs, r) →
    InStep ((∀ x ∈ xs, Missed k (f x)) ∧ PassedOver k ts r) P
      (fun q => List.Forall₂ R xs q.1 ∧ TokensMatch P k s r q.2) (reader ts')

abbrev ElementsInStep (P : Prop) (k : Nat) (s : Text) (fuel : Nat) : Prop :=
  ListsInStep P k s (fun v => v) (Alike P k (.string s)) (elements? fuel)

abbrev ItemsInStep (P : Prop) (k : Nat) (s : Text) (fuel : Nat) : Prop :=
  ListsInStep P k s Prod.snd (Table.ItemAlike P k (.string s)) (items? fuel)

variable {fuel : Nat}

theorem inStep_array (he : ElementsInStep P k s fuel)
    (hm : TokensMatch P k s ((.mark '[', p) :: u) ts') (hd : Distinct ((.mark '[', p) :: u))
    (h : (behindMark? ']' (skipSpaces u) = some r ∧ v = .array [])
      ∨ ∃ vs, behindMark? ']' (skipSpaces u) = none
        ∧ elements? fuel (skipSpaces u) = some (vs, r) ∧ v = .array vs) :
    InStep (Missed k v ∧ PassedOver k ((.mark '[', p) :: u) r) P (ValueMatch P k s v r)
      (value? (fuel + 1) ts') := by
  obtain ⟨u', rfl, huu⟩ := exists_of_matches_mark hm
  have hu : Led ((Token.mark '[', p) :: u) (skipSpaces u) :=
    Led.trans (.behind [] _ u rfl) (led_skipSpaces u)
  have hms := matches_skipSpaces huu
  have hmark := matches_behindMark? ']' hms
  rw [value?]
  rcases h with ⟨hc, rfl⟩ | ⟨vs, hc, hv, rfl⟩
  · rw [hc] at hmark
    obtain ⟨r', hr', hrr⟩ := exists_of_rel hmark
    rw [hr']
    exact .some ⟨.array .nil, hrr⟩
  · rw [hc] at hmark
    rw [none_of_rel hmark]
    refine (he _ _ vs r hms (hd.of_suffix hu.suffix) hv).map ?_ ?_
    · rintro ⟨hmv, hpo⟩
      exact ⟨.array hmv, hpo.mono hu.suffix (List.suffix_refl r)⟩
    · rintro ⟨vs', r'⟩ ⟨hvv, hrr⟩
      exact ⟨.array hvv, hrr⟩

theorem inStep_braces (hi : ItemsInStep P k s fuel)
    (hm : TokensMatch P k s ((.mark '\x7b', p) :: u) ts') (hd : Distinct ((.mark '\x7b', p) :: u))
    (h : (behindMark? '\x7d' (skipSpaces u) = some r ∧ v = .table .closed [])
      ∨ ∃ is t, behindMark? '\x7d' (skipSpaces u) = none
        ∧ items? fuel (skipSpaces u) = some (is, r) ∧ Table.assignAll? is [] = some t
        ∧ v = .table .closed t) :
    InStep (Missed k v ∧ PassedOver k ((.mark '\x7b', p) :: u) r) P (ValueMatch P k s v r)
      (value? (fuel + 1) ts') := by
  obtain ⟨u', rfl, huu⟩ := exists_of_matches_mark hm
  have hu : Led ((Token.mark '\x7b', p) :: u) (skipSpaces u) :=
    Led.trans (.behind [] _ u rfl) (led_skipSpaces u)
  have hms := matches_skipSpaces huu
  have hmark := matches_behindMark? '\x7d' hms
  rw [value?]
  rcases h with ⟨hc, rfl⟩ | ⟨is, t, hc, his, ht, rfl⟩
  · rw [hc] at hmark
    obtain ⟨r', hr', hrr⟩ := exists_of_rel hmark
    rw [hr']
    exact .some ⟨.table Table.alike_nil, hrr⟩
  · rw [hc] at hmark
    rw [none_of_rel hmark]
    refine (hi _ _ is r hms (hd.of_suffix hu.suffix) his).bind ?_ ?_
    · rintro ⟨hmv, hpo⟩
      exact ⟨.table (Table.within_nil.assignAll? hmv ht),
        hpo.mono hu.suffix (List.suffix_refl r)⟩
    · rintro ⟨is', r'⟩ ⟨hii, hrr⟩
      refine (Table.follows_assignAll? hii Table.alike_nil ht).inStep.bind id ?_
      intro t' htt
      exact .some ⟨.table htt, hrr⟩

/-- One case for each kind of value; the token at `k` is one of the first two. -/
theorem inStep_value?_succ (hs : stringValue? .basic s = some s) (he : ElementsInStep P k s fuel)
    (hi : ItemsInStep P k s fuel) : ValuesInStep P k s (fuel + 1) := by
  intro ts ts' v r hm hd h
  rcases value?_cases h with ⟨quote, body, p, y, rfl, hy, rfl⟩ | ⟨w, p, u, rfl, hw⟩
    | ⟨p, u, rfl, hb⟩ | ⟨p, u, rfl, hb⟩
  · cases hm with
    | cons hab hm =>
      cases hab with
      | value _ =>
        rw [value?_string fuel hs]
        exact .some ⟨.scalar (fun _ => rfl) (fun hne => absurd rfl hne), hm⟩
      | other hpk hex =>
        cases hex with
        | same => exact inStep_string hpk hy (.inl rfl) hm fuel
        | string _ hbb =>
          rcases hbb.eq_or_exists with rfl | ⟨hP, -⟩
          · exact inStep_string hpk hy (.inl rfl) hm fuel
          · exact inStep_string hpk hy (.inr hP) hm fuel
  · cases hm with
    | cons hab hm =>
      cases hab with
      | value hw' =>
        rw [value?_string fuel hs]
        -- A word that can be replaced is no date, so it was read by itself.
        rcases wordAt?_cases hw with ⟨x, -, rfl, -, rfl⟩ | ⟨x, t, q, q', hdate, -⟩
        · exact .some ⟨.scalar (fun _ => rfl) (fun hne => absurd rfl hne), hm⟩
        · simp [Token.isReplaceable, hdate] at hw'
      | other hpk hex =>
        cases hex with
        | same => exact inStep_wordAt? hpk (Text.exchanged_refl w) hm hd hw
        | word hww => exact inStep_wordAt? hpk hww hm hd hw
  · exact inStep_array he hm hd hb
  · exact inStep_braces hi hm hd hb

theorem inStep_item? {i : KeyPath × Toml} (hv : ValuesInStep P k s fuel)
    (hm : TokensMatch P k s ts ts') (hd : Distinct ts) (h : item? fuel ts = some (i, r)) :
    InStep (Missed k i.2 ∧ PassedOver k ts r) P
      (fun q => Table.ItemAlike P k (.string s) i q.1 ∧ TokensMatch P k s r q.2)
      (item? fuel ts') := by
  obtain ⟨u, hk, hi⟩ := item?_cases h
  have hl := (led_keyBefore? hk).trans (led_skipBlanks u)
  obtain ⟨hr, hw⟩ := (within_values fuel).1 _ _ _ hi
  refine (inStep_keyBefore? hm hd hk).bind ?_ ?_
  · -- The token at `k` is a part of the key.
    intro hpo
    have hsk := (led_skipBlanks u).suffix
    exact ⟨missed_of_past (hpo.past.of_suffix hsk) hw,
      hpo.mono (List.suffix_refl ts) (hr.trans hsk)⟩
  · rintro ⟨path', u'⟩ ⟨hpath, huu⟩
    refine (hv _ _ i.2 r (matches_skipBlanks huu) (hd.of_suffix hl.suffix) hi).map ?_ ?_
    · rintro ⟨hmv, hpo⟩
      exact ⟨hmv, hpo.mono hl.suffix (List.suffix_refl r)⟩
    · rintro ⟨v', r'⟩ ⟨hvv, hrr⟩
      exact ⟨⟨hpath, hvv⟩, hrr⟩

/-- **Parts are read in step** if the first one is, and the others. -/
theorem inStep_listed? {α : Type} {f : α → Toml} {R : α → α → Prop} {close : Char}
    {one one' : Option (α × Tokens)} {others : Tokens → Option (List α × Tokens)} {xs : List α}
    (hd : Distinct ts)
    (hin : ∀ x u, one = some (x, u) → u <:+ ts ∧ (f x).Within (ReadIn ts u))
    (hins : ∀ w ys u, others w = some (ys, u) → u <:+ w ∧ ∀ y ∈ ys, (f y).Within (ReadIn w u))
    (hone : ∀ x u, one = some (x, u) → InStep (Missed k (f x) ∧ PassedOver k ts u) P
      (fun q => R x q.1 ∧ TokensMatch P k s u q.2) one')
    (hothers : ListsInStep P k s f R others) (h : listed? close one others = some (xs, r)) :
    InStep ((∀ x ∈ xs, Missed k (f x)) ∧ PassedOver k ts r) P
      (fun q => List.Forall₂ R xs q.1 ∧ TokensMatch P k s r q.2) (listed? close one' others) := by
  obtain ⟨x, u, hx, h⟩ := listed?_cases h
  obtain ⟨hu, hxu⟩ := hin x u hx
  rcases h with ⟨ha, rfl⟩ | ⟨w, ys, ha, hy, rfl⟩
  · have hl : Led u r := led_after? (List.suffix_refl u) ha
    refine (hone x u hx).bind ?_ ?_
    · rintro ⟨hmx, hpo⟩
      refine ⟨fun y hy => ?_, hpo.mono (List.suffix_refl ts) hl.suffix⟩
      rw [List.mem_singleton.1 hy]
      exact hmx
    · rintro ⟨x', u'⟩ ⟨hxx, huu⟩
      obtain ⟨o, ho, hao⟩ := exists_of_rel (ha ▸ matches_after? close huu)
      rw [ho]
      cases hao with
      | done hr => exact .some ⟨.cons hxx .nil, hr⟩
  · have hl : Led u w := led_after? (List.suffix_refl u) ha
    obtain ⟨hr, hys⟩ := hins w ys r hy
    refine (hone x u hx).bind ?_ ?_
    · -- The other parts stand behind the token at `k`.
      rintro ⟨hmx, hpo⟩
      refine ⟨fun y hy => ?_, hpo.mono (List.suffix_refl ts) (hr.trans hl.suffix)⟩
      rcases List.mem_cons.1 hy with rfl | hy
      · exact hmx
      · exact missed_of_past (hpo.past.of_suffix hl.suffix) (hys y hy)
    · rintro ⟨x', u'⟩ ⟨hxx, huu⟩
      obtain ⟨o, ho, hao⟩ := exists_of_rel (ha ▸ matches_after? close huu)
      rw [ho]
      cases hao with
      | more hww =>
        have hlw := hl.suffix.trans hu
        refine (hothers w _ ys r hww (hd.of_suffix hlw) hy).map ?_ ?_
        · -- The first part stands before it.
          rintro ⟨hmw, hpo⟩
          refine ⟨fun y hy => ?_, hpo.mono hlw (List.suffix_refl r)⟩
          rcases List.mem_cons.1 hy with rfl | hy
          · exact missed_of_mem hd ((hl.suffix.map Prod.snd).subset hpo.mem) hxu
          · exact hmw y hy
        · rintro ⟨ys', r'⟩ ⟨hyy, hrr⟩
          exact ⟨.cons hxx hyy, hrr⟩

/-- **Values are read in step**, as are the elements and the items in them. -/
theorem inStep_values (hs : stringValue? .basic s = some s) (fuel : Nat) :
    ValuesInStep P k s fuel ∧ ElementsInStep P k s fuel ∧ ItemsInStep P k s fuel := by
  induction fuel with
  | zero =>
    refine ⟨?_, ?_, ?_⟩
    · intro ts ts' v r _ _ h
      rw [value?] at h
      cases h
    · intro ts ts' vs r _ _ h
      rw [elements?] at h
      cases h
    · intro ts ts' is r _ _ h
      rw [items?] at h
      cases h
  | succ fuel ih =>
    obtain ⟨ihv, ihe, ihi⟩ := ih
    obtain ⟨hv, he, hi⟩ := within_values fuel
    refine ⟨inStep_value?_succ hs ihe ihi, ?_, ?_⟩
    · intro ts ts' vs r hm hd h
      rw [elements?_succ] at h ⊢
      exact inStep_listed? hd (hv ts) he (fun v u hvu => ihv ts ts' v u hm hd hvu) ihe h
    · intro ts ts' is r hm hd h
      rw [items?_succ] at h ⊢
      exact inStep_listed? hd (fun i u hiu => within_item? hv hiu) hi
        (fun i u hiu => inStep_item? ihv hm hd hiu) ihi h

/-! ## §5. Statements. -/

/-- What a statement is read as, on both lists. -/
def StatementMatch (P : Prop) (k : Nat) (s : Text) (st : Statement) (r : Tokens)
    (q : Statement × Tokens) : Prop :=
  Table.StatementAlike P k (.string s) st q.1 ∧ TokensMatch P k s r q.2

/-- No scalar of the statement stands at the place `k`. -/
def Skips (k : Nat) (st : Statement) : Prop := st.Within (fun p _ => p ≠ k)

variable {st : Statement}

theorem skips_of_past (h : Past k ts) (hw : st.Within (ReadIn ts r)) : Skips k st := by
  cases st with
  | assignment path v => exact missed_of_past h hw
  | header path => trivial
  | doubledHeader path => trivial

theorem skips_of_mem (hd : Distinct ts) (h : k ∈ r.map Prod.snd) (hw : st.Within (ReadIn ts r)) :
    Skips k st := by
  cases st with
  | assignment path v => exact missed_of_mem hd h hw
  | header path => trivial
  | doubledHeader path => trivial

theorem inStep_header? (hm : TokensMatch P k s ts ts') (hd : Distinct ts)
    (h : header? ts = some (st, r)) :
    InStep (Skips k st ∧ PassedOver k ts r) P (StatementMatch P k s st r) (header? ts') := by
  have hmark := matches_behindMark? '[' hm
  rcases header?_cases h with ⟨path, u, hb, hk, hl, rfl⟩ | ⟨path, u, w, y, hu, hk, hy, hl, rfl⟩
  · rw [hb] at hmark
    rw [header?_single (none_of_rel hmark)]
    have hr := (led_behindLine? (List.suffix_refl u) hl).suffix
    refine (inStep_keyBefore? hm hd hk).bind ?_ ?_
    · intro hpo
      exact ⟨trivial, hpo.mono (List.suffix_refl ts) hr⟩
    · rintro ⟨path', u'⟩ ⟨hpath, huu⟩
      obtain ⟨r', hr', hrr⟩ := exists_of_rel (hl ▸ matches_behindLine? huu)
      rw [hr']
      exact .some ⟨.header hpath, hrr⟩
  · rw [hu] at hmark
    obtain ⟨u', hu', huu⟩ := exists_of_rel hmark
    rw [header?_doubled hu']
    have hus := (led_behindMark? (List.suffix_refl ts) hu).suffix
    have hyw := (led_behindMark? (List.suffix_refl w) hy).suffix
    have hr := (led_behindLine? (List.suffix_refl y) hl).suffix
    refine (inStep_keyBefore? huu (hd.of_suffix hus) hk).bind ?_ ?_
    · intro hpo
      exact ⟨trivial, hpo.mono hus (hr.trans hyw)⟩
    · rintro ⟨path', w'⟩ ⟨hpath, hww⟩
      obtain ⟨y', hy', hyy⟩ := exists_of_rel (hy ▸ matches_behindMark? ']' hww)
      obtain ⟨r', hr', hrr⟩ := exists_of_rel (hl ▸ matches_behindLine? hyy)
      rw [hy', Option.bind_some, hr']
      exact .some ⟨.doubledHeader hpath, hrr⟩

theorem inStep_assignment? (hs : stringValue? .basic s = some s) {fuel : Nat}
    (hm : TokensMatch P k s ts ts') (hd : Distinct ts) (h : assignment? fuel ts = some (st, r)) :
    InStep (Skips k st ∧ PassedOver k ts r) P (StatementMatch P k s st r)
      (assignment? fuel ts') := by
  obtain ⟨i, u, hi, hl, rfl⟩ := assignment?_cases h
  have hr := (led_behindLine? (List.suffix_refl u) hl).suffix
  rw [assignment?_eq]
  refine (inStep_item? (inStep_values hs fuel).1 hm hd hi).bind ?_ ?_
  · rintro ⟨hmv, hpo⟩
    exact ⟨hmv, hpo.mono (List.suffix_refl ts) hr⟩
  · rintro ⟨i', u'⟩ ⟨⟨hpath, hvv⟩, huu⟩
    obtain ⟨r', hr', hrr⟩ := exists_of_rel (hl ▸ matches_behindLine? huu)
    rw [hr']
    exact .some ⟨.assignment hpath hvv, hrr⟩

/-- One statement in step, and then the others. -/
theorem inStep_statement {fuel : Nat} {ss : List Statement} {o : Option (Statement × Tokens)}
    (hd : Distinct ts) (hr : r <:+ ts) (hw : st.Within (ReadIn ts r))
    (hst : InStep (Skips k st ∧ PassedOver k ts r) P (StatementMatch P k s st r) o)
    (hss : ∀ s ∈ ss, s.Within (ReadIn r []))
    (ih : ∀ r', TokensMatch P k s r r' →
      InStep (k ∈ r.map Prod.snd ∧ ∀ s ∈ ss, Skips k s) P
        (List.Forall₂ (Table.StatementAlike P k (.string s)) ss) (statements? fuel r')) :
    InStep (k ∈ ts.map Prod.snd ∧ ∀ s ∈ st :: ss, Skips k s) P
      (List.Forall₂ (Table.StatementAlike P k (.string s)) (st :: ss))
      (o.bind (fun a => (statements? fuel a.2).map (a.1 :: ·))) := by
  refine hst.bind ?_ ?_
  · -- This statement has passed over the token at `k`: the others lie behind it.
    rintro ⟨hskip, hpo⟩
    refine ⟨hpo.mem, fun s' hs' => ?_⟩
    rcases List.mem_cons.1 hs' with rfl | hs'
    · exact hskip
    · exact skips_of_past hpo.past (hss s' hs')
  · rintro ⟨st', r'⟩ ⟨hss', hrr⟩
    refine (ih r' hrr).map ?_ ?_
    · -- One of the others has: this one lies before it.
      rintro ⟨hmem, hskip⟩
      refine ⟨(hr.map Prod.snd).subset hmem, fun s' hs' => ?_⟩
      rcases List.mem_cons.1 hs' with rfl | hs'
      · exact skips_of_mem hd hmem hw
      · exact hskip s' hs'
    · exact fun ss' h => .cons hss' h

/-- **Statements are read in step.** -/
theorem inStep_statements? (hs : stringValue? .basic s = some s) {fuel : Nat}
    {ss : List Statement} (hm : TokensMatch P k s ts ts') (hd : Distinct ts)
    (h : statements? fuel ts = some ss) :
    InStep (k ∈ ts.map Prod.snd ∧ ∀ s ∈ ss, Skips k s) P
      (List.Forall₂ (Table.StatementAlike P k (.string s)) ss) (statements? fuel ts') := by
  induction fuel generalizing ts ts' ss with
  | zero =>
    rw [statements?] at h
    cases h
  | succ fuel ih =>
    have hb := matches_skipBlanks hm
    have hbs := (led_skipBlanks ts).suffix
    have widen : ∀ {u : Tokens} {ss : List Statement}, u <:+ skipBlanks ts →
        (k ∈ u.map Prod.snd ∧ ∀ s ∈ ss, Skips k s) →
        k ∈ ts.map Prod.snd ∧ ∀ s ∈ ss, Skips k s :=
      fun hu h => ⟨((hu.trans hbs).map Prod.snd).subset h.1, h.2⟩
    rcases statements?_cases h with ⟨hn, rfl⟩ | ⟨e, p, u, hn, h⟩ | ⟨c, p, u, hn, h⟩
      | ⟨p, u, st, r, ss, hn, hh, hr, rfl⟩ | ⟨t, p, u, st, r, ss, hn, ht, ha, hr, rfl⟩
    · -- No line is left.
      rw [hn] at hb
      have hn' := List.forall₂_nil_left_iff.1 hb
      rw [statements?, hn']
      exact .some .nil
    · rw [hn] at hb hbs widen
      obtain ⟨u', hn', hu⟩ := exists_of_matches_lineEnd hb
      rw [statements?, hn']
      exact (ih hu (hd.of_suffix ((List.suffix_cons _ u).trans hbs)) h).mono
        (widen (List.suffix_cons _ u))
    · -- A line that holds a comment only.
      rw [hn] at hb hbs widen
      obtain ⟨c', u', hn', hu⟩ := exists_of_matches_comment hb
      rw [statements?, hn']
      exact (ih hu (hd.of_suffix ((List.suffix_cons _ u).trans hbs)) h).mono
        (widen (List.suffix_cons _ u))
    · rw [hn] at hb hbs widen
      obtain ⟨u', hn', hu⟩ := exists_of_matches_mark hb
      rw [statements?_of_bracket hn']
      have hdu := hd.of_suffix ((List.suffix_cons _ u).trans hbs)
      obtain ⟨hl, hw⟩ := within_header? hh
      exact (inStep_statement hdu hl.suffix hw (inStep_header? hu hdu hh)
        (within_statements? hr) (fun r' hrr => ih hrr (hdu.of_suffix hl.suffix) hr)).mono
        (widen (List.suffix_cons _ u))
    · -- An assignment; even the string at `k` could begin a key.
      obtain ⟨t', p', u', hn', ht'⟩ : ∃ t' p' u', skipBlanks ts' = (t', p') :: u'
          ∧ t'.isOfKey = true := by
        rw [hn] at hb
        obtain ⟨b, u', hab, hu, hn'⟩ := List.forall₂_cons_left_iff.1 hb
        refine ⟨b.1, b.2, u', hn', ?_⟩
        by_cases hpk : p = k
        · cases hab with
          | value => rfl
          | other hne => exact absurd hpk hne
        · rw [← hab.isOfKey_eq hpk, ht]
      rw [statements?_of_isOfKey hn' ht']
      have hdb := hd.of_suffix hbs
      obtain ⟨hl, hw⟩ := within_assignment? ha
      exact (inStep_statement hdb hl.suffix hw (inStep_assignment? hs hb hdb ha)
        (within_statements? hr) (fun r' hrr => ih hrr (hdb.of_suffix hl.suffix) hr)).mono
        (widen (List.suffix_refl _))

/-! ## §6. Documents. -/

/-- **Two lists of tokens that match describe tables that are alike**, unless the first
table has no scalar at the place `k`. -/
theorem inStep_table? (hs : stringValue? .basic s = some s) {as bs : List Token}
    (hm : TokensMatch P k s as.zipIdx bs.zipIdx) {root : Table} (h : table? as = some root) :
    InStep (root.Within (fun p _ => p ≠ k)) P (Table.Alike P k (.string s) root) (table? bs) := by
  have hlen : as.length = bs.length := by
    have := hm.length_eq
    rwa [List.length_zipIdx, List.length_zipIdx] at this
  have hd : Distinct as.zipIdx := by
    unfold Distinct
    rw [List.zipIdx_map_snd]
    exact List.nodup_range'
  unfold table? at h ⊢
  obtain ⟨ss, hss, h⟩ := Option.bind_eq_some_iff.1 h
  rw [hlen] at hss
  refine (inStep_statements? hs hm hd hss).bind ?_ ?_
  · rintro ⟨-, hskip⟩
    exact Table.within_ofStatements? hskip h
  · intro ss' hss'
    exact (Table.follows_ofStatements? hss' h).inStep

end Repin.Toml
