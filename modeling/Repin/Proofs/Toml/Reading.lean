/-
  Repin.Proofs.Toml.Reading
  ─────────────────────────
  **WHICH TOKENS ARE READ AS VALUES.**

  The parser goes through the tokens from left to right.  A value begins behind a mark,
  with blanks or other space between them, and never behind a word or a string:

      value? fuel ts = some (v, r)  →  r is the end of ts, and every scalar of v is
                                       spelled before r by the token at its place .

  `Led ts u` says that the end `u` of `ts` begins behind a gap.
-/
import Repin.Proofs.Toml.Within
import Repin.Toml.Parser

namespace Repin.Toml

/-! ## §1. Behind a gap. -/

/-- A token between words and strings. -/
def Token.isGap : Token → Bool
  | .string _ _ => false
  | .word _ => false
  | _ => true

/-- The tokens `u` are the end of `ts` and begin behind a gap, unless they are all of
`ts` or none. -/
inductive Led : Tokens → Tokens → Prop
  | refl (ts : Tokens) : Led ts ts
  | behind (as : Tokens) (g : Token × Nat) (u : Tokens) : g.1.isGap = true → Led (as ++ g :: u) u
  | done (ts : Tokens) : Led ts []

variable {ts u r : Tokens} {c : Char}

theorem Led.suffix (h : Led ts u) : u <:+ ts := by
  cases h with
  | refl => exact List.suffix_refl ts
  | behind as g u _ => exact ⟨as ++ [g], by rw [List.append_assoc]; rfl⟩
  | done => exact List.nil_suffix

theorem Led.trans (h : Led ts u) (h' : Led u r) : Led ts r := by
  cases h' with
  | refl => exact h
  | done => exact .done ts
  | behind bs g' r hg' =>
    -- The last gap counts, wherever the first part ended.
    generalize hu : bs ++ g' :: r = u at h
    cases h with
    | refl =>
      rw [← hu]
      exact .behind bs g' r hg'
    | behind as g u _ =>
      have he : as ++ g :: u = (as ++ g :: bs) ++ g' :: r := by
        rw [← hu, List.append_assoc, List.cons_append]
      rw [he]
      exact .behind _ g' r hg'
    | done =>
      have hl := congrArg List.length hu
      rw [List.length_append, List.length_cons, List.length_nil] at hl
      omega

theorem led_dropWhile {p : Token × Nat → Bool} (hp : ∀ t, p t = true → t.1.isGap = true)
    (ts : Tokens) : Led ts (ts.dropWhile p) := by
  induction ts with
  | nil => exact .refl []
  | cons t ts ih =>
    rw [List.dropWhile_cons]
    split
    · next ht => exact Led.trans (.behind [] t ts (hp t ht)) ih
    · exact .refl _

theorem led_skipBlanks (ts : Tokens) : Led ts (skipBlanks ts) :=
  led_dropWhile (fun t h => by cases t with | mk t _ => cases t <;> first | rfl | cases h) ts

theorem led_skipSpaces (ts : Tokens) : Led ts (skipSpaces ts) :=
  led_dropWhile (fun t h => by cases t with | mk t _ => cases t <;> first | rfl | cases h) ts

theorem eq_cons_of_behindMark? (h : behindMark? c ts = some u) : ∃ p, ts = (.mark c, p) :: u := by
  unfold behindMark? at h
  split at h
  · next d p r =>
    split at h
    · next hc =>
      cases h
      exact ⟨p, by rw [hc]⟩
    · cases h
  · cases h

/-- What is left behind a mark begins behind a gap. -/
theorem led_behindMark? (hr : r <:+ ts) (h : behindMark? c r = some u) : Led ts u := by
  obtain ⟨p, rfl⟩ := eq_cons_of_behindMark? h
  obtain ⟨as, rfl⟩ := hr
  exact .behind as _ u rfl

theorem led_behindLine? (hr : r <:+ ts) (h : behindLine? r = some u) : Led ts u := by
  have hs := (led_skipBlanks r).suffix.trans hr
  unfold behindLine? at h
  split at h
  · cases h
    exact .done ts
  · next e p v hv =>
    cases h
    rw [hv] at hs
    obtain ⟨as, rfl⟩ := hs
    exact .behind as _ u rfl
  · cases h
    exact .done ts
  · next s p e p' v hv =>
    cases h
    rw [hv] at hs
    obtain ⟨as, rfl⟩ := hs
    have he : as ++ (Token.comment s, p) :: (Token.lineEnd e, p') :: u
        = (as ++ [(Token.comment s, p)]) ++ (Token.lineEnd e, p') :: u := by
      rw [List.append_assoc]
      rfl
    rw [he]
    exact .behind _ _ u rfl
  · cases h

/-! ## §2. Keys and words. -/

theorem key?_eq_some {path : KeyPath} (h : key? ts = some (path, r)) :
    (∃ parts, (ts.takeWhile (fun t => t.1.isOfKey)).mapM (fun t => keyParts? t.1) = some parts
      ∧ dottedNames? parts.flatten = some path) ∧ r = ts.dropWhile (fun t => t.1.isOfKey) := by
  unfold key? at h
  simp only [Option.bind_eq_bind, Option.bind_eq_some_iff] at h
  obtain ⟨parts, hp, path', hd, he⟩ := h
  cases he
  exact ⟨⟨parts, hp, hd⟩, rfl⟩

theorem suffix_of_key? {path : KeyPath} (h : key? ts = some (path, r)) : r <:+ ts := by
  rw [(key?_eq_some h).2]
  exact List.dropWhile_suffix _

/-- A dotted key with a mark behind it, and what is left behind the mark. -/
def keyBefore? (c : Char) (ts : Tokens) : Option (KeyPath × Tokens) :=
  (key? ts).bind (fun q => (behindMark? c q.2).map (fun u => (q.1, u)))

theorem bind_keyBefore? {α : Type} (c : Char) (ts : Tokens) (f : KeyPath × Tokens → Option α) :
    (keyBefore? c ts).bind f
      = (key? ts).bind (fun q => (behindMark? c q.2).bind (fun u => f (q.1, u))) := by
  unfold keyBefore?
  rw [Option.bind_assoc]
  simp only [Option.bind_map, Function.comp_def]

theorem keyBefore?_eq_some {path : KeyPath} (h : keyBefore? c ts = some (path, u)) :
    ∃ r, key? ts = some (path, r) ∧ behindMark? c r = some u := by
  obtain ⟨⟨path', r⟩, hk, h⟩ := Option.bind_eq_some_iff.1 h
  obtain ⟨u', hu, he⟩ := Option.map_eq_some_iff.1 h
  cases he
  exact ⟨r, hk, hu⟩

theorem led_keyBefore? {path : KeyPath} (h : keyBefore? c ts = some (path, u)) : Led ts u := by
  obtain ⟨r, hk, hm⟩ := keyBefore?_eq_some h
  exact led_behindMark? (suffix_of_key? hk) hm

/-- One space and a word follow. -/
def TimeFollows (ts : Tokens) : Prop :=
  ∃ q t q' r, ts = (.blank [' '], q) :: (.word t, q') :: r

theorem wordAt?_of_not {w : Text} (h : isDate w = true → ¬ TimeFollows ts) (p : Nat) :
    wordAt? p w ts = (wordValue? w).map (fun x => (.scalar p x, ts)) := by
  unfold wordAt?
  split
  · next q t q' r hd => exact absurd ⟨q, t, q', r, rfl⟩ (h hd)
  · rfl

theorem wordAt?_of_time {w : Text} (h : isDate w = true) (p q q' : Nat) (t : Text) (r : Tokens) :
    wordAt? p w ((.blank [' '], q) :: (.word t, q') :: r)
      = (wordValue? (w ++ ' ' :: t)).map (fun x => (.scalar p x, r)) := by
  unfold wordAt?
  rw [h]
  rfl

/-- **A word is read by itself, or a date with the time behind it.** -/
theorem wordAt?_cases {p : Nat} {w : Text} {v : Toml} (h : wordAt? p w ts = some (v, r)) :
    (∃ x, (isDate w = true → ¬ TimeFollows ts) ∧ v = .scalar p x ∧ wordValue? w = some x ∧ r = ts)
      ∨ ∃ x t q q', isDate w = true ∧ ts = (.blank [' '], q) :: (.word t, q') :: r
        ∧ v = .scalar p x ∧ wordValue? (w ++ ' ' :: t) = some x := by
  by_cases hd : isDate w = true → ¬ TimeFollows ts
  · -- By itself.
    rw [wordAt?_of_not hd] at h
    obtain ⟨x, hx, he⟩ := Option.map_eq_some_iff.1 h
    cases he
    exact .inl ⟨x, hd, rfl, hx, rfl⟩
  · obtain ⟨hw, q, t, q', u, rfl⟩ := Classical.not_imp.1 hd |>.imp_right Classical.not_not.1
    rw [wordAt?_of_time hw] at h
    obtain ⟨x, hx, he⟩ := Option.map_eq_some_iff.1 h
    cases he
    exact .inr ⟨x, t, q, q', hw, rfl, rfl, hx⟩

/-! ## §3. Values. -/

/-- The token at a place, before the tokens `u`, is read as the scalar `x`. -/
def Spells (u : Tokens) (place : Nat) : Token → Scalar → Prop
  | .string quote body, x => ∃ s, stringValue? quote body = some s ∧ x = .string s
  | .word w, x => ∃ r, wordAt? place w u = some (.scalar place x, r)
  | _, _ => False

/-- A token of `ts` before its end `r`, behind a gap, has the given place and is read as
the scalar `x`. -/
def ReadIn (ts r : Tokens) (place : Nat) (x : Scalar) : Prop :=
  ∃ t u, Led ts ((t, place) :: u) ∧ r <:+ u ∧ Spells u place t x

theorem ReadIn.mono {r' : Tokens} {p : Nat} {x : Scalar} (hl : Led ts u) (hr : r' <:+ r)
    (h : ReadIn u r p x) : ReadIn ts r' p x := by
  obtain ⟨t, w, hw, hrw, hs⟩ := h
  exact ⟨t, w, hl.trans hw, hr.trans hrw, hs⟩

theorem Within.of_led {v : Toml} {r' : Tokens} (hl : Led ts u) (hr : r' <:+ r)
    (hv : v.Within (ReadIn u r)) : v.Within (ReadIn ts r') :=
  hv.mono (fun _ _ h => h.mono hl hr)

/-- What stands behind a part of an array or of a table in braces: its end, or a further
part. -/
inductive After where
  | done (r : Tokens)
  | more (r : Tokens)

/-- What follows, by what is made of it in each case. -/
def After.fold {α : Type} (f g : Tokens → α) : After → α
  | .done r => f r
  | .more r => g r

/-- What stands behind a part, before or behind the closing mark. -/
def after? (close : Char) (r : Tokens) : Option After :=
  match behindMark? close (skipSpaces r) with
  | some u => some (.done u)
  | none =>
    match behindMark? ',' (skipSpaces r) with
    | none => none
    | some u =>
      match behindMark? close (skipSpaces u) with
      | some w => some (.done w)
      | none => some (.more (skipSpaces u))

/-- Parts up to a closing mark: one that is read, and the others behind it unless the mark
follows. -/
def listed? {α : Type} (close : Char) (one : Option (α × Tokens))
    (others : Tokens → Option (List α × Tokens)) : Option (List α × Tokens) :=
  one.bind (fun p => (after? close p.2).bind
    (After.fold (fun r => some ([p.1], r))
      (fun r => (others r).map (fun q => (p.1 :: q.1, q.2)))))

/-- A key with its value. -/
def item? (fuel : Nat) (ts : Tokens) : Option ((KeyPath × Toml) × Tokens) :=
  (keyBefore? '=' ts).bind (fun k =>
    (value? fuel (skipBlanks k.2)).map (fun p => ((k.1, p.1), p.2)))

/-- What is made of a part that ends, or of one that goes on, as the reader has it. -/
theorem bind_after? {α : Type} (close : Char) (r : Tokens) (f g : Tokens → Option α) :
    (after? close r).bind (After.fold f g)
      = (match behindMark? close (skipSpaces r) with
        | some u => f u
        | none => (behindMark? ',' (skipSpaces r)).bind (fun u =>
          match behindMark? close (skipSpaces u) with
          | some w => f w
          | none => g (skipSpaces u))) := by
  unfold after?
  cases behindMark? close (skipSpaces r) with
  | some u => rfl
  | none =>
    cases behindMark? ',' (skipSpaces r) with
    | none => rfl
    | some u =>
      simp only [Option.bind_some]
      cases behindMark? close (skipSpaces u) <;> rfl

theorem elements?_succ (fuel : Nat) (ts : Tokens) :
    elements? (fuel + 1) ts = listed? ']' (value? fuel ts) (elements? fuel) := by
  rw [elements?, listed?]
  simp only [bind_after?, Option.map_eq_bind]
  rfl

theorem items?_succ (fuel : Nat) (ts : Tokens) :
    items? (fuel + 1) ts = listed? '\x7d' (item? fuel ts) (items? fuel) := by
  rw [items?, listed?, item?]
  simp only [bind_keyBefore?, bind_after?, Option.map_eq_bind, Option.bind_assoc]
  rfl

theorem listed?_cases {α : Type} {close : Char} {one : Option (α × Tokens)}
    {others : Tokens → Option (List α × Tokens)} {xs : List α}
    (h : listed? close one others = some (xs, r)) :
    ∃ x u, one = some (x, u)
      ∧ ((after? close u = some (.done r) ∧ xs = [x])
        ∨ ∃ w ys, after? close u = some (.more w) ∧ others w = some (ys, r) ∧ xs = x :: ys) := by
  obtain ⟨⟨x, u⟩, hx, h⟩ := Option.bind_eq_some_iff.1 h
  obtain ⟨o, ho, h⟩ := Option.bind_eq_some_iff.1 h
  refine ⟨x, u, hx, ?_⟩
  cases o with
  | done r' =>
    cases h
    exact .inl ⟨ho, rfl⟩
  | more w =>
    obtain ⟨⟨ys, r'⟩, hy, he⟩ := Option.map_eq_some_iff.1 h
    cases he
    exact .inr ⟨w, ys, ho, hy, rfl⟩

theorem item?_cases {fuel : Nat} {i : KeyPath × Toml} (h : item? fuel ts = some (i, r)) :
    ∃ u, keyBefore? '=' ts = some (i.1, u) ∧ value? fuel (skipBlanks u) = some (i.2, r) := by
  obtain ⟨⟨path, u⟩, hk, h⟩ := Option.bind_eq_some_iff.1 h
  obtain ⟨⟨v, r'⟩, hv, he⟩ := Option.map_eq_some_iff.1 h
  cases he
  exact ⟨u, hk, hv⟩

/-- What follows a part begins behind a gap. -/
theorem led_after? {close : Char} {o : After} (hr : r <:+ ts) (h : after? close r = some o) :
    o.fold (Led ts) (Led ts) := by
  have hs := (led_skipSpaces r).suffix.trans hr
  unfold after? at h
  split at h
  · next u hu =>
    cases h
    exact led_behindMark? hs hu
  · split at h
    · cases h
    · next u hu =>
      have hl := (led_behindMark? hs hu).trans (led_skipSpaces u)
      split at h
      · next w hw =>
        cases h
        exact led_behindMark? hl.suffix hw
      · cases h
        exact hl

/-- A value: a string, a word, an array or a table in braces. -/
theorem value?_cases {fuel : Nat} {v : Toml} (h : value? (fuel + 1) ts = some (v, r)) :
    (∃ quote body p s, ts = (.string quote body, p) :: r ∧ stringValue? quote body = some s
        ∧ v = .scalar p (.string s))
      ∨ (∃ w p u, ts = (.word w, p) :: u ∧ wordAt? p w u = some (v, r))
      ∨ (∃ p u, ts = (.mark '[', p) :: u
        ∧ ((behindMark? ']' (skipSpaces u) = some r ∧ v = .array [])
          ∨ ∃ vs, behindMark? ']' (skipSpaces u) = none
            ∧ elements? fuel (skipSpaces u) = some (vs, r) ∧ v = .array vs))
      ∨ ∃ p u, ts = (.mark '\x7b', p) :: u
        ∧ ((behindMark? '\x7d' (skipSpaces u) = some r ∧ v = .table .closed [])
          ∨ ∃ is t, behindMark? '\x7d' (skipSpaces u) = none
            ∧ items? fuel (skipSpaces u) = some (is, r) ∧ Table.assignAll? is [] = some t
            ∧ v = .table .closed t) := by
  simp only [value?] at h
  split at h
  · next quote body p u =>
    obtain ⟨s, hs, he⟩ := Option.map_eq_some_iff.1 h
    cases he
    exact .inl ⟨quote, body, p, s, rfl, hs, rfl⟩
  · next w p u => exact .inr (.inl ⟨w, p, u, rfl, h⟩)
  · next p u =>
    refine .inr (.inr (.inl ⟨p, u, rfl, ?_⟩))
    split at h
    · next hm =>
      cases h
      exact .inl ⟨hm, rfl⟩
    · next hm =>
      obtain ⟨⟨vs, r₁⟩, hv, he⟩ := Option.map_eq_some_iff.1 h
      cases he
      exact .inr ⟨vs, hm, hv, rfl⟩
  · next p u =>
    refine .inr (.inr (.inr ⟨p, u, rfl, ?_⟩))
    split at h
    · next hm =>
      cases h
      exact .inl ⟨hm, rfl⟩
    · next hm =>
      simp only [Option.bind_eq_bind, Option.bind_eq_some_iff] at h
      obtain ⟨⟨is, r₁⟩, hi, t, ht, he⟩ := h
      cases he
      exact .inr ⟨is, t, hm, hi, ht, rfl⟩
  · cases h

/-- The scalar that a token at the head stands for is read there. -/
theorem within_of_spells {t : Token} {p : Nat} {x : Scalar} (hr : r <:+ u) (h : Spells u p t x) :
    Within (ReadIn ((t, p) :: u) r) (.scalar p x) :=
  .scalar ⟨t, u, .refl _, hr, h⟩

/-- What is read as a value lies at the beginning, and its scalars are spelled there. -/
def ValuesWithin (fuel : Nat) : Prop :=
  ∀ ts v r, value? fuel ts = some (v, r) → r <:+ ts ∧ v.Within (ReadIn ts r)

def ElementsWithin (fuel : Nat) : Prop :=
  ∀ ts vs r, elements? fuel ts = some (vs, r) → r <:+ ts ∧ ∀ v ∈ vs, v.Within (ReadIn ts r)

def ItemsWithin (fuel : Nat) : Prop :=
  ∀ ts is r, items? fuel ts = some (is, r) → r <:+ ts ∧ ∀ i ∈ is, i.2.Within (ReadIn ts r)

theorem within_value?_succ {fuel : Nat} (he : ElementsWithin fuel) (hi : ItemsWithin fuel) :
    ValuesWithin (fuel + 1) := by
  intro ts v r h
  rcases value?_cases h with ⟨quote, body, p, s, rfl, hs, rfl⟩ | ⟨w, p, u, rfl, hw⟩
    | ⟨p, u, rfl, hb⟩ | ⟨p, u, rfl, hb⟩
  · exact ⟨List.suffix_cons _ r, within_of_spells (List.suffix_refl r) ⟨s, hs, rfl⟩⟩
  · -- A word, or a date with a blank and a time behind it.
    rcases wordAt?_cases hw with ⟨x, -, rfl, -, rfl⟩ | ⟨x, t, q, q', -, rfl, rfl, -⟩
    · exact ⟨List.suffix_cons _ _, within_of_spells (List.suffix_refl _) ⟨_, hw⟩⟩
    · exact ⟨⟨[_, _, _], rfl⟩, within_of_spells ⟨[_, _], rfl⟩ ⟨_, hw⟩⟩
  · have hu : Led ((Token.mark '[', p) :: u) (skipSpaces u) :=
      Led.trans (.behind [] _ u rfl) (led_skipSpaces u)
    rcases hb with ⟨hm, rfl⟩ | ⟨vs, -, hv, rfl⟩
    · exact ⟨(led_behindMark? hu.suffix hm).suffix, .array (fun v hv => absurd hv List.not_mem_nil)⟩
    · obtain ⟨hr, hvs⟩ := he _ _ _ hv
      exact ⟨hr.trans hu.suffix,
        .array (fun v hv => Within.of_led hu (List.suffix_refl r) (hvs v hv))⟩
  · have hu : Led ((Token.mark '\x7b', p) :: u) (skipSpaces u) :=
      Led.trans (.behind [] _ u rfl) (led_skipSpaces u)
    rcases hb with ⟨hm, rfl⟩ | ⟨is, t, -, his, ht, rfl⟩
    · exact ⟨(led_behindMark? hu.suffix hm).suffix, .table (fun v hv => absurd hv List.not_mem_nil)⟩
    · obtain ⟨hr, his⟩ := hi _ _ _ his
      have hin := fun i hi => Within.of_led hu (List.suffix_refl r) (his i hi)
      exact ⟨hr.trans hu.suffix, .table (Table.within_nil.assignAll? hin ht)⟩

theorem within_item? {fuel : Nat} {i : KeyPath × Toml} (hv : ValuesWithin fuel)
    (h : item? fuel ts = some (i, r)) : r <:+ ts ∧ i.2.Within (ReadIn ts r) := by
  obtain ⟨u, hk, hi⟩ := item?_cases h
  have hl := (led_keyBefore? hk).trans (led_skipBlanks u)
  obtain ⟨hr, hw⟩ := hv _ _ _ hi
  exact ⟨hr.trans hl.suffix, Within.of_led hl (List.suffix_refl r) hw⟩

/-- Parts lie at the beginning if each of them does; `f` is the value of a part. -/
theorem within_listed? {α : Type} {f : α → Toml} {close : Char} {one : Option (α × Tokens)}
    {others : Tokens → Option (List α × Tokens)} {xs : List α}
    (hone : ∀ x u, one = some (x, u) → u <:+ ts ∧ (f x).Within (ReadIn ts u))
    (hothers : ∀ w ys u, others w = some (ys, u) →
      u <:+ w ∧ ∀ y ∈ ys, (f y).Within (ReadIn w u))
    (h : listed? close one others = some (xs, r)) :
    r <:+ ts ∧ ∀ x ∈ xs, (f x).Within (ReadIn ts r) := by
  obtain ⟨x, u, hx, h⟩ := listed?_cases h
  obtain ⟨hu, hxu⟩ := hone x u hx
  rcases h with ⟨ha, rfl⟩ | ⟨w, ys, ha, hy, rfl⟩
  · have hl : Led u r := led_after? (List.suffix_refl u) ha
    refine ⟨hl.suffix.trans hu, fun y hy => ?_⟩
    rw [List.mem_singleton.1 hy]
    exact Within.of_led (.refl ts) hl.suffix hxu
  · have hl : Led ts w := led_after? hu ha
    have hlu : Led u w := led_after? (List.suffix_refl u) ha
    obtain ⟨hr, hys⟩ := hothers w ys r hy
    refine ⟨hr.trans hl.suffix, fun y hy => ?_⟩
    rcases List.mem_cons.1 hy with rfl | hy
    · exact Within.of_led (.refl ts) (hr.trans hlu.suffix) hxu
    · exact Within.of_led hl (List.suffix_refl r) (hys y hy)

/-- **What is read lies at the beginning, and its scalars are spelled there.** -/
theorem within_values (fuel : Nat) :
    ValuesWithin fuel ∧ ElementsWithin fuel ∧ ItemsWithin fuel := by
  induction fuel with
  | zero =>
    refine ⟨?_, ?_, ?_⟩
    · intro ts v r h
      rw [value?] at h
      cases h
    · intro ts vs r h
      rw [elements?] at h
      cases h
    · intro ts is r h
      rw [items?] at h
      cases h
  | succ fuel ih =>
    obtain ⟨ihv, ihe, ihi⟩ := ih
    refine ⟨within_value?_succ ihe ihi, ?_, ?_⟩
    · intro ts vs r h
      rw [elements?_succ] at h
      exact within_listed? (f := fun v => v) (ihv ts) ihe h
    · intro ts is r h
      rw [items?_succ] at h
      exact within_listed? (f := Prod.snd) (fun i u hi => within_item? ihv hi) ihi h

/-! ## §4. Statements. -/

theorem header?_doubled (h : behindMark? '[' ts = some u) :
    header? ts = (keyBefore? ']' u).bind (fun q => (behindMark? ']' q.2).bind
      (fun w => (behindLine? w).map (fun r => (.doubledHeader q.1, r)))) := by
  unfold header?
  simp only [h, bind_keyBefore?, Option.map_eq_bind]
  rfl

theorem header?_single (h : behindMark? '[' ts = none) :
    header? ts = (keyBefore? ']' ts).bind (fun q =>
      (behindLine? q.2).map (fun r => (.header q.1, r))) := by
  unfold header?
  simp only [h, bind_keyBefore?, Option.map_eq_bind]
  rfl

theorem header?_cases {s : Statement} (h : header? ts = some (s, r)) :
    (∃ path u, behindMark? '[' ts = none ∧ keyBefore? ']' ts = some (path, u)
        ∧ behindLine? u = some r ∧ s = .header path)
      ∨ ∃ path u w y, behindMark? '[' ts = some u ∧ keyBefore? ']' u = some (path, w)
        ∧ behindMark? ']' w = some y ∧ behindLine? y = some r ∧ s = .doubledHeader path := by
  cases hu : behindMark? '[' ts with
  | some u =>
    rw [header?_doubled hu] at h
    obtain ⟨⟨path, w⟩, hk, h⟩ := Option.bind_eq_some_iff.1 h
    obtain ⟨y, hy, h⟩ := Option.bind_eq_some_iff.1 h
    obtain ⟨r', hr, he⟩ := Option.map_eq_some_iff.1 h
    cases he
    exact .inr ⟨path, u, w, y, rfl, hk, hy, hr, rfl⟩
  | none =>
    rw [header?_single hu] at h
    obtain ⟨⟨path, w⟩, hk, h⟩ := Option.bind_eq_some_iff.1 h
    obtain ⟨r', hr, he⟩ := Option.map_eq_some_iff.1 h
    cases he
    exact .inl ⟨path, w, rfl, hk, hr, rfl⟩

theorem assignment?_eq (fuel : Nat) (ts : Tokens) :
    assignment? fuel ts = (item? fuel ts).bind (fun q =>
      (behindLine? q.2).map (fun r => (.assignment q.1.1 q.1.2, r))) := by
  unfold assignment? item?
  simp only [bind_keyBefore?, Option.map_eq_bind, Option.bind_assoc]
  rfl

theorem assignment?_cases {fuel : Nat} {s : Statement} (h : assignment? fuel ts = some (s, r)) :
    ∃ i u, item? fuel ts = some (i, u) ∧ behindLine? u = some r ∧ s = .assignment i.1 i.2 := by
  rw [assignment?_eq] at h
  obtain ⟨⟨i, u⟩, hi, h⟩ := Option.bind_eq_some_iff.1 h
  obtain ⟨r', hr, he⟩ := Option.map_eq_some_iff.1 h
  cases he
  exact ⟨i, u, hi, hr, rfl⟩

theorem exists_isOfKey_of_key? {path : KeyPath} (h : key? ts = some (path, r)) :
    ∃ t p u, ts = (t, p) :: u ∧ t.isOfKey = true := by
  obtain ⟨⟨parts, hp, hd⟩, -⟩ := key?_eq_some h
  cases ts with
  | nil =>
    cases hp
    cases hd
  | cons t u =>
    cases ht : t.1.isOfKey with
    | true => exact ⟨t.1, t.2, u, rfl, ht⟩
    | false =>
      -- A key has one part at least.
      rw [List.takeWhile_cons_of_neg (by rw [ht]; exact Bool.false_ne_true)] at hp
      cases hp
      cases hd

theorem bind_statements? (fuel : Nat) (o : Option (Statement × Tokens)) :
    (do let (s, r) ← o; return s :: (← statements? fuel r))
      = o.bind (fun a => (statements? fuel a.2).map (a.1 :: ·)) := by
  cases o with
  | none => rfl
  | some a =>
    show (statements? fuel a.2).bind (fun ss => some (a.1 :: ss))
      = (statements? fuel a.2).map (a.1 :: ·)
    rw [Option.map_eq_bind]
    rfl

/-- A line that begins with a bracket is a header. -/
theorem statements?_of_bracket {fuel p : Nat} (hs : skipBlanks ts = (.mark '[', p) :: u) :
    statements? (fuel + 1) ts
      = (header? u).bind (fun a => (statements? fuel a.2).map (a.1 :: ·)) := by
  rw [statements?, hs, ← bind_statements?]
  rfl

/-- A line that begins with a part of a key is an assignment. -/
theorem statements?_of_isOfKey {fuel : Nat} {t : Token} {p : Nat} (hs : skipBlanks ts = (t, p) :: u)
    (ht : t.isOfKey = true) :
    statements? (fuel + 1) ts = (assignment? fuel (skipBlanks ts)).bind
      (fun a => (statements? fuel a.2).map (a.1 :: ·)) := by
  rw [statements?, hs, ← bind_statements?]
  cases t with
  | blank s => rfl
  | word s => rfl
  | string quote body => rfl
  | lineEnd e => cases ht
  | comment s => cases ht
  | mark c => cases ht

/-- The statements on the lines that are left: none, or those behind an empty line, a
header or an assignment. -/
theorem statements?_cases {fuel : Nat} {ss : List Statement}
    (h : statements? (fuel + 1) ts = some ss) :
    (skipBlanks ts = [] ∧ ss = [])
      ∨ (∃ e p u, skipBlanks ts = (.lineEnd e, p) :: u ∧ statements? fuel u = some ss)
      ∨ (∃ s p u, skipBlanks ts = (.comment s, p) :: u ∧ statements? fuel u = some ss)
      ∨ (∃ p u s r ss', skipBlanks ts = (.mark '[', p) :: u ∧ header? u = some (s, r)
        ∧ statements? fuel r = some ss' ∧ ss = s :: ss')
      ∨ ∃ t p u s r ss', skipBlanks ts = (t, p) :: u ∧ t.isOfKey = true
        ∧ assignment? fuel (skipBlanks ts) = some (s, r) ∧ statements? fuel r = some ss'
        ∧ ss = s :: ss' := by
  rw [statements?] at h
  split at h
  · next hs =>
    cases h
    exact .inl ⟨hs, rfl⟩
  · next e p u hs => exact .inr (.inl ⟨e, p, u, hs, h⟩)
  · next s p u hs => exact .inr (.inr (.inl ⟨s, p, u, hs, h⟩))
  · next p u hs =>
    simp only [Option.bind_eq_bind, Option.bind_eq_some_iff] at h
    obtain ⟨⟨s, r⟩, hh, ss', hss, he⟩ := h
    cases he
    exact .inr (.inr (.inr (.inl ⟨p, u, s, r, ss', hs, hh, hss, rfl⟩)))
  · simp only [Option.bind_eq_bind, Option.bind_eq_some_iff] at h
    obtain ⟨⟨s, r⟩, ha, ss', hss, he⟩ := h
    cases he
    obtain ⟨i, w, hi, -⟩ := assignment?_cases ha
    obtain ⟨u, hk, -⟩ := item?_cases hi
    obtain ⟨r₀, hk, -⟩ := keyBefore?_eq_some hk
    obtain ⟨t, p, u, hs, ht⟩ := exists_isOfKey_of_key? hk
    exact .inr (.inr (.inr (.inr ⟨t, p, u, s, r, ss', hs, ht, ha, hss, rfl⟩)))

/-- A statement begins behind the end of a line, and its scalars are spelled there. -/
theorem within_header? {s : Statement} (h : header? ts = some (s, r)) :
    Led ts r ∧ s.Within (ReadIn ts r) := by
  rcases header?_cases h with ⟨path, u, -, hk, hl, rfl⟩ | ⟨path, u, w, y, hu, hk, hy, hl, rfl⟩
  · exact ⟨led_behindLine? (led_keyBefore? hk).suffix hl, trivial⟩
  · have hw := (led_behindMark? (List.suffix_refl ts) hu).trans (led_keyBefore? hk)
    exact ⟨led_behindLine? (led_behindMark? hw.suffix hy).suffix hl, trivial⟩

theorem within_assignment? {fuel : Nat} {s : Statement} (h : assignment? fuel ts = some (s, r)) :
    Led ts r ∧ s.Within (ReadIn ts r) := by
  obtain ⟨i, u, hi, hl, rfl⟩ := assignment?_cases h
  obtain ⟨hu, hw⟩ := within_item? (within_values fuel).1 hi
  have hr := (led_behindLine? (List.suffix_refl u) hl).suffix
  exact ⟨led_behindLine? hu hl, Within.of_led (.refl ts) hr hw⟩

theorem Statement.Within.of_led {s : Statement} {r' : Tokens} (hl : Led ts u) (hr : r' <:+ r)
    (hs : s.Within (ReadIn u r)) : s.Within (ReadIn ts r') := by
  cases s with
  | header path => trivial
  | doubledHeader path => trivial
  | assignment path v => exact Toml.Within.of_led hl hr hs

theorem within_statements? {fuel : Nat} {ss : List Statement} (h : statements? fuel ts = some ss) :
    ∀ s ∈ ss, s.Within (ReadIn ts []) := by
  induction fuel generalizing ts ss with
  | zero =>
    rw [statements?] at h
    cases h
  | succ fuel ih =>
    have hb := led_skipBlanks ts
    have nil : ([] : Tokens) <:+ [] := List.suffix_refl []
    have behind : ∀ {t p u}, skipBlanks ts = (t, p) :: u → Token.isGap t = true → Led ts u := by
      intro t p u hu ht
      rw [hu] at hb
      exact hb.trans (.behind [] _ u ht)
    rcases statements?_cases h with ⟨-, rfl⟩ | ⟨e, p, u, hu, h⟩ | ⟨c, p, u, hu, h⟩
      | ⟨p, u, s, r, ss', hu, hh, hr, rfl⟩ | ⟨t, p, u, s, r, ss', -, -, ha, hr, rfl⟩
    · intro s hs
      cases hs
    · exact fun s hs => (ih h s hs).of_led (behind hu rfl) nil
    · exact fun s hs => (ih h s hs).of_led (behind hu rfl) nil
    · obtain ⟨hl, hw⟩ := within_header? hh
      have hu := behind hu rfl
      intro s' hs
      rcases List.mem_cons.1 hs with rfl | hs
      · exact hw.of_led hu List.nil_suffix
      · exact (ih hr s' hs).of_led (hu.trans hl) nil
    · obtain ⟨hl, hw⟩ := within_assignment? ha
      intro s' hs
      rcases List.mem_cons.1 hs with rfl | hs
      · exact hw.of_led hb List.nil_suffix
      · exact (ih hr s' hs).of_led (hb.trans hl) nil

/-- **Every scalar of a document is spelled by the token at its place, behind a gap.** -/
theorem within_table? {ts : List Token} {root : Table} (h : table? ts = some root) :
    root.Within (ReadIn ts.zipIdx []) := by
  unfold table? at h
  obtain ⟨ss, hs, h⟩ := Option.bind_eq_some_iff.1 h
  exact Table.within_ofStatements? (within_statements? hs) h

end Repin.Toml
