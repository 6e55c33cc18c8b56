/-
  Repin.Proofs.Toml.Keys
  ──────────────────────
  **KEYS IN WHICH VERSIONS ARE EXCHANGED.**

  A version that stands in a key shows in it: an unquoted name that is cut off at the
  first dot of the version ends in a digit, and a quoted name holds the dot.  No watched
  key has a digit or a dot in it.  So two keys that differ in exchanged versions agree up
  to a name that is not watched (`follows_keyParts?`, `follows_dottedNames?`).

  A date holds no dot, so exchanging versions neither makes dates nor unmakes them
  (`isDate_of_exchanged`).
-/
import Repin.Proofs.Text.Numeral
import Repin.Proofs.Toml.Alike
import Repin.Proofs.Toml.Tokens
import Repin.Toml.Parser

namespace Repin.Toml

/-! ## §1. Numbers and escapes hold no dots. -/

theorem dot_notMem_of_valueIn? {base n : Nat} {s : Text} (h : Text.valueIn? base s = some n) :
    '.' ∉ s :=
  Text.notMem_of_valueIn? h rfl

theorem dot_notMem_of_numbered? {width : Nat} {s : Text} {c : Char}
    (h : numbered? width s = some c) : '.' ∉ s := by
  unfold numbered? at h
  split at h
  · obtain ⟨n, hn, -⟩ := Option.bind_eq_some_iff.1 h
    exact dot_notMem_of_valueIn? hn
  · cases h

/-- Reading the escapes of a string on one line keeps its dots. -/
theorem dot_mem_of_unescaped? {skip : Nat} {body s : Text} (h : unescaped? false skip body = some s)
    (hd : '.' ∈ body.drop skip) : '.' ∈ s := by
  induction body generalizing skip s with
  | nil =>
    rw [List.drop_nil] at hd
    cases hd
  | cons c r ih =>
    -- A character that belongs to an escape already read is passed over.
    cases skip with
    | succ skip =>
      rw [unescaped?] at h
      exact ih h hd
    | zero =>
      rw [List.drop_zero] at hd
      by_cases hc : c = '\\'
      · subst hc
        have hr : '.' ∈ r := by
          rcases List.mem_cons.1 hd with hd | hd
          · cases hd
          · exact hd
        cases r with
        | nil => cases hr
        | cons e r' =>
          rw [unescaped?] at h
          have hr' : e ≠ '.' → '.' ∈ r' := fun he => by
            rcases List.mem_cons.1 hr with hd | hd
            · exact absurd hd.symm he
            · exact hd
          split at h
          · next width hw =>
            simp only [Option.bind_eq_bind, Option.bind_eq_some_iff] at h
            obtain ⟨x, hx, s', hs', he⟩ := h
            cases he
            -- An escape with a number: its digits are no dots, so the dot stands behind them.
            have hm : '.' ∈ r' := hr' (by rintro rfl; cases hw)
            rw [← List.take_append_drop width r'] at hm
            rcases List.mem_append.1 hm with hm | hm
            · exact absurd hm (dot_notMem_of_numbered? hx)
            · exact List.mem_cons_of_mem x (ih hs' hm)
          · split at h
            · next x hx =>
              -- An escape of one character, which is no dot either.
              obtain ⟨s', hs', rfl⟩ := Option.map_eq_some_iff.1 h
              exact List.mem_cons_of_mem x (ih hs' (hr' (by rintro rfl; cases hx)))
            · cases h
      · rw [unescaped?] at h
        · obtain ⟨s', hs', rfl⟩ := Option.map_eq_some_iff.1 h
          rcases List.mem_cons.1 hd with rfl | hd
          · exact List.mem_cons_self
          · exact List.mem_cons_of_mem c (ih hs' hd)
        · exact hc

/-! ## §2. Names that are not watched. -/

theorem notMem_watched_of_digit {name : Text} {c : Char} (hm : c ∈ name)
    (hc : Text.isDigit c = true ∨ c = '.') : name ∉ watched := by
  have hall : watched.all (fun w => w.all (fun d => !Text.isDigit d && d ≠ '.')) = true := by
    decide
  intro hw
  have h := List.all_eq_true.1 (List.all_eq_true.1 hall name hw) c hm
  rw [Bool.and_eq_true, Bool.not_eq_true', decide_eq_true_eq] at h
  rcases hc with hc | hc
  · rw [h.1] at hc
    cases hc
  · exact h.2 hc

/-- The parts of a key are the same, at least up to a name that is not watched. -/
inductive PartsAlike (P : Prop) : List KeyPart → List KeyPart → Prop
  | nil : PartsAlike P [] []
  | cons (part : KeyPart) {ps ps' : List KeyPart} : PartsAlike P ps ps' →
      PartsAlike P (part :: ps) (part :: ps')
  | foreign {a b : Text} (ps ps' : List KeyPart) : P → a ∉ watched → b ∉ watched →
      PartsAlike P (.name a :: ps) (.name b :: ps')

variable {P : Prop} {ps ps' qs qs' : List KeyPart}

theorem partsAlike_refl (ps : List KeyPart) : PartsAlike P ps ps := by
  induction ps with
  | nil => exact .nil
  | cons p ps ih => exact .cons p ih

theorem PartsAlike.append (h : PartsAlike P ps ps') (hq : PartsAlike P qs qs') :
    PartsAlike P (ps ++ qs) (ps' ++ qs') := by
  induction h with
  | nil => exact hq
  | cons part _ ih => exact .cons part ih
  | foreign ps ps' hP ha hb => exact .foreign _ _ hP ha hb

theorem exists_of_dottedNames? {a : Text} {path : KeyPath}
    (h : dottedNames? (.name a :: ps) = some path) : ∃ r, path = a :: r := by
  cases ps with
  | nil => exact ⟨[], (Option.some.inj h).symm⟩
  | cons p ps =>
    cases p with
    | name b => cases h
    | dot =>
      obtain ⟨r, -, rfl⟩ := Option.map_eq_some_iff.1 h
      exact ⟨r, rfl⟩

theorem follows_foreign {a b : Text} {path : KeyPath} (hP : P) (ha : a ∉ watched)
    (hb : b ∉ watched) (h : dottedNames? (.name a :: ps) = some path) :
    Follows P (PathAlike P) path (dottedNames? (.name b :: ps')) := by
  obtain ⟨r, rfl⟩ := exists_of_dottedNames? h
  cases ho : dottedNames? (.name b :: ps') with
  | none => exact .none hP
  | some path' =>
    obtain ⟨r', rfl⟩ := exists_of_dottedNames? ho
    exact .some (.foreign r r' hP ha hb)

/-- Parts that are alike make paths that are alike. -/
theorem follows_dottedNames? {path : KeyPath} (hp : PartsAlike P ps ps')
    (h : dottedNames? ps = some path) : Follows P (PathAlike P) path (dottedNames? ps') := by
  fun_induction dottedNames? ps generalizing ps' path with
  | case1 s =>
    cases h
    cases hp with
    | cons part hp =>
      cases hp
      exact .some (.cons s .nil)
    | foreign ps ps' hP ha hb =>
      have hs : dottedNames? [.name s] = some [s] := rfl
      exact follows_foreign hP ha hb hs
  | case2 s r ih =>
    cases hp with
    | cons part hp =>
      cases hp with
      | cons part hp =>
        obtain ⟨q, hq, rfl⟩ := Option.map_eq_some_iff.1 h
        exact (ih hp hq).map (fun _ hpp => .cons s hpp)
    | foreign ps ps' hP ha hb =>
      have hs : dottedNames? (.name s :: .dot :: r) = some path := h
      exact follows_foreign hP ha hb hs
  | case3 => cases h

/-! ## §3. Words of keys. -/

/-- The parts of a dotted word, given by what stands between its dots. -/
def partsOf (names : List Text) : List KeyPart :=
  [KeyPart.dot].intercalate (names.map (fun n => if n.isEmpty then [] else [.name n]))

theorem partsOf_cons {n : Text} {ns : List Text} (h : ns ≠ []) :
    partsOf (n :: ns) = (if n.isEmpty then [] else [.name n]) ++ .dot :: partsOf ns := by
  unfold partsOf
  rw [List.map_cons, List.intercalate_cons_of_ne_nil (fun he => h (List.map_eq_nil_iff.1 he)),
    List.append_assoc]
  rfl

theorem exists_partsOf_cons {n : Text} (h : n ≠ []) (ns : List Text) :
    ∃ ps, partsOf (n :: ns) = .name n :: ps := by
  have he : n.isEmpty = false := by
    cases n with
    | nil => exact absurd rfl h
    | cons => rfl
  by_cases hns : ns = []
  · subst hns
    refine ⟨[], ?_⟩
    unfold partsOf
    rw [List.map_cons, he]
    rfl
  · rw [partsOf_cons hns, he]
    exact ⟨_, rfl⟩

/-- Two words that run along up to the digits before a dot. -/
theorem partsAlike_of_digits (hP : P) {ds ds' : Text} (hne : ds ≠ []) (hne' : ds' ≠ [])
    (hd : ∀ c ∈ ds, Text.isDigit c = true) (hd' : ∀ c ∈ ds', Text.isDigit c = true) (z z' : Text)
    (n : Nat) (a : Text) (hn : a.length = n) :
    PartsAlike P (partsOf ((a ++ (ds ++ '.' :: z)).splitOn '.'))
      (partsOf ((a ++ (ds' ++ '.' :: z')).splitOn '.')) := by
  induction n using Nat.strongRecOn generalizing a with
  | ind n ih =>
    by_cases ha : '.' ∈ a
    · -- The words agree up to their first dot.
      obtain ⟨m, b, rfl, hm⟩ := List.eq_append_cons_of_mem ha
      have hlen : b.length < n := by
        rw [← hn, List.length_append, List.length_cons]
        omega
      have hb := ih b.length hlen b rfl
      rw [List.append_assoc, List.append_assoc, List.cons_append, List.cons_append,
        List.splitOn_append_cons_self_of_not_mem hm, List.splitOn_append_cons_self_of_not_mem hm,
        partsOf_cons (List.splitOn_ne_nil _ _), partsOf_cons (List.splitOn_ne_nil _ _)]
      exact (partsAlike_refl _).append (.cons .dot hb)
    · -- Without a dot before them, the digits end a name that is not watched.
      have name : ∀ e : Text, e ≠ [] → (∀ c ∈ e, Text.isDigit c = true) → ∀ y : Text,
          (∃ ps, partsOf ((a ++ (e ++ '.' :: y)).splitOn '.') = .name (a ++ e) :: ps)
            ∧ a ++ e ∉ watched := by
        intro e he hdig y
        have hdot : '.' ∉ a ++ e := by
          intro h
          rcases List.mem_append.1 h with h | h
          · exact ha h
          · exact absurd (hdig _ h) (by decide)
        rw [← List.append_assoc, List.splitOn_append_cons_self_of_not_mem hdot]
        obtain ⟨c, e, rfl⟩ := List.exists_cons_of_ne_nil he
        refine ⟨exists_partsOf_cons (by simp) _, ?_⟩
        exact notMem_watched_of_digit (List.mem_append_right a List.mem_cons_self)
          (.inl (hdig c List.mem_cons_self))
      obtain ⟨⟨ps, hps⟩, hw⟩ := name ds hne hd z
      obtain ⟨⟨ps', hps'⟩, hw'⟩ := name ds' hne' hd' z'
      rw [hps, hps']
      exact .foreign ps ps' hP hw hw'

theorem wordParts?_eq (s : Text) : wordParts? s
    = if (s.splitOn '.').flatten.all isBare then some (partsOf (s.splitOn '.')) else none := rfl

theorem follows_wordParts? {s s' : Text} (h : Text.Exchanged P [] [] s s')
    (hs : wordParts? s = some ps) : Follows P (PartsAlike P) ps (wordParts? s') := by
  rcases h.eq_or_exists with rfl | ⟨hP, a, v, w, x, y, rfl, rfl, hv, hw⟩
  · rw [hs]
    exact .some (partsAlike_refl ps)
  · rw [wordParts?_eq] at hs ⊢
    split at hs
    · cases hs
      split
      · obtain ⟨ds, z, rfl, hne, hd⟩ := hv.begins
        obtain ⟨ds', z', rfl, hne', hd'⟩ := hw.begins
        rw [List.append_assoc, List.append_assoc, List.cons_append, List.cons_append]
        exact .some (partsAlike_of_digits hP hne hne' hd hd' _ _ _ a rfl)
      · exact .none hP
    · cases hs

/-! ## §4. Tokens of keys. -/

/-- The parts that a token holds are exchanged for parts that are alike. -/
theorem follows_keyParts? {t t' : Token} (ht : t.isOfKey = true) (h : Token.Exchanged P t t')
    (hp : keyParts? t = some ps) : Follows P (PartsAlike P) ps (keyParts? t') := by
  -- Blanks and words that stay hold the same parts; comments hold none.
  cases h with
  | same =>
    rw [hp]
    exact .some (partsAlike_refl ps)
  | comment => cases ht
  | word h => exact follows_wordParts? h hp
  | @string quote a b h =>
    rcases h.eq_or_exists with rfl | ⟨hP, -⟩
    · rw [hp]
      exact .some (partsAlike_refl ps)
    · obtain ⟨s, hs, rfl⟩ := Option.map_eq_some_iff.1 hp
      -- Both strings hold a dot, unless they are the same.
      have foreign : ∀ {body s : Text}, stringValue? quote body = some s → '.' ∈ body →
          s ∉ watched := by
        intro body s hs hd
        refine notMem_watched_of_digit ?_ (.inr rfl)
        cases quote with
        | basic => exact dot_mem_of_unescaped? hs hd
        | literal =>
          cases hs
          exact hd
        | basicBlock => cases ht
        | literalBlock => cases ht
      show Follows P (PartsAlike P) [.name s] ((stringValue? quote b).map (fun s => [.name s]))
      rcases h.eq_or_dot_mem with rfl | ⟨ha, hb⟩
      · rw [hs]
        exact .some (partsAlike_refl _)
      · -- Neither name is watched, but the second string may have no value.
        cases hs' : stringValue? quote b with
        | none => exact .none hP
        | some s' => exact .some (.foreign [] [] hP (foreign hs ha) (foreign hs' hb))

theorem follows_mapM_keyParts? {as bs : List (Token × Nat)}
    (h : List.Forall₂ (fun a b => Token.Exchanged P a.1 b.1) as bs)
    (ha : ∀ a ∈ as, a.1.isOfKey = true) {parts : List (List KeyPart)}
    (hp : as.mapM (fun t => keyParts? t.1) = some parts) :
    Follows P (fun x y => PartsAlike P x.flatten y.flatten) parts
      (bs.mapM (fun t => keyParts? t.1)) := by
  induction h generalizing parts with
  | nil =>
    cases hp
    exact .some .nil
  | @cons a b as bs hab _ ih =>
    rw [List.mapM_cons] at hp ⊢
    simp only [Option.bind_eq_bind, Option.bind_eq_some_iff] at hp
    obtain ⟨ps, hps, qs, hqs, he⟩ := hp
    cases he
    refine (follows_keyParts? (ha a List.mem_cons_self) hab hps).bind (fun ps' hpp => ?_)
    refine (ih (fun c hc => ha c (List.mem_cons_of_mem a hc)) hqs).bind (fun qs' hqq => ?_)
    exact .some (hpp.append hqq)

/-! ## §5. Dates. -/

theorem dot_notMem_of_twoDigits? {s r : Text} {n : Nat} (h : twoDigits? s = some (n, r)) :
    ∃ a b, s = a :: b :: r ∧ '.' ∉ [a, b] := by
  unfold twoDigits? at h
  split at h
  · next a b r' =>
    obtain ⟨m, hm, he⟩ := Option.map_eq_some_iff.1 h
    cases he
    exact ⟨a, b, rfl, dot_notMem_of_valueIn? hm⟩
  · cases h

theorem dot_notMem_of_date? {s : Text} {d : Date} (h : date? s = some (d, [])) : '.' ∉ s := by
  unfold date? at h
  simp only [Option.bind_eq_bind, Option.bind_eq_some_iff] at h
  obtain ⟨y, -, u, hu, ⟨m, r⟩, hm, v, hv, ⟨n, r'⟩, hn, h⟩ := h
  split at h
  · cases h
    obtain ⟨a, b, rfl, hab⟩ := dot_notMem_of_twoDigits? hm
    obtain ⟨a', b', rfl, hab'⟩ := dot_notMem_of_twoDigits? hn
    rw [Text.behind?_eq_some_iff] at hu hv
    obtain rfl := hv
    -- The whole text is the year, two dashes and two numbers of two digits.
    rw [← List.takeWhile_append_dropWhile (p := Text.isDigit) (l := s), hu]
    intro hd
    rcases List.mem_append.1 hd with hd | hd
    · exact absurd (List.all_eq_true.1 List.all_takeWhile _ hd) (by decide)
    · simp only [List.cons_append, List.nil_append, List.mem_cons, List.not_mem_nil, or_false,
        not_or] at hd hab hab'
      rcases hd with hd | hd | hd | hd | hd | hd
      · cases hd
      · exact hab.1 hd
      · exact hab.2 hd
      · cases hd
      · exact hab'.1 hd
      · exact hab'.2 hd
  · cases h

/-- **A word that is exchanged is no date, before and after.** -/
theorem isDate_of_exchanged {s s' : Text} (h : Text.Exchanged P [] [] s s') :
    s = s' ∨ P ∧ isDate s = false ∧ isDate s' = false := by
  have dotted : ∀ s : Text, '.' ∈ s → isDate s = false := by
    intro s hd
    unfold isDate
    cases ho : date? s with
    | none => rfl
    | some p =>
      obtain ⟨d, r⟩ := p
      cases r with
      | nil => exact absurd hd (dot_notMem_of_date? ho)
      | cons c r => rfl
  rcases h.eq_or_exists with rfl | ⟨hP, -⟩
  · exact .inl rfl
  · rcases h.eq_or_dot_mem with rfl | ⟨ha, hb⟩
    · exact .inl rfl
    · exact .inr ⟨hP, dotted s ha, dotted s' hb⟩

end Repin.Toml
