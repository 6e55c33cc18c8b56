/-
  Repin.Proofs.Toml.Places
  ────────────────────────
  **EACH TOKEN SPELLS ONE SCALAR AT MOST.**

  `v.countAt k` is how many scalars of a value have the place `k`.  Building moves values
  and copies none, and the parser reads each token once:

    • `countUnder_ofStatements?` — a table has no more scalars at a place than the
      statements that it is built from,
    • `count_values` — a value has no more scalars at a place than the tokens that it is
      read from,
    • `countUnder_table?` — so a document has at most one scalar at each place.
-/
import Mathlib.Data.List.Nodup
import Repin.Proofs.Toml.Alike
import Repin.Proofs.Toml.Reading

namespace Repin.Toml

/-! ## §1. Counting. -/

mutual

/-- How many scalars of a value have the place `k`. -/
def countAt (k : Nat) : Toml → Nat
  | .scalar p _ => if p = k then 1 else 0
  | .array vs => countIn k vs
  | .table _ t => countUnder k t
  | .tables ts => countThrough k ts

/-- How many scalars of the elements have the place `k`. -/
def countIn (k : Nat) : List Toml → Nat
  | [] => 0
  | v :: vs => countAt k v + countIn k vs

/-- How many scalars of the entries have the place `k`. -/
def countUnder (k : Nat) : List (Text × Toml) → Nat
  | [] => 0
  | (_, v) :: t => countAt k v + countUnder k t

/-- How many scalars of the tables have the place `k`. -/
def countThrough (k : Nat) : List (List (Text × Toml)) → Nat
  | [] => 0
  | t :: ts => countUnder k t + countThrough k ts

end

variable {k n : Nat}

/-- The scalars of a value that may be absent. -/
def countOf (k : Nat) (o : Option Toml) : Nat := o.elim 0 (countAt k)

theorem countThrough_append (k : Nat) (ts us : List Table) :
    countThrough k (ts ++ us) = countThrough k ts + countThrough k us := by
  induction ts with
  | nil => simp [countThrough]
  | cons t ts ih =>
    rw [List.cons_append, countThrough, countThrough, ih]
    omega

namespace Table

variable {t u : Table} {v w : Toml} {items : List (KeyPath × Toml)} {ss : List Statement}

/-! ## §2. Building. -/

/-- **Setting a key takes its old value out and puts the new one in.** -/
theorem countUnder_put (k : Nat) (key : Text) (v : Toml) (t : Table) :
    countUnder k (put key v t) + countOf k (get? key t) = countUnder k t + countAt k v := by
  induction t with
  | nil =>
    show countAt k v + 0 + 0 = 0 + countAt k v
    omega
  | cons e t ih =>
    obtain ⟨name, x⟩ := e
    rw [put, get?_cons]
    by_cases he : name = key
    · rw [if_pos he, if_pos he]
      show countAt k v + countUnder k t + countAt k x = countAt k x + countUnder k t + countAt k v
      omega
    · rw [if_neg he, if_neg he]
      show countAt k x + countUnder k (put key v t) + _ = countAt k x + countUnder k t + _
      omega

/-- A change of one key adds no more scalars to the table than to the value. -/
theorem countUnder_alter? {key : Text} {f : Option Toml → Option Toml}
    (hf : ∀ o w, f o = some w → countAt k w ≤ countOf k o + n) (h : t.alter? key f = some u) :
    countUnder k u ≤ countUnder k t + n := by
  rw [alter?_eq] at h
  obtain ⟨w, hw, rfl⟩ := Option.map_eq_some_iff.1 h
  have hput := countUnder_put k key w t
  have hle := hf _ w hw
  omega

theorem countAt_fresh? {o : Option Toml} (h : fresh? v o = some w) :
    countAt k w ≤ countOf k o + countAt k v := by
  cases o with
  | none =>
    cases h
    omega
  | some x => cases h

theorem countAt_dotted? {g : Table → Option Table} {o : Option Toml}
    (hg : ∀ t u, g t = some u → countUnder k u ≤ countUnder k t + n) (h : dotted? g o = some w) :
    countAt k w ≤ countOf k o + n := by
  unfold dotted? at h
  split at h
  · obtain ⟨s, hs, rfl⟩ := Option.map_eq_some_iff.1 h
    exact hg _ _ hs
  · obtain ⟨s, hs, rfl⟩ := Option.map_eq_some_iff.1 h
    exact hg _ _ hs
  · cases h

theorem countUnder_assign? {path : KeyPath} (h : assign? v path t = some u) :
    countUnder k u ≤ countUnder k t + countAt k v := by
  induction path generalizing t u with
  | nil => cases h
  | cons key path ih =>
    rw [assign?_cons] at h
    apply countUnder_alter? _ h
    intro o w hw
    split at hw
    · exact countAt_fresh? hw
    · exact countAt_dotted? (fun _ _ => ih) hw

/-- The scalars at the place `k` that are assigned. -/
def countItems (k : Nat) : List (KeyPath × Toml) → Nat
  | [] => 0
  | i :: items => countAt k i.2 + countItems k items

theorem countUnder_assignAll? (h : assignAll? items t = some u) :
    countUnder k u ≤ countUnder k t + countItems k items := by
  induction items generalizing t with
  | nil =>
    cases h
    exact Nat.le_add_right _ _
  | cons i items ih =>
    obtain ⟨s, hs, h⟩ := Option.bind_eq_some_iff.1 h
    have hone := countUnder_assign? (k := k) hs
    have hrest := ih h
    show countUnder k u ≤ countUnder k t + (countAt k i.2 + countItems k items)
    omega

theorem countAt_passed? {g : Table → Option Table} {o : Option Toml}
    (hg : ∀ t u, g t = some u → countUnder k u ≤ countUnder k t + n) (h : passed? g o = some w) :
    countAt k w ≤ countOf k o + n := by
  unfold passed? at h
  split at h
  · obtain ⟨s, hs, rfl⟩ := Option.map_eq_some_iff.1 h
    exact hg _ _ hs
  · cases h
  · obtain ⟨s, hs, rfl⟩ := Option.map_eq_some_iff.1 h
    exact hg _ _ hs
  · next ts =>
    split at h
    · next sub hsub =>
      obtain ⟨s, hs, rfl⟩ := Option.map_eq_some_iff.1 h
      -- Only the last table of the array changes.
      obtain ⟨as, rfl⟩ := List.getLast?_eq_some_iff.1 hsub
      have hle := hg _ _ hs
      show countThrough k _ ≤ countThrough k _ + n
      rw [List.dropLast_concat, countThrough_append, countThrough_append]
      simp only [countThrough]
      omega
    · cases h
  · cases h

theorem countUnder_alterAt? {f : Option Toml → Option Toml} {path : KeyPath}
    (hf : ∀ o w, f o = some w → countAt k w ≤ countOf k o + n) (h : alterAt? f path t = some u) :
    countUnder k u ≤ countUnder k t + n := by
  induction path generalizing t u with
  | nil => cases h
  | cons key path ih =>
    rw [alterAt?_cons] at h
    apply countUnder_alter? _ h
    intro o w hw
    split at hw
    · exact hf o w hw
    · exact countAt_passed? (fun _ _ => ih) hw

theorem countAt_opened? {o : Option Toml} (h : opened? items o = some w) :
    countAt k w ≤ countOf k o + countItems k items := by
  unfold opened? at h
  split at h
  · obtain ⟨s, hs, rfl⟩ := Option.map_eq_some_iff.1 h
    exact countUnder_assignAll? hs
  · obtain ⟨s, hs, rfl⟩ := Option.map_eq_some_iff.1 h
    exact countUnder_assignAll? hs
  · cases h

theorem countAt_extended? {o : Option Toml} (h : extended? items o = some w) :
    countAt k w ≤ countOf k o + countItems k items := by
  unfold extended? at h
  split at h
  · obtain ⟨s, hs, rfl⟩ := Option.map_eq_some_iff.1 h
    exact countUnder_assignAll? hs
  · next ts =>
    obtain ⟨s, hs, rfl⟩ := Option.map_eq_some_iff.1 h
    have hle := countUnder_assignAll? (k := k) hs
    show countThrough k _ ≤ countThrough k ts + _
    rw [countThrough_append]
    simp only [countThrough, countUnder] at hle ⊢
    omega
  · cases h

/-- The scalars at the place `k` that statements assign. -/
def countStatements (k : Nat) : List Statement → Nat
  | [] => 0
  | .assignment _ v :: ss => countAt k v + countStatements k ss
  | _ :: ss => countStatements k ss

theorem countStatements_sectionOf (k : Nat) (ss : List Statement) :
    countItems k (sectionOf ss).1 + countStatements k (sectionOf ss).2 = countStatements k ss := by
  induction ss with
  | nil => rfl
  | cons s ss ih =>
    cases s with
    | header path => exact Nat.zero_add _
    | doubledHeader path => exact Nat.zero_add _
    | assignment path v =>
      show countAt k v + countItems k (sectionOf ss).1 + countStatements k (sectionOf ss).2
        = countAt k v + countStatements k ss
      omega

/-- Sections add what stands behind their first header. -/
theorem countUnder_sections? (h : sections? ss t = some u) :
    countUnder k u ≤ countUnder k t + countStatements k (sectionOf ss).2 := by
  induction ss generalizing t with
  | nil =>
    cases h
    exact Nat.le_add_right _ _
  | cons s ss ih =>
    have hsum := countStatements_sectionOf k ss
    cases s with
    | assignment path v => exact ih h
    | header path =>
      obtain ⟨w, hw, h⟩ := Option.bind_eq_some_iff.1 h
      have hone := countUnder_alterAt? (k := k) (fun _ _ => countAt_opened?) hw
      have hrest := ih h
      show countUnder k u ≤ countUnder k t + countStatements k ss
      omega
    | doubledHeader path =>
      obtain ⟨w, hw, h⟩ := Option.bind_eq_some_iff.1 h
      have hone := countUnder_alterAt? (k := k) (fun _ _ => countAt_extended?) hw
      have hrest := ih h
      show countUnder k u ≤ countUnder k t + countStatements k ss
      omega

/-- **A table has no more scalars at a place than its statements.** -/
theorem countUnder_ofStatements? (h : ofStatements? ss = some u) :
    countUnder k u ≤ countStatements k ss := by
  obtain ⟨t, ht, h⟩ := Option.bind_eq_some_iff.1 h
  have hfirst := countUnder_assignAll? (k := k) ht
  have hrest := countUnder_sections? (k := k) h
  have hsum := countStatements_sectionOf k ss
  have hlater := countStatements_sectionOf k (sectionOf ss).2
  simp only [countUnder] at hfirst
  omega

end Table

/-! ## §3. Reading. -/

/-- How many tokens have the place `k`. -/
def places (k : Nat) (ts : Tokens) : Nat := (ts.map Prod.snd).count k

variable {ts u r : Tokens}

theorem places_cons (k : Nat) (t : Token × Nat) (ts : Tokens) :
    places k (t :: ts) = places k ts + if t.2 = k then 1 else 0 := by
  unfold places
  rw [List.map_cons, List.count_cons]
  simp only [beq_iff_eq]

theorem places_le (k : Nat) (h : u <:+ ts) : places k u ≤ places k ts :=
  (h.sublist.map Prod.snd).count_le k

theorem countAt_wordAt? {p : Nat} {w : Text} {v : Toml} (h : wordAt? p w u = some (v, r)) :
    countAt k v + places k r ≤ places k ((.word w, p) :: u) := by
  rw [places_cons]
  rcases wordAt?_cases h with ⟨x, -, rfl, -, rfl⟩ | ⟨x, t, q, q', -, rfl, rfl, -⟩
  · simp only [countAt]
    omega
  · have hle := places_le k (List.suffix_append [(Token.blank [' '], q), (Token.word t, q')] r)
    simp only [countAt, List.cons_append, List.nil_append] at hle ⊢
    omega

/-- What is read as a value has no more scalars at a place than the tokens read. -/
def ValuesCounted (k fuel : Nat) : Prop :=
  ∀ ts v r, value? fuel ts = some (v, r) → countAt k v + places k r ≤ places k ts

def ElementsCounted (k fuel : Nat) : Prop :=
  ∀ ts vs r, elements? fuel ts = some (vs, r) → countIn k vs + places k r ≤ places k ts

def ItemsCounted (k fuel : Nat) : Prop :=
  ∀ ts is r, items? fuel ts = some (is, r) → Table.countItems k is + places k r ≤ places k ts

theorem count_value?_succ {fuel : Nat} (he : ElementsCounted k fuel) (hi : ItemsCounted k fuel) :
    ValuesCounted k (fuel + 1) := by
  intro ts v r h
  rcases value?_cases h with ⟨quote, body, p, s, rfl, hs, rfl⟩ | ⟨w, p, u, rfl, hw⟩
    | ⟨p, u, rfl, hb⟩ | ⟨p, u, rfl, hb⟩
  · rw [places_cons]
    simp only [countAt]
    omega
  · exact countAt_wordAt? hw
  · have hu := places_le k (((led_skipSpaces u).suffix).trans (List.suffix_cons (Token.mark '[', p) u))
    rcases hb with ⟨hm, rfl⟩ | ⟨vs, -, hv, rfl⟩
    · have hr := places_le k (led_behindMark? (List.suffix_refl _) hm).suffix
      simp only [countAt, countIn]
      omega
    · have hle := he _ _ _ hv
      simp only [countAt]
      omega
  · have hu := places_le k
      (((led_skipSpaces u).suffix).trans (List.suffix_cons (Token.mark '\x7b', p) u))
    rcases hb with ⟨hm, rfl⟩ | ⟨is, t, -, his, ht, rfl⟩
    · have hr := places_le k (led_behindMark? (List.suffix_refl _) hm).suffix
      simp only [countAt, countUnder]
      omega
    · have hle := hi _ _ _ his
      have ht' := Table.countUnder_assignAll? (k := k) ht
      simp only [countAt, countUnder] at ht' ⊢
      omega

theorem count_item? {fuel : Nat} {i : KeyPath × Toml} (hv : ValuesCounted k fuel)
    (h : item? fuel ts = some (i, r)) : countAt k i.2 + places k r ≤ places k ts := by
  obtain ⟨u, hk, hi⟩ := item?_cases h
  have hl := places_le k ((led_keyBefore? hk).trans (led_skipBlanks u)).suffix
  have hle := hv _ _ _ hi
  omega

/-- Parts are counted if each of them is; `f` counts one part and `g` all. -/
theorem count_listed? {α : Type} {f : α → Nat} {g : List α → Nat} {close : Char}
    {one : Option (α × Tokens)} {others : Tokens → Option (List α × Tokens)} {xs : List α}
    (hnil : g [] = 0) (hcons : ∀ x xs, g (x :: xs) = f x + g xs)
    (hone : ∀ x u, one = some (x, u) → f x + places k u ≤ places k ts)
    (hothers : ∀ w ys u, others w = some (ys, u) → g ys + places k u ≤ places k w)
    (h : listed? close one others = some (xs, r)) : g xs + places k r ≤ places k ts := by
  obtain ⟨x, u, hx, h⟩ := listed?_cases h
  have hfirst := hone x u hx
  rcases h with ⟨ha, rfl⟩ | ⟨w, ys, ha, hy, rfl⟩
  · have hl : Led u r := led_after? (List.suffix_refl u) ha
    have hr := places_le k hl.suffix
    rw [hcons, hnil]
    omega
  · have hl : Led u w := led_after? (List.suffix_refl u) ha
    have hw := places_le k hl.suffix
    have hrest := hothers w ys r hy
    rw [hcons]
    omega

/-- **What is read has no more scalars at a place than the tokens read.** -/
theorem count_values (k fuel : Nat) :
    ValuesCounted k fuel ∧ ElementsCounted k fuel ∧ ItemsCounted k fuel := by
  induction fuel with
  | zero =>
    refine ⟨?_, ?_, ?_⟩
    · intro ts v r h
      rw [value?] at h
      cases h
    · intro ts vs r h
      rw [elements?] at h
      cases h
    · intro ts is r h
      rw [items?] at h
      cases h
  | succ fuel ih =>
    obtain ⟨ihv, ihe, ihi⟩ := ih
    refine ⟨count_value?_succ ihe ihi, ?_, ?_⟩
    · intro ts vs r h
      rw [elements?_succ] at h
      exact count_listed? (by rw [countIn]) (fun x xs => by rw [countIn]) (ihv ts) ihe h
    · intro ts is r h
      rw [items?_succ] at h
      exact count_listed? rfl (fun x xs => rfl) (fun i u hi => count_item? ihv hi) ihi h

/-! ## §4. Documents. -/

theorem count_statements? {fuel : Nat} {ss : List Statement} (h : statements? fuel ts = some ss) :
    Table.countStatements k ss ≤ places k ts := by
  induction fuel generalizing ts ss with
  | zero =>
    rw [statements?] at h
    cases h
  | succ fuel ih =>
    have hb := (led_skipBlanks ts).suffix
    have behind : ∀ {t p u}, skipBlanks ts = (t, p) :: u → places k u ≤ places k ts := by
      intro t p u hu
      rw [hu] at hb
      exact places_le k ((List.suffix_cons _ u).trans hb)
    rcases statements?_cases h with ⟨-, rfl⟩ | ⟨e, p, u, hu, h⟩ | ⟨c, p, u, hu, h⟩
      | ⟨p, u, s, r, ss', hu, hh, hr, rfl⟩ | ⟨t, p, u, s, r, ss', -, -, ha, hr, rfl⟩
    · exact Nat.zero_le _
    · exact Nat.le_trans (ih h) (behind hu)
    · exact Nat.le_trans (ih h) (behind hu)
    · have hle := Nat.le_trans (ih hr) (places_le k (within_header? hh).1.suffix)
      rcases header?_cases hh with ⟨path, -, -, -, -, rfl⟩ | ⟨path, -, -, -, -, -, -, -, rfl⟩
      · exact Nat.le_trans hle (behind hu)
      · exact Nat.le_trans hle (behind hu)
    · obtain ⟨i, w, hi, hl, rfl⟩ := assignment?_cases ha
      have hitem := count_item? (count_values k fuel).1 hi
      have hline := places_le k (led_behindLine? (List.suffix_refl w) hl).suffix
      have hrest := ih hr
      have hts := places_le k hb
      show countAt k i.2 + Table.countStatements k ss' ≤ places k ts
      omega

/-- **A document has at most one scalar at each place.** -/
theorem countUnder_table? {ts : List Token} {root : Table} (h : table? ts = some root) (k : Nat) :
    countUnder k root ≤ 1 := by
  unfold table? at h
  obtain ⟨ss, hs, h⟩ := Option.bind_eq_some_iff.1 h
  have hplaces : places k ts.zipIdx ≤ 1 := by
    unfold places
    rw [List.zipIdx_map_snd]
    exact List.nodup_iff_count_le_one.1 List.nodup_range' k
  exact Nat.le_trans (Table.countUnder_ofStatements? h)
    (Nat.le_trans (count_statements? hs) hplaces)

end Repin.Toml
