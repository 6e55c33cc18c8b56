/-
  Repin.Proofs.Toml.Alike
  ───────────────────────
  **TABLES THAT DIFFER IN ONE SCALAR, OR IN VERSIONS.**

  Two documents are compared by the tables that they build.  `Alike P k x` relates two
  values of the same shape; the scalar at the place `k` is `x` in the second one.  The
  proposition `P` says whether versions may be exchanged besides:

    • if `P` fails, all other scalars and all keys are the same,
    • if `P` holds, other scalars may differ, and so may whatever stands under a key that
      is not watched: under such a key no declared version is found.

  Statements that are alike build tables that are alike (`follows_ofStatements?`).  If `P`
  holds, the second table may be refused instead, because two keys fell together.
-/
import Mathlib.Data.List.Forall2
import Repin.Proofs.Toml.Within

namespace Repin.Toml

/-! ## §1. Values. -/

/-- The keys that lead to a declared version. -/
def watched : List Text := ["package", "project", "version"]

/-- A key under which values are compared. -/
def Seen (P : Prop) (key : Text) : Prop := P → key ∈ watched

/-- The values have the same shape, and the second one has the scalar `x` at the place `k`. -/
inductive Alike (P : Prop) (k : Nat) (x : Scalar) : Toml → Toml → Prop
  | scalar {p : Nat} {s s' : Scalar} : (p = k → s' = x) → (p ≠ k → ¬ P → s' = s) →
      Alike P k x (.scalar p s) (.scalar p s')
  | array {vs vs' : List Toml} : List.Forall₂ (Alike P k x) vs vs' →
      Alike P k x (.array vs) (.array vs')
  | table {o : Origin} {t t' : Table} :
      (∀ n, Seen P n → Option.Rel (Alike P k x) (t.get? n) (t'.get? n)) →
      Alike P k x (.table o t) (.table o t')
  | tables {ts ts' : List Table} :
      List.Forall₂ (fun t t' => ∀ n, Seen P n →
        Option.Rel (Alike P k x) (Table.get? n t) (Table.get? n t')) ts ts' →
      Alike P k x (.tables ts) (.tables ts')

/-- The tables have alike values under all keys that are seen. -/
def Table.Alike (P : Prop) (k : Nat) (x : Scalar) (t t' : Table) : Prop :=
  ∀ n, Seen P n → Option.Rel (Toml.Alike P k x) (t.get? n) (t'.get? n)

/-- The paths are the same, at least as long as their keys are seen. -/
inductive PathAlike (P : Prop) : KeyPath → KeyPath → Prop
  | nil : PathAlike P [] []
  | cons (key : Text) {path path' : KeyPath} : PathAlike P path path' →
      PathAlike P (key :: path) (key :: path')
  | foreign {a b : Text} (path path' : KeyPath) : P → a ∉ watched → b ∉ watched →
      PathAlike P (a :: path) (b :: path')

theorem PathAlike.eq_nil_iff {P : Prop} {path path' : KeyPath} (h : PathAlike P path path') :
    path = [] ↔ path' = [] := by
  cases h with
  | nil => exact Iff.rfl
  | cons => exact ⟨nofun, nofun⟩
  | foreign => exact ⟨nofun, nofun⟩

/-- The second result is like the first one, or it is missing where it may. -/
inductive Follows {α β : Type} (P : Prop) (R : α → β → Prop) (a : α) : Option β → Prop
  | some {b : β} : R a b → Follows P R a (some b)
  | none : P → Follows P R a none

variable {α β γ δ : Type} {P : Prop} {R : α → β → Prop} {S : γ → δ → Prop} {a : α} {c : γ}

theorem Follows.bind {o : Option β} {f : β → Option δ} (h : Follows P R a o)
    (hf : ∀ b, R a b → Follows P S c (f b)) : Follows P S c (o.bind f) := by
  cases h with
  | some hb => exact hf _ hb
  | none hP => exact .none hP

theorem Follows.map {o : Option β} {f : β → δ} (h : Follows P R a o)
    (hf : ∀ b, R a b → S c (f b)) : Follows P S c (o.map f) := by
  cases h with
  | some hb => exact .some (hf _ hb)
  | none hP => exact .none hP

namespace Table

variable {k : Nat} {x : Scalar} {t t' u : Table} {v v' w : Toml} {o o' : Option Toml}

/-! ## §2. One key. -/

theorem alike_nil : Table.Alike P k x [] [] := fun _ _ => .none

theorem Alike.put (ht : t.Alike P k x t') (hv : v.Alike P k x v') (key : Text) :
    (t.put key v).Alike P k x (t'.put key v') := by
  intro n hn
  rw [get?_put, get?_put]
  split
  · exact .some hv
  · exact ht n hn

theorem Alike.put_foreign {key key' : Text} (hP : P) (hk : key ∉ watched) (hk' : key' ∉ watched)
    (ht : t.Alike P k x t') : (t.put key v).Alike P k x (t'.put key' v') := by
  intro n hn
  have hw := hn hP
  rw [get?_put, get?_put, if_neg, if_neg]
  · exact ht n hn
  · rintro rfl
    exact hk' hw
  · rintro rfl
    exact hk hw

/-- Changes of a seen key that follow each other. -/
theorem follows_alter? {key : Text} {f f' : Option Toml → Option Toml} (hk : Seen P key)
    (ht : t.Alike P k x t')
    (hf : ∀ o o' w, Option.Rel (Toml.Alike P k x) o o' → f o = some w →
      Follows P (Toml.Alike P k x) w (f' o'))
    (h : t.alter? key f = some u) : Follows P (Table.Alike P k x) u (t'.alter? key f') := by
  rw [alter?_eq] at h ⊢
  obtain ⟨w, hw, rfl⟩ := Option.map_eq_some_iff.1 h
  exact (hf _ _ w (ht key hk) hw).map (fun w' hww => ht.put hww key)

/-- Changes of keys that are not watched follow each other, whatever they are. -/
theorem follows_alter?_foreign {key key' : Text} {f f' : Option Toml → Option Toml} (hP : P)
    (hk : key ∉ watched) (hk' : key' ∉ watched) (ht : t.Alike P k x t')
    (h : t.alter? key f = some u) : Follows P (Table.Alike P k x) u (t'.alter? key' f') := by
  rw [alter?_eq] at h ⊢
  obtain ⟨w, -, rfl⟩ := Option.map_eq_some_iff.1 h
  cases f' (get? key' t') with
  | none => exact .none hP
  | some w' => exact .some (ht.put_foreign hP hk hk')

/-- **Changes along paths that are alike**, given by what they do to one key. -/
theorem follows_alter?_path {path path' : KeyPath} {f f' : KeyPath → Option Toml → Option Toml}
    {g g' : KeyPath → Table → Option Table}
    (hg : ∀ key path t, g (key :: path) t = t.alter? key (f path))
    (hg' : ∀ key path t, g' (key :: path) t = t.alter? key (f' path))
    (hnil : ∀ t, g [] t = none)
    (hf : ∀ path path', PathAlike P path path' →
      (∀ t t' u, t.Alike P k x t' → g path t = some u →
        Follows P (Table.Alike P k x) u (g' path' t')) →
      ∀ o o' w, Option.Rel (Toml.Alike P k x) o o' → f path o = some w →
        Follows P (Toml.Alike P k x) w (f' path' o'))
    (hp : PathAlike P path path') (ht : t.Alike P k x t') (h : g path t = some u) :
    Follows P (Table.Alike P k x) u (g' path' t') := by
  induction hp generalizing t t' u with
  | nil =>
    rw [hnil] at h
    cases h
  | @cons key path path' hp ih =>
    rw [hg] at h
    rw [hg']
    by_cases hs : Seen P key
    · exact follows_alter? hs ht (hf path path' hp (fun t t' u => ih)) h
    · -- A key that is not seen need not be changed in the same way.
      have hP : P := Classical.byContradiction (fun hn => hs (fun hP => absurd hP hn))
      have hk : key ∉ watched := fun hm => hs (fun _ => hm)
      exact follows_alter?_foreign hP hk hk ht h
  | foreign path path' hP ha hb =>
    rw [hg] at h
    rw [hg']
    exact follows_alter?_foreign hP ha hb ht h

/-! ## §3. Assignments. -/

/-- A value where there is none yet. -/
def fresh? (v : Toml) : Option Toml → Option Toml
  | none => some v
  | some _ => none

/-- A change of the table that dotted keys share. -/
def dotted? (g : Table → Option Table) : Option Toml → Option Toml
  | none => (g []).map (.table .dotted)
  | some (.table .dotted sub) => (g sub).map (.table .dotted)
  | some _ => none

theorem assign?_cons (v : Toml) (key : Text) (path : KeyPath) (t : Table) :
    assign? v (key :: path) t
      = t.alter? key (if path = [] then fresh? v else dotted? (assign? v path)) := by
  cases path with
  | nil =>
    rw [assign?, if_pos rfl]
    rfl
  | cons key' path =>
    rw [assign?, if_neg (List.cons_ne_nil key' path)]
    · rfl
    · exact nofun

theorem follows_fresh? (hv : v.Alike P k x v') (ho : Option.Rel (Toml.Alike P k x) o o')
    (h : fresh? v o = some w) : Follows P (Toml.Alike P k x) w (fresh? v' o') := by
  cases ho with
  | none =>
    cases h
    exact .some hv
  | some ho => cases h

/-- Values around tables that follow each other. -/
theorem follows_map {m m' : Option Table} {f f' : Table → Toml}
    (hm : ∀ s, m = some s → Follows P (Table.Alike P k x) s m')
    (hf : ∀ s s', Table.Alike P k x s s' → (f s).Alike P k x (f' s')) (h : m.map f = some w) :
    Follows P (Toml.Alike P k x) w (m'.map f') := by
  obtain ⟨s, hs, rfl⟩ := Option.map_eq_some_iff.1 h
  exact (hm s hs).map (hf s)

theorem follows_dotted? {g g' : Table → Option Table}
    (hg : ∀ t t' u, Table.Alike P k x t t' → g t = some u →
      Follows P (Table.Alike P k x) u (g' t'))
    (ho : Option.Rel (Toml.Alike P k x) o o') (h : dotted? g o = some w) :
    Follows P (Toml.Alike P k x) w (dotted? g' o') := by
  cases ho with
  | none => exact follows_map (fun s => hg [] [] s alike_nil) (fun _ _ => .table) h
  | some ho =>
    cases ho with
    | scalar => cases h
    | array => cases h
    | tables => cases h
    | @table origin t t' ht =>
      cases origin with
      | dotted => exact follows_map (fun s => hg t t' s ht) (fun _ _ => .table) h
      | opened => cases h
      | implied => cases h
      | closed => cases h

theorem follows_assign? {path path' : KeyPath} (hp : PathAlike P path path')
    (hv : v.Alike P k x v') (ht : t.Alike P k x t') (h : assign? v path t = some u) :
    Follows P (Table.Alike P k x) u (assign? v' path' t') := by
  refine follows_alter?_path (assign?_cons v) (assign?_cons v') (fun _ => rfl) ?_ hp ht h
  -- The last key of a path takes the value, the others lead to it.
  intro path path' hp ih o o' w ho hw
  by_cases he : path = []
  · rw [if_pos he] at hw
    rw [if_pos (hp.eq_nil_iff.1 he)]
    exact follows_fresh? hv ho hw
  · rw [if_neg he] at hw
    rw [if_neg (fun he' => he (hp.eq_nil_iff.2 he'))]
    exact follows_dotted? ih ho hw

/-- The assignments have alike paths and alike values. -/
def ItemAlike (P : Prop) (k : Nat) (x : Scalar) (i i' : KeyPath × Toml) : Prop :=
  PathAlike P i.1 i'.1 ∧ i.2.Alike P k x i'.2

variable {items items' : List (KeyPath × Toml)}

theorem follows_assignAll? (hi : List.Forall₂ (ItemAlike P k x) items items')
    (ht : t.Alike P k x t') (h : assignAll? items t = some u) :
    Follows P (Table.Alike P k x) u (assignAll? items' t') := by
  induction hi generalizing t t' with
  | nil =>
    cases h
    exact .some ht
  | cons hi _ ih =>
    obtain ⟨s, hs, h⟩ := Option.bind_eq_some_iff.1 h
    exact (follows_assign? hi.1 hi.2 ht hs).bind (fun s' hss => ih hss h)

/-! ## §4. Headers. -/

/-- A change of a table on the path of a header. -/
def passed? (g : Table → Option Table) : Option Toml → Option Toml
  | none => (g []).map (.table .implied)
  | some (.table .closed _) => none
  | some (.table origin sub) => (g sub).map (.table origin)
  | some (.tables ts) =>
    match ts.getLast? with
    | some sub => (g sub).map (fun sub => .tables (ts.dropLast ++ [sub]))
    | none => none
  | some _ => none

theorem alterAt?_cons (f : Option Toml → Option Toml) (key : Text) (path : KeyPath) (t : Table) :
    alterAt? f (key :: path) t
      = t.alter? key (if path = [] then f else passed? (alterAt? f path)) := by
  cases path with
  | nil => rw [alterAt?, if_pos rfl]
  | cons key' path =>
    rw [alterAt?, if_neg (List.cons_ne_nil key' path)]
    · rfl
    · exact nofun

/-- Lists that are alike are both empty, or end in elements that are. -/
theorem getLast?_of_forall₂ {as : List α} {bs : List β} (h : List.Forall₂ R as bs) :
    Option.Rel R as.getLast? bs.getLast? ∧ List.Forall₂ R as.dropLast bs.dropLast := by
  induction h with
  | nil => exact ⟨.none, .nil⟩
  | @cons a b as bs hab hs ih =>
    cases hs with
    | nil => exact ⟨.some hab, .nil⟩
    | cons h₁ h₂ =>
      rw [List.getLast?_cons_cons, List.getLast?_cons_cons, List.dropLast_cons_cons,
        List.dropLast_cons_cons]
      exact ⟨ih.1, .cons hab ih.2⟩

theorem follows_passed? {g g' : Table → Option Table}
    (hg : ∀ t t' u, Table.Alike P k x t t' → g t = some u →
      Follows P (Table.Alike P k x) u (g' t'))
    (ho : Option.Rel (Toml.Alike P k x) o o') (h : passed? g o = some w) :
    Follows P (Toml.Alike P k x) w (passed? g' o') := by
  cases ho with
  | none => exact follows_map (fun s => hg [] [] s alike_nil) (fun _ _ => .table) h
  | some ho =>
    cases ho with
    | scalar => cases h
    | array => cases h
    | @tables ts ts' hts =>
      -- The last table of an array is the one that the header goes on in.
      obtain ⟨hl, hd⟩ := getLast?_of_forall₂ hts
      rw [passed?] at h ⊢
      generalize ts.getLast? = l at hl h
      generalize ts'.getLast? = l' at hl
      cases hl with
      | none => cases h
      | some hl =>
        exact follows_map (fun s => hg _ _ s hl)
          (fun _ _ hss => .tables (List.rel_append hd (.cons hss .nil))) h
    | @table origin t t' ht =>
      cases origin with
      | closed => cases h
      | dotted => exact follows_map (fun s => hg t t' s ht) (fun _ _ => .table) h
      | opened => exact follows_map (fun s => hg t t' s ht) (fun _ _ => .table) h
      | implied => exact follows_map (fun s => hg t t' s ht) (fun _ _ => .table) h

theorem follows_alterAt? {f f' : Option Toml → Option Toml} {path path' : KeyPath}
    (hf : ∀ o o' w, Option.Rel (Toml.Alike P k x) o o' → f o = some w →
      Follows P (Toml.Alike P k x) w (f' o'))
    (hp : PathAlike P path path') (ht : t.Alike P k x t') (h : alterAt? f path t = some u) :
    Follows P (Table.Alike P k x) u (alterAt? f' path' t') := by
  refine follows_alter?_path (alterAt?_cons f) (alterAt?_cons f') (fun _ => rfl) ?_ hp ht h
  intro path path' hp ih o o' w ho hw
  by_cases he : path = []
  · rw [if_pos he] at hw
    rw [if_pos (hp.eq_nil_iff.1 he)]
    exact hf o o' w ho hw
  · rw [if_neg he] at hw
    rw [if_neg (fun he' => he (hp.eq_nil_iff.2 he'))]
    exact follows_passed? ih ho hw

theorem follows_opened? (hi : List.Forall₂ (ItemAlike P k x) items items') (o o' : Option Toml)
    (w : Toml) (ho : Option.Rel (Toml.Alike P k x) o o') (h : opened? items o = some w) :
    Follows P (Toml.Alike P k x) w (opened? items' o') := by
  cases ho with
  | none => exact follows_map (fun _ => follows_assignAll? hi alike_nil) (fun _ _ => .table) h
  | some ho =>
    cases ho with
    | scalar => cases h
    | array => cases h
    | tables => cases h
    | @table origin t t' ht =>
      cases origin with
      | implied => exact follows_map (fun _ => follows_assignAll? hi ht) (fun _ _ => .table) h
      | opened => cases h
      | dotted => cases h
      | closed => cases h

theorem follows_extended? (hi : List.Forall₂ (ItemAlike P k x) items items') (o o' : Option Toml)
    (w : Toml) (ho : Option.Rel (Toml.Alike P k x) o o') (h : extended? items o = some w) :
    Follows P (Toml.Alike P k x) w (extended? items' o') := by
  cases ho with
  | none =>
    exact follows_map (fun _ => follows_assignAll? hi alike_nil)
      (fun _ _ hss => .tables (.cons hss .nil)) h
  | some ho =>
    cases ho with
    | scalar => cases h
    | array => cases h
    | table => cases h
    | tables hts =>
      exact follows_map (fun _ => follows_assignAll? hi alike_nil)
        (fun _ _ hss => .tables (List.rel_append hts (.cons hss .nil))) h

/-! ## §5. Documents. -/

/-- The statements are of the same kind, with alike paths and values. -/
inductive StatementAlike (P : Prop) (k : Nat) (x : Scalar) : Statement → Statement → Prop
  | header {path path' : KeyPath} : PathAlike P path path' →
      StatementAlike P k x (.header path) (.header path')
  | doubledHeader {path path' : KeyPath} : PathAlike P path path' →
      StatementAlike P k x (.doubledHeader path) (.doubledHeader path')
  | assignment {path path' : KeyPath} {v v' : Toml} : PathAlike P path path' →
      v.Alike P k x v' → StatementAlike P k x (.assignment path v) (.assignment path' v')

variable {ss ss' : List Statement}

theorem alike_sectionOf (h : List.Forall₂ (StatementAlike P k x) ss ss') :
    List.Forall₂ (ItemAlike P k x) (sectionOf ss).1 (sectionOf ss').1
      ∧ List.Forall₂ (StatementAlike P k x) (sectionOf ss).2 (sectionOf ss').2 := by
  induction h with
  | nil => exact ⟨.nil, .nil⟩
  | cons hs hss ih =>
    cases hs with
    | header hp => exact ⟨.nil, .cons (.header hp) hss⟩
    | doubledHeader hp => exact ⟨.nil, .cons (.doubledHeader hp) hss⟩
    | assignment hp hv => exact ⟨.cons ⟨hp, hv⟩ ih.1, ih.2⟩

theorem follows_sections? (hs : List.Forall₂ (StatementAlike P k x) ss ss')
    (ht : t.Alike P k x t') (h : sections? ss t = some u) :
    Follows P (Table.Alike P k x) u (sections? ss' t') := by
  induction hs generalizing t t' with
  | nil =>
    cases h
    exact .some ht
  | cons hs hss ih =>
    have hi := (alike_sectionOf hss).1
    cases hs with
    | assignment hp hv => exact ih ht h
    | header hp =>
      obtain ⟨s, hs, h⟩ := Option.bind_eq_some_iff.1 h
      exact (follows_alterAt? (follows_opened? hi) hp ht hs).bind (fun s' hss' => ih hss' h)
    | doubledHeader hp =>
      obtain ⟨s, hs, h⟩ := Option.bind_eq_some_iff.1 h
      exact (follows_alterAt? (follows_extended? hi) hp ht hs).bind (fun s' hss' => ih hss' h)

/-- **Statements that are alike build tables that are alike.** -/
theorem follows_ofStatements? (hs : List.Forall₂ (StatementAlike P k x) ss ss')
    (h : ofStatements? ss = some u) :
    Follows P (Table.Alike P k x) u (ofStatements? ss') := by
  obtain ⟨t, ht, h⟩ := Option.bind_eq_some_iff.1 h
  obtain ⟨hi, hr⟩ := alike_sectionOf hs
  exact (follows_assignAll? hi alike_nil ht).bind (fun t' htt => follows_sections? hr htt h)

end Table
end Repin.Toml
