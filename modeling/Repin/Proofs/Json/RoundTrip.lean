/-
  Repin.Proofs.Json.RoundTrip
  ───────────────────────────
  **WHAT IS WRITTEN IS READ BACK.**

  A value that was read from a text has no two halves of a surrogate pair side by side in
  a string, and distinct names in each object (`Sound`, `sound_of_at`).  Without numbers
  that are no integers (`FloatFree`) such a value is found again where it is written:

      ofDocument (text v) = .ok v        (`ofDocument_text`)

  The proof goes through the grammar.  What is behind a value in a written document is a
  comma or a line feed, and neither can go on in the value (`Closes`).
-/
import Repin.Proofs.Json.Grammar

namespace Repin
namespace Json

/-! ## §1. Integers. -/

/-- What is behind a value in a written document. -/
def Closes (r : Rest) : Prop := ∃ c t, r = .char c :: t ∧ (c = ',' ∨ c = '\n')

theorem digitRun_append {t : Text} {r : Rest} (ht : ∀ c ∈ t, Text.isDigit c = true)
    (hr : Closes r) : digitRun (CodePoint.ofText t ++ r) = (t, r) := by
  induction t with
  | nil =>
    obtain ⟨c, u, rfl, hc⟩ := hr
    have hdigit : ¬ Text.isDigit c = true := by
      rcases hc with rfl | rfl <;> decide
    show digitRun (.char c :: u) = _
    rw [digitRun, if_neg hdigit]
  | cons c t ih =>
    obtain ⟨hc, ht⟩ := List.forall_mem_cons.1 ht
    show digitRun (.char c :: (CodePoint.ofText t ++ r)) = _
    rw [digitRun, if_pos hc, ih ht]

theorem wholePart?_digits (n : Nat) {r : Rest} (hr : Closes r) :
    wholePart? (CodePoint.ofText (Text.digits n) ++ r) = some (Text.digits n, r) := by
  rcases Nat.eq_zero_or_pos n with rfl | hpos
  · have hzero : Text.digits 0 = ['0'] := Text.digits_of_lt (by omega)
    rw [hzero]
    rfl
  · have hrun := digitRun_append (Text.isDigit_of_mem_digits n) hr
    obtain ⟨c, t, ht⟩ := List.exists_cons_of_ne_nil (Text.digits_ne_nil n)
    have hc : c ≠ '0' := by
      intro hc
      obtain ⟨hcanonical, hne⟩ := Text.isCanonical_digits n
      rw [ht, hc] at hcanonical hne
      cases t with
      | nil => exact hne hpos rfl
      | cons d t => cases hcanonical
    rw [ht] at hrun ⊢
    unfold wholePart?
    split
    · next he =>
      cases he
      exact absurd rfl hc
    · rw [hrun]
      rfl

theorem fractionPart_of_closes {r : Rest} (hr : Closes r) : fractionPart r = ([], r) := by
  obtain ⟨c, t, rfl, rfl | rfl⟩ := hr <;> rfl

theorem exponentPart?_of_closes {r : Rest} (hr : Closes r) : exponentPart? r = (none, r) := by
  obtain ⟨c, t, rfl, rfl | rfl⟩ := hr <;> rfl

theorem value?_digits (n : Nat) : Text.value? (Text.digits n) = some n := by
  have h := Text.natural?_digits n
  unfold Text.natural? at h
  rwa [if_pos (Text.isCanonical_digits n).1] at h

/-- A numeral is read as an integer, with a minus sign before it or without one. -/
theorem number?_digits {s r : Rest} {n : Nat} (hr : Closes r) (negative : Bool)
    (hs : s = (if negative then [.char '-'] else []) ++ (CodePoint.ofText (Text.digits n) ++ r)) :
    number? s = some (.int (if negative then -n else n), r) := by
  unfold number?
  split
  next sign u hu =>
  have hsign : sign = negative ∧ u = CodePoint.ofText (Text.digits n) ++ r := by
    cases negative with
    | true =>
      rw [hs] at hu
      cases hu
      exact ⟨rfl, rfl⟩
    | false =>
      split at hu
      · next t =>
        -- No digit is a minus sign.
        obtain ⟨c, ds, hds⟩ := List.exists_cons_of_ne_nil (Text.digits_ne_nil n)
        have hdigit := Text.isDigit_of_mem_digits n c (by rw [hds]; exact List.mem_cons_self)
        rw [hds] at hs
        cases hs
        cases hdigit
      · cases hu
        exact ⟨rfl, hs⟩
  rw [hsign.1, hsign.2]
  simp only [wholePart?_digits n hr, fractionPart_of_closes hr, exponentPart?_of_closes hr,
    value?_digits, Option.bind_eq_bind, Option.bind_some]
  rfl

theorem number?_integer (n : Int) {r : Rest} (hr : Closes r) :
    number? (CodePoint.ofText (Text.integer n) ++ r) = some (.int n, r) := by
  cases n with
  | ofNat m => exact number?_digits hr false rfl
  | negSucc m => exact number?_digits hr true rfl

/-- An integer begins with a digit, behind a minus sign if there is one. -/
theorem exists_integer (n : Int) : ∃ c t, Text.isDigit c = true
    ∧ (Text.integer n = c :: t ∨ Text.integer n = '-' :: c :: t) := by
  have hdigits : ∀ m, ∃ c t, Text.isDigit c = true ∧ Text.digits m = c :: t := by
    intro m
    obtain ⟨c, t, ht⟩ := List.exists_cons_of_ne_nil (Text.digits_ne_nil m)
    exact ⟨c, t, Text.isDigit_of_mem_digits m c (by rw [ht]; exact List.mem_cons_self), ht⟩
  cases n with
  | ofNat m =>
    obtain ⟨c, t, hc, ht⟩ := hdigits m
    exact ⟨c, t, hc, .inl ht⟩
  | negSucc m =>
    obtain ⟨c, t, hc, ht⟩ := hdigits (m + 1)
    exact ⟨c, t, hc, .inr (congrArg ('-' :: ·) ht)⟩

/-- No word is an integer. -/
theorem word?_integer (n : Int) (r : Rest) :
    word? (CodePoint.ofText (Text.integer n) ++ r) = none := by
  apply Option.eq_none_iff_forall_ne_some.2
  intro found h
  obtain ⟨v, u⟩ := found
  obtain ⟨word, hword, he⟩ := exists_of_word? h
  obtain ⟨-, x, y, z, rfl, -, hx, hy⟩ := exists_of_mem_words hword
  obtain ⟨c, t, hc, ht | ht⟩ := exists_integer n
  · rw [ht] at he
    rw [CodePoint.char.inj (List.cons.inj he).1, hx] at hc
    cases hc
  · rw [ht] at he
    rw [CodePoint.char.inj (List.cons.inj (List.cons.inj he).2).1, hy] at hc
    cases hc

theorem at_integer (n : Int) {r : Rest} (hr : Closes r) :
    (Phrase.value (.int n)).At (CodePoint.ofText (Text.integer n) ++ r) r := by
  apply Phrase.At.simple
  rw [word?_integer, Option.none_or, number?_integer n hr]

/-! ## §2. Values. -/

/-- No number in the value is anything but an integer. -/
inductive FloatFree : Json → Prop
  | null : FloatFree .null
  | bool (b : Bool) : FloatFree (.bool b)
  | int (n : Int) : FloatFree (.int n)
  | string (s : List CodePoint) : FloatFree (.string s)
  | array {vs : List Json} : (∀ v ∈ vs, FloatFree v) → FloatFree (.array vs)
  | object {ms : Members} : (∀ m ∈ ms, FloatFree m.2) → FloatFree (.object ms)

/-- No two halves of a surrogate pair stand side by side in a string, and the names of each object
are distinct. -/
inductive Sound : Json → Prop
  | simple {v : Json} : IsSimple v → Sound v
  | string {s : List CodePoint} : Settled s → Sound (.string s)
  | array {vs : List Json} : (∀ v ∈ vs, Sound v) → Sound (.array vs)
  | object {ms : Members} : (ms.map Prod.fst).Nodup → (∀ m ∈ ms, Settled m.1) →
      (∀ m ∈ ms, Sound m.2) → Sound (.object ms)

theorem skipBlanks_newLine (depth : Nat) (s : Rest) :
    skipBlanks (CodePoint.ofText (newLine depth) ++ s) = skipBlanks s := by
  unfold skipBlanks newLine
  apply List.dropWhile_append_of_pos
  intro p hp
  rw [CodePoint.ofText_cons, List.mem_cons] at hp
  rcases hp with rfl | hp
  · rfl
  · obtain ⟨c, hc, rfl⟩ := List.mem_map.1 hp
    rw [List.eq_of_mem_replicate hc]
    rfl

/-- No phrase begins with a blank. -/
theorem Phrase.At.skipBlanks_eq {ph : Phrase} {s r : Rest} (h : ph.At s r) : skipBlanks s = s := by
  obtain ⟨c, a, hc, rfl⟩ := h.behind
  have hblank : isBlank (.char c) = false := by
    apply Bool.eq_false_iff.2
    intro hb
    unfold isBlank at hb
    simp only [Bool.or_eq_true, decide_eq_true_eq, CodePoint.char.injEq] at hb
    rcases hb with ((rfl | rfl) | rfl) | rfl <;> cases hc
  show List.dropWhile isBlank (.char c :: (a ++ r)) = _
  rw [List.dropWhile_cons_of_neg (by rw [hblank]; exact Bool.false_ne_true)]
  rfl

/-- A phrase stands behind a blank as it does without one. -/
theorem Phrase.At.behind_blank {ph : Phrase} {s r : Rest} (h : ph.At s r) :
    ph.At (skipBlanks (.char ' ' :: s)) r := by
  show ph.At (skipBlanks s) r
  rw [h.skipBlanks_eq]
  exact h

theorem at_quoted {s : List CodePoint} (hs : Settled s) (r : Rest) :
    (Phrase.value (.string s)).At (CodePoint.ofText (quoted s) ++ r) r := by
  have h := Phrase.At.string (piecesAt_quoted s r)
  rw [joined_piecesOf hs] at h
  exact h

/-- What is read at each element is read at all of them in a row. -/
theorem at_elements {v : Json} {vs : List Json} {depth : Nat} (outer : Nat) (r : Rest)
    (h : ∀ w ∈ v :: vs, ∀ u, Closes u →
      (Phrase.value w).At (CodePoint.ofText (textAt depth w) ++ u) u) :
    (Phrase.elements (v :: vs)).At (CodePoint.ofText (textAt depth v)
      ++ (CodePoint.ofText (elementsAt depth vs) ++ (CodePoint.ofText (newLine outer)
        ++ .char ']' :: r))) r := by
  induction vs generalizing v with
  | nil =>
    apply Phrase.At.lastElement
    · exact h v List.mem_cons_self _ ⟨'\n', _, rfl, .inr rfl⟩
    · exact skipBlanks_newLine outer _
  | cons w vs ih =>
    obtain ⟨hv, hvs⟩ := List.forall_mem_cons.1 h
    have hmore := ih hvs
    have hstart := hmore.skipBlanks_eq
    unfold elementsAt
    simp only [CodePoint.ofText_append, CodePoint.ofText_cons, List.cons_append, List.append_assoc]
    apply Phrase.At.moreElements
    · exact hv _ ⟨',', _, rfl, .inl rfl⟩
    · rfl
    · rw [skipBlanks_newLine, hstart]
      exact hmore

/-- What is read at the value of each member is read at all members in a row. -/
theorem at_members {k : List CodePoint} {v : Json} {ms : Members} {depth : Nat} (outer : Nat)
    (r : Rest)
    (hnames : ∀ m ∈ (k, v) :: ms, Settled m.1)
    (h : ∀ m ∈ (k, v) :: ms, ∀ u, Closes u →
      (Phrase.value m.2).At (CodePoint.ofText (textAt depth m.2) ++ u) u) :
    (Phrase.members ((k, v) :: ms)).At (CodePoint.ofText (quoted k) ++ .char ':' :: .char ' ' ::
      (CodePoint.ofText (textAt depth v) ++ (CodePoint.ofText (membersAt depth ms)
        ++ (CodePoint.ofText (newLine outer) ++ .char '}' :: r)))) r := by
  induction ms generalizing k v with
  | nil =>
    have hclose : Closes (CodePoint.ofText (newLine outer) ++ .char '}' :: r) :=
      ⟨'\n', _, rfl, .inr rfl⟩
    have hmember := Phrase.At.lastMember (piecesAt_quoted k (.char ':' :: .char ' ' :: _)) rfl
      (h (k, v) List.mem_cons_self _ hclose).behind_blank (skipBlanks_newLine outer _)
    rw [joined_piecesOf (hnames (k, v) List.mem_cons_self)] at hmember
    exact hmember
  | cons m ms ih =>
    obtain ⟨name, w⟩ := m
    obtain ⟨hk, hnames⟩ := List.forall_mem_cons.1 hnames
    obtain ⟨hv, hms⟩ := List.forall_mem_cons.1 h
    have hmore := ih hnames hms
    have hnext := hmore
    rw [← hmore.skipBlanks_eq, ← skipBlanks_newLine depth] at hnext
    have hmember := Phrase.At.moreMembers (piecesAt_quoted k (.char ':' :: .char ' ' :: _)) rfl
      (hv _ ⟨',', _, rfl, .inl rfl⟩).behind_blank rfl hnext
    rw [joined_piecesOf hk] at hmember
    unfold membersAt
    simp only [CodePoint.ofText_append, CodePoint.ofText_cons, List.cons_append, List.append_assoc]
    exact hmember

/-- **A value stands where it is written.** -/
theorem at_textAt {v : Json} (hf : FloatFree v) (hs : Sound v) (depth : Nat) {r : Rest}
    (hr : Closes r) : (Phrase.value v).At (CodePoint.ofText (textAt depth v) ++ r) r := by
  induction hf generalizing depth r with
  | null => exact .simple rfl
  | bool b => cases b <;> exact .simple rfl
  | int n => exact at_integer n hr
  | string t =>
    cases hs with
    | simple h => cases h
    | string h => exact at_quoted h r
  | @array vs _ ih =>
    cases hs with
    | simple h => cases h
    | array hs =>
      cases vs with
      | nil => exact .emptyArray rfl
      | cons v vs =>
        have helements := at_elements depth r
          (fun w hw u hu => ih w hw (hs w hw) (depth + 1) hu)
        have hnext := helements
        rw [← helements.skipBlanks_eq, ← skipBlanks_newLine (depth + 1)] at hnext
        unfold textAt
        simp only [CodePoint.ofText_append, CodePoint.ofText_cons, CodePoint.ofText_nil,
          List.cons_append, List.append_assoc, List.nil_append]
        exact .array hnext
  | @object ms _ ih =>
    cases hs with
    | simple h => cases h
    | object hnodup hnames hs =>
      cases ms with
      | nil => exact .emptyObject rfl
      | cons m ms =>
        obtain ⟨k, v⟩ := m
        have hmembers := at_members depth r hnames
          (fun w hw u hu => ih w hw (hs w hw) (depth + 1) hu)
        have hnext := hmembers
        rw [← hmembers.skipBlanks_eq, ← skipBlanks_newLine (depth + 1)] at hnext
        have hobject := Phrase.At.object hnext
        rw [Members.ofWritten_of_nodup hnodup] at hobject
        unfold textAt
        simp only [CodePoint.ofText_append, CodePoint.ofText_cons, CodePoint.ofText_nil,
          List.cons_append, List.append_assoc, List.nil_append]
        exact hobject

/-- **A written document is read as the value it was written for.** -/
theorem document_text {v : Json} (hf : FloatFree v) (hs : Sound v) :
    document (CodePoint.ofText v.text) = .ok v := by
  have hend : Closes [.char '\n'] := ⟨'\n', [], rfl, .inr rfl⟩
  have hv := at_textAt hf hs 0 hend
  apply document_eq_ok_iff.2
  refine ⟨[.char '\n'], ?_, rfl⟩
  unfold text
  rw [CodePoint.ofText_append, CodePoint.ofText_cons, CodePoint.ofText_nil, hv.skipBlanks_eq]
  exact hv

/-- A document that is given as text does not begin with a byte order mark. -/
theorem ofDocument_eq_ok_iff {t : Text} {v : Json} : ofDocument t = .ok v ↔
    t.head? ≠ some '\ufeff' ∧ IsDocument (CodePoint.ofText t) v := by
  rw [← document_eq_ok_iff]
  unfold ofDocument
  by_cases hmark : t.head? = some '\ufeff'
  · rw [if_pos hmark]
    simp [hmark]
  · rw [if_neg hmark]
    cases document (CodePoint.ofText t) with
    | error e => simp
    | ok w => simp [hmark]

theorem ofDocument_text {v : Json} (hf : FloatFree v) (hs : Sound v) :
    ofDocument v.text = .ok v := by
  apply ofDocument_eq_ok_iff.2
  refine ⟨?_, document_eq_ok_iff.1 (document_text hf hs)⟩
  intro hmark
  -- No value begins with the mark.
  obtain ⟨t, ht⟩ := List.head?_eq_some_iff.1 hmark
  have hv := at_textAt hf hs 0 ⟨'\n', [], rfl, .inr rfl⟩
  have htext : CodePoint.ofText (textAt 0 v) ++ [.char '\n']
      = .char '\ufeff' :: CodePoint.ofText t := by
    rw [← CodePoint.ofText_cons, ← ht, text, CodePoint.ofText_append]
    rfl
  exact hv.ne_cons (by decide) htext

/-! ## §3. What is read is sound. -/

/-- What is said of a value holds of the parts of a phrase. -/
def Phrase.Sound : Phrase → Prop
  | .value v => Json.Sound v
  | .elements vs => ∀ v ∈ vs, Json.Sound v
  | .members ms => ∀ m ∈ ms, Settled m.1 ∧ Json.Sound m.2

theorem IsText.skipBlanks {s : Rest} (h : IsText s) : IsText (skipBlanks s) := by
  obtain ⟨a, ha⟩ := exists_skipBlanks s
  rw [ha] at h
  exact h.behind

/-- What is behind the blanks of a text and behind one more character is a text. -/
theorem IsText.behind_skipBlanks {s r : Rest} {p : CodePoint} (h : IsText s)
    (hr : Json.skipBlanks s = p :: r) : IsText r := by
  have hs := h.skipBlanks
  rw [hr] at hs
  exact hs.tail

theorem Phrase.At.isText {ph : Phrase} {s r : Rest} (h : ph.At s r) (hs : IsText s) : IsText r := by
  obtain ⟨c, a, -, rfl⟩ := h.behind
  exact hs.behind

theorem PiecesAt.isText {xs : List Piece} {s r : Rest} (h : PiecesAt xs s r) (hs : IsText s) :
    IsText r := by
  obtain ⟨a, -, rfl⟩ := h.behind
  exact hs.behind

theorem settled_of_at {xs : List Piece} {s r : Rest} (h : PiecesAt xs s r)
    (hs : IsText (.char '"' :: s)) : Settled (joined xs) :=
  settled_joined (charsPlain_of_at h hs.tail)

/-- **What stands in a text is sound.** -/
theorem sound_of_at {ph : Phrase} {s r : Rest} (h : ph.At s r) (hs : IsText s) : ph.Sound := by
  induction h with
  | simple h => exact .simple (exists_of_simple h).1
  | string h => exact .string (settled_of_at h hs)
  | emptyArray => exact .array (by simp)
  | array _ ih => exact .array (ih hs.tail.skipBlanks)
  | emptyObject => exact .object List.nodup_nil (by simp) (by simp)
  | @object ms s r _ ih =>
    have hms := ih hs.tail.skipBlanks
    refine .object (Members.nodup_ofWritten ms) ?_ ?_
    · exact fun m hm => (hms m (Members.mem_of_mem_ofWritten hm)).1
    · exact fun m hm => (hms m (Members.mem_of_mem_ofWritten hm)).2
  | lastElement _ _ ih => exact List.forall_mem_singleton.2 (ih hs)
  | moreElements hv hcomma _ ih₁ ih₂ =>
    have hu := (hv.isText hs).behind_skipBlanks hcomma
    exact List.forall_mem_cons.2 ⟨ih₁ hs, ih₂ hu.skipBlanks⟩
  | lastMember hxs hcolon hv _ ih =>
    have hname := settled_of_at hxs hs
    have hu := (hxs.isText hs.tail).behind_skipBlanks hcolon
    exact List.forall_mem_singleton.2 ⟨hname, ih hu.skipBlanks⟩
  | moreMembers hxs hcolon hv hcomma _ ih₁ ih₂ =>
    have hname := settled_of_at hxs hs
    have hu := (hxs.isText hs.tail).behind_skipBlanks hcolon
    have hx := (hv.isText hu.skipBlanks).behind_skipBlanks hcomma
    exact List.forall_mem_cons.2 ⟨⟨hname, ih₁ hu.skipBlanks⟩, ih₂ hx.skipBlanks⟩

theorem sound_of_ofDocument {t : Text} {v : Json} (h : ofDocument t = .ok v) : Sound v := by
  obtain ⟨-, r, hv, -⟩ := ofDocument_eq_ok_iff.1 h
  exact sound_of_at hv (isText_ofText t).skipBlanks

/-! ## §4. A written document has line feeds only. -/

theorem return_notMem_unitEscape {n : Nat} (hn : n < 0x10000) : '\r' ∉ unitEscape n := by
  have hall : ∀ d : Fin 16, '\r' ≠ Text.digitOf d.val := by decide
  have hdigit : ∀ d, d < 16 → '\r' ≠ Text.digitOf d := fun d hd => hall ⟨d, hd⟩
  unfold unitEscape
  rw [Text.padded_four hn]
  simp only [List.mem_cons, List.not_mem_nil, or_false, not_or]
  exact ⟨by decide, by decide, hdigit _ (by omega), hdigit _ (by omega), hdigit _ (by omega),
    hdigit _ (by omega)⟩

theorem return_notMem_of_escaped {p : CodePoint} {t : Text} (h : Escaped p t) : '\r' ∉ t := by
  cases h with
  | @letter c e he _ =>
    have hne : '\r' ≠ e := by
      intro hr
      rw [← hr] at he
      cases he
    simpa using hne
  | @plain c _ _ hlow _ =>
    intro hc
    rw [← List.mem_singleton.1 hc] at hlow
    exact absurd hlow (by decide)
  | unit _ hlt => exact return_notMem_unitEscape hlt
  | pair _ =>
    obtain ⟨hfirst, hsecond⟩ := halves_lt p.toNat_lt
    rw [List.mem_append, not_or]
    exact ⟨return_notMem_unitEscape hfirst, return_notMem_unitEscape hsecond⟩

theorem return_notMem_quoted (s : List CodePoint) : '\r' ∉ quoted s := by
  unfold quoted
  simp only [List.cons_append, List.mem_cons, List.mem_append, List.mem_flatMap, List.not_mem_nil,
    or_false, not_or, not_exists, not_and]
  exact ⟨by decide, fun p _ => return_notMem_of_escaped (escaped_escape p), by decide⟩

theorem return_notMem_newLine (depth : Nat) : '\r' ∉ newLine depth := by
  unfold newLine
  rw [List.mem_cons, not_or]
  refine ⟨by decide, fun hc => ?_⟩
  exact absurd (List.eq_of_mem_replicate hc) (by decide)

theorem return_notMem_integer (n : Int) : '\r' ∉ Text.integer n := by
  have hdigits : ∀ m, '\r' ∉ Text.digits m :=
    fun m hc => absurd (Text.isDigit_of_mem_digits m _ hc) (by decide)
  cases n with
  | ofNat m => exact hdigits m
  | negSucc m =>
    show '\r' ∉ '-' :: Text.digits (m + 1)
    rw [List.mem_cons, not_or]
    exact ⟨by decide, hdigits (m + 1)⟩

theorem return_notMem_elementsAt {depth : Nat} {vs : List Json}
    (h : ∀ v ∈ vs, '\r' ∉ textAt depth v) : '\r' ∉ elementsAt depth vs := by
  induction vs with
  | nil => exact List.not_mem_nil
  | cons v vs ih =>
    obtain ⟨hv, hvs⟩ := List.forall_mem_cons.1 h
    simp only [elementsAt, List.cons_append, List.append_assoc, List.mem_cons, List.mem_append,
      not_or]
    exact ⟨by decide, return_notMem_newLine depth, hv, ih hvs⟩

theorem return_notMem_membersAt {depth : Nat} {ms : Members}
    (h : ∀ m ∈ ms, '\r' ∉ textAt depth m.2) : '\r' ∉ membersAt depth ms := by
  induction ms with
  | nil => exact List.not_mem_nil
  | cons m ms ih =>
    obtain ⟨hm, hms⟩ := List.forall_mem_cons.1 h
    obtain ⟨k, v⟩ := m
    simp only [membersAt, List.cons_append, List.append_assoc, List.mem_cons, List.mem_append,
      not_or]
    exact ⟨by decide, return_notMem_newLine depth, return_notMem_quoted k, by decide, hm, ih hms⟩

theorem return_notMem_textAt {v : Json} (hf : FloatFree v) (depth : Nat) :
    '\r' ∉ textAt depth v := by
  induction hf generalizing depth with
  | null =>
    show '\r' ∉ "null".toList
    decide
  | bool b =>
    show '\r' ∉ if b then "true".toList else "false".toList
    cases b <;> decide
  | int n => exact return_notMem_integer n
  | string s => exact return_notMem_quoted s
  | @array vs _ ih =>
    cases vs with
    | nil =>
      show '\r' ∉ "[]".toList
      decide
    | cons v vs =>
      have hvs := fun w hw => ih w hw (depth + 1)
      obtain ⟨hv, hvs⟩ := List.forall_mem_cons.1 hvs
      simp only [textAt, List.cons_append, List.append_assoc, List.mem_cons, List.mem_append,
        List.not_mem_nil, or_false, not_or]
      exact ⟨by decide, return_notMem_newLine _, hv, return_notMem_elementsAt hvs,
        return_notMem_newLine _, by decide⟩
  | @object ms _ ih =>
    cases ms with
    | nil =>
      show '\r' ∉ "\x7b\x7d".toList
      decide
    | cons m ms =>
      obtain ⟨k, v⟩ := m
      have hms := fun w hw => ih w hw (depth + 1)
      obtain ⟨hv, hms⟩ := List.forall_mem_cons.1 hms
      simp only [textAt, List.cons_append, List.append_assoc, List.mem_cons, List.mem_append,
        List.not_mem_nil, or_false, not_or]
      exact ⟨by decide, return_notMem_newLine _, return_notMem_quoted k, by decide, hv,
        return_notMem_membersAt hms, return_notMem_newLine _, by decide⟩

theorem return_notMem_text {v : Json} (hf : FloatFree v) : '\r' ∉ v.text := by
  unfold text
  rw [List.mem_append, not_or]
  exact ⟨return_notMem_textAt hf 0, by decide⟩

end Json
end Repin
