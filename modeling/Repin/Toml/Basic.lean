/-
  Repin.Toml.Basic
  ────────────────
  **TOML VALUES AND HOW STATEMENTS BUILD THEM.**

  A document is a sequence of statements: a header opens a table, a doubled
  header opens a further table of an array of tables, and an assignment sets a
  dotted key in the table that is open.  `Table.ofStatements?` carries them out
  in turn and refuses whatever would define something twice.

  A scalar carries its place, the index of the token that spells it.  Building
  never looks at a place or at a scalar: what is built depends on the keys alone.
-/
import Repin.Toml.Scalar

namespace Repin

/-- How a table came to be, which decides what may still be added to it. -/
inductive Toml.Origin where
  /-- A header opened it. -/
  | opened
  /-- A header of a table inside it made it. -/
  | implied
  /-- A dotted key made it. -/
  | dotted
  /-- It stands between braces. -/
  | closed
  deriving DecidableEq, Repr

/-- A TOML value. -/
inductive Toml where
  /-- A value without parts, spelled by the token at `place`. -/
  | scalar (place : Nat) (s : Toml.Scalar)
  | array (elements : List Toml)
  /-- A table by its entries, in order. -/
  | table (origin : Toml.Origin) (entries : List (Text × Toml))
  /-- An array of tables, each opened by a header. -/
  | tables (elements : List (List (Text × Toml)))
  deriving Repr

namespace Toml

/-- The entries of a table, in order. -/
abbrev Table := List (Text × Toml)

/-- The keys of a path from the table that is open. -/
abbrev KeyPath := List Text

/-- One statement of a document. -/
inductive Statement where
  /-- Opens a table. -/
  | header (path : KeyPath)
  /-- Opens a further table of an array of tables. -/
  | doubledHeader (path : KeyPath)
  /-- Sets a key. -/
  | assignment (path : KeyPath) (value : Toml)
  deriving Repr

namespace Table

/-! ## §1. Entries. -/

/-- The value of a key. -/
def get? (key : Text) (t : Table) : Option Toml := (t.find? (fun e => e.1 = key)).map Prod.snd

/-- The table with the value of a key changed by `f`, which is given the present
value; a new key comes last. -/
def alter? (key : Text) (f : Option Toml → Option Toml) : Table → Option Table
  | [] => (f none).map (fun v => [(key, v)])
  | e :: t =>
    if e.1 = key then (f (some e.2)).map (fun v => (key, v) :: t)
    else (alter? key f t).map (e :: ·)

/-! ## §2. Assignments. -/

/-- Sets a new key. -/
def assign? (v : Toml) : KeyPath → Table → Option Table
  | [], _ => none
  | [key], t => t.alter? key (fun
    | none => some v
    | some _ => none)
  | key :: path, t => t.alter? key (fun
    | none => (assign? v path []).map (.table .dotted)
    -- Dotted keys go on in a table that dotted keys made, and in no other.
    | some (.table .dotted sub) => (assign? v path sub).map (.table .dotted)
    | some _ => none)

/-- Carries out assignments in turn. -/
def assignAll? (items : List (KeyPath × Toml)) (t : Table) : Option Table :=
  items.foldlM (fun t item => assign? item.2 item.1 t) t

/-! ## §3. Headers. -/

/-- Goes along a path that headers may take and changes the value at its end.  An
array of tables is entered at its last table. -/
def alterAt? (f : Option Toml → Option Toml) : KeyPath → Table → Option Table
  | [], _ => none
  | [key], t => t.alter? key f
  | key :: path, t => t.alter? key (fun
    | none => (alterAt? f path []).map (.table .implied)
    -- What stands between braces is complete.
    | some (.table .closed _) => none
    | some (.table origin sub) => (alterAt? f path sub).map (.table origin)
    | some (.tables ts) =>
      match ts.getLast? with
      | some sub => (alterAt? f path sub).map (fun sub => .tables (ts.dropLast ++ [sub]))
      | none => none
    | some _ => none)

/-- What a header makes of the value at its path: a new table, or one that so far
was only implied, with the items assigned in it. -/
def opened? (items : List (KeyPath × Toml)) : Option Toml → Option Toml
  | none => (assignAll? items []).map (.table .opened)
  | some (.table .implied sub) => (assignAll? items sub).map (.table .opened)
  | some _ => none

/-- What a doubled header makes of the value at its path: one more table. -/
def extended? (items : List (KeyPath × Toml)) : Option Toml → Option Toml
  | none => (assignAll? items []).map (fun t => .tables [t])
  | some (.tables ts) => (assignAll? items []).map (fun t => .tables (ts ++ [t]))
  | some _ => none

/-! ## §4. Documents. -/

/-- The assignments before the next header, and the statements from it on. -/
def sectionOf : List Statement → List (KeyPath × Toml) × List Statement
  | .assignment path v :: rest => ((path, v) :: (sectionOf rest).1, (sectionOf rest).2)
  | rest => ([], rest)

/-- Carries out sections, each a header with its assignments. -/
def sections? : List Statement → Table → Option Table
  | [], t => some t
  | .header path :: rest, t =>
    (alterAt? (opened? (sectionOf rest).1) path t).bind (sections? rest)
  | .doubledHeader path :: rest, t =>
    (alterAt? (extended? (sectionOf rest).1) path t).bind (sections? rest)
  | .assignment _ _ :: rest, t => sections? rest t

/-- The table that the statements of a document build. -/
def ofStatements? (ss : List Statement) : Option Table :=
  (assignAll? (sectionOf ss).1 []).bind (sections? (sectionOf ss).2)

end Table
end Toml
end Repin
