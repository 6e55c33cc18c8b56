/-
  Repin.Toml.Document
  ───────────────────
  **DOCUMENTS THAT CAN BE EDITED IN PLACE.**

  A document is its tokens together with the table that they describe.  It is
  written by spelling its tokens, so a document that was read and not edited is
  written as it was:

      Document.read? s = some d  →  d.text = s                 (`text_of_read?`)

  An edit changes one token and leaves all other text as it is.
-/
import Repin.Toml.Parser

namespace Repin.Toml

/-- A document: its tokens, and the table that they describe. -/
structure Document where
  tokens : List Token
  root : Table

namespace Document

/-- Reads a document. -/
def read? (s : Text) : Option Document := do
  let tokens ← tokens? s
  let root ← table? tokens
  return { tokens, root }

/-- The text of a document. -/
def text (d : Document) : Text := spelled d.tokens

/-- The text of the document with the token at `place` replaced by a basic string
whose body is `s`. -/
def textWith (place : Nat) (s : Text) (d : Document) : Text :=
  spelled (d.tokens.set place (.string .basic s))

theorem text_of_read? {s : Text} {d : Document} (h : read? s = some d) : d.text = s := by
  simp only [read?, Option.bind_eq_bind, Option.bind_eq_some_iff] at h
  obtain ⟨ts, hts, root, _, hd⟩ := h
  cases hd
  exact spelled_tokens? hts

end Document
end Repin.Toml
