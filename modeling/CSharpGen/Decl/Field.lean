/-
  CSharpGen/Decl/Field.lean
  =========================
  **Drafts of fields** — the documentation is a code draft of its own; the name
  is checked before it is built.
-/
import CSharpGen.Code.Draft
import CSharpGen.Decl.Basic

namespace CSharpGen.Field

variable {δ : Type}

/-- A field in the making. -/
structure Draft (δ : Type) where
  name : String
  type : TypeRef
  doc : Code.Draft δ := {}
  attributes : List (Attribute δ) := []
  modifiers : ModifierSet := .empty
  initializer : Option (Code δ) := none
  /-- The first error. -/
  error : Option Error := none

/-- An edit of a field. -/
inductive Edit (δ : Type) where
  | addDoc (format : String) (args : List (Argument δ))
  | addAttribute (attr : Attribute δ)
  | addModifiers (modifiers : List Modifier)
  | initializer (format : String) (args : List (Argument δ))

namespace Draft

/-- Record an error, unless there is an earlier one. -/
def fail (d : Draft δ) (error : Error) : Draft δ := { d with error := some (d.error.getD error) }

/-- The draft after an edit. -/
def apply (d : Draft δ) : Edit δ → Draft δ
  | .addDoc format args => { d with doc := d.doc.add format args }
  | .addAttribute a => { d with attributes := d.attributes ++ [a] }
  | .addModifiers ms => { d with modifiers := d.modifiers.addAll ms }
  | .initializer format args =>
    match Code.ofFormat format args with
    | .ok value => { d with initializer := some value }
    | .error e => d.fail e

/-- The draft after some edits in order. -/
def applyAll (d : Draft δ) (edits : List (Edit δ)) : Draft δ := edits.foldl apply d

/-- The finished field. -/
def build (d : Draft δ) : Except Error (Field δ) :=
  match d.error with
  | some e => .error e
  | none =>
    if Identifier.isValid d.name then do
      let doc ← d.doc.build
      return ⟨d.name, d.type, doc, d.attributes, d.modifiers, d.initializer⟩
    else .error (.construction (.field d.name) (.badIdentifier d.name))

end Draft

/-- The draft that goes on from a field. -/
def toDraft (x : Field δ) : Draft δ where
  name := x.name
  type := x.type
  doc := x.doc.toDraft
  attributes := x.attributes
  modifiers := x.modifiers
  initializer := x.initializer

end CSharpGen.Field
