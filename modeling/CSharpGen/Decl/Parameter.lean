/-
  CSharpGen/Decl/Parameter.lean
  =============================
  **Drafts of parameters** — only the modifiers of parameters are allowed, and
  the name must be a legal identifier.
-/
import CSharpGen.Code.Draft
import CSharpGen.Decl.Basic

namespace CSharpGen.Parameter

variable {δ : Type}

/-- A parameter in the making. -/
structure Draft (δ : Type) where
  name : String
  type : TypeRef
  modifiers : ModifierSet := .empty
  attributes : List (Attribute δ) := []
  defaultValue : Option (Code δ) := none
  /-- The first error. -/
  error : Option Error := none

/-- An edit of a parameter. -/
inductive Edit (δ : Type) where
  | addModifiers (modifiers : List Modifier)
  | addAttribute (attr : Attribute δ)
  | defaultValue (format : String) (args : List (Argument δ))

namespace Draft

/-- Record an error, unless there is an earlier one. -/
def fail (d : Draft δ) (error : Error) : Draft δ := { d with error := some (d.error.getD error) }

/-- Add a modifier; one that no parameter may have is an error. -/
def addModifier (d : Draft δ) (m : Modifier) : Draft δ :=
  let checked :=
    if m.onParameter then d
    else d.fail (.construction (.parameter d.name) (.modifierOnParameter m))
  { checked with modifiers := checked.modifiers.insert m }

/-- The draft after an edit. -/
def apply (d : Draft δ) : Edit δ → Draft δ
  | .addModifiers ms => ms.foldl addModifier d
  | .addAttribute a => { d with attributes := d.attributes ++ [a] }
  | .defaultValue format args =>
    match Code.ofFormat format args with
    | .ok value => { d with defaultValue := some value }
    | .error e => d.fail e

/-- The draft after some edits in order. -/
def applyAll (d : Draft δ) (edits : List (Edit δ)) : Draft δ := edits.foldl apply d

/-- The finished parameter. -/
def build (d : Draft δ) : Except Error (Parameter δ) :=
  match d.error with
  | some e => .error e
  | none =>
    if Identifier.isValid d.name then
      .ok ⟨d.name, d.type, d.modifiers, d.attributes, d.defaultValue⟩
    else .error (.construction (.parameter d.name) (.badIdentifier d.name))

end Draft

/-- A parameter without modifiers, attributes and default value. -/
def plain (type : TypeRef) (name : String) : Except Error (Parameter δ) :=
  { name := name, type := type : Draft δ }.build

/-- The draft that goes on from a parameter. -/
def toDraft (p : Parameter δ) : Draft δ where
  name := p.name
  type := p.type
  modifiers := p.modifiers
  attributes := p.attributes
  defaultValue := p.defaultValue

end CSharpGen.Parameter
