/-
  CSharpGen/Decl/Attribute.lean
  =============================
  **Drafts of attributes** — positional arguments in order and named arguments
  under legal names; naming an argument again replaces its value.
-/
import CSharpGen.Code.Draft
import CSharpGen.Decl.Basic
import CSharpGen.Table

namespace CSharpGen.Attribute

variable {δ : Type}

/-- An attribute in the making. -/
structure Draft (δ : Type) where
  type : TypeRef
  arguments : List (Code δ) := []
  named : Table (Code δ) := []
  /-- The first error. -/
  error : Option Error := none

/-- An edit of an attribute. -/
inductive Edit (δ : Type) where
  | argument (format : String) (args : List (Argument δ))
  | namedArgument (name : String) (format : String) (args : List (Argument δ))

/-- An attribute without arguments. -/
def bare (type : TypeRef) : Attribute δ := ⟨type, [], []⟩

namespace Draft

/-- Record an error, unless there is an earlier one. -/
def fail (d : Draft δ) (error : Error) : Draft δ := { d with error := some (d.error.getD error) }

/-- The draft after an edit. -/
def apply (d : Draft δ) : Edit δ → Draft δ
  | .argument format args =>
    match Code.ofFormat format args with
    | .ok value => { d with arguments := d.arguments ++ [value] }
    | .error e => d.fail e
  | .namedArgument name format args =>
    if Identifier.isValid name then
      match Code.ofFormat format args with
      | .ok value => { d with named := d.named.put name value }
      | .error e => d.fail e
    else d.fail (.construction (.attributeUse d.type) (.badArgumentName name))

/-- The draft after some edits in order. -/
def applyAll (d : Draft δ) (edits : List (Edit δ)) : Draft δ := edits.foldl apply d

/-- The finished attribute. -/
def build (d : Draft δ) : Except Error (Attribute δ) :=
  match d.error with
  | some e => .error e
  | none => .ok ⟨d.type, d.arguments, d.named⟩

end Draft

/-- The draft that goes on from an attribute. -/
def toDraft (a : Attribute δ) : Draft δ :=
  { type := a.type, arguments := a.arguments, named := a.named }

end CSharpGen.Attribute
