/-
  CSharpGen/Decl/Property.lean
  ============================
  **Drafts of properties and indexers** — a draft without a name is an indexer.
  An accessor with an empty body is auto-implemented; bodies exclude `abstract`
  and an initial value, and parameters belong to indexers, which need one.
-/
import CSharpGen.Code.Draft
import CSharpGen.Decl.Basic

namespace CSharpGen.Property

variable {δ : Type}

/-- A property in the making. -/
structure Draft (δ : Type) where
  name : Option String
  type : TypeRef
  doc : Code.Draft δ := {}
  attributes : List (Attribute δ) := []
  modifiers : ModifierSet := .empty
  parameters : List (Parameter δ) := []
  getter : Option (Code δ) := none
  setter : Option (Code δ) := none
  initializer : Option (Code δ) := none
  /-- The first error. -/
  error : Option Error := none

/-- An edit of a property. -/
inductive Edit (δ : Type) where
  | addDoc (format : String) (args : List (Argument δ))
  | addAttribute (attr : Attribute δ)
  | addModifiers (modifiers : List Modifier)
  | addParameter (parameter : Parameter δ)
  | getter (body : Code δ)
  | setter (body : Code δ)
  | initializer (format : String) (args : List (Argument δ))

namespace Draft

/-- What the draft is called in messages. -/
def subject (d : Draft δ) : Subject :=
  match d.name with
  | some name => .property name
  | none => .indexer

/-- Record an error, unless there is an earlier one. -/
def fail (d : Draft δ) (error : Error) : Draft δ := { d with error := some (d.error.getD error) }

/-- The draft after an edit. -/
def apply (d : Draft δ) : Edit δ → Draft δ
  | .addDoc format args => { d with doc := d.doc.add format args }
  | .addAttribute a => { d with attributes := d.attributes ++ [a] }
  | .addModifiers ms => { d with modifiers := d.modifiers.addAll ms }
  | .addParameter p => { d with parameters := d.parameters ++ [p] }
  | .getter body => { d with getter := some body }
  | .setter body => { d with setter := some body }
  | .initializer format args =>
    match Code.ofFormat format args with
    | .ok value => { d with initializer := some value }
    | .error e => d.fail e

/-- The draft after some edits in order. -/
def applyAll (d : Draft δ) (edits : List (Edit δ)) : Draft δ := edits.foldl apply d

/-- Whether an accessor has a body. -/
def hasBody (d : Draft δ) : Bool :=
  (d.getter.toList ++ d.setter.toList).any fun body => !body.isEmpty

/-- The rules for a property. -/
def check (d : Draft δ) : Except DeclFault Unit := do
  if d.name.any fun name => !Identifier.isValid name then .error .badPropertyName
  if d.getter.isNone && d.setter.isNone then .error .noAccessor
  if d.modifiers.has .abstractKw && d.hasBody then .error .abstractAccessorBody
  if d.initializer.isSome && d.hasBody then .error .initializedBody
  if d.name.isSome && !d.parameters.isEmpty then .error .parametersOnProperty
  if d.name.isNone && d.parameters.isEmpty then .error .bareIndexer

/-- The finished property. -/
def build (d : Draft δ) : Except Error (Property δ) :=
  match d.error with
  | some e => .error e
  | none =>
    match d.check with
    | .error fault => .error (.construction d.subject fault)
    | .ok () => do
      let doc ← d.doc.build
      return ⟨d.name, d.type, doc, d.attributes, d.modifiers, d.parameters, d.getter, d.setter,
        d.initializer⟩

end Draft

/-- The draft that goes on from a property. -/
def toDraft (p : Property δ) : Draft δ where
  name := p.name
  type := p.type
  doc := p.doc.toDraft
  attributes := p.attributes
  modifiers := p.modifiers
  parameters := p.parameters
  getter := p.getter
  setter := p.setter
  initializer := p.initializer

end CSharpGen.Property
