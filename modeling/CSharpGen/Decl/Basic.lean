/-
  CSharpGen/Decl/Basic.lean
  =========================
  **Declarations** — attributes, parameters, fields, methods, properties and
  types, as data.

  Each of them is generic in the type `δ` of the type declarations inside it
  (nested types, values of enum constants, declarations used in code).
  `Declaration δ` is one layer of a type declaration, and `TypeDecl` has that
  layer all the way down, so that most functions on declarations are plain
  functions on one layer without recursion of their own.
-/
import CSharpGen.Code.Basic
import CSharpGen.Kind

namespace CSharpGen

/-! ### The layers -/

/-- An attribute as it is applied, `[Obsolete("use Bar", DiagnosticId = "X1")]`. -/
structure Attribute (δ : Type) where
  type : TypeRef
  arguments : List (Code δ)
  named : List (String × Code δ)

/-- A parameter of a method, constructor, operator or indexer. -/
structure Parameter (δ : Type) where
  name : String
  type : TypeRef
  modifiers : ModifierSet
  attributes : List (Attribute δ)
  defaultValue : Option (Code δ)

/-- A field. -/
structure Field (δ : Type) where
  name : String
  type : TypeRef
  doc : Code δ
  attributes : List (Attribute δ)
  modifiers : ModifierSet
  initializer : Option (Code δ)

/-- A method, an operator or, without a name, a constructor. -/
structure Method (δ : Type) where
  name : Option String
  doc : Code δ
  attributes : List (Attribute δ)
  modifiers : ModifierSet
  typeVariables : List TypeVariable
  returns : TypeRef
  parameters : List (Parameter δ)
  body : Code δ
  /-- The constructor this one chains to, `base(...)` or `this(...)`. -/
  chained : Option (Code δ)

/-- A property or, without a name, an indexer.  An accessor is missing, empty when
    it is auto-implemented, or has a body. -/
structure Property (δ : Type) where
  name : Option String
  type : TypeRef
  doc : Code δ
  attributes : List (Attribute δ)
  modifiers : ModifierSet
  parameters : List (Parameter δ)
  getter : Option (Code δ)
  setter : Option (Code δ)
  initializer : Option (Code δ)

/-- What a type declaration is: named, or anonymous with the arguments of the
    constructor it calls. -/
inductive Identity (δ : Type) where
  | named (kind : TypeKind) (name : String)
  | anonymous (arguments : Code δ)

/-- One layer of a type declaration. -/
structure Declaration (δ : Type) where
  identity : Identity δ
  doc : Code δ
  attributes : List (Attribute δ)
  modifiers : ModifierSet
  typeVariables : List TypeVariable
  superclass : Option TypeRef
  interfaces : List TypeRef
  /-- The enum constants, each with the anonymous type that gives its value. -/
  constants : List (String × δ)
  fields : List (Field δ)
  staticBlock : Code δ
  initializerBlock : Code δ
  methods : List (Method δ)
  properties : List (Property δ)
  /-- Free-form code behind the properties. -/
  extras : List (Code δ)
  types : List δ
  /-- Handles of whatever the declaration was made from; never written. -/
  origins : List String

/-- A type declaration. -/
inductive TypeDecl where
  | of (layer : Declaration TypeDecl)

/-- The outermost layer of a type declaration. -/
def TypeDecl.layer : TypeDecl → Declaration TypeDecl
  | .of d => d

/-! ### Reading declarations -/

section Read

variable {δ : Type}

/-- Whether the field is emitted before the instance fields. -/
def Field.isStatic (x : Field δ) : Bool := x.modifiers.has .staticKw || x.modifiers.has .constKw

/-- The form of a method declaration. -/
inductive MethodForm where
  /-- `T Name(...)` -/
  | ordinary
  /-- `Name(...)`, named after the enclosing type -/
  | constructor
  /-- `T operator +(...)` -/
  | operator
  /-- `explicit operator T(...)` or `implicit operator T(...)` -/
  | conversion
  deriving DecidableEq, Repr

namespace Method

/-- Whether the method is a constructor. -/
def isConstructor (m : Method δ) : Bool := m.name.isNone

/-- The form in which the method is declared. -/
def form (m : Method δ) : MethodForm :=
  if m.isConstructor then .constructor
  else if m.modifiers.has .explicitKw || m.modifiers.has .implicitKw then .conversion
  else if m.modifiers.has .operatorKw then .operator
  else .ordinary

/-- How the method is called in messages. -/
def label (m : Method δ) : String := m.name.getD "constructor"

end Method

namespace Property

/-- Whether the property is an indexer. -/
def isIndexer (p : Property δ) : Bool := p.name.isNone

/-- The name as it is written. -/
def title (p : Property δ) : String := p.name.getD "this"

/-- The accessors that are there, each with its keyword. -/
def accessors (p : Property δ) : List (String × Code δ) :=
  (p.getter.toList.map fun body => ("get", body))
    ++ p.setter.toList.map fun body => ("set", body)

/-- Whether no accessor has a body. -/
def isAuto (p : Property δ) : Bool := p.accessors.all fun (_, body) => body.isEmpty

end Property

namespace Identity

/-- The kind of the declaration; an anonymous type is a class. -/
def kind : Identity δ → TypeKind
  | .named kind _ => kind
  | .anonymous _ => .classKind

/-- The name of the declaration, if it has one. -/
def name? : Identity δ → Option String
  | .named _ name => some name
  | .anonymous _ => none

/-- The constructor arguments of an anonymous type. -/
def arguments? : Identity δ → Option (Code δ)
  | .named .. => none
  | .anonymous arguments => some arguments

/-- Whether the declaration is anonymous. -/
def isAnonymous (i : Identity δ) : Bool := i.name?.isNone

end Identity

namespace Declaration

/-- The kind of the declaration. -/
def kind (d : Declaration δ) : TypeKind := d.identity.kind

/-- The name of the declaration, if it has one. -/
def name? (d : Declaration δ) : Option String := d.identity.name?

/-- Whether the declaration is anonymous. -/
def isAnonymous (d : Declaration δ) : Bool := d.identity.isAnonymous

/-- The types after the colon in the header.  An attribute type without a base
    class derives from `System.Attribute`. -/
def supertypes (d : Declaration δ) : List TypeRef :=
  match d.superclass, d.kind with
  | some superclass, _ => superclass :: d.interfaces
  | none, .attributeKind => .named (.topLevel "System" "Attribute") :: d.interfaces
  | none, _ => d.interfaces

end Declaration

end Read

end CSharpGen
