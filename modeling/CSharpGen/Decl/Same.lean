/-
  CSharpGen/Decl/Same.lean
  ========================
  **When two declarations are the same** — they agree field by field, except
  that named types are compared by canonical name, type variables by name, and
  named arguments and enum constants without regard to their order.

  On one layer the relation is given what "the same" means for the declarations
  inside; `TypeDecl.same` is the fold of that.
-/
import CSharpGen.Decl.Fold
import CSharpGen.Table

namespace CSharpGen

section Same

variable {α β : Type} (r : α → β → Bool)

mutual

/-- Whether two parts are the same. -/
def Part.same : Part α → Part β → Bool
  | .text a, .text b => a == b
  | .name a, .name b => a == b
  | .quoted a, .quoted b => a == b
  | .type a, .type b => a.same b
  | .block a, .block b => Code.same a b
  | .declaration a, .declaration b => r a b
  | .indent, .indent => true
  | .unindent, .unindent => true
  | .openStatement, .openStatement => true
  | .closeStatement, .closeStatement => true
  | .wrapSpace, .wrapSpace => true
  | .wrapPoint, .wrapPoint => true
  | _, _ => false

/-- Whether two blocks are the same. -/
def Code.same : Code α → Code β → Bool
  | ⟨as, m⟩, ⟨bs, n⟩ => Part.sameAll as bs && m == n

/-- Whether two lists of parts are the same one by one. -/
def Part.sameAll : List (Part α) → List (Part β) → Bool
  | [], [] => true
  | a :: as, b :: bs => Part.same a b && Part.sameAll as bs
  | _, _ => false

end

/-- Whether two attributes are the same. -/
def Attribute.same (a : Attribute α) (b : Attribute β) : Bool :=
  a.type.same b.type && sameList (Code.same r) a.arguments b.arguments
    && Table.same (Code.same r) a.named b.named

/-- Whether two parameters are the same. -/
def Parameter.same (a : Parameter α) (b : Parameter β) : Bool :=
  a.name == b.name && a.type.same b.type && a.modifiers.same b.modifiers
    && sameList (Attribute.same r) a.attributes b.attributes
    && sameOption (Code.same r) a.defaultValue b.defaultValue

/-- Whether two fields are the same. -/
def Field.same (a : Field α) (b : Field β) : Bool :=
  a.name == b.name && a.type.same b.type && Code.same r a.doc b.doc
    && sameList (Attribute.same r) a.attributes b.attributes && a.modifiers.same b.modifiers
    && sameOption (Code.same r) a.initializer b.initializer

/-- Whether two lists of type variables have the same names. -/
def sameVariables (as bs : List TypeVariable) : Bool :=
  as.map TypeVariable.name == bs.map TypeVariable.name

/-- Whether two methods are the same. -/
def Method.same (a : Method α) (b : Method β) : Bool :=
  a.name == b.name && Code.same r a.doc b.doc
    && sameList (Attribute.same r) a.attributes b.attributes && a.modifiers.same b.modifiers
    && sameVariables a.typeVariables b.typeVariables && a.returns.same b.returns
    && sameList (Parameter.same r) a.parameters b.parameters && Code.same r a.body b.body
    && sameOption (Code.same r) a.chained b.chained

/-- Whether two properties are the same. -/
def Property.same (a : Property α) (b : Property β) : Bool :=
  a.name == b.name && a.type.same b.type && Code.same r a.doc b.doc
    && sameList (Attribute.same r) a.attributes b.attributes && a.modifiers.same b.modifiers
    && sameList (Parameter.same r) a.parameters b.parameters
    && sameOption (Code.same r) a.getter b.getter && sameOption (Code.same r) a.setter b.setter
    && sameOption (Code.same r) a.initializer b.initializer

/-- Whether two declarations are of the same kind and have the same name, or are
    both anonymous with the same arguments. -/
def Identity.same : Identity α → Identity β → Bool
  | .named k m, .named l n => k == l && m == n
  | .anonymous a, .anonymous b => Code.same r a b
  | _, _ => false

/-- Whether two layers are the same. -/
def Declaration.same (a : Declaration α) (b : Declaration β) : Bool :=
  a.identity.same r b.identity && Code.same r a.doc b.doc
    && sameList (Attribute.same r) a.attributes b.attributes && a.modifiers.same b.modifiers
    && sameVariables a.typeVariables b.typeVariables
    && sameOption TypeRef.same a.superclass b.superclass
    && sameList TypeRef.same a.interfaces b.interfaces
    && Table.same r a.constants b.constants && sameList (Field.same r) a.fields b.fields
    && Code.same r a.staticBlock b.staticBlock
    && Code.same r a.initializerBlock b.initializerBlock
    && sameList (Method.same r) a.methods b.methods
    && sameList (Property.same r) a.properties b.properties
    && sameList (Code.same r) a.extras b.extras && sameList r a.types b.types
    && a.origins == b.origins

end Same

/-- Whether two type declarations are the same. -/
def TypeDecl.same : TypeDecl → TypeDecl → Bool :=
  TypeDecl.fold fun d t => d.same (fun inner u => inner u) t.layer

end CSharpGen
