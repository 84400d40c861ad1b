/-
  CSharpGen/Decl/Type.lean
  ========================
  **Drafts of types** — members are checked against the kind of the type as they
  are attached, and a member that breaks a rule is left out; what concerns the
  type as a whole is checked when it is built.  The first error is reported.
-/
import CSharpGen.Code.Draft
import CSharpGen.Decl.Basic
import CSharpGen.Table

namespace CSharpGen

/-- What a declaration is called in messages. -/
def Identity.subject {δ : Type} : Identity δ → Subject
  | .named kind name => .type kind name
  | .anonymous _ => .anonymous

namespace TypeDecl

/-- A type declaration in the making. -/
structure Draft where
  identity : Identity TypeDecl
  doc : Code.Draft TypeDecl := {}
  attributes : List (Attribute TypeDecl) := []
  modifiers : ModifierSet := .empty
  typeVariables : List TypeVariable := []
  superclass : Option TypeRef := none
  interfaces : List TypeRef := []
  constants : Table TypeDecl := []
  fields : List (Field TypeDecl) := []
  staticBlock : Code.Draft TypeDecl := {}
  initializerBlock : Code.Draft TypeDecl := {}
  methods : List (Method TypeDecl) := []
  properties : List (Property TypeDecl) := []
  extras : List (Code TypeDecl) := []
  types : List TypeDecl := []
  origins : List String := []
  /-- The first error. -/
  error : Option Error := none

/-- An edit of a type declaration. -/
inductive Edit where
  | addDoc (format : String) (args : List (Argument TypeDecl))
  | addAttribute (attr : Attribute TypeDecl)
  | addModifiers (modifiers : List Modifier)
  | addTypeVariable (v : TypeVariable)
  | superclass (type : TypeRef)
  | addInterface (type : TypeRef)
  /-- An enum constant without a value. -/
  | addConstant (name : String)
  /-- An enum constant whose value is the arguments of an anonymous type. -/
  | addConstantWith (name : String) (value : TypeDecl)
  | addField (field : Field TypeDecl)
  | addStaticBlock (code : Code TypeDecl)
  | addInitializerBlock (code : Code TypeDecl)
  | addMethod (method : Method TypeDecl)
  | addProperty (property : Property TypeDecl)
  | addCode (code : Code TypeDecl)
  | addType (type : TypeDecl)
  | addOrigin (handle : String)

/-- The anonymous type without arguments and members. -/
def blank : TypeDecl :=
  .of ⟨.anonymous .empty, .empty, [], .empty, [], none, [], [], [], .empty, .empty, [], [], [],
    [], []⟩

/-- Whether the declaration has fields, methods, properties or nested types. -/
def hasMembers (t : TypeDecl) : Bool :=
  !t.layer.fields.isEmpty || !t.layer.methods.isEmpty || !t.layer.properties.isEmpty
    || !t.layer.types.isEmpty

namespace Draft

/-! ### Opening a draft -/

/-- A named type. -/
def named (kind : TypeKind) (name : String) : Draft := { identity := .named kind name }

/-- An anonymous type, written `new Base(arguments)` with a body, or as the value of an
    enum constant by its arguments alone. -/
def anonymous (format : String) (args : List (Argument TypeDecl)) : Draft :=
  match Code.ofFormat format args with
  | .ok arguments => { identity := .anonymous arguments }
  | .error e => { identity := .anonymous .empty, error := some e }

/-! ### Attaching -/

/-- Record a broken rule, unless there is an earlier error. -/
def fail (d : Draft) (fault : DeclFault) : Draft :=
  { d with error := some (d.error.getD (.construction d.identity.subject fault)) }

/-- Attach a base class. -/
def setSuperclass (d : Draft) (type : TypeRef) : Draft :=
  if !d.identity.kind.allowsSuperclass then d.fail (.superclassNotAllowed type)
  else
    match d.superclass with
    | some existing => d.fail (.superclassTwice existing)
    | none =>
      if type.isBuiltIn then d.fail (.superclassBuiltIn type)
      else { d with superclass := some type }

/-- What is wrong with an enum constant of the given name and value. -/
def constantFault? (d : Draft) (name : String) (value : TypeDecl) : Option ConstantFault :=
  if d.identity.kind ≠ .enumKind then some .notInEnum
  else if !Identifier.isValid name then some .badName
  else if !value.layer.isAnonymous then some .namedValue
  else if value.hasMembers then some .hasMembers
  else none

/-- Attach an enum constant; one of the same name is replaced. -/
def putConstant (d : Draft) (name : String) (value : TypeDecl) : Draft :=
  match d.constantFault? name value with
  | some fault => d.fail (.constant name fault)
  | none => { d with constants := d.constants.put name value }

/-- Attach a method or a constructor. -/
def attachMethod (d : Draft) (m : Method TypeDecl) : Draft :=
  match d.identity.kind.checkMember .method m.modifiers with
  | .error fault => d.fail (.member .method m.label fault)
  | .ok () =>
    if m.isConstructor && !d.identity.kind.isClassLike then
      d.fail (.constructorNotAllowed d.identity.kind)
    else { d with methods := d.methods ++ [m] }

/-- Attach a nested type, with the handles it was made from. -/
def attachType (d : Draft) (t : TypeDecl) : Draft :=
  if t.layer.isAnonymous then d.fail .nestedAnonymous
  else
    match d.identity.kind.checkMember .type t.layer.modifiers with
    | .error fault => d.fail (.nestedMember t.layer.identity.subject fault)
    | .ok () => { d with origins := d.origins ++ t.layer.origins, types := d.types ++ [t] }

/-- The draft after an edit. -/
def apply (d : Draft) : Edit → Draft
  | .addDoc format args => { d with doc := d.doc.add format args }
  | .addAttribute a => { d with attributes := d.attributes ++ [a] }
  | .addModifiers ms =>
    if d.identity.isAnonymous then d.fail .anonymousModifiers
    else { d with modifiers := d.modifiers.addAll ms }
  | .addTypeVariable v =>
    if d.identity.isAnonymous then d.fail .anonymousVariables
    else { d with typeVariables := d.typeVariables ++ [v] }
  | .superclass type => d.setSuperclass type
  | .addInterface type => { d with interfaces := d.interfaces ++ [type] }
  | .addConstant name => d.putConstant name blank
  | .addConstantWith name value => d.putConstant name value
  | .addField x =>
    match d.identity.kind.checkMember .field x.modifiers with
    | .error fault => d.fail (.member .field x.name fault)
    | .ok () => { d with fields := d.fields ++ [x] }
  | .addStaticBlock code =>
    if !d.identity.kind.isClassLike || d.identity.isAnonymous then d.fail .staticBlockNotAllowed
    else { d with staticBlock := d.staticBlock.addCode code }
  | .addInitializerBlock code =>
    if d.identity.kind.allowsInitializerBlock then
      { d with initializerBlock := d.initializerBlock.addCode code }
    else d.fail (.initializerBlockNotAllowed d.identity.kind)
  | .addMethod m => d.attachMethod m
  | .addProperty p =>
    match d.identity.kind.checkMember .property p.modifiers with
    | .error fault => d.fail (.member .property p.title fault)
    | .ok () => { d with properties := d.properties ++ [p] }
  | .addCode code => { d with extras := d.extras ++ [code] }
  | .addType t => d.attachType t
  | .addOrigin handle => { d with origins := d.origins ++ [handle] }

/-- The draft after some edits in order. -/
def applyAll (d : Draft) (edits : List Edit) : Draft := edits.foldl apply d

/-! ### Building -/

/-- The first abstract method or, without one, the first abstract property. -/
def abstractMember? (d : Draft) : Option String :=
  match d.methods.find? fun m => m.modifiers.has .abstractKw with
  | some m => some m.label
  | none => (d.properties.find? fun p => p.modifiers.has .abstractKw).map Property.title

/-- The rules for the type as a whole. -/
def check (d : Draft) : Except DeclFault Unit := do
  if let some name := d.identity.name? then
    if !Identifier.isValid name then .error (.badIdentifier name)
  if d.identity.kind = .enumKind && d.constants.isEmpty then .error .emptyEnum
  if d.identity.kind.isConcreteByDefault && !d.modifiers.has .abstractKw then
    if let some label := d.abstractMember? then .error (.abstractMember label)
  if d.identity.isAnonymous && 1 < d.superclass.toList.length + d.interfaces.length then
    .error .manySupertypes

/-- The finished type. -/
def build (d : Draft) : Except Error TypeDecl :=
  match d.error with
  | some e => .error e
  | none =>
    match d.check with
    | .error fault => .error (.construction d.identity.subject fault)
    | .ok () => do
      let doc ← d.doc.build
      let staticBlock ← d.staticBlock.build
      let initializerBlock ← d.initializerBlock.build
      return .of ⟨d.identity, doc, d.attributes, d.modifiers, d.typeVariables, d.superclass,
        d.interfaces, d.constants, d.fields, staticBlock, initializerBlock, d.methods,
        d.properties, d.extras, d.types, d.origins⟩

end Draft

/-- The draft that goes on from a type. -/
def toDraft (t : TypeDecl) : Draft where
  identity := t.layer.identity
  doc := t.layer.doc.toDraft
  attributes := t.layer.attributes
  modifiers := t.layer.modifiers
  typeVariables := t.layer.typeVariables
  superclass := t.layer.superclass
  interfaces := t.layer.interfaces
  constants := t.layer.constants
  fields := t.layer.fields
  staticBlock := t.layer.staticBlock.toDraft
  initializerBlock := t.layer.initializerBlock.toDraft
  methods := t.layer.methods
  properties := t.layer.properties
  extras := t.layer.extras
  types := t.layer.types
  origins := t.layer.origins

end TypeDecl

end CSharpGen
