/-
  CSharpGen/Emit/Stream.lean
  ==========================
  **What declarations and code are written as** — the instructions for every
  kind of declaration, for code blocks and for types.

  Two things are given from outside: the types whose static members may be
  written without their type (`statics`), and what a declaration embedded in
  code is written as (`emit`).  `TypeDecl.emission` folds the instructions of
  one layer over a whole declaration.
-/
import CSharpGen.Decl.Fold
import CSharpGen.Emit.Instruction
import CSharpGen.Text.Quoted

namespace CSharpGen

/-! ### Types -/

mutual

/-- The instructions for a type. -/
def TypeRef.stream : TypeRef → Stream
  | .builtIn b => [.text b.keyword]
  | .named c => [.reference c]
  | .generic raw args => .reference raw :: .text "<" :: (TypeRef.streamAll args ++ [.text ">"])
  | .array t => TypeRef.stream t ++ [.text "[]"]
  | .nullable t => TypeRef.stream t ++ [.text "?"]
  | .typeVariable name => [.text name]

/-- The instructions for some types with commas between them. -/
def TypeRef.streamAll : List TypeRef → Stream
  | [] => []
  | [t] => TypeRef.stream t
  | t :: u :: rest => TypeRef.stream t ++ .text ", " :: TypeRef.streamAll (u :: rest)

end

/-! ### Code -/

/-- What remains of the text behind a type whose static members need no type: the
    text without its leading dot, if an identifier follows the dot. -/
def staticMember? (statics : List ClassName) (c : ClassName) (rest : String) : Option String :=
  match rest.toList with
  | '.' :: first :: more =>
    if Identifier.startsWord first && statics.any (ClassName.same c) then
      some (String.ofList (first :: more))
    else none
  | _ => none

section Code

variable {δ : Type} (statics : List ClassName) (emit : δ → Stream)

mutual

/-- The instructions for a part. -/
def Part.stream : Part δ → Stream
  | .text s => [.text s]
  | .name s => [.text s]
  | .quoted (some s) => [.text (Text.quote s)]
  | .quoted none => [.text "null"]
  | .type t => t.stream
  | .block c => Code.stream c
  | .declaration d => emit d
  | .indent => [.indent]
  | .unindent => [.unindent]
  | .openStatement => [.openStatement]
  | .closeStatement => [.closeStatement]
  | .wrapSpace => [.wrapSpace]
  | .wrapPoint => [.wrapPoint]

/-- The instructions for a block. -/
def Code.stream : Code δ → Stream
  | ⟨parts, _⟩ => Part.streamAll parts

/-- The instructions for some parts in order.  A type directly before the access
    to one of its static members may be left out. -/
def Part.streamAll : List (Part δ) → Stream
  | [] => []
  | .type (.named c) :: .text rest :: more =>
    match staticMember? statics c rest with
    | some member => .text member :: Part.streamAll more
    | none => .reference c :: .text rest :: Part.streamAll more
  | p :: ps => Part.stream p ++ Part.streamAll ps

end

/-- The instructions for some streams with a comma and a breakable space between
    each two. -/
def commaSeparated : List Stream → Stream
  | [] => []
  | [s] => s
  | s :: t :: rest => s ++ .text "," :: .wrapSpace :: commaSeparated (t :: rest)

/-- The instructions for documentation; nothing for an empty block. -/
def Code.docStream (c : Code δ) : Stream :=
  if c.isEmpty then [] else .openDoc :: (c.stream statics emit ++ [.closeDoc])

/-- The instructions for a comment; nothing for an empty block. -/
def Code.commentStream (c : Code δ) : Stream :=
  if c.isEmpty then [] else .openComment :: (c.stream statics emit ++ [.closeComment])

/-- The instructions for a body in braces, behind the opening one. -/
def Code.bodyStream (c : Code δ) : Stream :=
  .indent :: (c.stream statics emit ++ [.unindent, .text "\x7d\n"])

/-! ### Pieces of declarations -/

/-- The instructions for an attribute. -/
def Attribute.stream (a : Attribute δ) : Stream :=
  let positional := a.arguments.map fun value => value.stream statics emit
  let named := a.named.map fun (name, value) =>
    .text name :: .text " = " :: value.stream statics emit
  let arguments := positional ++ named
  .text "[" :: (a.type.stream
    ++ (if arguments.isEmpty then [] else .text "(" :: (commaSeparated arguments ++ [.text ")"]))
    ++ [.text "]"])

/-- The instructions for some attributes, each with the text `sep` behind it. -/
def Attribute.streamAll (sep : String) (as : List (Attribute δ)) : Stream :=
  as.flatMap fun a => a.stream statics emit ++ [.text sep]

end Code

/-- The instructions for modifiers, without those that are implied. -/
def ModifierSet.stream (s : ModifierSet) (implied : List Modifier) : Stream :=
  (s.toList.filter fun m => !implied.contains m).flatMap fun m => [.text m.keyword, .text " "]

/-- The instructions for the names of type variables with commas between them. -/
def TypeVariable.streamNames : List TypeVariable → Stream
  | [] => []
  | [v] => [.text v.name]
  | v :: u :: rest => .text v.name :: .text ", " :: TypeVariable.streamNames (u :: rest)

/-- The instructions for a list of type variables. -/
def TypeVariable.streamList (vs : List TypeVariable) : Stream :=
  if vs.isEmpty then [] else .text "<" :: (TypeVariable.streamNames vs ++ [.text ">"])

/-- The instructions for the bounds of a type variable. -/
def TypeVariable.constraint (v : TypeVariable) : Stream :=
  if v.bounds.isEmpty then []
  else .text " where " :: .text v.name :: .text " : " :: TypeRef.streamAll v.bounds

/-- Run instructions with type variables in scope. -/
def withVariables (vs : List TypeVariable) (s : Stream) : Stream :=
  .enterVariables (vs.map TypeVariable.name) :: (s ++ [.leaveVariables])

/-- Run instructions inside a type declaration. -/
def withScope (name : Option String) (nested : List String) (s : Stream) : Stream :=
  .enterScope ⟨name, nested⟩ :: (s ++ [.leaveScope])

section Members

variable {δ : Type} (statics : List ClassName) (emit : δ → Stream)

/-- The instructions for a parameter. -/
def Parameter.stream (p : Parameter δ) : Stream :=
  Attribute.streamAll statics emit " " p.attributes ++ p.modifiers.stream [] ++ p.type.stream
    ++ [.text " ", .text p.name]
    ++ (match p.defaultValue with
      | some value => .text " = " :: value.stream statics emit
      | none => [])

/-- The instructions for some parameters. -/
def Parameter.streamAll (ps : List (Parameter δ)) : Stream :=
  commaSeparated (ps.map fun p => p.stream statics emit)

/-- The statement that declares a field.  Its initializer must not be a statement. -/
def Field.statementStream (x : Field δ) : Stream :=
  match x.initializer with
  | some value =>
    if value.opensStatement then [.refuse .nestedStatement]
    else .openStatement :: (x.type.stream ++ [.text " ", .text x.name, .text " = "]
      ++ value.stream statics emit ++ [.closeStatement])
  | none => .openStatement :: (x.type.stream ++ [.text " ", .text x.name, .closeStatement])

/-- The instructions for a field. -/
def Field.stream (x : Field δ) (implied : List Modifier) : Stream :=
  x.doc.docStream statics emit ++ Attribute.streamAll statics emit "\n" x.attributes
    ++ x.modifiers.stream implied ++ x.statementStream statics emit

/-! ### Methods -/

/-- Whether a member is abstract, by its own modifiers or by those implied. -/
def isAbstract (s : ModifierSet) (implied : List Modifier) : Bool :=
  s.has .abstractKw || (implied.contains .abstractKw && !s.has .staticKw)

/-- Modifiers, return type and name of a method.  A constructor has the name of
    the type around it. -/
def Method.headStream (m : Method δ) (enclosing : Option String) (implied : List Modifier) :
    Stream :=
  match m.form with
  | .constructor => m.modifiers.stream implied ++ [.text (enclosing.getD "Constructor")]
  | .conversion =>
    m.modifiers.stream implied
      ++ (if m.returns.isVoid then [.text (m.name.getD "")] else m.returns.stream)
  | .operator =>
    m.modifiers.stream (implied ++ [.operatorKw]) ++ m.returns.stream
      ++ [.text " operator ", .text (m.name.getD "")]
  | .ordinary =>
    m.modifiers.stream implied ++ m.returns.stream ++ [.text " ", .text (m.name.getD "")]
      ++ TypeVariable.streamList m.typeVariables

/-- Whether a method is written without its body. -/
def Method.isBodiless (m : Method δ) (implied : List Modifier) : Bool :=
  isAbstract m.modifiers implied || m.modifiers.has .externKw

/-- The instructions for a method. -/
def Method.stream (m : Method δ) (enclosing : Option String) (implied : List Modifier) : Stream :=
  withVariables m.typeVariables
    (m.doc.docStream statics emit ++ Attribute.streamAll statics emit "\n" m.attributes
      ++ m.headStream enclosing implied ++ [.text "("]
      ++ Parameter.streamAll statics emit m.parameters ++ [.text ")"]
      ++ (match m.chained with
        | some value => .text " : " :: value.stream statics emit
        | none => [])
      ++ m.typeVariables.flatMap TypeVariable.constraint
      ++ (if m.isBodiless implied then [.text ";\n"]
        else .text " \x7b\n" :: m.body.bodyStream statics emit))

/-! ### Properties -/

/-- The form in which the accessors of a property are written. -/
inductive AccessorForm (δ : Type) where
  /-- Auto-implemented accessors in braces on one line -/
  | auto
  /-- `=> expression;` for a getter alone -/
  | terse (expression : Code δ)
  /-- A list of accessors, each as short as it can be -/
  | listed

/-- The shortest form that keeps the meaning. -/
def Property.form (p : Property δ) (implied : List Modifier) : AccessorForm δ :=
  if isAbstract p.modifiers implied || p.isAuto then .auto
  else
    match p.setter, p.getter.bind Code.singleExpression? with
    | none, some expression => .terse expression
    | _, _ => .listed

/-- What stands behind the arrow of a property is the expression of its getter. -/
theorem Property.getter_of_terse (p : Property δ) {implied : List Modifier}
    {expression : Code δ} (h : p.form implied = .terse expression) :
    p.getter.bind Code.singleExpression? = some expression := by
  unfold Property.form at h
  split at h
  · cases h
  · split at h
    · next hsingle =>
      cases h
      exact hsingle
    · cases h

/-- An expression behind an arrow. -/
def Code.arrowStream (c : Code δ) : Stream :=
  .text " => " :: (c.stream statics emit ++ [.text ";\n"])

/-- One accessor of a list: auto-implemented, an expression or a body. -/
def accessorStream (keyword : String) (body : Code δ) : Stream :=
  .text keyword ::
    (if body.isEmpty then [.text ";\n"]
    else
      match body.singleExpression? with
      | some expression => expression.arrowStream statics emit
      | none => .text " \x7b\n" :: body.bodyStream statics emit)

/-- The accessors of a property, and what follows them. -/
def Property.accessorsStream (p : Property δ) (implied : List Modifier) : Stream :=
  match p.form implied with
  | .auto =>
    .text " \x7b" :: ((p.accessors.flatMap fun (keyword, _) =>
        [.text " ", .text keyword, .text ";"]) ++ [.text " \x7d"]
      ++ (match p.initializer with
        | some value => .text " = " :: (value.stream statics emit ++ [.text ";"])
        | none => [])
      ++ [.text "\n"])
  | .terse expression => expression.arrowStream statics emit
  | .listed =>
    .text " \x7b\n" :: .indent :: ((p.accessors.flatMap fun (keyword, body) =>
      accessorStream statics emit keyword body) ++ [.unindent, .text "\x7d\n"])

/-- The instructions for a property. -/
def Property.stream (p : Property δ) (implied : List Modifier) : Stream :=
  p.doc.docStream statics emit ++ Attribute.streamAll statics emit "\n" p.attributes
    ++ p.modifiers.stream implied ++ p.type.stream ++ [.text " ", .text p.title]
    ++ (if p.isIndexer then
        .text "[" :: (Parameter.streamAll statics emit p.parameters ++ [.text "]"])
      else [])
    ++ p.accessorsStream statics emit implied

end Members

/-! ### Types -/

/-- How a type declaration is written, by where it stands. -/
structure Emission where
  name : Option String
  /-- As the value of the enum constant of the given name. -/
  constant : String → Stream
  /-- As a declaration or an expression, without the modifiers implied. -/
  member : List Modifier → Stream

section Types

variable (statics : List ClassName)

/-- A declaration embedded in code has no implied modifiers. -/
def Emission.embedded (e : Emission) : Stream := e.member []

/-- Members with an empty line between each two. -/
def separated : List Stream → Stream
  | [] => []
  | [s] => s
  | s :: t :: rest => s ++ .text "\n" :: separated (t :: rest)

/-- The supertypes behind the name of a type. -/
def supertypesStream : List TypeRef → Stream
  | [] => []
  | ts => .text " : " :: TypeRef.streamAll ts

/-- The enum constants with a comma and a line end between each two. -/
def constantsStream : Table Emission → Stream
  | [] => []
  | [(name, value)] => value.constant name
  | (name, value) :: next :: rest =>
    value.constant name ++ .text ",\n" :: constantsStream (next :: rest)

namespace Declaration

/-- An enum constant: its name and, if there is one, its value. -/
def constantStream (d : Declaration Emission) (name : String) : Stream :=
  d.doc.docStream statics Emission.embedded
    ++ Attribute.streamAll statics Emission.embedded "\n" d.attributes ++ [.text name]
    ++ (match d.identity with
      | .anonymous value =>
        if value.isEmpty then [] else .text " = " :: value.stream statics Emission.embedded
      | .named .. => [])

/-- The type that an anonymous type extends or implements. -/
def base (d : Declaration Emission) : TypeRef :=
  match d.interfaces with
  | first :: _ => first
  | [] => d.superclass.getD .object

/-- What stands before the members of a type.  The types nested in it are not
    visible in its header. -/
def headStream (d : Declaration Emission) (implied : List Modifier) : Stream :=
  match d.identity with
  | .anonymous arguments =>
    .text "new " :: (d.base.stream ++ .text "(" :: (arguments.stream statics Emission.embedded
      ++ [.text ") \x7b\n"]))
  | .named kind name =>
    withScope (some name) []
      (d.doc.docStream statics Emission.embedded
        ++ Attribute.streamAll statics Emission.embedded "\n" d.attributes
        ++ d.modifiers.stream (implied ++ kind.impliedAsMember)
        ++ [.text kind.keyword, .text " ", .text name]
        ++ TypeVariable.streamList d.typeVariables ++ supertypesStream d.supertypes
        ++ d.typeVariables.flatMap TypeVariable.constraint ++ [.text " \x7b\n"])

/-- The members of a type in the order in which they are written: constants, static
    fields, static constructor, instance fields, initializer block, methods,
    properties, free-form code and nested types. -/
def members (d : Declaration Emission) : List Stream :=
  let fields := fun xs : List (Field Emission) =>
    xs.map fun x => x.stream statics Emission.embedded d.kind.impliedOnFields
  (if d.constants.isEmpty then [] else [constantsStream d.constants ++ [.text "\n"]])
    ++ fields (d.fields.filter Field.isStatic)
    ++ (if d.staticBlock.isEmpty then []
      else [.text "static " :: .text (d.name?.getD "") :: .text "() \x7b\n"
        :: d.staticBlock.bodyStream statics Emission.embedded])
    ++ fields (d.fields.filter fun x => !x.isStatic)
    ++ (if d.initializerBlock.isEmpty then []
      else [.text "\x7b\n" :: d.initializerBlock.bodyStream statics Emission.embedded])
    ++ d.methods.map (fun m =>
      m.stream statics Emission.embedded d.name? d.kind.impliedOnMethods)
    ++ d.properties.map (fun p => p.stream statics Emission.embedded d.kind.impliedOnMethods)
    ++ d.extras.map (fun c => c.stream statics Emission.embedded)
    ++ d.types.map fun t => t.member d.kind.impliedOnTypes

/-- The instructions for a type declaration. -/
def stream (d : Declaration Emission) (implied : List Modifier) : Stream :=
  d.headStream statics implied
    ++ withScope d.name? (d.types.filterMap Emission.name)
      (.indent :: separated (d.members statics))
    ++ [.unindent, .text "\x7d"] ++ (if d.isAnonymous then [] else [.text "\n"])

/-- Instructions inside a type declaration: the open statement is put aside, so that
    the declaration does not inherit its indentation. -/
def framed (d : Declaration Emission) (s : Stream) : Stream :=
  .suspendStatement :: (withVariables d.typeVariables s ++ [.resumeStatement])

/-- How one layer is written. -/
def emission (d : Declaration Emission) : Emission where
  name := d.name?
  constant := fun name => d.framed (d.constantStream statics name)
  member := fun implied => d.framed (d.stream statics implied)

end Declaration

/-- How a type declaration is written. -/
def TypeDecl.emission : TypeDecl → Emission := TypeDecl.fold (Declaration.emission statics)

/-- The instructions for a type declaration on its own or embedded in code. -/
def TypeDecl.stream (t : TypeDecl) : Stream := (t.emission statics).member []

end Types

end CSharpGen
