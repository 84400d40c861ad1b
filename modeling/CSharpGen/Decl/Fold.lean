/-
  CSharpGen/Decl/Fold.lean
  ========================
  **Working through all layers of a declaration** — a function on type
  declarations says what to do with one layer whose inner declarations have
  been dealt with (`step : Declaration β → β`); `TypeDecl.fold` does the rest,
  from the innermost layers outwards, and `TypeDecl.fold_of` is its law.

  This is the only recursion through type declarations.
-/
import CSharpGen.Decl.Basic

namespace CSharpGen

/-! ### Replacing the inner declarations of one layer -/

section Map

variable {α β : Type} (f : α → β)

/-- Replace every declaration in the arguments of an attribute. -/
def Attribute.map (a : Attribute α) : Attribute β where
  type := a.type
  arguments := a.arguments.map (Code.map f)
  named := a.named.map fun (name, value) => (name, value.map f)

/-- Replace every declaration in the code of a parameter. -/
def Parameter.map (p : Parameter α) : Parameter β where
  name := p.name
  type := p.type
  modifiers := p.modifiers
  attributes := p.attributes.map (Attribute.map f)
  defaultValue := p.defaultValue.map (Code.map f)

/-- Replace every declaration in the code of a field. -/
def Field.map (x : Field α) : Field β where
  name := x.name
  type := x.type
  doc := x.doc.map f
  attributes := x.attributes.map (Attribute.map f)
  modifiers := x.modifiers
  initializer := x.initializer.map (Code.map f)

/-- Replace every declaration in the code of a method. -/
def Method.map (m : Method α) : Method β where
  name := m.name
  doc := m.doc.map f
  attributes := m.attributes.map (Attribute.map f)
  modifiers := m.modifiers
  typeVariables := m.typeVariables
  returns := m.returns
  parameters := m.parameters.map (Parameter.map f)
  body := m.body.map f
  chained := m.chained.map (Code.map f)

/-- Replace every declaration in the code of a property. -/
def Property.map (p : Property α) : Property β where
  name := p.name
  type := p.type
  doc := p.doc.map f
  attributes := p.attributes.map (Attribute.map f)
  modifiers := p.modifiers
  parameters := p.parameters.map (Parameter.map f)
  getter := p.getter.map (Code.map f)
  setter := p.setter.map (Code.map f)
  initializer := p.initializer.map (Code.map f)

/-- Replace every declaration in the arguments of an anonymous type. -/
def Identity.map : Identity α → Identity β
  | .named kind name => .named kind name
  | .anonymous arguments => .anonymous (arguments.map f)

/-- Replace every inner declaration of a layer. -/
def Declaration.map (d : Declaration α) : Declaration β where
  identity := d.identity.map f
  doc := d.doc.map f
  attributes := d.attributes.map (Attribute.map f)
  modifiers := d.modifiers
  typeVariables := d.typeVariables
  superclass := d.superclass
  interfaces := d.interfaces
  constants := d.constants.map fun (name, value) => (name, f value)
  fields := d.fields.map (Field.map f)
  staticBlock := d.staticBlock.map f
  initializerBlock := d.initializerBlock.map f
  methods := d.methods.map (Method.map f)
  properties := d.properties.map (Property.map f)
  extras := d.extras.map (Code.map f)
  types := d.types.map f
  origins := d.origins

end Map

/-! ### Folding over all layers

The companions of `TypeDecl.fold` walk through the data a layer is made of; each
is the `map` of its type at the fold itself, which is all that the law says. -/

namespace TypeDecl

variable {β : Type} (step : Declaration β → β)

mutual

/-- Deal with a declaration from the innermost layers outwards. -/
def fold : TypeDecl → β
  | .of d => step (foldLayer d)

/-- Deal with the inner declarations of one layer. -/
def foldLayer : Declaration TypeDecl → Declaration β
  | ⟨identity, doc, attributes, modifiers, typeVariables, superclass, interfaces, constants,
      fields, staticBlock, initializerBlock, methods, properties, extras, types, origins⟩ =>
    ⟨foldIdentity identity, foldCode doc, foldAttributes attributes, modifiers, typeVariables,
      superclass, interfaces, foldConstants constants, foldFields fields, foldCode staticBlock,
      foldCode initializerBlock, foldMethods methods, foldProperties properties,
      foldCodes extras, foldTypes types, origins⟩

/-- Deal with the declarations in the arguments of an anonymous type. -/
def foldIdentity : Identity TypeDecl → Identity β
  | .named kind name => .named kind name
  | .anonymous arguments => .anonymous (foldCode arguments)

/-- Deal with the declarations in a block. -/
def foldCode : Code TypeDecl → Code β
  | ⟨parts, statements⟩ => ⟨foldParts parts, statements⟩

/-- Deal with the declarations in some parts. -/
def foldParts : List (Part TypeDecl) → List (Part β)
  | [] => []
  | p :: ps => foldPart p :: foldParts ps

/-- Deal with the declarations in a part. -/
def foldPart : Part TypeDecl → Part β
  | .text s => .text s
  | .name s => .name s
  | .quoted s => .quoted s
  | .type t => .type t
  | .block c => .block (foldCode c)
  | .declaration d => .declaration (fold d)
  | .indent => .indent
  | .unindent => .unindent
  | .openStatement => .openStatement
  | .closeStatement => .closeStatement
  | .wrapSpace => .wrapSpace
  | .wrapPoint => .wrapPoint

/-- Deal with the declarations in some blocks. -/
def foldCodes : List (Code TypeDecl) → List (Code β)
  | [] => []
  | c :: cs => foldCode c :: foldCodes cs

/-- Deal with the declarations in an optional block. -/
def foldOptional : Option (Code TypeDecl) → Option (Code β)
  | none => none
  | some c => some (foldCode c)

/-- Deal with the declarations in named arguments. -/
def foldNamed : List (String × Code TypeDecl) → List (String × Code β)
  | [] => []
  | (name, c) :: cs => (name, foldCode c) :: foldNamed cs

/-- Deal with the declarations in some attributes. -/
def foldAttributes : List (Attribute TypeDecl) → List (Attribute β)
  | [] => []
  | ⟨type, arguments, named⟩ :: rest =>
    ⟨type, foldCodes arguments, foldNamed named⟩ :: foldAttributes rest

/-- Deal with the declarations in some parameters. -/
def foldParameters : List (Parameter TypeDecl) → List (Parameter β)
  | [] => []
  | ⟨name, type, modifiers, attributes, defaultValue⟩ :: rest =>
    ⟨name, type, modifiers, foldAttributes attributes, foldOptional defaultValue⟩
      :: foldParameters rest

/-- Deal with the declarations in some fields. -/
def foldFields : List (Field TypeDecl) → List (Field β)
  | [] => []
  | ⟨name, type, doc, attributes, modifiers, initializer⟩ :: rest =>
    ⟨name, type, foldCode doc, foldAttributes attributes, modifiers, foldOptional initializer⟩
      :: foldFields rest

/-- Deal with the declarations in some methods. -/
def foldMethods : List (Method TypeDecl) → List (Method β)
  | [] => []
  | ⟨name, doc, attributes, modifiers, typeVariables, returns, parameters, body, chained⟩
      :: rest =>
    ⟨name, foldCode doc, foldAttributes attributes, modifiers, typeVariables, returns,
      foldParameters parameters, foldCode body, foldOptional chained⟩ :: foldMethods rest

/-- Deal with the declarations in some properties. -/
def foldProperties : List (Property TypeDecl) → List (Property β)
  | [] => []
  | ⟨name, type, doc, attributes, modifiers, parameters, getter, setter, initializer⟩ :: rest =>
    ⟨name, type, foldCode doc, foldAttributes attributes, modifiers, foldParameters parameters,
      foldOptional getter, foldOptional setter, foldOptional initializer⟩ :: foldProperties rest

/-- Deal with the values of enum constants. -/
def foldConstants : List (String × TypeDecl) → List (String × β)
  | [] => []
  | (name, value) :: rest => (name, fold value) :: foldConstants rest

/-- Deal with nested types. -/
def foldTypes : List TypeDecl → List β
  | [] => []
  | t :: ts => fold t :: foldTypes ts

end

/-! ### The law of the fold -/

mutual

theorem foldCode_eq_map : ∀ c : Code TypeDecl, foldCode step c = c.map (fold step)
  | ⟨parts, statements⟩ => by simp [foldCode, Code.map, foldParts_eq_map parts]

theorem foldParts_eq_map :
    ∀ ps : List (Part TypeDecl), foldParts step ps = Part.mapAll (fold step) ps
  | [] => by simp [foldParts, Part.mapAll]
  | p :: ps => by simp [foldParts, Part.mapAll, foldPart_eq_map p, foldParts_eq_map ps]

theorem foldPart_eq_map : ∀ p : Part TypeDecl, foldPart step p = p.map (fold step)
  | .text _ | .name _ | .quoted _ | .type _ | .declaration _ => by simp [foldPart, Part.map]
  | .block c => by simp [foldPart, Part.map, foldCode_eq_map c]
  | .indent | .unindent | .openStatement | .closeStatement | .wrapSpace | .wrapPoint => by
    simp [foldPart, Part.map]

end

theorem foldIdentity_eq_map (i : Identity TypeDecl) :
    foldIdentity step i = i.map (fold step) := by
  cases i <;> simp [foldIdentity, Identity.map, foldCode_eq_map]

theorem foldCodes_eq_map (cs : List (Code TypeDecl)) :
    foldCodes step cs = cs.map (Code.map (fold step)) := by
  induction cs with
  | nil => simp [foldCodes]
  | cons c cs ih => simp [foldCodes, foldCode_eq_map, ih]

theorem foldOptional_eq_map (c : Option (Code TypeDecl)) :
    foldOptional step c = c.map (Code.map (fold step)) := by
  cases c <;> simp [foldOptional, foldCode_eq_map]

theorem foldNamed_eq_map (cs : List (String × Code TypeDecl)) :
    foldNamed step cs = cs.map fun (name, value) => (name, value.map (fold step)) := by
  induction cs with
  | nil => simp [foldNamed]
  | cons c cs ih => simp [foldNamed, foldCode_eq_map, ih]

theorem foldAttributes_eq_map (as : List (Attribute TypeDecl)) :
    foldAttributes step as = as.map (Attribute.map (fold step)) := by
  induction as with
  | nil => simp [foldAttributes]
  | cons a as ih =>
    simp [foldAttributes, Attribute.map, foldCodes_eq_map, foldNamed_eq_map, ih]

theorem foldParameters_eq_map (ps : List (Parameter TypeDecl)) :
    foldParameters step ps = ps.map (Parameter.map (fold step)) := by
  induction ps with
  | nil => simp [foldParameters]
  | cons p ps ih =>
    simp [foldParameters, Parameter.map, foldAttributes_eq_map, foldOptional_eq_map, ih]

theorem foldFields_eq_map (xs : List (Field TypeDecl)) :
    foldFields step xs = xs.map (Field.map (fold step)) := by
  induction xs with
  | nil => simp [foldFields]
  | cons x xs ih =>
    simp [foldFields, Field.map, foldCode_eq_map, foldAttributes_eq_map, foldOptional_eq_map, ih]

theorem foldMethods_eq_map (ms : List (Method TypeDecl)) :
    foldMethods step ms = ms.map (Method.map (fold step)) := by
  induction ms with
  | nil => simp [foldMethods]
  | cons m ms ih =>
    simp [foldMethods, Method.map, foldCode_eq_map, foldAttributes_eq_map,
      foldParameters_eq_map, foldOptional_eq_map, ih]

theorem foldProperties_eq_map (ps : List (Property TypeDecl)) :
    foldProperties step ps = ps.map (Property.map (fold step)) := by
  induction ps with
  | nil => simp [foldProperties]
  | cons p ps ih =>
    simp [foldProperties, Property.map, foldCode_eq_map, foldAttributes_eq_map,
      foldParameters_eq_map, foldOptional_eq_map, ih]

theorem foldConstants_eq_map (cs : List (String × TypeDecl)) :
    foldConstants step cs = cs.map fun (name, value) => (name, fold step value) := by
  induction cs with
  | nil => simp [foldConstants]
  | cons c cs ih => simp [foldConstants, ih]

theorem foldTypes_eq_map (ts : List TypeDecl) : foldTypes step ts = ts.map (fold step) := by
  induction ts with
  | nil => simp [foldTypes]
  | cons t ts ih => simp [foldTypes, ih]

/-- **The law of the fold**: one step on a layer whose inner declarations have
    been folded. -/
theorem fold_of (d : Declaration TypeDecl) :
    fold step (.of d) = step (d.map (fold step)) := by
  cases d
  simp [fold, foldLayer, Declaration.map, foldIdentity_eq_map, foldCode_eq_map,
    foldAttributes_eq_map, foldConstants_eq_map, foldFields_eq_map, foldMethods_eq_map,
    foldProperties_eq_map, foldCodes_eq_map, foldTypes_eq_map]

end TypeDecl

end CSharpGen
