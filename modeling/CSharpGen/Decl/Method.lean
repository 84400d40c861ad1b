/-
  CSharpGen/Decl/Method.lean
  ==========================
  **Drafts of methods, operators and constructors** — a draft without a name is
  a constructor.  The rules are checked when the method is built, after its
  body and its documentation: the name (an operator may be named by its token),
  no return type on a constructor, no chained constructor on a method, no body
  on an abstract method, and a `params` parameter that is last and an array.
-/
import CSharpGen.Code.Draft
import CSharpGen.Decl.Parameter

namespace CSharpGen.Method

variable {δ : Type}

/-- A method in the making. -/
structure Draft (δ : Type) where
  name : Option String
  doc : Code.Draft δ := {}
  attributes : List (Attribute δ) := []
  modifiers : ModifierSet := .empty
  typeVariables : List TypeVariable := []
  returns : Option TypeRef := none
  parameters : List (Parameter δ) := []
  body : Code.Draft δ := {}
  chained : Option (Code δ) := none
  /-- The first error. -/
  error : Option Error := none

/-- An edit of a method. -/
inductive Edit (δ : Type) where
  | addDoc (format : String) (args : List (Argument δ))
  | addAttribute (attr : Attribute δ)
  | addModifiers (modifiers : List Modifier)
  | addTypeVariable (v : TypeVariable)
  | returns (type : TypeRef)
  | addParameter (parameter : Parameter δ)
  | parameter (type : TypeRef) (name : String)
  | chain (format : String) (args : List (Argument δ))
  /-- An edit of the body. -/
  | body (edit : Code.Edit δ)

namespace Draft

/-- What the draft is called in messages. -/
def subject (d : Draft δ) : Subject :=
  match d.name with
  | some name => .method name
  | none => .constructor

/-- Record an error, unless there is an earlier one. -/
def fail (d : Draft δ) (error : Error) : Draft δ := { d with error := some (d.error.getD error) }

/-- The draft after an edit. -/
def apply (d : Draft δ) : Edit δ → Draft δ
  | .addDoc format args => { d with doc := d.doc.add format args }
  | .addAttribute a => { d with attributes := d.attributes ++ [a] }
  | .addModifiers ms => { d with modifiers := d.modifiers.addAll ms }
  | .addTypeVariable v => { d with typeVariables := d.typeVariables ++ [v] }
  | .returns type => { d with returns := some type }
  | .addParameter p => { d with parameters := d.parameters ++ [p] }
  | .parameter type name =>
    match Parameter.plain type name with
    | .ok p => { d with parameters := d.parameters ++ [p] }
    | .error e => d.fail e
  | .chain format args =>
    match Code.ofFormat format args with
    | .ok value => { d with chained := some value }
    | .error e => d.fail e
  | .body edit => { d with body := d.body.apply edit }

/-- The draft after some edits in order. -/
def applyAll (d : Draft δ) (edits : List (Edit δ)) : Draft δ := edits.foldl apply d

/-- A method has a legal name; a constructor has no return type. -/
def checkName (d : Draft δ) : Except DeclFault Unit :=
  match d.name with
  | some name =>
    if Identifier.isValid name
        || (d.modifiers.has .operatorKw && Identifier.isOperatorToken name) then .ok ()
    else .error (.badMethodName name)
  | none => if d.returns.isSome then .error .constructorReturns else .ok ()

/-- The first `params` parameter is the last parameter, and an array. -/
def checkParameters : List (Parameter δ) → Except DeclFault Unit
  | [] => .ok ()
  | p :: rest =>
    if p.modifiers.has .paramsKw then
      if !rest.isEmpty then .error (.paramsNotLast p.name)
      else if p.type.isArray then .ok ()
      else .error (.paramsNotArray p.name)
    else checkParameters rest

/-- The rules for a method with the given body. -/
def check (d : Draft δ) (body : Code δ) : Except DeclFault Unit := do
  d.checkName
  if d.chained.isSome && d.name.isSome then .error .chainedMethod
  if d.modifiers.has .abstractKw && !body.isEmpty then .error .abstractBody
  checkParameters d.parameters

/-- The finished method. -/
def build (d : Draft δ) : Except Error (Method δ) :=
  match d.error with
  | some e => .error e
  | none => do
    let body ← d.body.build
    let doc ← d.doc.build
    match d.check body with
    | .error fault => .error (.construction d.subject fault)
    | .ok () =>
      return ⟨d.name, doc, d.attributes, d.modifiers, d.typeVariables, d.returns.getD .void,
        d.parameters, body, d.chained⟩

end Draft

/-- The draft that goes on from a method. -/
def toDraft (m : Method δ) : Draft δ where
  name := m.name
  doc := m.doc.toDraft
  attributes := m.attributes
  modifiers := m.modifiers
  typeVariables := m.typeVariables
  returns := if m.isConstructor then none else some m.returns
  parameters := m.parameters
  body := m.body.toDraft
  chained := m.chained

end CSharpGen.Method
