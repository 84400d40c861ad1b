/-
  CSharpGen/Error.lean
  ====================
  **Everything that can go wrong, as causes** — a declaration that breaks a rule
  when it is built, a malformed code block, a malformed type reference, and a
  sink that refuses the text.  The wording of each cause is in one place, the
  `message` function of its type.

  An ambiguous simple name is not among them: the writer falls back to the
  qualified name and goes on.
-/
import CSharpGen.Kind
import CSharpGen.TypeRef

namespace CSharpGen

/-! ### Malformed code -/

/-- The placeholders that take an argument. -/
inductive Placeholder where
  | literal | string | type | name
  deriving DecidableEq, Repr

/-- The letter of a placeholder. -/
def Placeholder.letter : Placeholder → String
  | literal => "L"
  | string => "S"
  | type => "T"
  | name => "N"

/-- The sorts of arguments a placeholder can meet. -/
inductive ArgumentSort where
  | text | null | code | type | declaration
  deriving DecidableEq, Repr

/-- The name of an argument sort in messages. -/
def ArgumentSort.title : ArgumentSort → String
  | text => "text"
  | null => "null"
  | code => "a code block"
  | type => "a type"
  | declaration => "a declaration"

/-- What is wrong with a code block. -/
inductive CodeFault where
  /-- A format ends in an unfinished placeholder. -/
  | dangling (format : String)
  /-- A placeholder without argument carries an index. -/
  | notIndexable (digits : String) (kind : Char)
  /-- An index is zero or no index at all. -/
  | badIndex (digits : String)
  /-- A format has placeholders with an index and placeholders without. -/
  | mixedPlaceholders
  | missingArgument (format : String) (position given : Nat)
  | unusedArgument (format : String) (position : Nat)
  | unknownPlaceholder (kind : Char)
  | wrongArgument (placeholder : Placeholder) (given : ArgumentSort)
  /-- A block undoes more indentation than it opened. -/
  | unindentPastStart
  | nestedStatement
  | strayStatementEnd
  | unclosedStatement
  | continuesNoFlow (header : String)
  | closesNoFlow
  | closesNoFlowWith (clause : String)
  | openFlows (count : Nat)
  /-- The writer has fewer levels than it is asked to undo. -/
  | cannotUnindent (levels level : Nat)
  deriving DecidableEq, Repr

/-- The wording of a malformed code block. -/
def CodeFault.message : CodeFault → String
  | dangling format => "dangling '$' at the end of '" ++ format ++ "'"
  | notIndexable digits kind => "'$" ++ digits ++ String.singleton kind ++ "' cannot be indexed"
  | badIndex digits => "argument index '" ++ digits ++ "' must start at 1"
  | mixedPlaceholders => "cannot mix indexed and relative placeholders"
  | missingArgument format position given =>
    "'" ++ format ++ "' needs argument " ++ toString position ++ " but " ++ toString given
      ++ " were given"
  | unusedArgument format position =>
    "argument " ++ toString position ++ " is unused in '" ++ format ++ "'"
  | unknownPlaceholder kind => "invalid placeholder '$" ++ String.singleton kind ++ "'"
  | wrongArgument placeholder given =>
    "'$" ++ placeholder.letter ++ "' cannot take " ++ given.title
  | unindentPastStart => "'$<' unindents past the level the block started at"
  | nestedStatement => "statement '$[' opened inside another statement"
  | strayStatementEnd => "'$]' without an open statement"
  | unclosedStatement => "statement '$[' was never closed with '$]'"
  | continuesNoFlow header => "'" ++ header ++ "' continues a control flow that was never opened"
  | closesNoFlow => "control flow closed without being opened"
  | closesNoFlowWith clause => "'" ++ clause ++ "' closes a control flow that was never opened"
  | openFlows count => toString count ++ " control flow(s) left open"
  | cannotUnindent levels level =>
    "cannot unindent " ++ toString levels ++ " level(s) from level " ++ toString level

/-! ### Declarations that break a rule -/

/-- The declaration a fault belongs to. -/
inductive Subject where
  | attributeUse (type : TypeRef)
  | parameter (name : String)
  | field (name : String)
  | method (name : String)
  | constructor
  | property (name : String)
  | indexer
  | type (kind : TypeKind) (name : String)
  | anonymous
  | file (space name : String)
  | unnamedFile

/-- How a declaration is called in messages. -/
def Subject.title : Subject → String
  | attributeUse t => "attribute " ++ t.text
  | parameter name => "parameter " ++ name
  | field name => "field " ++ name
  | method name => "method " ++ name
  | constructor => "constructor"
  | property name => "property " ++ name
  | indexer => "indexer"
  | type kind name => kind.title ++ " " ++ name
  | anonymous => "anonymous class"
  | file space name => "file " ++ (ClassName.topLevel space name).canonical
  | unnamedFile => "file"

/-- What is wrong with an enum constant. -/
inductive ConstantFault where
  | notInEnum | badName | namedValue | hasMembers
  deriving DecidableEq, Repr

/-- The wording of a refused enum constant. -/
def ConstantFault.message : ConstantFault → String
  | notInEnum => "only enums have constants"
  | badName => "not a valid identifier"
  | namedValue => "the value must be anonymous"
  | hasMembers => "enum constants cannot declare members"

/-- The rule that a declaration breaks. -/
inductive DeclFault where
  | badIdentifier (name : String)
  | badArgumentName (name : String)
  | modifierOnParameter (modifier : Modifier)
  | badMethodName (name : String)
  | constructorReturns
  | chainedMethod
  | abstractBody
  | paramsNotLast (name : String)
  | paramsNotArray (name : String)
  | badPropertyName
  | noAccessor
  | abstractAccessorBody
  | initializedBody
  | parametersOnProperty
  | bareIndexer
  | anonymousModifiers
  | anonymousVariables
  | superclassNotAllowed (superclass : TypeRef)
  | superclassTwice (existing : TypeRef)
  | superclassBuiltIn (superclass : TypeRef)
  | constant (name : String) (fault : ConstantFault)
  | member (kind : MemberKind) (label : String) (fault : ModifierFault)
  | nestedMember (label : Subject) (fault : ModifierFault)
  | staticBlockNotAllowed
  | initializerBlockNotAllowed (kind : TypeKind)
  | constructorNotAllowed (kind : TypeKind)
  | nestedAnonymous
  | emptyEnum
  | abstractMember (label : String)
  | manySupertypes
  | anonymousTop
  | badNamespace (space : String)
  | badUsing (space : String)
  | zeroColumnLimit

/-- The wording of a broken rule. -/
def DeclFault.message : DeclFault → String
  | badIdentifier name => "'" ++ name ++ "' is not a valid identifier"
  | badArgumentName name => "'" ++ name ++ "' is not a valid argument name"
  | modifierOnParameter modifier => "'" ++ modifier.keyword ++ "' is not allowed on a parameter"
  | badMethodName name => "'" ++ name ++ "' is not a valid method name"
  | constructorReturns => "a constructor cannot declare a return type"
  | chainedMethod => "only constructors can chain to base(...) or this(...)"
  | abstractBody => "an abstract method cannot have a body"
  | paramsNotLast name => "params parameter '" ++ name ++ "' must be last"
  | paramsNotArray name => "params parameter '" ++ name ++ "' must be an array"
  | badPropertyName => "not a valid identifier"
  | noAccessor => "a property needs a getter or a setter"
  | abstractAccessorBody => "an abstract property cannot have accessor bodies"
  | initializedBody => "only auto-implemented properties can have an initializer"
  | parametersOnProperty => "only indexers take parameters"
  | bareIndexer => "an indexer needs at least one parameter"
  | anonymousModifiers => "anonymous types cannot have modifiers"
  | anonymousVariables => "anonymous types cannot have type parameters"
  | superclassNotAllowed superclass => "only classes can extend " ++ superclass.text
  | superclassTwice existing => "superclass already set to " ++ existing.text
  | superclassBuiltIn superclass => "cannot extend the built-in type " ++ superclass.text
  | constant name fault => "constant " ++ name ++ ": " ++ fault.message
  | member kind label fault => kind.title ++ " " ++ label ++ ": " ++ fault.message
  | nestedMember label fault => "nested " ++ label.title ++ ": " ++ fault.message
  | staticBlockNotAllowed => "only classes and structs have static constructors"
  | initializerBlockNotAllowed kind => kind.title ++ " cannot have an initializer block"
  | constructorNotAllowed kind => kind.title ++ " cannot declare constructors"
  | nestedAnonymous => "nested types must be named"
  | emptyEnum => "an enum requires at least one constant"
  | abstractMember label => "non-abstract type declares abstract member " ++ label
  | manySupertypes => "an anonymous type can extend or implement only one type"
  | anonymousTop => "the top-level type must be named"
  | badNamespace space => "'" ++ space ++ "' is not a valid namespace"
  | badUsing space => "'" ++ space ++ "' is not a valid using namespace"
  | zeroColumnLimit => "the column limit must be positive"

/-! ### Errors -/

/-- An error of building or writing declarations. -/
inductive Error where
  /-- A declaration breaks a rule. -/
  | construction (subject : Subject) (fault : DeclFault)
  /-- A code block is malformed. -/
  | structural (fault : CodeFault)
  /-- The reference of the given canonical name is malformed. -/
  | invalidReference (name : String) (fault : ReferenceFault)
  /-- The sink refused the text. -/
  | write

namespace Error

/-- The wording of an error. -/
def message : Error → String
  | construction subject fault => subject.title ++ ": " ++ fault.message
  | structural fault => "malformed code block: " ++ fault.message
  | invalidReference name fault => "invalid type reference '" ++ name ++ "': " ++ fault.message
  | write => "failed to write rendered source"

/-- The diagnostic code of an error. -/
def code : Error → String
  | construction .. => "sharpoet::construction"
  | structural .. => "sharpoet::structural"
  | invalidReference .. => "sharpoet::invalid_reference"
  | write => "sharpoet::write"

/-- The advice that goes with an error. -/
def help? : Error → Option String
  | construction .. =>
    some "builders validate on attach; fix the declaration named in the message"
  | structural .. => some "placeholders are $L, $S, $T, $N, $W, $Z, $>, $<, $[, $] and $$"
  | invalidReference .. | write => none

end Error

/-- Check a reference, reporting it by its canonical name. -/
def ClassName.validate (c : ClassName) : Except Error Unit :=
  match c.check with
  | .ok () => .ok ()
  | .error fault => .error (.invalidReference c.canonical fault)

/-! ### Results -/

/-- Of two computations in a row that succeed, the first one succeeds. -/
theorem Except.bind_eq_ok {ε α β : Type} {x : Except ε α} {f : α → Except ε β} {b : β}
    (h : x >>= f = .ok b) : ∃ a, x = .ok a ∧ f a = .ok b := by
  cases x with
  | error e => cases h
  | ok a => exact ⟨a, rfl, h⟩

theorem Except.eq_ok_of_toOption {ε α : Type} {x : Except ε α} {a : α}
    (h : x.toOption = some a) : x = .ok a := by
  cases x with
  | error e => cases h
  | ok b =>
    cases h
    rfl

theorem Except.exists_ok_of_isSome {ε α : Type} {x : Except ε α}
    (h : x.toOption.isSome = true) : ∃ a, x = .ok a := by
  obtain ⟨a, ha⟩ := Option.isSome_iff_exists.mp h
  exact ⟨a, eq_ok_of_toOption ha⟩

end CSharpGen
