/-
  CSharpGen/Kind.lean
  ===================
  **Kinds of declarations and the rules for their members** — what a kind of
  type implies for the members declared in it, and the check that a member's
  modifiers pass before it is attached.

  The rules come as a table per kind: nothing else in the generator computes
  which modifiers a kind implies.
-/
import CSharpGen.Modifier

namespace CSharpGen

/-- The kind of a type declaration.  An attribute type is a class whose members
    follow stricter rules. -/
inductive TypeKind where
  | classKind | structKind | interfaceKind | enumKind | attributeKind
  deriving DecidableEq, Repr

/-- The kind of a member of a type declaration. -/
inductive MemberKind where
  | field | method | property | type
  deriving DecidableEq, Repr

/-! ### The table of kinds -/

namespace TypeKind

/-- The name of the kind in messages. -/
def title : TypeKind → String
  | classKind => "class"
  | structKind => "struct"
  | interfaceKind => "interface"
  | enumKind => "enum"
  | attributeKind => "attribute"

/-- The keyword that introduces a declaration of the kind. -/
def keyword : TypeKind → String
  | classKind | attributeKind => "class"
  | structKind => "struct"
  | interfaceKind => "interface"
  | enumKind => "enum"

/-- Modifiers implied on the fields of a declaration of the kind. -/
def impliedOnFields : TypeKind → List Modifier
  | interfaceKind => [.publicKw]
  | _ => []

/-- Modifiers implied on the methods and properties of a declaration of the kind. -/
def impliedOnMethods : TypeKind → List Modifier
  | interfaceKind => [.publicKw, .abstractKw]
  | _ => []

/-- Modifiers implied on the types nested in a declaration of the kind. -/
def impliedOnTypes : TypeKind → List Modifier
  | interfaceKind => [.publicKw]
  | _ => []

/-- Modifiers implied on a declaration of the kind that is itself a member. -/
def impliedAsMember : TypeKind → List Modifier
  | _ => []

/-- Kinds that may hold state and concrete members. -/
def isClassLike : TypeKind → Bool
  | classKind | structKind => true
  | _ => false

/-- Kinds whose declarations are concrete unless they say `abstract`. -/
def isConcreteByDefault : TypeKind → Bool
  | classKind | structKind | attributeKind => true
  | _ => false

/-- Kinds whose declarations may name a base class. -/
def allowsSuperclass : TypeKind → Bool
  | classKind | attributeKind => true
  | _ => false

/-- Kinds whose declarations may have an instance initializer block. -/
def allowsInitializerBlock : TypeKind → Bool
  | classKind | structKind | enumKind => true
  | _ => false

/-- Kinds whose members must spell out visibility and staticness. -/
def requiresExplicitMembers : TypeKind → Bool
  | interfaceKind | attributeKind => true
  | _ => false

end TypeKind

/-- The name of the member kind in messages. -/
def MemberKind.title : MemberKind → String
  | field => "field"
  | method => "method"
  | property => "property"
  | type => "type"

/-! ### The rules -/

/-- A set of modifiers that breaks a rule. -/
inductive ModifierFault where
  | exactlyOneOf (expected : List Modifier)
  | atMostOneOf (allowed : List Modifier)
  | missing (required : List Modifier)
  | notAllowed (modifier : Modifier) (member : MemberKind)
  deriving DecidableEq, Repr

/-- The wording of a broken rule. -/
def ModifierFault.message : ModifierFault → String
  | exactlyOneOf expected => "requires exactly one of " ++ Modifier.spell expected
  | atMostOneOf allowed => "allows at most one of " ++ Modifier.spell allowed
  | missing required => "requires modifiers " ++ Modifier.spell required
  | notAllowed modifier member =>
    "'" ++ modifier.keyword ++ "' is not allowed on a " ++ member.title

namespace ModifierSet

/-- How many of the listed modifiers are in the set. -/
def countOf (s : ModifierSet) (ms : List Modifier) : Nat := (ms.filter s.has).length

/-- Exactly one of the listed modifiers is in the set. -/
def exactlyOneOf (s : ModifierSet) (ms : List Modifier) : Except ModifierFault Unit :=
  if s.countOf ms = 1 then .ok () else .error (.exactlyOneOf ms)

/-- At most one of the listed modifiers is in the set. -/
def atMostOneOf (s : ModifierSet) (ms : List Modifier) : Except ModifierFault Unit :=
  if s.countOf ms ≤ 1 then .ok () else .error (.atMostOneOf ms)

/-- All listed modifiers are in the set. -/
def requireAll (s : ModifierSet) (ms : List Modifier) : Except ModifierFault Unit :=
  if ms.all s.has then .ok () else .error (.missing ms)

/-- Only types may carry modifiers of parameters. -/
def checkPlace (member : MemberKind) (s : ModifierSet) : Except ModifierFault Unit :=
  if member = .type then .ok ()
  else
    match s.toList.find? Modifier.onParameter with
    | some m => .error (.notAllowed m member)
    | none => .ok ()

/-- Conversions are operators, and operators are static. -/
def checkOperator (s : ModifierSet) : Except ModifierFault Unit := do
  s.atMostOneOf [.implicitKw, .explicitKw]
  if s.has .implicitKw || s.has .explicitKw then s.requireAll [.operatorKw]
  if s.has .operatorKw then s.requireAll [.staticKw]

/-- Members of a kind that wants them spelled out state visibility and staticness. -/
def checkExplicit (member : MemberKind) (s : ModifierSet) : Except ModifierFault Unit :=
  match member with
  | .method | .property => do
    s.exactlyOneOf [.publicKw, .privateKw]
    s.exactlyOneOf [.abstractKw, .staticKw]
  | .field => do
    s.exactlyOneOf [.publicKw, .privateKw]
    s.requireAll [.staticKw]
  | .type => .ok ()

end ModifierSet

/-- Check the modifiers of a member about to be attached to a declaration of the
    kind.  The first broken rule is reported. -/
def TypeKind.checkMember (kind : TypeKind) (member : MemberKind) (s : ModifierSet) :
    Except ModifierFault Unit := do
  s.checkPlace member
  if member = .method then s.checkOperator
  if kind.requiresExplicitMembers then s.checkExplicit member
  if member = .type then s.requireAll kind.impliedOnTypes

end CSharpGen
