/-
  CSharpGen/Emit/Names.lean
  =========================
  **Which name a type gets** — the shortest name that means the type at the
  place where it is written.

  In order: a type variable with the simple name of the top-level type forces
  the qualified name.  Otherwise the type is named from the innermost type of
  its nesting chain that its simple name already means here, through the
  enclosing declarations first and the imports second.  If the top-level simple
  name means another type, the name is qualified.  A type of the current or the
  global namespace is written by its simple names and takes the top-level one
  for itself.  Any other type is written by its canonical name and, outside
  comments, asks to be imported.

  The first type to claim a simple name for import gets it unless another type
  claims it too, or a type of the current or the global namespace takes it.
-/
import CSharpGen.Emit.Instruction

namespace CSharpGen

/-- Where names are looked up: the namespace and the imported types by simple name. -/
structure Setting where
  space : String
  imports : Table ClassName

/-- What is known about names while writing. -/
structure Names where
  /-- The declarations around the current place, innermost first. -/
  scopes : List Scope := []
  /-- The type variables in scope, innermost declaration first. -/
  typeVariables : List (List String) := []
  /-- The first type that claimed each simple name for import. -/
  claims : Table ClassName := []
  /-- Simple names claimed by more than one type. -/
  ambiguous : List String := []
  /-- Simple names taken by types of the current or the global namespace. -/
  taken : Table ClassName := []

namespace Names

/-! ### What a simple name means -/

/-- The type called `simple` that is declared in the innermost of the scopes. -/
def declaredIn (space : String) (scopes : List Scope) (simple : String) : ClassName :=
  match scopes.reverse.filterMap Scope.name with
  | [] => ⟨space, "", [simple]⟩
  | top :: inner => ⟨space, top, inner ++ [simple]⟩

/-- The type that a nested type of the enclosing declarations gives a simple name. -/
def resolveNested (space : String) (simple : String) : List Scope → Option ClassName
  | [] => none
  | scope :: outer =>
    if scope.nested.contains simple then some (declaredIn space (scope :: outer) simple)
    else resolveNested space simple outer

/-- The type that a simple name means at the current place. -/
def resolve (setting : Setting) (names : Names) (simple : String) : Option ClassName :=
  match resolveNested setting.space simple names.scopes with
  | some c => some c
  | none =>
    match names.scopes.getLast? with
    | some ⟨some top, _⟩ =>
      if top = simple then some (.topLevel setting.space simple) else setting.imports.get? simple
    | _ => setting.imports.get? simple

/-- Whether the simple name of a type means that type at the current place. -/
def binds (setting : Setting) (names : Names) (c : ClassName) : Bool :=
  match names.resolve setting c.simple with
  | some found => found.same c
  | none => false

/-! ### Taking and claiming simple names -/

/-- Ask for a top-level type to be imported. -/
def claim (names : Names) (top : ClassName) : Names :=
  match names.claims.get? top.top with
  | none => { names with claims := names.claims.put top.top top }
  | some existing =>
    if existing.same top || names.ambiguous.contains top.top then names
    else { names with ambiguous := names.ambiguous ++ [top.top] }

/-- Let a top-level type of the current or the global namespace take its simple
    name, if it may: a type of the namespace takes it from a global one. -/
def reserve? (names : Names) (top : ClassName) : Option Names :=
  match names.taken.get? top.top with
  | none => some { names with taken := names.taken.put top.top top }
  | some existing =>
    if existing.same top then some names
    else if existing.space.isEmpty && !top.space.isEmpty then
      some { names with taken := names.taken.put top.top top }
    else none

/-- The types worth importing, by simple name. -/
def imports (names : Names) : Table ClassName :=
  names.claims.filter fun (simple, _) =>
    !names.ambiguous.contains simple && !names.taken.has simple

/-! ### Writing a type -/

/-- The simple names of a type from the type of its chain at `depth` down. -/
def dotted (c : ClassName) (depth : Nat) : String := Text.join "." (c.simpleNames.drop depth)

/-- The name of a well-formed type at the current place.  In a comment
    (`quiet`) nothing is claimed. -/
def spell (setting : Setting) (quiet : Bool) (names : Names) (c : ClassName) : String × Names :=
  if names.typeVariables.any fun vs => vs.contains c.top then (c.qualified, names)
  else
    match c.chain.find? (names.binds setting) with
    | some known => (dotted c known.inner.length, names)
    | none =>
      if (names.resolve setting c.top).isSome then (c.qualified, names)
      else if c.space == setting.space || c.space.isEmpty then
        match names.reserve? c.outermost with
        | some names => (dotted c 0, names)
        | none => (c.qualified, names)
      else (c.canonical, if quiet then names else names.claim c.outermost)

/-- The name of a type at the current place; a malformed reference is an error. -/
def lookup (setting : Setting) (quiet : Bool) (names : Names) (c : ClassName) :
    Except Error (String × Names) := do
  c.validate
  return names.spell setting quiet c

end Names

end CSharpGen
