/-
  CSharpGen/ClassName.lean
  ========================
  **References to named types** — a namespace (empty for the global one), a
  top-level type and the chain of types nested in it down to the type meant.

  A name is read from its dotted form (`System.IO.Stream`) or, with nested
  types, from the form that joins them by `+` (`App.Outer+Inner`).  Reading
  never fails: `ClassName.check` says what is wrong with a malformed name.

  Two references denote the same type (`ClassName.same`) when their canonical
  names are equal, wherever the boundary between namespace and nesting chain
  lies; equality in the logic is finer and compares the three fields.
-/
import CSharpGen.Identifier
import CSharpGen.Table

namespace CSharpGen

/-- A reference to a named type. -/
structure ClassName where
  /-- The namespace, empty for the global one. -/
  space : String
  /-- The top-level type. -/
  top : String
  /-- The types nested in it, outermost first, down to the type meant. -/
  inner : List String
  deriving DecidableEq, Repr, Inhabited

/-- What is wrong with a reference. -/
inductive ReferenceFault where
  | badNamespace (space : String)
  | emptyName
  | badIdentifier (name : String)
  deriving DecidableEq, Repr

/-- The wording of a malformed reference. -/
def ReferenceFault.message : ReferenceFault → String
  | badNamespace space => "'" ++ space ++ "' is not a valid namespace"
  | emptyName => "empty simple name"
  | badIdentifier name => "'" ++ name ++ "' is not a valid identifier"

namespace ClassName

/-! ### Building references -/

/-- The top-level type `top` of a namespace. -/
def topLevel (space top : String) : ClassName := ⟨space, top, []⟩

/-- The type of the given name nested in another. -/
def nested (c : ClassName) (name : String) : ClassName := { c with inner := c.inner ++ [name] }

/-- Read a reference.  What follows the last dot before any `+` is the top-level
    type. -/
def parse (s : String) : ClassName :=
  let cut := Text.split '+' s
  match Text.splitLast '.' cut.1 with
  | some (space, top) => ⟨space, top, cut.2⟩
  | none => ⟨"", cut.1, cut.2⟩

/-! ### Reading them -/

/-- The simple names from the top-level type down to the type meant. -/
def simpleNames (c : ClassName) : List String := c.top :: c.inner

/-- The simple name of the type meant. -/
def simple (c : ClassName) : String := c.inner.getLastD c.top

/-- The outermost type of the chain. -/
def outermost (c : ClassName) : ClassName := topLevel c.space c.top

/-- The type in which the type meant is nested. -/
def enclosing? (c : ClassName) : Option ClassName :=
  if c.inner.isEmpty then none else some { c with inner := c.inner.dropLast }

/-- The name of the top-level type with its namespace. -/
def qualifiedTop (c : ClassName) : String :=
  if c.space.isEmpty then c.top else c.space ++ "." ++ c.top

/-- The name with every step written as a dot. -/
def canonical (c : ClassName) : String :=
  c.inner.foldl (fun name step => name ++ "." ++ step) c.qualifiedTop

/-- The name with the steps into nested types written as `+`. -/
def reflection (c : ClassName) : String :=
  c.inner.foldl (fun name step => name ++ "+" ++ step) c.qualifiedTop

/-- The name with its namespace; a global type gets the `global::` alias, so that
    it cannot be taken for a type of the current namespace. -/
def qualified (c : ClassName) : String :=
  if c.space.isEmpty then "global::" ++ c.canonical else c.canonical

/-- The type of the chain that stands `depth` steps below the top-level type. -/
def upTo (c : ClassName) (depth : Nat) : ClassName := { c with inner := c.inner.take depth }

/-- The types of the chain from the type meant outwards to the top-level type. -/
def chain (c : ClassName) : List ClassName :=
  (List.range (c.inner.length + 1)).reverse.map c.upTo

/-- Whether two references denote the same type. -/
def same (a b : ClassName) : Bool := a.canonical == b.canonical

/-! ### Checking -/

/-- Every simple name must be a legal identifier. -/
def checkNames : List String → Except ReferenceFault Unit
  | [] => .ok ()
  | name :: rest =>
    if name.isEmpty then .error .emptyName
    else if Identifier.isValid name then checkNames rest
    else .error (.badIdentifier name)

/-- Check that every segment of the reference is a legal identifier. -/
def check (c : ClassName) : Except ReferenceFault Unit :=
  if c.space.isEmpty || Identifier.isValidNamespace c.space then checkNames c.simpleNames
  else .error (.badNamespace c.space)

end ClassName

end CSharpGen
