/-
  CSharpGen/Code/Basic.lean
  =========================
  **Code blocks** — fragments of code whose placeholders have been resolved: a
  list of parts and the number of statements that end at the block's top level.

  A part may be a whole type declaration, and declarations contain code in turn.
  To keep the two apart, everything here is generic in the type `δ` of embedded
  declarations; `CSharpGen.Decl.Basic` ties the knot.  Functions on code
  therefore recurse on code alone, through nested blocks but never into an
  embedded declaration.
-/
import CSharpGen.TypeRef
import CSharpGen.Text.Pieces

namespace CSharpGen

mutual

/-- A part of a code block. -/
inductive Part (δ : Type) where
  /-- Text written as it is. -/
  | text (s : String)
  /-- An identifier. -/
  | name (s : String)
  /-- A string literal, or `null`. -/
  | quoted (s : Option String)
  /-- A type, shortened by the writer where it can be. -/
  | type (t : TypeRef)
  /-- A nested block. -/
  | block (code : Code δ)
  /-- A type declaration used as an expression. -/
  | declaration (d : δ)
  /-- The following lines are indented one level more. -/
  | indent
  /-- The following lines are indented one level less. -/
  | unindent
  /-- A statement begins. -/
  | openStatement
  /-- A statement ends: a semicolon and a line end are written. -/
  | closeStatement
  /-- A space at which the line may be broken. -/
  | wrapSpace
  /-- A point at which the line may be broken. -/
  | wrapPoint

/-- A code block. -/
structure Code (δ : Type) where
  parts : List (Part δ)
  /-- Statements that end at the top level of the block, outside control flows. -/
  statements : Nat

end

variable {α β δ : Type}

namespace Code

/-- The block that writes nothing. -/
def empty : Code δ := ⟨[], 0⟩

instance : Inhabited (Code δ) := ⟨empty⟩

/-- Whether the block has no parts. -/
def isEmpty (c : Code δ) : Bool := c.parts.isEmpty

/-- One block after another. -/
def append (a b : Code δ) : Code δ := ⟨a.parts ++ b.parts, a.statements + b.statements⟩

/-- The part for some text; none for no text. -/
def textParts (s : String) : List (Part δ) := if s.isEmpty then [] else [.text s]

/-- The blocks in order with the text `sep` between each two of them. -/
def join (sep : String) : List (Code δ) → Code δ
  | [] => empty
  | [c] => c
  | c :: d :: rest => append c (append ⟨textParts sep, 0⟩ (join sep (d :: rest)))

end Code

/-! ### Replacing the embedded declarations -/

mutual

/-- Replace every embedded declaration of a part. -/
def Part.map (f : α → β) : Part α → Part β
  | .text s => .text s
  | .name s => .name s
  | .quoted s => .quoted s
  | .type t => .type t
  | .block c => .block (Code.map f c)
  | .declaration d => .declaration (f d)
  | .indent => .indent
  | .unindent => .unindent
  | .openStatement => .openStatement
  | .closeStatement => .closeStatement
  | .wrapSpace => .wrapSpace
  | .wrapPoint => .wrapPoint

/-- Replace every embedded declaration of a block. -/
def Code.map (f : α → β) : Code α → Code β
  | ⟨parts, statements⟩ => ⟨Part.mapAll f parts, statements⟩

/-- Replace every embedded declaration of some parts. -/
def Part.mapAll (f : α → β) : List (Part α) → List (Part β)
  | [] => []
  | p :: ps => Part.map f p :: Part.mapAll f ps

end

/-! ### Statements and indentation of a block -/

mutual

/-- Whether a part opens a statement, also inside a nested block. -/
def Part.opensStatement : Part δ → Bool
  | .openStatement => true
  | .block c => Code.opensStatement c
  | _ => false

/-- Whether a block opens a statement, also inside nested blocks. -/
def Code.opensStatement : Code δ → Bool
  | ⟨parts, _⟩ => Part.anyOpens parts

/-- Whether one of the parts opens a statement. -/
def Part.anyOpens : List (Part δ) → Bool
  | [] => false
  | p :: ps => Part.opensStatement p || Part.anyOpens ps

end

/-- What a stretch of code does to the indentation: the net change, and the lowest
    level reached on the way, both relative to the level at its start. -/
structure IndentProfile where
  net : Int
  lowest : Int
  deriving DecidableEq, Repr

namespace IndentProfile

/-- Code that leaves the indentation alone. -/
def flat : IndentProfile := ⟨0, 0⟩

/-- One stretch of code after another. -/
def andThen (a b : IndentProfile) : IndentProfile :=
  ⟨a.net + b.net, min a.lowest (a.net + b.lowest)⟩

end IndentProfile

mutual

/-- The indentation profile of a part. -/
def Part.profile : Part δ → IndentProfile
  | .indent => ⟨1, 0⟩
  | .unindent => ⟨-1, -1⟩
  | .block c => Code.profile c
  | _ => .flat

/-- The indentation profile of a block. -/
def Code.profile : Code δ → IndentProfile
  | ⟨parts, _⟩ => Part.profileAll parts

/-- The indentation profile of some parts in order. -/
def Part.profileAll : List (Part δ) → IndentProfile
  | [] => .flat
  | p :: ps => (Part.profile p).andThen (Part.profileAll ps)

end

/-! ### Blocks that are one statement -/

/-- The marks that a single expression must not contain. -/
def Part.isMark : Part δ → Bool
  | .openStatement | .closeStatement | .indent | .unindent => true
  | _ => false

namespace Code

/-- The parts of an expression without a leading `return `, where the first part
    is text that begins with it.  Leading text that is then empty is left out. -/
def dropReturn : List (Part δ) → List (Part δ)
  | .text s :: rest => textParts ((Text.after "return " s).getD s) ++ rest
  | parts => parts

/-- The expression of a statement, given the parts behind its opening mark. -/
def statementExpression? (parts : List (Part δ)) : Option (Code δ) :=
  match parts.getLast? with
  | some .closeStatement =>
    if parts.dropLast.any Part.isMark then none else some ⟨dropReturn parts.dropLast, 0⟩
  | _ => none

/-- The expression of a block that is exactly one statement, without a leading
    `return `.  Accessors use it to choose between `get => expression;` and a
    body in braces. -/
def singleExpression? : Code δ → Option (Code δ)
  | ⟨[.block inner], statements⟩ => if statements = 1 then singleExpression? inner else none
  | ⟨.openStatement :: rest, statements⟩ =>
    if statements = 1 then statementExpression? rest else none
  | _ => none

end Code

end CSharpGen
