/-
  CSharpGen/Style.lean
  ====================
  **Layout options** — the unit of indentation, the column after which lines are
  broken, and two choices about the file as a whole.
-/

namespace CSharpGen

/-- The unit of one level of indentation. -/
inductive Indent where
  | spaces (width : UInt8)
  | tab
  deriving DecidableEq, Repr

/-- The text of one level of indentation. -/
def Indent.unit : Indent → String
  | spaces width => String.ofList (List.replicate width.toNat ' ')
  | tab => "\t"

/-- The layout options of a file. -/
structure Style where
  indent : Indent := .tab
  /-- The column after which a breakable space becomes a line end. -/
  columnLimit : Nat := 100
  /-- Write `namespace N;` instead of a namespace in braces. -/
  fileScopedNamespace : Bool := false
  /-- Leave out `using System;` unless it was asked for. -/
  skipSystemImports : Bool := false
  deriving DecidableEq, Repr

end CSharpGen
