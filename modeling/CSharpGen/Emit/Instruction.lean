/-
  CSharpGen/Emit/Instruction.lean
  ===============================
  **The instructions of the writer** — every declaration and every code block is
  written as a list of instructions: text, references to types, changes of
  indentation, statements, places where a line may break, and the contexts that
  open and close around them.

  The list does not depend on how names are shortened or lines are broken.  It
  is run twice for a file: once to find out which types can be imported, and
  once to write the text.
-/
import CSharpGen.Error

namespace CSharpGen

/-- A type declaration around the place being written. -/
structure Scope where
  /-- The name of the type; none for an anonymous type. -/
  name : Option String
  /-- The simple names of the types nested in it that are visible. -/
  nested : List String
  deriving DecidableEq, Repr

/-- An instruction of the writer. -/
inductive Instruction where
  /-- Write text. -/
  | text (s : String)
  /-- Write the shortest name that means the type here. -/
  | reference (c : ClassName)
  | indent
  | unindent
  | openStatement
  /-- Write a semicolon and a line end, and leave the statement. -/
  | closeStatement
  /-- A space at which the line may be broken. -/
  | wrapSpace
  /-- A point at which the line may be broken. -/
  | wrapPoint
  /-- Go into a type declaration. -/
  | enterScope (scope : Scope)
  | leaveScope
  /-- Bring type variables into scope. -/
  | enterVariables (names : List String)
  | leaveVariables
  /-- Put the open statement aside. -/
  | suspendStatement
  /-- Go on with the statement that was put aside last. -/
  | resumeStatement
  | openDoc
  /-- End the current line if something stands on it, and leave the documentation. -/
  | closeDoc
  | openComment
  /-- End the current line if something stands on it, and leave the comment. -/
  | closeComment
  /-- Report a malformed block. -/
  | refuse (fault : CodeFault)
  deriving DecidableEq, Repr

/-- What a declaration or a block is written as. -/
abbrev Stream := List Instruction

end CSharpGen
