/-
  CSharpGen/Code/Draft.lean
  =========================
  **Drafts of code blocks** — a code block is put together by edits: formatted
  text, statements, other blocks, control flows.  The first edit that is
  malformed leaves its fault in the draft; from then on the draft collects
  nothing more, and building it reports that fault.

  The draft counts what later edits depend on: the control flows that are open,
  the levels of indentation opened and not yet closed, and whether a statement
  is open.  Statements inside a control flow do not count as statements of the
  block.
-/
import CSharpGen.Code.Basic
import CSharpGen.Code.Format

namespace CSharpGen

variable {δ : Type}

/-- An argument of a format string. -/
inductive Argument (δ : Type) where
  | text (s : String)
  | null
  | code (c : Code δ)
  | type (t : TypeRef)
  | declaration (d : δ)

/-- The sort of an argument. -/
def Argument.sort : Argument δ → ArgumentSort
  | .text _ => .text
  | .null => .null
  | .code _ => .code
  | .type _ => .type
  | .declaration _ => .declaration

namespace Code

/-- A code block in the making. -/
structure Draft (δ : Type) where
  parts : List (Part δ) := []
  statements : Nat := 0
  /-- Control flows opened and not yet closed. -/
  flows : Nat := 0
  /-- Levels of indentation opened and not yet closed. -/
  depth : Nat := 0
  inStatement : Bool := false
  /-- The first fault. -/
  fault : Option CodeFault := none

/-- Which arguments of a format have been used, and in which way. -/
structure Cursor where
  /-- The position of the next argument without an index. -/
  next : Nat := 0
  relative : Bool := false
  indexed : Bool := false
  used : List Nat := []
  deriving DecidableEq, Repr

namespace Cursor

/-- The position that a placeholder refers to, and the cursor moved past it. -/
def advance (cursor : Cursor) : Option Nat → Nat × Cursor
  | none => (cursor.next, { cursor with next := cursor.next + 1, relative := true })
  | some position => (position, { cursor with indexed := true })

/-- The argument that a placeholder refers to. -/
def take (format : String) (args : List (Argument δ)) (cursor : Cursor)
    (position : Option Nat) : Except CodeFault (Argument δ × Cursor) :=
  let (slot, moved) := cursor.advance position
  if moved.relative && moved.indexed then .error .mixedPlaceholders
  else
    match args[slot]? with
    | none => .error (.missingArgument format (slot + 1) args.length)
    | some arg => .ok (arg, { moved with used := slot :: moved.used })

/-- The first of `count` arguments that has not been used. -/
def unused? (cursor : Cursor) (count : Nat) : Option Nat :=
  (List.range count).find? fun position => !cursor.used.contains position

end Cursor

namespace Draft

/-! ### Collecting parts -/

/-- Record a fault, unless there is an earlier one. -/
def fail (d : Draft δ) (fault : CodeFault) : Draft δ :=
  { d with fault := some (d.fault.getD fault) }

/-- Add some parts at the end. -/
def push (d : Draft δ) (parts : List (Part δ)) : Draft δ := { d with parts := d.parts ++ parts }

/-- Count statements, unless a control flow is open. -/
def count (d : Draft δ) (statements : Nat) : Draft δ :=
  if d.flows = 0 then { d with statements := d.statements + statements } else d

/-- Account for the statements and the indentation of a block about to be added. -/
def absorb (d : Draft δ) (c : Code δ) : Except CodeFault (Draft δ) :=
  if d.inStatement && c.opensStatement then .error .nestedStatement
  else if (d.depth : Int) + c.profile.lowest < 0 then .error .unindentPastStart
  else .ok { d.count c.statements with depth := ((d.depth : Int) + c.profile.net).toNat }

/-! ### Formatted text -/

/-- The part that an argument becomes under a placeholder. -/
def argumentPart (d : Draft δ) : Placeholder → Argument δ → Except CodeFault (Part δ × Draft δ)
  | .literal, .text s => .ok (.text s, d)
  | .literal, .null => .ok (.text "null", d)
  | .literal, .type t => .ok (.text t.text, d)
  | .literal, .code c => do
    let d ← d.absorb c
    return (.block c, d)
  | .literal, .declaration t => .ok (.declaration t, d)
  | .string, .text s => .ok (.quoted (some s), d)
  | .string, .null => .ok (.quoted none, d)
  | .type, .type t => .ok (.type t, d)
  | .name, .text s => .ok (.name s, d)
  | placeholder, arg => .error (.wrongArgument placeholder arg.sort)

/-- A nested block becomes a part if the draft can absorb it. -/
theorem argumentPart_code_eq_ok {d e : Draft δ} {c : Code δ} {p : Part δ}
    (h : d.argumentPart .literal (.code c) = .ok (p, e)) : d.absorb c = .ok e ∧ p = .block c := by
  obtain ⟨moved, habsorb, h⟩ := Except.bind_eq_ok h
  cases h
  exact ⟨habsorb, rfl⟩

/-- The part that a directive becomes, with the draft and the cursor moved on. -/
def directive (format : String) (args : List (Argument δ)) (d : Draft δ) (cursor : Cursor) :
    Directive → Except CodeFault (Part δ × Draft δ × Cursor)
  | .indent => .ok (.indent, { d with depth := d.depth + 1 }, cursor)
  | .unindent =>
    if d.depth = 0 then .error .unindentPastStart
    else .ok (.unindent, { d with depth := d.depth - 1 }, cursor)
  | .openStatement =>
    if d.inStatement then .error .nestedStatement
    else .ok (.openStatement, { d with inStatement := true }, cursor)
  | .closeStatement =>
    if d.inStatement then .ok (.closeStatement, { d.count 1 with inStatement := false }, cursor)
    else .error .strayStatementEnd
  | .wrapSpace => .ok (.wrapSpace, d, cursor)
  | .wrapPoint => .ok (.wrapPoint, d, cursor)
  | .argument placeholder position => do
    let (arg, cursor) ← cursor.take format args position
    let (part, d) ← d.argumentPart placeholder arg
    return (part, d, cursor)

/-- A placeholder takes an argument and becomes the part for it. -/
theorem directive_argument_eq_ok {d e : Draft δ} {format : String} {args : List (Argument δ)}
    {cursor moved : Cursor} {placeholder : Placeholder} {position : Option Nat} {p : Part δ}
    (h : d.directive format args cursor (.argument placeholder position) = .ok (p, e, moved)) :
    ∃ arg, cursor.take format args position = .ok (arg, moved)
      ∧ d.argumentPart placeholder arg = .ok (p, e) := by
  obtain ⟨⟨arg, next⟩, htake, h⟩ := Except.bind_eq_ok h
  obtain ⟨⟨part, made⟩, hpart, h⟩ := Except.bind_eq_ok h
  cases h
  exact ⟨arg, htake, hpart⟩

/-- Add what stands behind the last directive, and refuse unused arguments. -/
def finish (format : String) (args : List (Argument δ)) (d : Draft δ) (cursor : Cursor) :
    Except CodeFault String → Draft δ
  | .error fault => d.fail fault
  | .ok tail =>
    match cursor.unused? args.length with
    | some position => (d.push (textParts tail)).fail (.unusedArgument format (position + 1))
    | none => d.push (textParts tail)

/-- Add the segments of a format.  The text before a directive is added together
    with the directive, so a faulty directive takes its text with it. -/
def interpret (format : String) (args : List (Argument δ)) (ending : Except CodeFault String)
    (d : Draft δ) (cursor : Cursor) : List (String × Directive) → Draft δ
  | [] => d.finish format args cursor ending
  | (lead, dir) :: rest =>
    match d.directive format args cursor dir with
    | .error fault => d.fail fault
    | .ok (part, moved, cursor) =>
      interpret format args ending (moved.push (textParts lead ++ [part])) cursor rest

/-! ### Edits -/

/-- Add formatted text. -/
def add (d : Draft δ) (format : String) (args : List (Argument δ)) : Draft δ :=
  if d.fault.isSome then d
  else
    let parsed := Format.parse format
    d.interpret format args parsed.ending {} parsed.segments

/-- Add a formatted statement. -/
def addStatement (d : Draft δ) (format : String) (args : List (Argument δ)) : Draft δ :=
  d.add ("$[" ++ format ++ "$]") args

/-- Add the parts of another block. -/
def addCode (d : Draft δ) (c : Code δ) : Draft δ :=
  if d.fault.isSome then d
  else
    match d.absorb c with
    | .error fault => d.fail fault
    | .ok d => d.push c.parts

/-- Open a control flow with the given header. -/
def beginFlow (d : Draft δ) (header : String) (args : List (Argument δ)) : Draft δ :=
  let d := d.add (header ++ " \x7b\n$>") args
  { d with flows := d.flows + 1 }

/-- Close the body of the open control flow and open the next one. -/
def nextFlow (d : Draft δ) (header : String) (args : List (Argument δ)) : Draft δ :=
  if d.flows = 0 then d.fail (.continuesNoFlow header)
  else d.add ("$<\x7d " ++ header ++ " \x7b\n$>") args

/-- Close the open control flow. -/
def endFlow (d : Draft δ) : Draft δ :=
  if d.flows = 0 then d.fail .closesNoFlow
  else { d with flows := d.flows - 1 }.add "$<\x7d\n" []

/-- Close the open control flow with a clause behind the brace. -/
def endFlowWith (d : Draft δ) (clause : String) (args : List (Argument δ)) : Draft δ :=
  if d.flows = 0 then d.fail (.closesNoFlowWith clause)
  else { d with flows := d.flows - 1 }.add ("$<\x7d " ++ clause ++ ";\n") args

/-- Whether nothing has been collected. -/
def isEmpty (d : Draft δ) : Bool := d.parts.isEmpty

/-- The finished block. -/
def build (d : Draft δ) : Except Error (Code δ) :=
  match d.fault with
  | some fault => .error (.structural fault)
  | none =>
    if 0 < d.flows then .error (.structural (.openFlows d.flows))
    else if d.inStatement then .error (.structural .unclosedStatement)
    else .ok ⟨d.parts, d.statements⟩

end Draft

/-- An edit of a code block. -/
inductive Edit (δ : Type) where
  | add (format : String) (args : List (Argument δ))
  | addStatement (format : String) (args : List (Argument δ))
  | addCode (code : Code δ)
  | beginFlow (header : String) (args : List (Argument δ))
  | nextFlow (header : String) (args : List (Argument δ))
  | endFlow
  | endFlowWith (clause : String) (args : List (Argument δ))
  | indent
  | unindent

/-- The draft after an edit. -/
def Draft.apply (d : Draft δ) : Edit δ → Draft δ
  | .add format args => d.add format args
  | .addStatement format args => d.addStatement format args
  | .addCode code => d.addCode code
  | .beginFlow header args => d.beginFlow header args
  | .nextFlow header args => d.nextFlow header args
  | .endFlow => d.endFlow
  | .endFlowWith clause args => d.endFlowWith clause args
  | .indent => d.add "$>" []
  | .unindent => d.add "$<" []

/-- The draft after some edits in order. -/
def Draft.applyAll (d : Draft δ) (edits : List (Edit δ)) : Draft δ := edits.foldl Draft.apply d

/-- One series of edits after another. -/
theorem Draft.applyAll_append (d : Draft δ) (a b : List (Edit δ)) :
    d.applyAll (a ++ b) = (d.applyAll a).applyAll b := List.foldl_append

/-- The draft that goes on where a block ends. -/
def toDraft (c : Code δ) : Draft δ :=
  { parts := c.parts, statements := c.statements, depth := c.profile.net.toNat }

/-- The block of a single format string. -/
def ofFormat (format : String) (args : List (Argument δ)) : Except Error (Code δ) :=
  ({} : Draft δ).add format args |>.build

end Code

end CSharpGen
