/-
  CSharpGen/Emit/Writer.lean
  ==========================
  **The writer** — a machine that runs instructions.  It keeps the text with its
  line breaks (`Wrapper`), the level of indentation, what is known about names
  (`Names`), and the contexts that are open: a statement, documentation, a
  comment.

  Every line that something is written on begins with the indentation of the
  current level and, in documentation or a comment, with the comment mark.  A
  statement that runs over several lines is indented two levels more from its
  second line on.
-/
import CSharpGen.Emit.Names
import CSharpGen.Emit.Wrap

namespace CSharpGen

/-- The state of the writer. -/
structure Writer where
  wrapper : Wrapper := {}
  level : Nat := 0
  /-- Whether nothing has been written on the current line. -/
  atLineStart : Bool := true
  /-- Line ends written inside the open statement; none outside statements. -/
  statement : Option Nat := none
  /-- The statements that have been put aside, the last one first. -/
  suspended : List (Option Nat) := []
  inDoc : Bool := false
  inComment : Bool := false
  names : Names := {}

/-- What stays fixed while instructions run. -/
structure Session where
  layout : Layout
  setting : Setting

namespace Writer

/-! ### Writing text -/

/-- Add text as it is. -/
def append (layout : Layout) (w : Writer) (s : String) : Writer :=
  { w with wrapper := w.wrapper.append layout s }

/-- Add some levels of indentation. -/
def appendIndentation (layout : Layout) (w : Writer) : Nat → Writer
  | 0 => w
  | level + 1 => (w.append layout layout.unit).appendIndentation layout level

/-- The mark at the beginning of a line of documentation or of a comment. -/
def mark? (w : Writer) : Option String :=
  if w.inDoc then some "///" else if w.inComment then some "//" else none

/-- Begin a line with the indentation and, in a comment, with its mark. -/
def startLine (layout : Layout) (w : Writer) : Writer :=
  let indented := w.appendIndentation layout w.level
  match w.mark? with
  | some mark => indented.append layout (mark ++ " ")
  | none => indented

/-- Write text without line ends. -/
def writeLine (layout : Layout) (w : Writer) (line : String) : Writer :=
  if line.isEmpty then w
  else
    let started := if w.atLineStart then w.startLine layout else w
    { started.append layout line with atLineStart := false }

/-- Put the mark of a comment on a line that is otherwise empty. -/
def markEmptyLine (layout : Layout) (w : Writer) : Writer :=
  match w.mark? with
  | some mark =>
    if w.atLineStart then (w.appendIndentation layout w.level).append layout mark else w
  | none => w

theorem markEmptyLine_of_no_mark {layout : Layout} {w : Writer} (h : w.mark? = none) :
    w.markEmptyLine layout = w := by
  simp [markEmptyLine, h]

/-- Count a line end in the open statement; the first one indents what follows. -/
def continueStatement (w : Writer) : Writer :=
  match w.statement with
  | none => w
  | some lines =>
    { w with
      level := if lines = 0 then w.level + 2 else w.level
      statement := some (lines + 1) }

@[simp] theorem continueStatement_wrapper (w : Writer) :
    w.continueStatement.wrapper = w.wrapper := by
  unfold continueStatement
  split <;> rfl

@[simp] theorem continueStatement_atLineStart (w : Writer) :
    w.continueStatement.atLineStart = w.atLineStart := by
  unfold continueStatement
  split <;> rfl

/-- End the current line. -/
def newline (layout : Layout) (w : Writer) : Writer :=
  { (w.markEmptyLine layout).append layout "\n" with atLineStart := true }.continueStatement

theorem newline_wrapper (layout : Layout) (w : Writer) :
    (w.newline layout).wrapper = (w.markEmptyLine layout).wrapper.append layout "\n" := by
  simp [newline, append]

/-- Behind a line end nothing has to be decided. -/
theorem newline_settled (layout : Layout) (w : Writer) :
    ∃ out, (w.newline layout).wrapper = ⟨out, 0, none⟩ := by
  rw [newline_wrapper]
  exact Wrapper.append_newline layout _

@[simp] theorem newline_atLineStart (layout : Layout) (w : Writer) :
    (w.newline layout).atLineStart = true := by
  simp [newline]

/-- Write text. -/
def write (layout : Layout) (w : Writer) (s : String) : Writer :=
  let lines := Text.split '\n' s
  lines.2.foldl (fun w line => (w.newline layout).writeLine layout line)
    (w.writeLine layout lines.1)

/-- End the current line if something stands on it. -/
def endLine (layout : Layout) (w : Writer) : Writer :=
  if w.atLineStart then w else w.write layout "\n"

/-! ### Running instructions -/

/-- Go back some levels of indentation. -/
def unindent (w : Writer) (levels : Nat) : Except Error Writer :=
  if w.level < levels then .error (.structural (.cannotUnindent levels w.level))
  else .ok { w with level := w.level - levels }

theorem unindent_eq_ok {w v : Writer} {levels : Nat} (h : w.unindent levels = .ok v) :
    levels ≤ w.level ∧ v = { w with level := w.level - levels } := by
  unfold unindent at h
  split at h
  · cases h
  · next hroom =>
    cases h
    exact ⟨Nat.not_lt.mp hroom, rfl⟩

/-- End the open statement. -/
def closeStatement (layout : Layout) (w : Writer) : Except Error Writer := do
  let w := w.write layout ";"
  let w ← if w.statement.any (0 < ·) then w.unindent 2 else .ok w
  return { w with statement := none }.write layout "\n"

/-- **What the end of a statement does**: behind the semicolon it takes back the two levels
    of a statement with line ends in it, and ends the line. -/
theorem closeStatement_eq_ok {layout : Layout} {w v : Writer}
    (h : w.closeStatement layout = .ok v) : ∃ level,
      (w.write layout ";").level
        = level + (if (w.write layout ";").statement.any (0 < ·) then 2 else 0)
      ∧ v = ({ w.write layout ";" with level := level, statement := none } : Writer).write layout
        "\n" := by
  simp only [closeStatement] at h
  split at h
  · next hcontinued =>
    obtain ⟨mid, hmid, hend⟩ := Except.bind_eq_ok h
    obtain ⟨hroom, rfl⟩ := unindent_eq_ok hmid
    cases hend
    refine ⟨_, ?_, rfl⟩
    rw [if_pos hcontinued]
    exact (Nat.sub_add_cancel hroom).symm
  · next hfirst =>
    cases h
    refine ⟨_, ?_, rfl⟩
    rw [if_neg hfirst, Nat.add_zero]

/-- Write the name of a type. -/
def reference (session : Session) (w : Writer) (c : ClassName) : Except Error Writer := do
  let (name, names) ← w.names.lookup session.setting (w.inDoc || w.inComment) c
  return { w with names := names }.write session.layout name

/-- **What writing a name does**: the reference is well-formed, and its name is written. -/
theorem reference_eq_ok {session : Session} {w v : Writer} {c : ClassName}
    (h : w.reference session c = .ok v) : c.validate = .ok ()
      ∧ v = ({ w with
          names := (w.names.spell session.setting (w.inDoc || w.inComment) c).2 } : Writer).write
        session.layout (w.names.spell session.setting (w.inDoc || w.inComment) c).1 := by
  obtain ⟨found, hfound, hv⟩ := Except.bind_eq_ok h
  obtain ⟨⟨⟩, hvalid, hspell⟩ := Except.bind_eq_ok hfound
  cases hspell
  cases hv
  exact ⟨hvalid, rfl⟩

/-- Run one instruction. -/
def step (session : Session) (w : Writer) : Instruction → Except Error Writer
  | .text s => .ok (w.write session.layout s)
  | .reference c => w.reference session c
  | .indent => .ok { w with level := w.level + 1 }
  | .unindent => w.unindent 1
  | .openStatement =>
    if w.statement.isSome then .error (.structural .nestedStatement)
    else .ok { w with statement := some 0 }
  | .closeStatement => w.closeStatement session.layout
  | .wrapSpace => .ok { w with wrapper := w.wrapper.addSpace session.layout (w.level + 2) }
  | .wrapPoint => .ok { w with wrapper := w.wrapper.addPoint session.layout (w.level + 2) }
  | .enterScope scope =>
    .ok { w with names := { w.names with scopes := scope :: w.names.scopes } }
  | .leaveScope => .ok { w with names := { w.names with scopes := w.names.scopes.tail } }
  | .enterVariables vs =>
    .ok { w with names := { w.names with typeVariables := vs :: w.names.typeVariables } }
  | .leaveVariables =>
    .ok { w with names := { w.names with typeVariables := w.names.typeVariables.tail } }
  | .suspendStatement =>
    .ok { w with statement := none, suspended := w.statement :: w.suspended }
  | .resumeStatement =>
    .ok { w with statement := w.suspended.headD none, suspended := w.suspended.tail }
  | .openDoc => .ok { w with inDoc := true }
  | .closeDoc => .ok { w.endLine session.layout with inDoc := false }
  | .openComment => .ok { w with inComment := true }
  | .closeComment => .ok { w.endLine session.layout with inComment := false }
  | .refuse fault => .error (.structural fault)

/-- Run instructions in order, up to the first error. -/
def run (session : Session) (w : Writer) : Stream → Except Error Writer
  | [] => .ok w
  | i :: rest => do
    let w ← w.step session i
    w.run session rest

/-- Running one list of instructions after another. -/
theorem run_append (session : Session) (w : Writer) (s t : Stream) :
    w.run session (s ++ t) = (w.run session s).bind fun w => w.run session t := by
  induction s generalizing w with
  | nil => rfl
  | cons i rest ih =>
    simp only [List.cons_append, run, bind, Except.bind]
    cases w.step session i with
    | error e => rfl
    | ok w => exact ih w

/-- The text written. -/
def text (layout : Layout) (w : Writer) : String := w.wrapper.finish layout

end Writer

end CSharpGen
