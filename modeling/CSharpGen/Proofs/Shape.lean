/-
  CSharpGen/Proofs/Shape.lean
  ===========================
  **The shape of the writer** — what decides whether instructions can be run:
  the level of indentation, whether a line has been begun, the statements that
  are open or put aside (and whether a line has ended inside them), and the
  declarations, type variables and comments around the current place.

  The shape evolves by itself: a step of the writer is a step of its shape
  (`Writer.shape_step`, `Writer.shape_run`), whatever the layout and the imports
  are.  The names written differ from run to run, but a name is never empty and
  has no line end, so it begins the current line and does nothing else.  Hence
  two runs of the same instructions from writers of one shape fail alike and end
  alike.
-/
import CSharpGen.Emit.Writer
import CSharpGen.Proofs.Spelling

namespace CSharpGen

/-- What stands around the current place. -/
structure Position where
  scopes : List Scope := []
  typeVars : List (List String) := []
  inDoc : Bool := false
  inComment : Bool := false
  deriving DecidableEq, Repr

/-- The place behind an instruction. -/
def Position.after (p : Position) : Instruction → Position
  | .enterScope scope => { p with scopes := scope :: p.scopes }
  | .leaveScope => { p with scopes := p.scopes.tail }
  | .enterVariables vs => { p with typeVars := vs :: p.typeVars }
  | .leaveVariables => { p with typeVars := p.typeVars.tail }
  | .openDoc => { p with inDoc := true }
  | .closeDoc => { p with inDoc := false }
  | .openComment => { p with inComment := true }
  | .closeComment => { p with inComment := false }
  | _ => p

/-- What decides whether instructions can be run. -/
structure Shape where
  level : Nat := 0
  atLineStart : Bool := true
  /-- Whether a line has ended inside the open statement; none outside statements. -/
  statement : Option Bool := none
  suspended : List (Option Bool) := []
  position : Position := {}
  deriving DecidableEq, Repr

namespace Shape

def newline (sh : Shape) : Shape :=
  { sh with
    level := if sh.statement = some false then sh.level + 2 else sh.level
    atLineStart := true
    statement := sh.statement.map fun _ => true }

def writeLine (sh : Shape) (line : String) : Shape :=
  if line.isEmpty then sh else { sh with atLineStart := false }

def write (sh : Shape) (s : String) : Shape :=
  let lines := Text.split '\n' s
  lines.2.foldl (fun sh line => sh.newline.writeLine line) (sh.writeLine lines.1)

def endLine (sh : Shape) : Shape := if sh.atLineStart then sh else sh.write "\n"

def unindent (sh : Shape) (levels : Nat) : Except Error Shape :=
  if sh.level < levels then .error (.structural (.cannotUnindent levels sh.level))
  else .ok { sh with level := sh.level - levels }

def closeStatement (sh : Shape) : Except Error Shape := do
  let sh := sh.write ";"
  let sh ← if sh.statement = some true then sh.unindent 2 else .ok sh
  return { sh with statement := none }.write "\n"

/-- The shape behind an instruction. -/
def step (sh : Shape) (i : Instruction) : Except Error Shape :=
  match i with
  | .text s => .ok (sh.write s)
  | .reference c => do
    c.validate
    return { sh with atLineStart := false }
  | .indent => .ok { sh with level := sh.level + 1 }
  | .unindent => sh.unindent 1
  | .openStatement =>
    if sh.statement.isSome then .error (.structural .nestedStatement)
    else .ok { sh with statement := some false }
  | .closeStatement => sh.closeStatement
  | .suspendStatement =>
    .ok { sh with statement := none, suspended := sh.statement :: sh.suspended }
  | .resumeStatement =>
    .ok { sh with statement := sh.suspended.headD none, suspended := sh.suspended.tail }
  | .closeDoc | .closeComment => .ok { sh.endLine with position := sh.position.after i }
  | .refuse fault => .error (.structural fault)
  | _ => .ok { sh with position := sh.position.after i }

def run (sh : Shape) : Stream → Except Error Shape
  | [] => .ok sh
  | i :: rest => do
    let sh ← sh.step i
    sh.run rest

theorem run_append (sh : Shape) (s t : Stream) :
    sh.run (s ++ t) = (sh.run s).bind fun sh => sh.run t := by
  induction s generalizing sh with
  | nil => rfl
  | cons i rest ih =>
    simp only [List.cons_append, run, bind, Except.bind]
    cases sh.step i with
    | error e => rfl
    | ok sh => exact ih sh

/-! ### Writing does not move the place -/

@[simp] theorem newline_position (sh : Shape) : sh.newline.position = sh.position := rfl

@[simp] theorem writeLine_position (sh : Shape) (line : String) :
    (sh.writeLine line).position = sh.position := by
  unfold writeLine
  split <;> rfl

@[simp] theorem write_position (sh : Shape) (s : String) : (sh.write s).position = sh.position := by
  refine List.foldlRecOn (motive := fun next : Shape => next.position = sh.position) _ _
    (sh.writeLine_position _) ?_
  intro next hnext line _
  rw [writeLine_position, newline_position, hnext]

@[simp] theorem endLine_position (sh : Shape) : sh.endLine.position = sh.position := by
  unfold endLine
  split
  · rfl
  · exact write_position sh "\n"

theorem unindent_position {sh sh' : Shape} {levels : Nat} (h : sh.unindent levels = .ok sh') :
    sh'.position = sh.position := by
  unfold unindent at h
  split at h
  · cases h
  · cases h
    rfl

theorem closeStatement_position {sh sh' : Shape} (h : sh.closeStatement = .ok sh') :
    sh'.position = sh.position := by
  simp only [closeStatement, bind, Except.bind, pure, Except.pure] at h
  split at h
  · split at h
    · cases h
    · next mid hmid =>
      cases h
      rw [write_position]
      exact (unindent_position hmid).trans (write_position sh ";")
  · cases h
    rw [write_position]
    exact write_position sh ";"

theorem step_position {sh sh' : Shape} {i : Instruction} (h : sh.step i = .ok sh') :
    sh'.position = sh.position.after i := by
  cases i with
  | text s => cases h; exact write_position sh s
  | reference c =>
    simp only [step, bind, Except.bind, pure, Except.pure] at h
    split at h <;> cases h
    rfl
  | unindent => exact unindent_position h
  | closeStatement => exact closeStatement_position h
  | openStatement =>
    simp only [step] at h
    split at h <;> cases h
    rfl
  | refuse fault => cases h
  | indent | wrapSpace | wrapPoint | enterScope | leaveScope | enterVariables | leaveVariables
  | suspendStatement | resumeStatement | openDoc | closeDoc | openComment | closeComment =>
    cases h
    rfl

end Shape

/-! ### The text of a name -/

theorem ClassName.drop_simpleNames_ne_nil {c : ClassName} {depth : Nat}
    (h : depth ≤ c.inner.length) : c.simpleNames.drop depth ≠ [] := by
  intro hnil
  have := congrArg List.length hnil
  simp [simpleNames] at this
  omega

theorem Text.join_plain {xs : List String} (hx : xs ≠ [])
    (h : ∀ s ∈ xs, Identifier.isValid s = true) :
    join "." xs ≠ "" ∧ '\n' ∉ (join "." xs).toList := by
  constructor
  · obtain ⟨x, xs, rfl⟩ := List.exists_cons_of_ne_nil hx
    have hfirst := Identifier.ne_empty_of_isValid (h x (by simp))
    cases xs with
    | nil => exact hfirst
    | cons y ys => simp [join_cons_cons, hfirst]
  · intro hmem
    rcases mem_toList_join hmem with hdot | ⟨s, hs, hc⟩
    · cases hdot
    · exact Identifier.not_mem_of_isForeign (h s hs) Identifier.isForeign_newline hc

/-- **The name of a well-formed type is not empty and has no line end.** -/
theorem Names.spell_plain (setting : Setting) (quiet : Bool) (names : Names) {c : ClassName}
    (hc : c.Valid) :
    (names.spell setting quiet c).1 ≠ "" ∧ '\n' ∉ (names.spell setting quiet c).1.toList := by
  rw [spell_fst]
  cases hdepth : names.depth? setting c with
  | some depth =>
    exact Text.join_plain
      (ClassName.drop_simpleNames_ne_nil (Names.depth_le_of_depth? hdepth))
      (hc.isValid_of_mem_drop depth)
  | none =>
    have hplain := Text.join_plain c.path_ne_nil hc.isValid_of_mem_path
    simp only [ClassName.qualified, ClassName.canonical_eq_join]
    split
    · exact ⟨by simp, by simpa using hplain.2⟩
    · exact hplain

theorem Shape.write_plain (sh : Shape) {s : String} (hne : s ≠ "") (hline : '\n' ∉ s.toList) :
    sh.write s = { sh with atLineStart := false } := by
  have hsplit : Text.split '\n' s = (s, []) := by
    simp [Text.split, Text.cutAll_of_not_mem hline]
  simp [write, writeLine, hsplit, String.isEmpty_iff, hne]

/-! ### The writer has a shape -/

namespace Writer

def position (w : Writer) : Position :=
  ⟨w.names.scopes, w.names.typeVariables, w.inDoc, w.inComment⟩

def shape (w : Writer) : Shape where
  level := w.level
  atLineStart := w.atLineStart
  statement := w.statement.map fun lines => decide (0 < lines)
  suspended := w.suspended.map (Option.map fun lines => decide (0 < lines))
  position := w.position

theorem appendIndentation_eq (layout : Layout) (w : Writer) (level : Nat) :
    ∃ wrapper, w.appendIndentation layout level = { w with wrapper := wrapper } := by
  induction level generalizing w with
  | zero => exact ⟨w.wrapper, rfl⟩
  | succ level ih =>
    obtain ⟨wrapper, h⟩ := ih (w.append layout layout.unit)
    exact ⟨wrapper, h⟩

theorem startLine_eq (layout : Layout) (w : Writer) :
    ∃ wrapper, w.startLine layout = { w with wrapper := wrapper } := by
  obtain ⟨wrapper, h⟩ := appendIndentation_eq layout w w.level
  unfold startLine
  simp only [h]
  cases w.mark? with
  | none => exact ⟨wrapper, rfl⟩
  | some mark => exact ⟨_, rfl⟩

theorem markEmptyLine_eq (layout : Layout) (w : Writer) :
    ∃ wrapper, w.markEmptyLine layout = { w with wrapper := wrapper } := by
  obtain ⟨wrapper, h⟩ := appendIndentation_eq layout w w.level
  unfold markEmptyLine
  cases w.mark? with
  | none => exact ⟨w.wrapper, rfl⟩
  | some mark =>
    by_cases hstart : w.atLineStart = true
    · simp only [if_pos hstart, h]
      exact ⟨_, rfl⟩
    · simp only [if_neg hstart]
      exact ⟨w.wrapper, rfl⟩

theorem shape_writeLine (layout : Layout) (w : Writer) (line : String) :
    (w.writeLine layout line).shape = w.shape.writeLine line
      ∧ (w.writeLine layout line).names = w.names := by
  unfold writeLine Shape.writeLine
  by_cases hline : line.isEmpty = true
  · simp [hline]
  · obtain ⟨wrapper, h⟩ := startLine_eq layout w
    by_cases hstart : w.atLineStart = true
    · simp only [hline, hstart, if_true, h]
      exact ⟨rfl, rfl⟩
    · simp only [hline, hstart]
      exact ⟨rfl, rfl⟩

theorem shape_newline (layout : Layout) (w : Writer) :
    (w.newline layout).shape = w.shape.newline ∧ (w.newline layout).names = w.names := by
  obtain ⟨wrapper, h⟩ := markEmptyLine_eq layout w
  unfold newline
  rw [h]
  cases hs : w.statement with
  | none => simp [append, continueStatement, hs, shape, Shape.newline, position]
  | some lines =>
    cases lines <;> simp [append, continueStatement, hs, shape, Shape.newline, position]

/-- Writing a text has the same effect on the shape under every layout, and none on
    the names. -/
theorem shape_write (layout : Layout) (w : Writer) (s : String) :
    (w.write layout s).shape = w.shape.write s ∧ (w.write layout s).names = w.names := by
  refine List.foldl_rel (r := fun (v : Writer) sh => v.shape = sh ∧ v.names = w.names)
    (shape_writeLine layout w _) ?_
  rintro line - v _ ⟨rfl, hnames⟩
  obtain ⟨hlineShape, hlineNames⟩ := shape_writeLine layout (v.newline layout) line
  obtain ⟨hnewShape, hnewNames⟩ := shape_newline layout v
  rw [hlineShape, hlineNames, hnewShape, hnewNames]
  exact ⟨rfl, hnames⟩

theorem shape_endLine (layout : Layout) (w : Writer) :
    (w.endLine layout).shape = w.shape.endLine ∧ (w.endLine layout).names = w.names := by
  unfold endLine Shape.endLine
  by_cases h : w.atLineStart = true
  · rw [if_pos h, if_pos (show w.shape.atLineStart = true from h)]
    exact ⟨rfl, rfl⟩
  · rw [if_neg h, if_neg (show ¬ w.shape.atLineStart = true from h)]
    exact shape_write layout w "\n"

theorem shape_unindent (w : Writer) (levels : Nat) :
    (w.unindent levels).map shape = w.shape.unindent levels := by
  unfold unindent Shape.unindent
  by_cases h : w.level < levels
  · rw [if_pos h, if_pos (show w.shape.level < levels from h)]
    rfl
  · rw [if_neg h, if_neg (show ¬ w.shape.level < levels from h)]
    rfl

theorem statement_any_iff (w : Writer) :
    w.statement.any (0 < ·) = true ↔ w.shape.statement = some true := by
  cases h : w.statement <;> simp [shape, h]

theorem shape_closeStatement (layout : Layout) (w : Writer) :
    (w.closeStatement layout).map shape = w.shape.closeStatement := by
  obtain ⟨hsemi, -⟩ := shape_write layout w ";"
  have hend : ∀ v : Writer, (({ v with statement := none } : Writer).write layout "\n").shape
      = ({ v.shape with statement := none } : Shape).write "\n" := fun v =>
    (shape_write layout { v with statement := none } "\n").1
  simp only [closeStatement, Shape.closeStatement, ← hsemi, statement_any_iff]
  split
  · rw [← shape_unindent]
    cases (w.write layout ";").unindent 2 with
    | error e => rfl
    | ok v => exact congrArg Except.ok (hend v)
  · exact congrArg Except.ok (hend (w.write layout ";"))

/-- A reference begins the line it stands on; a malformed one fails. -/
theorem shape_reference (session : Session) (w : Writer) (c : ClassName) :
    (w.reference session c).map shape = w.shape.step (.reference c) := by
  cases hvalid : c.validate with
  | error e =>
    simp [reference, Names.lookup, Shape.step, hvalid, bind, Except.bind, Except.map]
  | ok u =>
    have hc : c.Valid := (ClassName.validate_eq_ok_iff c).mp hvalid
    obtain ⟨hne, hline⟩ :=
      Names.spell_plain session.setting (w.inDoc || w.inComment) w.names hc
    obtain ⟨hscopes, hvariables⟩ :=
      Names.spell_position session.setting (w.inDoc || w.inComment) w.names c
    have hwrite := shape_write session.layout
      { w with names := (w.names.spell session.setting (w.inDoc || w.inComment) c).2 }
      (w.names.spell session.setting (w.inDoc || w.inComment) c).1
    simp only [reference, Names.lookup, Shape.step, hvalid, bind, Except.bind, Except.map, pure,
      Except.pure]
    rw [hwrite.1, Shape.write_plain _ hne hline]
    simp only [shape, position, hscopes, hvariables]

/-- **A step of the writer is a step of its shape.** -/
theorem shape_step (session : Session) (w : Writer) (i : Instruction) :
    (w.step session i).map shape = w.shape.step i := by
  cases i with
  | text s => exact congrArg Except.ok (shape_write session.layout w s).1
  | reference c => exact shape_reference session w c
  | unindent => exact shape_unindent w 1
  | closeStatement => exact shape_closeStatement session.layout w
  | openStatement =>
    cases h : w.statement <;> simp [step, Shape.step, shape, h, Except.map, position]
  | closeDoc =>
    have hclosed : ({ w.endLine session.layout with inDoc := false } : Writer).shape
        = { w.shape.endLine with
            position := { w.shape.endLine.position with inDoc := false } } := by
      rw [← (shape_endLine session.layout w).1]
      rfl
    rw [Shape.endLine_position] at hclosed
    exact congrArg Except.ok hclosed
  | closeComment =>
    have hclosed : ({ w.endLine session.layout with inComment := false } : Writer).shape
        = { w.shape.endLine with
            position := { w.shape.endLine.position with inComment := false } } := by
      rw [← (shape_endLine session.layout w).1]
      rfl
    rw [Shape.endLine_position] at hclosed
    exact congrArg Except.ok hclosed
  | resumeStatement =>
    cases h : w.suspended <;> simp [step, Shape.step, shape, h, Except.map, position]
  | refuse fault => rfl
  | indent | wrapSpace | wrapPoint | enterScope | leaveScope | enterVariables | leaveVariables
  | suspendStatement | openDoc | openComment => rfl

/-- **A run of the writer is a run of its shape.** -/
theorem shape_run (session : Session) (w : Writer) (s : Stream) :
    (w.run session s).map shape = w.shape.run s := by
  induction s generalizing w with
  | nil => rfl
  | cons i rest ih =>
    have hstep := shape_step session w i
    simp only [run, Shape.run, bind, Except.bind]
    cases hi : w.step session i with
    | error e =>
      rw [hi] at hstep
      rw [← hstep]
      rfl
    | ok next =>
      rw [hi] at hstep
      rw [← hstep]
      exact ih next

end Writer

end CSharpGen
