/-
  CSharpGen/Proofs/Scripts.lean
  =============================
  **Programs of statements and control flows.**  A script is a tree: statements
  in a row, and control flows whose bodies are scripts in turn.  It can be
  spelled as edits of a code block (`Script.edits`), and it has a layout of its
  own (`Script.layout`), which knows nothing of edits, marks or a writer: every
  line is indented by the depth at which it stands, and the lines of a statement
  from the second on by two levels more.

  The two agree (`Script.render_eq_layout`).  The marks that the edits leave in
  the block keep the level of the writer at the depth of the tree, and since no
  break is ever held back, what the writer is given stands in the text as it is
  (`Writer.Direct.write`).
-/
import CSharpGen.Proofs.Formats
import CSharpGen.Proofs.Usings

namespace CSharpGen

/-! ### Scripts -/

/-- Text that holds no placeholder. -/
structure PlainText where
  text : String
  plain : '$' ∉ text.toList

mutual

/-- Statements and control flows in a row. -/
inductive Script where
  | done
  | statement (text : PlainText) (rest : Script)
  | flow (header : PlainText) (body : Script) (ending : Ending) (rest : Script)

/-- What follows the body of a control flow: its end, plain or with a clause behind the
    brace, or another body with a header of its own. -/
inductive Ending where
  | close
  | closeWith (clause : PlainText)
  | next (header : PlainText) (body : Script) (ending : Ending)

end

section Edits

variable {δ : Type}

mutual

/-- The edits that spell a script. -/
def Script.edits : Script → List (Code.Edit δ)
  | .done => []
  | .statement text rest => .addStatement text.text [] :: rest.edits
  | .flow header body ending rest =>
    .beginFlow header.text [] :: (body.edits ++ (ending.edits ++ rest.edits))

def Ending.edits : Ending → List (Code.Edit δ)
  | .close => [.endFlow]
  | .closeWith clause => [.endFlowWith clause.text []]
  | .next header body ending => .nextFlow header.text [] :: (body.edits ++ ending.edits)

end

end Edits

/-- The statements of a script outside of all control flows. -/
def Script.statements : Script → Nat
  | .done => 0
  | .statement _ rest => rest.statements + 1
  | .flow _ _ _ rest => rest.statements

/-! ### The layout of a script -/

namespace Layout

/-- A line at a level.  An empty line is not indented. -/
def line (layout : Layout) (level : Nat) (s : String) : String :=
  if s.isEmpty then "" else layout.indentation level ++ s

/-- A text with its first line at one level and all others at another. -/
def lines (layout : Layout) (first later : Nat) (s : String) : String :=
  layout.line first (Text.split '\n' s).1
    ++ String.join ((Text.split '\n' s).2.map fun l => "\n" ++ layout.line later l)

end Layout

mutual

/-- The layout of a script at a depth: the lines of a statement from the second on stand two
    levels further in, headers and closing braces at the depth, bodies one level further in. -/
def Script.layout (layout : Layout) (depth : Nat) : Script → String
  | .done => ""
  | .statement text rest =>
    layout.lines depth (depth + 2) (text.text ++ ";") ++ "\n" ++ rest.layout layout depth
  | .flow header body ending rest =>
    layout.lines depth depth (header.text ++ " \x7b") ++ "\n" ++ body.layout layout (depth + 1)
      ++ ending.layout layout depth ++ rest.layout layout depth

def Ending.layout (layout : Layout) (depth : Nat) : Ending → String
  | .close => layout.lines depth depth "\x7d" ++ "\n"
  | .closeWith clause => layout.lines depth depth ("\x7d " ++ clause.text ++ ";") ++ "\n"
  | .next header body ending =>
    layout.lines depth depth ("\x7d " ++ header.text ++ " \x7b") ++ "\n"
      ++ body.layout layout (depth + 1) ++ ending.layout layout depth

end

/-! ### The block that the edits build -/

theorem Format.scan_plain (format : String) (lead : List Char) {cs : List Char} (h : '$' ∉ cs)
    (more : List Char) :
    scan format lead none (cs ++ more) = scan format (lead ++ cs) none more := by
  induction cs generalizing lead with
  | nil => simp
  | cons c cs ih =>
    obtain ⟨hc, hcs⟩ := not_or.mp (mt List.mem_cons.mpr h)
    simp only [List.cons_append, scan, if_neg (Ne.symm hc)]
    rw [ih _ hcs, List.append_assoc]
    rfl

section Parts

variable {δ : Type}

mutual

/-- The parts that the edits of a script add. -/
def Script.parts : Script → List (Part δ)
  | .done => []
  | .statement text rest =>
    .openStatement :: (Code.textParts text.text ++ .closeStatement :: rest.parts)
  | .flow header body ending rest =>
    Code.textParts (header.text ++ " \x7b\n")
      ++ .indent :: (body.parts ++ (ending.parts ++ rest.parts))

def Ending.parts : Ending → List (Part δ)
  | .close => [.unindent, .text "\x7d\n"]
  | .closeWith clause => [.unindent, .text ("\x7d " ++ clause.text ++ ";\n")]
  | .next header body ending =>
    .unindent :: .text ("\x7d " ++ header.text ++ " \x7b\n") :: .indent
      :: (body.parts ++ ending.parts)

end

namespace Code.Draft

/-- The draft with some parts and some statements more. -/
def grown (d : Draft δ) (ps : List (Part δ)) (n : Nat) : Draft δ :=
  { d with parts := d.parts ++ ps, statements := d.statements + n }

/-- The draft inside other control flows. -/
def within (d : Draft δ) (flows depth : Nat) : Draft δ :=
  { d with flows := flows, depth := depth }

/-- A draft that takes edits, and is not inside a statement. -/
structure Ready (d : Draft δ) : Prop where
  fault : d.fault = none
  inStatement : d.inStatement = false

variable {d : Draft δ}

theorem Ready.grown (h : d.Ready) (ps : List (Part δ)) (n : Nat) : (d.grown ps n).Ready :=
  ⟨h.fault, h.inStatement⟩

theorem Ready.within (h : d.Ready) (flows depth : Nat) : (d.within flows depth).Ready :=
  ⟨h.fault, h.inStatement⟩

theorem flows_within_ne (d : Draft δ) (f k : Nat) : (d.within (f + 1) k).flows ≠ 0 :=
  Nat.succ_ne_zero f

theorem grown_grown (d : Draft δ) (ps qs : List (Part δ)) (m n : Nat) :
    (d.grown ps m).grown qs n = d.grown (ps ++ qs) (m + n) := by
  simp [Draft.grown, Nat.add_assoc]

theorem Ready.add_eq (h : d.Ready) {format : String} {segments : List (String × Directive)}
    {tail : String} (hparse : Format.parse format = ⟨segments, .ok tail⟩) :
    d.add format [] = d.interpret format [] (.ok tail) {} segments := by
  simp [Draft.add, h.fault, hparse]

theorem Ready.addStatement_eq (h : d.Ready) (t : PlainText) :
    d.addStatement t.text [] = d.grown
      (.openStatement :: (Code.textParts t.text ++ [.closeStatement]))
      (if d.flows = 0 then 1 else 0) := by
  have hparse : Format.parse ("$[" ++ t.text ++ "$]")
      = ⟨[("", .openStatement), (t.text, .closeStatement)], .ok ""⟩ := by
    simp [Format.parse, Format.scan, Format.directive?, Format.placeholder?, Format.mark?,
      Format.scan_plain _ _ t.plain]
  rw [Draft.addStatement, h.add_eq hparse]
  by_cases hflows : d.flows = 0
  · simp [Draft.interpret, Draft.directive, Draft.finish, Cursor.unused?, Draft.push, Draft.grown,
      Draft.count, Code.textParts_empty, h.inStatement, hflows]
  · simp [Draft.interpret, Draft.directive, Draft.finish, Cursor.unused?, Draft.push, Draft.grown,
      Draft.count, Code.textParts_empty, h.inStatement, hflows]

theorem Ready.beginFlow_eq (h : d.Ready) (t : PlainText) :
    d.beginFlow t.text [] = (d.grown (Code.textParts (t.text ++ " \x7b\n") ++ [.indent]) 0).within
      (d.flows + 1) (d.depth + 1) := by
  have hparse : Format.parse (t.text ++ " \x7b\n$>")
      = ⟨[(t.text ++ " \x7b\n", .indent)], .ok ""⟩ := by
    simp [Format.parse, Format.scan, Format.directive?, Format.placeholder?, Format.mark?,
      Format.scan_plain _ _ t.plain]
  rw [Draft.beginFlow, h.add_eq hparse]
  simp [Draft.interpret, Draft.directive, Draft.finish, Cursor.unused?, Draft.push, Draft.grown,
    Draft.within, Code.textParts_empty]

theorem Ready.nextFlow_eq (h : d.Ready) (f k : Nat) (t : PlainText) :
    (d.within (f + 1) (k + 1)).nextFlow t.text [] =
      (d.grown [.unindent, .text ("\x7d " ++ t.text ++ " \x7b\n"), .indent] 0).within
        (f + 1) (k + 1) := by
  have hparse : Format.parse ("$<\x7d " ++ t.text ++ " \x7b\n$>")
      = ⟨[("", .unindent), ("\x7d " ++ t.text ++ " \x7b\n", .indent)], .ok ""⟩ := by
    simp [Format.parse, Format.scan, Format.directive?, Format.placeholder?, Format.mark?,
      Format.scan_plain _ _ t.plain, ← String.toList_inj]
  rw [Draft.nextFlow, if_neg (d.flows_within_ne f _), (h.within _ _).add_eq hparse]
  simp [Draft.interpret, Draft.directive, Draft.finish, Cursor.unused?, Draft.push, Draft.grown,
    Draft.within, Code.textParts]

theorem Ready.endFlow_eq (h : d.Ready) (f k : Nat) :
    (d.within (f + 1) (k + 1)).endFlow
      = (d.grown [.unindent, .text "\x7d\n"] 0).within f k := by
  have hparse : Format.parse "$<\x7d\n" = ⟨[("", .unindent)], .ok "\x7d\n"⟩ := by
    simp [Format.parse, Format.scan, Format.directive?, Format.placeholder?, Format.mark?]
  rw [Draft.endFlow, if_neg (d.flows_within_ne f _)]
  show (d.within f (k + 1)).add _ [] = _
  rw [(h.within _ _).add_eq hparse]
  simp [Draft.interpret, Draft.directive, Draft.finish, Cursor.unused?, Draft.push, Draft.grown,
    Draft.within, Code.textParts]

theorem Ready.endFlowWith_eq (h : d.Ready) (f k : Nat) (t : PlainText) :
    (d.within (f + 1) (k + 1)).endFlowWith t.text []
      = (d.grown [.unindent, .text ("\x7d " ++ t.text ++ ";\n")] 0).within f k := by
  have hparse : Format.parse ("$<\x7d " ++ t.text ++ ";\n")
      = ⟨[("", .unindent)], .ok ("\x7d " ++ t.text ++ ";\n")⟩ := by
    simp [Format.parse, Format.scan, Format.directive?, Format.placeholder?, Format.mark?,
      Format.scan_plain _ _ t.plain, ← String.toList_inj]
  rw [Draft.endFlowWith, if_neg (d.flows_within_ne f _)]
  show (d.within f (k + 1)).add _ [] = _
  rw [(h.within _ _).add_eq hparse]
  simp [Draft.interpret, Draft.directive, Draft.finish, Cursor.unused?, Draft.push, Draft.grown,
    Draft.within, Code.textParts]

end Code.Draft

mutual

/-- **The edits of a script add its parts**, and outside of control flows they count its
    statements. -/
theorem Script.applyAll_edits : ∀ (s : Script) {d : Code.Draft δ}, d.Ready →
    d.applyAll s.edits = d.grown s.parts (if d.flows = 0 then s.statements else 0)
  | .done, d, _ => by
    simp [Script.edits, Script.parts, Script.statements, Code.Draft.applyAll, Code.Draft.grown]
  | .statement text rest, d, h => by
    have hedits : d.applyAll (Script.statement text rest).edits
        = (d.addStatement text.text []).applyAll rest.edits := rfl
    rw [hedits, h.addStatement_eq, Script.applyAll_edits rest (h.grown _ _),
      Code.Draft.grown_grown]
    by_cases hflows : d.flows = 0
    · simp [Code.Draft.grown, Script.parts, Script.statements, hflows, Nat.add_comm]
    · simp [Code.Draft.grown, Script.parts, hflows]
  | .flow header body ending rest, d, h => by
    have hedits : d.applyAll (Script.flow header body ending rest).edits
        = (((d.beginFlow header.text []).applyAll body.edits).applyAll ending.edits).applyAll
          rest.edits := by
      rw [← Code.Draft.applyAll_append, ← Code.Draft.applyAll_append]
      rfl
    have hinside : ∀ e : Code.Draft δ,
        (e.within (d.flows + 1) (d.depth + 1)).grown body.parts 0
          = (e.grown body.parts 0).within (d.flows + 1) (d.depth + 1) := fun _ => rfl
    -- Nothing in the body counts, and behind the ending the draft is back where it was.
    rw [hedits, h.beginFlow_eq, Script.applyAll_edits body ((h.grown _ _).within _ _),
      if_neg (Code.Draft.flows_within_ne _ _ _), hinside,
      Ending.applyAll_edits ending ((h.grown _ _).grown _ _)]
    have hback : ∀ ps n, (d.grown ps n).within d.flows d.depth = d.grown ps n := fun _ _ => rfl
    rw [Code.Draft.grown_grown, Code.Draft.grown_grown, hback,
      Script.applyAll_edits rest (h.grown _ _), Code.Draft.grown_grown]
    simp [Script.parts, Script.statements, Code.Draft.grown]

/-- The edits of an ending leave the control flow. -/
theorem Ending.applyAll_edits : ∀ (e : Ending) {d : Code.Draft δ} {f k : Nat}, d.Ready →
    (d.within (f + 1) (k + 1)).applyAll e.edits = (d.grown e.parts 0).within f k
  | .close, d, f, k, h => h.endFlow_eq f k
  | .closeWith clause, d, f, k, h => h.endFlowWith_eq f k clause
  | .next header body ending, d, f, k, h => by
    have hedits : (d.within (f + 1) (k + 1)).applyAll (Ending.next header body ending).edits
        = (((d.within (f + 1) (k + 1)).nextFlow header.text []).applyAll body.edits).applyAll
          ending.edits := by
      rw [← Code.Draft.applyAll_append]
      rfl
    have hinside : ∀ e : Code.Draft δ, (e.within (f + 1) (k + 1)).grown body.parts 0
        = (e.grown body.parts 0).within (f + 1) (k + 1) := fun _ => rfl
    rw [hedits, h.nextFlow_eq, Script.applyAll_edits body ((h.grown _ _).within _ _),
      if_neg (Code.Draft.flows_within_ne _ _ _), hinside,
      Ending.applyAll_edits ending ((h.grown _ _).grown _ _), Code.Draft.grown_grown,
      Code.Draft.grown_grown]
    simp [Ending.parts]

end

end Parts

/-! ### Text that goes straight into the output -/

namespace Writer

/-- No break is held back, and lines carry no mark. -/
structure Direct (w : Writer) : Prop where
  held : w.wrapper.held = none
  mark : w.mark? = none

/-- The level of the lines behind the current one. -/
def continuedLevel (w : Writer) : Nat := if w.statement = some 0 then w.level + 2 else w.level

/-- The writer behind some text, in which a number of lines have ended. -/
def past (w : Writer) (text : String) (ended column : Nat) (start : Bool) : Writer :=
  { w with
    wrapper := ⟨w.wrapper.out ++ text, column, none⟩
    atLineStart := start
    level := if ended = 0 then w.level else w.continuedLevel
    statement := w.statement.map (· + ended) }

variable {w : Writer} (layout : Layout)

theorem Direct.past_nothing (h : w.Direct) : w.past "" 0 w.wrapper.column w.atLineStart = w := by
  obtain ⟨⟨out, column, held⟩, level, start, statement, suspended, inDoc, inComment, names⟩ := w
  obtain ⟨rfl, -⟩ := h
  simp [past]

theorem Direct.past_newline (h : w.Direct) (text : String) (ended column : Nat) (start : Bool) :
    (w.past text ended column start).newline layout = w.past (text ++ "\n") (ended + 1) 0 true := by
  have hmark : (w.past text ended column start).mark? = none := h.mark
  rw [newline, markEmptyLine_of_no_mark hmark]
  rcases hstatement : w.statement with _ | lines
  · simp [past, append, Wrapper.append, Wrapper.write_newline, continueStatement, continuedLevel,
      hstatement, String.append_assoc]
  · rcases ended with _ | ended
    · simp [past, append, Wrapper.append, Wrapper.write_newline, continueStatement, continuedLevel,
        hstatement, String.append_assoc]
    · simp [past, append, Wrapper.append, Wrapper.write_newline, continueStatement, continuedLevel,
        hstatement, String.append_assoc, Nat.add_assoc]

theorem Direct.past_writeLine (h : w.Direct) (text : String) (ended column : Nat) (line : String) :
    ∃ column' start, (w.past text ended column true).writeLine layout line
      = w.past (text ++ layout.line (if ended = 0 then w.level else w.continuedLevel) line) ended
        column' start := by
  by_cases hline : line = ""
  · exact ⟨column, true, by simp [writeLine, Layout.line, hline]⟩
  · have hmark : (w.past text ended column true).mark? = none := h.mark
    obtain ⟨indented, hindented⟩ := appendIndentation_of_no_break layout
      (w := w.past text ended column true) rfl (w.past text ended column true).level
    have hempty := String.isEmpty_eq_false_iff.mpr hline
    have hstart : (w.past text ended column true).atLineStart = true := rfl
    simp only [writeLine, hempty, hstart, startLine, hmark, hindented, if_true]
    exact ⟨_, false, by
      simp [past, append, Wrapper.append, Wrapper.write, Layout.line, hempty, String.append_assoc]
      rfl⟩

/-- **Text is written as it is**, its lines behind the indentation of their level. -/
theorem Direct.write (h : w.Direct) (hstart : w.atLineStart = true) (s : String) :
    ∃ column start, w.write layout s
      = w.past (layout.lines w.level w.continuedLevel s) (Text.split '\n' s).2.length column
        start := by
  have hlines : ∀ (ls : List String) (text : String) (ended column : Nat) (start : Bool),
      ∃ column' start', ls.foldl (fun v l => (v.newline layout).writeLine layout l)
          (w.past text ended column start)
        = w.past (text ++ String.join (ls.map fun l => "\n" ++ layout.line w.continuedLevel l))
          (ended + ls.length) column' start' := by
    intro ls
    induction ls with
    | nil =>
      intro text ended column start
      exact ⟨column, start, by simp⟩
    | cons l ls ih =>
      intro text ended column start
      obtain ⟨column₁, start₁, hline⟩ :=
        h.past_writeLine layout (text ++ "\n") (ended + 1) 0 l
      obtain ⟨column₂, start₂, hrest⟩ := ih
        (text ++ "\n" ++ layout.line w.continuedLevel l) (ended + 1) column₁ start₁
      refine ⟨column₂, start₂, ?_⟩
      rw [if_neg (Nat.succ_ne_zero ended)] at hline
      have hcount : ended + 1 + ls.length = ended + (l :: ls).length := by
        rw [List.length_cons]
        omega
      rw [List.foldl_cons, h.past_newline layout, hline, hrest, hcount]
      simp [String.append_assoc]
  have hnothing := h.past_nothing
  rw [hstart] at hnothing
  obtain ⟨column, start, hfirst⟩ := h.past_writeLine layout "" 0 w.wrapper.column
    (Text.split '\n' s).1
  rw [hnothing] at hfirst
  obtain ⟨column', start', hrest⟩ := hlines (Text.split '\n' s).2
    ("" ++ layout.line w.level (Text.split '\n' s).1) 0 column start
  exact ⟨column', start', by simpa [Writer.write, Layout.lines, hfirst] using hrest⟩

theorem Fresh.direct (h : w.Fresh) : w.Direct := ⟨h.held, h.mark⟩

/-- Lines outside of statements stand at the level of the writer. -/
theorem Fresh.write_lines (h : w.Fresh) (s : String) :
    w.write layout (s ++ "\n") = w.withText (layout.lines w.level w.level s ++ "\n") := by
  obtain ⟨column, start, hwritten⟩ := h.direct.write layout h.start s
  have hlevel : w.continuedLevel = w.level := by simp [continuedLevel, h.statement]
  rw [write_append, hwritten, write_newline, h.direct.past_newline]
  obtain ⟨⟨out, column, held⟩, level, start, statement, suspended, inDoc, inComment, names⟩ := w
  obtain ⟨rfl, rfl, rfl, rfl, -⟩ := h
  simp [past, Writer.withText, hlevel]

/-- Closing a statement takes back what its line ends have added to the level. -/
theorem closeStatement_of_direct {v u : Writer} (hsemi : v.write layout ";" = u) (hu : u.Direct)
    {lines : Nat} (level : Nat) (hstatement : u.statement = some lines)
    (hlevel : u.level = if lines = 0 then level else level + 2) :
    v.closeStatement layout = .ok { u with
      wrapper := ⟨u.wrapper.out ++ "\n", 0, none⟩
      atLineStart := true
      statement := none
      level := level } := by
  have hend : ∀ x : Writer, x.wrapper = u.wrapper → x.mark? = none →
      ({ x with statement := none } : Writer).write layout "\n"
        = { x with
            wrapper := ⟨u.wrapper.out ++ "\n", 0, none⟩
            atLineStart := true
            statement := none } := by
    intro x hx hmark
    rw [write_newline, newline_of_no_mark layout (w := { x with statement := none })
      (hx ▸ hu.held) rfl hmark, hx]
  simp only [closeStatement, hsemi, hstatement]
  rcases lines with _ | lines
  · simp only [if_true] at hlevel
    have hdone := hend u rfl hu.mark
    simp [hdone, ← hlevel, pure, Except.pure, bind, Except.bind]
  · rw [if_neg (Nat.succ_ne_zero lines)] at hlevel
    have hdone := hend { u with level := level } rfl hu.mark
    simp [unindent, hdone, hlevel, pure, Except.pure, bind, Except.bind]

/-- **A statement is written with its later lines two levels further in**, and behind it the
    writer is where it was. -/
theorem Fresh.run_statement (h : w.Fresh) (s : String) :
    (({ w with statement := some 0 } : Writer).write layout s).closeStatement layout
      = .ok (w.withText (layout.lines w.level (w.level + 2) (s ++ ";") ++ "\n")) := by
  have hdirect : ({ w with statement := some 0 } : Writer).Direct := ⟨h.held, h.mark⟩
  obtain ⟨column, start, hwritten⟩ := hdirect.write layout h.start (s ++ ";")
  rw [write_append] at hwritten
  rw [closeStatement_of_direct layout hwritten ⟨rfl, h.mark⟩ w.level
    (by simp [past]; rfl) (by simp [past, continuedLevel])]
  obtain ⟨⟨out, column, held⟩, level, start, statement, suspended, inDoc, inComment, names⟩ := w
  obtain ⟨rfl, rfl, rfl, rfl, -⟩ := h
  simp [past, continuedLevel, Writer.withText, String.append_assoc]

end Writer

/-! ### The text of a script -/

section Text

variable {δ : Type} (session : Session) (emit : δ → Stream)

/-- The instructions for some parts, of which none is left out. -/
abbrev Part.spelling (ps : List (Part δ)) : Stream := ps.flatMap (Part.stream [] emit)

namespace Writer

variable {w v : Writer}

private theorem run_spelling_append {ps : List (Part δ)}
    (h : w.run session (Part.spelling emit ps) = .ok v) (qs : List (Part δ)) :
    w.run session (Part.spelling emit (ps ++ qs)) = v.run session (Part.spelling emit qs) := by
  rw [Part.spelling, List.flatMap_append, run_append, h]
  rfl

private theorem run_spelling_cons {p : Part δ} (h : w.run session (p.stream [] emit) = .ok v)
    (qs : List (Part δ)) :
    w.run session (Part.spelling emit (p :: qs)) = v.run session (Part.spelling emit qs) := by
  rw [Part.spelling, List.flatMap_cons, run_append, h]
  rfl

private theorem run_textParts (w : Writer) (s : String) :
    w.run session (Part.spelling emit (Code.textParts s)) = .ok (w.write session.layout s) := by
  by_cases hs : s = ""
  · subst hs
    rfl
  · rw [Code.textParts_of_ne hs]
    rfl

/-- The writer one level further in. -/
private def inner (w : Writer) : Writer := { w with level := w.level + 1 }

private theorem Fresh.inner (h : w.Fresh) : w.inner.Fresh :=
  ⟨h.start, h.column, h.held, h.statement, h.mark⟩

private theorem run_unindent_inner (w : Writer) :
    w.inner.run session (Part.stream [] emit .unindent) = .ok w := by
  simp [Part.stream, run, step, unindent, Writer.inner, bind, Except.bind]

/-- A statement, and what follows it. -/
private theorem Fresh.run_statement_parts (h : w.Fresh) (s : String) (qs : List (Part δ)) :
    w.run session (Part.spelling emit
        (.openStatement :: (Code.textParts s ++ .closeStatement :: qs)))
      = (w.withText (session.layout.lines w.level (w.level + 2) (s ++ ";") ++ "\n")).run session
          (Part.spelling emit qs) := by
  have hopen : w.run session (Part.stream [] emit .openStatement)
      = .ok { w with statement := some 0 } := by
    simp [Part.stream, run, step, h.statement, bind, Except.bind]
  have hclose : (({ w with statement := some 0 } : Writer).write session.layout s).run session
      (Part.stream [] emit .closeStatement)
        = .ok (w.withText (session.layout.lines w.level (w.level + 2) (s ++ ";") ++ "\n")) := by
    simp [Part.stream, run, step, h.run_statement session.layout s, bind, Except.bind]
  rw [run_spelling_cons session emit hopen,
    run_spelling_append session emit (run_textParts session emit _ s),
    run_spelling_cons session emit hclose]

/-- A line, and what follows it. -/
private theorem Fresh.run_line (h : w.Fresh) {s line : String} (hline : line = s ++ "\n")
    (qs : List (Part δ)) :
    w.run session (Part.spelling emit (.text line :: qs))
      = (w.withText (session.layout.lines w.level w.level s ++ "\n")).run session
          (Part.spelling emit qs) := by
  have hwritten : w.run session (Part.stream [] emit (.text line))
      = .ok (w.withText (session.layout.lines w.level w.level s ++ "\n")) := by
    simp [Part.stream, run, step, hline, h.write_lines session.layout s, bind, Except.bind]
  rw [run_spelling_cons session emit hwritten]

/-- A body with the line that opens it, and what follows one level further in. -/
private theorem Fresh.run_body (h : w.Fresh) {s line : String} (hline : line = s ++ "\n")
    {body : Script} (hbody : ∀ {v : Writer}, v.Fresh → v.run session (Part.spelling emit body.parts)
      = .ok (v.withText (body.layout session.layout v.level))) (qs : List (Part δ)) :
    w.run session (Part.spelling emit (.text line :: .indent :: (body.parts ++ qs)))
      = (w.withText (session.layout.lines w.level w.level s ++ "\n"
          ++ body.layout session.layout (w.level + 1))).inner.run session
            (Part.spelling emit qs) := by
  have hinside := hbody
    (h.withText (session.layout.lines w.level w.level s ++ "\n")).inner
  rw [h.run_line session emit hline, run_spelling_cons session emit (p := Part.indent) rfl]
  show (Writer.inner _).run session _ = _
  rw [run_spelling_append session emit hinside, ← withText_append w _ (body.layout _ _)]
  rfl

end Writer

mutual

/-- **A script is written with its layout**, at the level of the writer. -/
theorem Script.run_parts : ∀ (s : Script) {w : Writer}, w.Fresh →
    w.run session (Part.spelling emit s.parts) = .ok (w.withText (s.layout session.layout w.level))
  | .done, w, _ => by
    simp [Script.parts, Script.layout, Writer.run, Writer.withText_empty]
  | .statement text rest, w, h => by
    rw [Script.parts, h.run_statement_parts session emit, Script.run_parts rest (h.withText _),
      Writer.withText_append]
    rfl
  | .flow header body ending rest, w, h => by
    have hline : header.text ++ " \x7b\n" = header.text ++ " \x7b" ++ "\n" := by
      simp [← String.toList_inj]
    have hne : header.text ++ " \x7b\n" ≠ "" := by simp
    rw [Script.parts, Code.textParts_of_ne hne, List.singleton_append,
      h.run_body session emit hline (Script.run_parts body),
      Writer.run_spelling_append session emit (Ending.run_parts ending (h.withText _)),
      Script.run_parts rest ((h.withText _).withText _), Writer.withText_append,
      Writer.withText_append, Script.layout]
    simp only [String.append_assoc, Writer.withText]

/-- An ending is written one level further out than the body before it. -/
theorem Ending.run_parts : ∀ (e : Ending) {w : Writer}, w.Fresh →
    w.inner.run session (Part.spelling emit e.parts)
      = .ok (w.withText (e.layout session.layout w.level))
  | .close, w, h => by
    have hline : "\x7d\n" = "\x7d" ++ "\n" := rfl
    rw [Ending.parts, Writer.run_spelling_cons session emit (w.run_unindent_inner session emit),
      h.run_line session emit hline]
    rfl
  | .closeWith clause, w, h => by
    have hline : "\x7d " ++ clause.text ++ ";\n" = "\x7d " ++ clause.text ++ ";" ++ "\n" := by
      simp [← String.toList_inj]
    rw [Ending.parts, Writer.run_spelling_cons session emit (w.run_unindent_inner session emit),
      h.run_line session emit hline]
    rfl
  | .next header body ending, w, h => by
    have hline : "\x7d " ++ header.text ++ " \x7b\n"
        = "\x7d " ++ header.text ++ " \x7b" ++ "\n" := by
      simp [← String.toList_inj]
    rw [Ending.parts, Writer.run_spelling_cons session emit (w.run_unindent_inner session emit),
      h.run_body session emit hline (Script.run_parts body),
      Ending.run_parts ending (h.withText _), Writer.withText_append]
    rfl

end

end Text

/-- **Scripts build, and render with their layout.**  The edits that spell a script are taken,
    and the block they build renders as the layout of the script at depth zero.  It counts the
    statements outside of all control flows. -/
theorem Script.render_eq_layout (s : Script) :
    ∃ c : Code TypeDecl, (({} : Code.Draft TypeDecl).applyAll s.edits).build = .ok c
      ∧ c.fragment.render = .ok (s.layout ({} : Style).layout 0)
      ∧ c.statements = s.statements := by
  have hdraft := s.applyAll_edits (d := ({} : Code.Draft TypeDecl)) ⟨rfl, rfl⟩
  have hrun := Script.run_parts ⟨({} : Style).layout, ⟨"", []⟩⟩ (TypeDecl.stream []) s
    (w := {}) ⟨rfl, rfl, rfl, rfl, rfl⟩
  refine ⟨⟨s.parts, s.statements⟩, ?_, ?_, rfl⟩
  · rw [hdraft]
    simp [Code.Draft.build, Code.Draft.grown]
  · rw [Stream.render, Stream.run, Code.fragment, Code.stream, Part.streamAll_eq_flatMap, hrun]
    simp [Writer.text, Writer.withText, Wrapper.finish, Wrapper.settle, bind, Except.bind, pure,
      Except.pure]

example : (Script.flow ⟨"if (done)", by decide⟩ (.statement ⟨"return\n\nx", by decide⟩ .done)
    (.closeWith ⟨"while (go)", by decide⟩) .done).layout ⟨"  ", 80⟩ 0
      = "if (done) \x7b\n  return\n\n      x;\n\x7d while (go);\n" := by decide

end CSharpGen
