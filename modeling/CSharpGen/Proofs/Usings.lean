/-
  CSharpGen/Proofs/Usings.lean
  ============================
  **Imports in the text of a file.**  Between the comment of a file and its type
  stands one `using` line for every namespace that is asked for or that an
  imported type needs, in increasing order (`SourceFile.usingSection_of_render`).
  The lines come out as they are: behind the comment nothing is open and no line
  break is held back (`SourceFile.Fit.fresh`), so that nothing is wrapped, marked
  or indented as a statement.

  The names in the text match the section in both directions.  An imported type
  is written short at the reference that asked for it, and a far type that is
  written short is bound by a declaration around it or is imported
  (`SourceFile.imports_exact`).

  A type that only documentation mentions should not be imported, but it is when
  that documentation embeds a declaration with documentation of its own
  (`SourceFile.documented_type_imported`).
-/
import CSharpGen.Proofs.Collisions
import CSharpGen.Proofs.Selection

namespace CSharpGen

/-! ### What has been written stays -/

theorem Wrapper.out_settle (layout : Layout) (w : Wrapper) (wrap : Bool) :
    ∃ more, (w.settle layout wrap).out = w.out ++ more := by
  unfold settle
  cases w.held with
  | none => exact ⟨"", by simp⟩
  | some held =>
    cases wrap with
    | true => exact ⟨"\n" ++ (layout.indentation held.level ++ held.text), by
        simp [String.append_assoc]⟩
    | false => exact ⟨held.kind.text ++ held.text, by simp [String.append_assoc]⟩

theorem Wrapper.out_append (layout : Layout) (w : Wrapper) (s : String) :
    ∃ more, (w.append layout s).out = w.out ++ more := by
  unfold append
  cases w.held with
  | none => exact ⟨s, rfl⟩
  | some held =>
    simp only
    split
    · exact ⟨"", by simp⟩
    · obtain ⟨more, hmore⟩ := w.out_settle layout
        !decide (w.column + (s.toList.takeWhile (· ≠ '\n')).length ≤ layout.limit)
      exact ⟨more ++ s, by simp only [write, hmore, String.append_assoc]⟩

namespace Writer

/-- What stood in the text still stands at its beginning. -/
def Extends (w next : Writer) : Prop := ∃ more, next.wrapper.out = w.wrapper.out ++ more

theorem Extends.refl (w : Writer) : w.Extends w := ⟨"", by simp⟩

theorem Extends.trans {a b c : Writer} (hab : a.Extends b) (hbc : b.Extends c) : a.Extends c := by
  obtain ⟨s, hs⟩ := hab
  obtain ⟨t, ht⟩ := hbc
  exact ⟨s ++ t, by rw [ht, hs, String.append_assoc]⟩

section Extends

variable (layout : Layout) (w : Writer)

theorem extends_append (s : String) : w.Extends (w.append layout s) :=
  w.wrapper.out_append layout s

theorem extends_appendIndentation (level : Nat) :
    w.Extends (w.appendIndentation layout level) := by
  induction level generalizing w with
  | zero => exact .refl w
  | succ level ih => exact (w.extends_append layout _).trans (ih _)

theorem extends_startLine : w.Extends (w.startLine layout) := by
  unfold startLine
  have hindented := w.extends_appendIndentation layout w.level
  cases w.mark? with
  | none => exact hindented
  | some mark => exact hindented.trans (extends_append layout _ _)

theorem extends_writeLine (line : String) : w.Extends (w.writeLine layout line) := by
  unfold writeLine
  split
  · exact .refl w
  · have hstarted : w.Extends (if w.atLineStart then w.startLine layout else w) := by
      split
      · exact w.extends_startLine layout
      · exact .refl w
    exact hstarted.trans (extends_append layout _ line)

theorem extends_newline : w.Extends (w.newline layout) := by
  have hmarked : w.Extends (w.markEmptyLine layout) := by
    unfold markEmptyLine
    split
    · split
      · exact (w.extends_appendIndentation layout _).trans (extends_append layout _ _)
      · exact .refl w
    · exact .refl w
  obtain ⟨more, hmore⟩ := hmarked.trans (extends_append layout _ "\n")
  exact ⟨more, by rw [newline_wrapper]; exact hmore⟩

theorem extends_write (s : String) : w.Extends (w.write layout s) := by
  refine List.foldlRecOn (motive := w.Extends) _ _ (w.extends_writeLine layout _) ?_
  intro v hv line _
  exact (hv.trans (v.extends_newline layout)).trans (extends_writeLine layout _ line)

theorem extends_endLine : w.Extends (w.endLine layout) := by
  unfold endLine
  split
  · exact .refl w
  · exact w.extends_write layout "\n"

end Extends

theorem Extends.unindent {w next : Writer} {levels : Nat} (h : w.unindent levels = .ok next) :
    w.Extends next := by
  obtain ⟨-, rfl⟩ := unindent_eq_ok h
  exact .refl w

theorem Extends.closeStatement {layout : Layout} {w next : Writer}
    (h : w.closeStatement layout = .ok next) : w.Extends next := by
  obtain ⟨level, -, rfl⟩ := closeStatement_eq_ok h
  exact (w.extends_write layout ";").trans
    (extends_write layout { w.write layout ";" with level := level, statement := none } "\n")

theorem extends_step {session : Session} {w next : Writer} {i : Instruction}
    (h : w.step session i = .ok next) : w.Extends next := by
  cases i with
  | text s =>
    cases h
    exact w.extends_write session.layout s
  | reference c =>
    obtain ⟨-, rfl⟩ := reference_eq_ok h
    exact extends_write session.layout
      { w with names := (w.names.spell session.setting (w.inDoc || w.inComment) c).2 } _
  | unindent => exact .unindent h
  | closeStatement => exact .closeStatement h
  | openStatement =>
    simp only [step] at h
    split at h <;> cases h
    exact .refl w
  | wrapSpace =>
    cases h
    exact w.wrapper.out_settle session.layout false
  | wrapPoint =>
    cases h
    by_cases hcolumn : w.wrapper.column = 0
    · exact ⟨"", by simp [Wrapper.addPoint, hcolumn]⟩
    · obtain ⟨more, hmore⟩ := w.wrapper.out_settle session.layout false
      exact ⟨more, by simp [Wrapper.addPoint, hcolumn, hmore]⟩
  | closeDoc | closeComment =>
    cases h
    obtain ⟨more, hmore⟩ := w.extends_endLine session.layout
    exact ⟨more, hmore⟩
  | refuse fault => cases h
  | indent | enterScope | leaveScope | enterVariables | leaveVariables | suspendStatement
  | resumeStatement | openDoc | openComment =>
    cases h
    exact .refl w

/-- **A run only adds to the text.** -/
theorem extends_run {session : Session} {w next : Writer} {s : Stream}
    (h : w.run session s = .ok next) : w.Extends next := by
  induction s generalizing w with
  | nil =>
    cases h
    exact .refl _
  | cons i rest ih =>
    obtain ⟨mid, hi, h⟩ := Except.bind_eq_ok h
    exact (extends_step hi).trans (ih h)

theorem extends_text (layout : Layout) (w : Writer) :
    ∃ more, w.text layout = w.wrapper.out ++ more :=
  w.wrapper.out_settle layout false

/-! ### Lines of their own -/

/-- A line of its own can be written: nothing stands on the current one, no break is held
    back, and neither a statement nor a comment is open. -/
structure Fresh (w : Writer) : Prop where
  start : w.atLineStart = true
  column : w.wrapper.column = 0
  held : w.wrapper.held = none
  statement : w.statement = none
  mark : w.mark? = none

/-- The writer with some text behind what has been written. -/
def withText (w : Writer) (s : String) : Writer :=
  { w with wrapper := { w.wrapper with out := w.wrapper.out ++ s } }

theorem withText_append (w : Writer) (s t : String) :
    (w.withText s).withText t = w.withText (s ++ t) := by
  simp [withText, String.append_assoc]

theorem withText_empty (w : Writer) : w.withText "" = w := by simp [withText]

theorem Fresh.withText {w : Writer} (h : w.Fresh) (s : String) : (w.withText s).Fresh :=
  ⟨h.start, h.column, h.held, h.statement, h.mark⟩

theorem appendIndentation_of_no_break (layout : Layout) {w : Writer} (h : w.wrapper.held = none)
    (level : Nat) : ∃ column, w.appendIndentation layout level
      = { w with wrapper := ⟨w.wrapper.out ++ layout.indentation level, column, none⟩ } := by
  induction level generalizing w with
  | zero =>
    refine ⟨w.wrapper.column, ?_⟩
    obtain ⟨⟨out, column, held⟩⟩ := w
    cases h
    simp [appendIndentation, Layout.indentation]
  | succ level ih =>
    have hnone : (w.append layout layout.unit).wrapper.held = none := by
      simp [append, Wrapper.append, h, Wrapper.write]
    obtain ⟨column, hcolumn⟩ := ih hnone
    refine ⟨column, ?_⟩
    rw [appendIndentation, hcolumn]
    simp [append, Wrapper.append, h, Wrapper.write, Layout.indentation, String.append_assoc]

theorem newline_of_no_mark (layout : Layout) {w : Writer} (hheld : w.wrapper.held = none)
    (hstatement : w.statement = none) (hmark : w.mark? = none) :
    w.newline layout = { w with
      wrapper := ⟨w.wrapper.out ++ "\n", 0, none⟩
      atLineStart := true } := by
  rw [newline, markEmptyLine_of_no_mark hmark]
  simp [continueStatement, append, Wrapper.append, Wrapper.write_newline, hheld, hstatement]

theorem write_of_split (layout : Layout) (w : Writer) {s line : String}
    (h : Text.split '\n' s = (line, [""])) :
    w.write layout s = (w.writeLine layout line).newline layout := by
  have hnothing : ∀ v : Writer, v.writeLine layout "" = v := fun _ => by simp [writeLine]
  simp [write, h, hnothing]

theorem write_newline (layout : Layout) (w : Writer) :
    w.write layout "\n" = w.newline layout := by
  have hsplit : Text.split '\n' "\n" = ("", [""]) := by decide
  rw [write_of_split layout w hsplit]
  simp [writeLine]

/-- **A line is written as it is**, behind the indentation of the level. -/
theorem Fresh.write_line {w : Writer} (h : w.Fresh) (layout : Layout) {line : String}
    (hline : '\n' ∉ line.toList) (hne : line ≠ "") :
    w.write layout (line ++ "\n")
      = w.withText (layout.indentation w.level ++ line ++ "\n") := by
  have hsplit : Text.split '\n' (line ++ "\n") = (line, [""]) := by
    have hlist : (line ++ "\n").toList = line.toList ++ '\n' :: [] := by
      rw [String.toList_append]
      rfl
    simp only [Text.split, hlist, Text.cutAll_append_sep hline]
    simp [Text.cutAll]
  obtain ⟨column, hindented⟩ := appendIndentation_of_no_break layout h.held w.level
  have hwritten : w.writeLine layout line = { w with
      wrapper := ({ out := w.wrapper.out ++ layout.indentation w.level, column := column } :
        Wrapper).write line
      atLineStart := false } := by
    simp [writeLine, String.isEmpty_iff, hne, h.start, startLine, h.mark, hindented, append,
      Wrapper.append]
  have hended := newline_of_no_mark layout (w := w.writeLine layout line)
    (by rw [hwritten]; rfl) (by rw [hwritten]; exact h.statement) (by rw [hwritten]; exact h.mark)
  rw [write_of_split layout w hsplit, hended, hwritten]
  obtain ⟨⟨out, column, held⟩, level, start, statement, suspended, inDoc, inComment, names⟩ := w
  obtain ⟨rfl, rfl, rfl, rfl, -⟩ := h
  simp [Writer.withText, Wrapper.write, String.append_assoc]

theorem Fresh.write_empty {w : Writer} (h : w.Fresh) (layout : Layout) :
    w.write layout "\n" = w.withText "\n" := by
  rw [write_newline, newline_of_no_mark layout h.held h.statement h.mark]
  obtain ⟨⟨out, column, held⟩, level, start, statement, suspended, inDoc, inComment, names⟩ := w
  obtain ⟨rfl, rfl, rfl, rfl, -⟩ := h
  rfl

end Writer

/-! ### The lines of the section -/

namespace SourceFile

/-- One line for every namespace. -/
def usingLines (indent : String) : List String → String
  | [] => ""
  | space :: rest => indent ++ "using " ++ space ++ ";\n" ++ usingLines indent rest

/-- The lines with an empty one behind them; nothing without namespaces. -/
def usingText (indent : String) (spaces : List String) : String :=
  if spaces.isEmpty then "" else usingLines indent spaces ++ "\n"

theorem run_directives (session : Session) {w : Writer} (h : w.Fresh) {spaces : List String}
    (hspaces : ∀ space ∈ spaces, '\n' ∉ space.toList) :
    w.run session (directives "using " spaces)
      = .ok (w.withText (usingText (session.layout.indentation w.level) spaces)) := by
  have hlines : ∀ (spaces : List String) (v : Writer), v.Fresh → v.level = w.level →
      (∀ space ∈ spaces, '\n' ∉ space.toList) →
      v.run session (spaces.map fun space => .text ("using " ++ space ++ ";\n"))
        = .ok (v.withText (usingLines (session.layout.indentation w.level) spaces)) := by
    intro spaces
    induction spaces with
    | nil =>
      intro v _ _ _
      simp [Writer.run, usingLines, Writer.withText_empty]
    | cons space rest ih =>
      intro v hv hlevel hall
      have hline : '\n' ∉ ("using " ++ space ++ ";").toList := by
        have hspace := hall space (by simp)
        simpa using hspace
      have hstep : v.step session (.text ("using " ++ space ++ ";\n"))
          = .ok (v.withText
            (session.layout.indentation w.level ++ "using " ++ space ++ ";\n")) := by
        have heq : "using " ++ space ++ ";\n" = ("using " ++ space ++ ";") ++ "\n" := by
          rw [show (";\n" : String) = ";" ++ "\n" from rfl, ← String.append_assoc]
        rw [heq, Writer.step, hv.write_line session.layout hline (by simp), hlevel]
        simp [String.append_assoc]
      simp only [List.map_cons, Writer.run, hstep, bind, Except.bind]
      have hrest : ∀ other ∈ rest, '\n' ∉ other.toList := fun other hother =>
        hall other (List.mem_cons_of_mem _ hother)
      rw [ih _ (hv.withText _) hlevel hrest, Writer.withText_append, usingLines]
  unfold directives usingText
  split
  · simp [Writer.run, Writer.withText_empty]
  · rw [Writer.run_append, hlines spaces w h rfl hspaces]
    simp only [Except.bind, Writer.run, Writer.step, bind]
    rw [(h.withText _).write_empty, Writer.withText_append]

end SourceFile

/-! ### Behind the comment -/

namespace Arranged

variable {blame : Blame} {f g : Frame} {s t : Stream}

theorem inDoc_after (h : Arranged blame f g s t) :
    ∀ p : Position, p.inDoc = false → (s.foldl Position.after p).inDoc = false := by
  induction h with
  | @plain f i hplain =>
    intro p hp
    cases i with
    | text | wrapSpace | wrapPoint => exact hp
    | _ => cases hplain
  | nil | reference | refuse | indent | unindent | openStatement | closeStatement =>
    exact fun _ hp => hp
  | doc => simp [List.foldl_append, Position.after]
  | comment _ ih | scope _ _ _ ih | typeVars _ _ ih | aside _ ih =>
    intro p hp
    simp only [withScope, withVariables, List.foldl_cons, List.foldl_append, List.foldl_nil]
    exact ih _ hp
  | sink _ _ ih => exact ih
  | append _ _ ih ih' | swap _ _ ih ih' =>
    intro p hp
    rw [List.foldl_append]
    exact ih' _ (ih p hp)
  | trans _ _ ih _ => exact ih

end Arranged

theorem Writer.position_run {session : Session} {w next : Writer} {s : Stream}
    (h : w.run session s = .ok next) : next.position = s.foldl Position.after w.position := by
  induction s generalizing w with
  | nil => cases h; rfl
  | cons i rest ih =>
    obtain ⟨mid, hi, h⟩ := Except.bind_eq_ok h
    rw [ih h, position_step hi, List.foldl_cons]

namespace SourceFile

/-- **Behind the comment of a file a line of its own can be written.** -/
theorem Fit.fresh {f : SourceFile} (hfit : f.Fit) {session : Session} {names : Names} {w : Writer}
    (h : Writer.run session { names := names } f.commentStream = .ok w) : w.Fresh := by
  have harranged := hfit.arranged_comment
  have hposition := Writer.position_run h
  have hdoc : w.inDoc = false := by
    have hafter := harranged.inDoc_after ({ names := names } : Writer).position rfl
    rw [← hposition] at hafter
    exact hafter
  have hstatement : w.statement = none := by
    have hshape := Writer.shape_run session { names := names } f.commentStream
    have hat : ({ names := names } : Writer).shape.At ⟨0, false⟩ [] := ⟨Nat.zero_le _, rfl, rfl⟩
    rw [h] at hshape
    rcases harranged.runs _ _ hat with ⟨next, hrun, hnext⟩ | ⟨e, hrun, -⟩
    · rw [hrun] at hshape
      cases hshape
      simpa [Writer.shape] using hnext.statement
    · rw [hrun] at hshape
      cases hshape
  unfold commentStream at h hposition
  split at h
  · cases h
    exact ⟨rfl, rfl, rfl, rfl, rfl⟩
  · next hempty =>
    rw [if_neg hempty, Code.commentStream, if_neg hempty] at hposition
    have hcomment : w.inComment = false := by
      have hflag := congrArg Position.inComment hposition
      simpa [List.foldl_append, Position.after, Writer.position] using hflag
    rw [Writer.run_append] at h
    obtain ⟨mid, -, h⟩ := Except.bind_eq_ok h
    simp only [Writer.run, Writer.step, bind, Except.bind, Except.ok.injEq] at h
    rw [Writer.write_newline] at h
    have hstart := mid.newline_atLineStart session.layout
    obtain ⟨out, hwrapper⟩ := mid.newline_settled session.layout
    rw [h] at hstart hwrapper
    exact ⟨hstart, by rw [hwrapper], by rw [hwrapper], hstatement,
      by simp [Writer.mark?, hdoc, hcomment]⟩

/-! ### The namespaces of the section -/

variable {f : SourceFile}

theorem mem_imports_iff {types : List ClassName} (htypes : f.importedTypes = .ok types)
    (t : ClassName) : t ∈ f.imports.map Prod.snd ↔ t ∈ types := by
  obtain ⟨found, hcollect, rfl⟩ := collect_of_importedTypes htypes
  rw [Ordered.mem_sort, imports_of_collect hcollect]

theorem mem_usingNamespaces_iff {types : List ClassName} (htypes : f.importedTypes = .ok types)
    (space : String) : space ∈ f.usingNamespaces f.imports ↔ space ∈ f.usings
      ∨ (∃ t ∈ types, t.space = space)
        ∧ ¬ (f.style.skipSystemImports = true ∧ space = systemNamespace) := by
  have hspace : (∃ e ∈ f.imports, e.2.space = space) ↔ ∃ t ∈ types, t.space = space := by
    simp only [← mem_imports_iff htypes, List.mem_map]
    constructor
    · rintro ⟨e, he, hspace⟩
      exact ⟨e.2, ⟨e, he, rfl⟩, hspace⟩
    · rintro ⟨t, ⟨e, he, rfl⟩, hspace⟩
      exact ⟨e, he, hspace⟩
  unfold usingNamespaces
  rw [Ordered.mem_ofList, List.mem_append, List.mem_filter, List.mem_map, or_comm,
    ← hspace]
  simp [imp_iff_not_or]

theorem plain_of_isValidNamespace {space : String} (h : Identifier.isValidNamespace space = true) :
    '\n' ∉ space.toList := by
  have hne : Text.pieces '.' space ≠ [] := by simp [Text.pieces_eq_map]
  have hplain := Text.join_plain hne (List.all_eq_true.mp h)
  rw [Text.join_pieces] at hplain
  exact hplain.2

theorem far_of_imported {types : List ClassName} (htypes : f.importedTypes = .ok types)
    {t : ClassName} (ht : t ∈ types) : t.space ≠ f.space ∧ t.space ≠ "" := by
  obtain ⟨⟨r, -, hfar, -, rfl⟩, -, -⟩ := (mem_importedTypes_iff_references htypes t).mp ht
  exact Names.space_of_rule_far hfar

theorem plain_of_mem_usingNamespaces (hfit : f.Fit) {types : List ClassName}
    (htypes : f.importedTypes = .ok types) :
    ∀ space ∈ f.usingNamespaces f.imports, '\n' ∉ space.toList := by
  intro space hspace
  apply plain_of_isValidNamespace
  rcases (mem_usingNamespaces_iff htypes space).mp hspace with husing | ⟨⟨t, ht, rfl⟩, -⟩
  · exact hfit.usings space husing
  · obtain ⟨hvalid, -⟩ := valid_of_imported htypes ht
    obtain ⟨-, hglobal⟩ := far_of_imported htypes ht
    unfold ClassName.Valid ClassName.check at hvalid
    split at hvalid
    · next hcheck =>
      simpa [String.isEmpty_iff, hglobal] using hcheck
    · cases hvalid

theorem importedTypes_of_render {text : String} (h : f.render = .ok text) :
    ∃ types, f.importedTypes = .ok types := by
  obtain ⟨found, hcollect⟩ := collect_of_render h
  refine ⟨Ordered.sort ClassName.canonical (found.imports.map Prod.snd), ?_⟩
  simp only [importedTypes, hcollect, bind, Except.bind, pure, Except.pure]

/-- In the text, the lines for these namespaces stand right behind the comment, and the rest
    of the file begins behind them. -/
def UsingSection (f : SourceFile) (spaces : List String) (text : String) : Prop :=
  ∃ found w v, f.collect = .ok found
    ∧ Writer.run (f.session found.imports) { names := { taken := found.taken } } f.commentStream
      = .ok w
    ∧ (w.withText (usingText (f.style.layout.indentation w.level) spaces)).run
        (f.session found.imports)
        (directives "using static " (f.statics.map ClassName.canonical) ++ f.bodyStream) = .ok v
    ∧ text = v.text f.style.layout
    ∧ ∃ below, text = w.wrapper.out ++ usingText (f.style.layout.indentation w.level) spaces
      ++ below

/-- **The namespaces are written as they are**, between the comment and the rest. -/
theorem usingSection_of_render (hfit : f.Fit) {text : String} (h : f.render = .ok text) :
    f.UsingSection (f.usingNamespaces f.imports) text := by
  obtain ⟨found, hcollect⟩ := collect_of_render h
  obtain ⟨types, htypes⟩ := importedTypes_of_render h
  have hplain := plain_of_mem_usingNamespaces hfit htypes
  rw [imports_of_collect hcollect] at hplain ⊢
  obtain ⟨v, hv⟩ := emit_of_collect hcollect
  have htext : text = v.text f.style.layout := by
    simp only [render, hcollect, hv, bind, Except.bind, pure, Except.pure, Except.ok.injEq] at h
    exact h.symm
  unfold emit stream at hv
  rw [List.append_assoc, List.append_assoc, Writer.run_append] at hv
  obtain ⟨w, hw, hv⟩ := Except.bind_eq_ok hv
  rw [Writer.run_append, run_directives (f.session found.imports) (hfit.fresh hw) hplain] at hv
  refine ⟨found, w, v, hcollect, hw, hv, htext, ?_⟩
  obtain ⟨more, hmore⟩ := Writer.extends_run hv
  obtain ⟨rest, hrest⟩ := Writer.extends_text f.style.layout v
  refine ⟨more ++ rest, ?_⟩
  rw [htext, hrest, hmore, String.append_assoc]
  rfl

end SourceFile

/-! ### Short names and imports -/

theorem Names.resolve_of_none {space simple : String} {names : Names}
    (h : names.resolve ⟨space, []⟩ simple = none) (imports : Table ClassName) :
    names.resolve ⟨space, imports⟩ simple = imports.get? simple := by
  have hscopes : ∀ s ∈ names.scopes, simple ∉ s.nested := by
    rw [← resolveNested_eq_none_iff space]
    cases hnested : resolveNested space simple names.scopes with
    | none => rfl
    | some d => simp [resolve, hnested] at h
  rw [resolve_of_not_nested _ _ _ hscopes] at h ⊢
  split at h
  · cases h
  · next houter => rw [if_neg houter]

namespace Lookup

variable {setting : Setting} {l : Lookup}

/-- A far type that is written by simple names is written without its namespace. -/
theorem short_of_depth (hvalid : l.type.Valid) (hspace : l.type.space ≠ "") {depth : Nat}
    (hdepth : l.names.depth? setting l.type = some depth) : l.Short setting := by
  intro heq
  rw [text_of_depth hdepth, ClassName.qualified,
    if_neg (by simpa [String.isEmpty_iff] using hspace), ClassName.canonical_eq_join] at heq
  have hdrop : l.type.simpleNames.drop depth = l.type.path := by
    exact Identifier.join_injective
      (ClassName.drop_simpleNames_ne_nil (Names.depth_le_of_depth? hdepth)) l.type.path_ne_nil
      (hvalid.isValid_of_mem_drop depth) hvalid.isValid_of_mem_path heq
  -- The path of the type is longer than its simple names.
  have hlength := congrArg List.length hdrop
  have hlong : l.type.spacePath ≠ [] := by
    simp [ClassName.spacePath, String.isEmpty_iff, hspace, Text.pieces_eq_map]
  have hpositive := List.length_pos_iff.mpr hlong
  rw [ClassName.path, List.length_append, List.length_drop] at hlength
  omega

/-- A reference that has asked for an imported type is written by simple names. -/
theorem known_of_imported {space : String} {imports : Table ClassName}
    (hfar : l.names.rule ⟨space, []⟩ l.type = .far)
    (himported : imports.get? l.type.top = some l.type.outermost) :
    ∃ depth, l.names.rule ⟨space, imports⟩ l.type = .known depth := by
  obtain ⟨hfree, -, hnone⟩ := Names.rule_free_iff.mp (Or.inr hfar)
  have hbinds : l.names.binds ⟨space, imports⟩ (l.type.upTo 0) = true := by
    have hresolve := Names.resolve_of_none hnone imports
    rw [himported] at hresolve
    have hsimple : (l.type.upTo 0).simple = l.type.top := by
      simp [ClassName.upTo, ClassName.simple]
    simp only [Names.binds, hsimple, hresolve]
    simp [ClassName.same, ClassName.upTo, ClassName.outermost, ClassName.topLevel]
  cases hfind : l.type.chain.find? (l.names.binds ⟨space, imports⟩) with
  | some known =>
    refine ⟨known.inner.length, ?_⟩
    rw [Names.rule_of_free hfree, hfind]
  | none =>
    rw [(l.type.find?_chain_eq_none_iff _).mp hfind 0 (Nat.zero_le _)] at hbinds
    cases hbinds

end Lookup

namespace SourceFile

variable {f : SourceFile}

/-- **Every imported type is used**: the reference that asked for it is written without
    the namespace. -/
theorem short_of_imported {types : List ClassName} (htypes : f.importedTypes = .ok types)
    {t : ClassName} (ht : t ∈ types) :
    ∃ l ∈ f.emitted, l.quiet = false ∧ l.type.outermost = t ∧ l.Short f.setting := by
  obtain ⟨⟨r, hr, hfar, hquiet, rfl⟩, -, -⟩ :=
    (mem_importedTypes_iff_references htypes t).mp ht
  have himported := (mem_importedTypes_iff htypes r.type.outermost).mp ht
  obtain ⟨found, hcollect, -⟩ := collect_of_importedTypes htypes
  have hsites : r ∈ f.emitted.map Lookup.site := by
    rw [emitted_eq_trace hcollect, Names.trace_site]
    exact hr
  obtain ⟨l, hl, rfl⟩ := List.mem_map.mp hsites
  obtain ⟨depth, hknown⟩ := Lookup.known_of_imported (l := l) hfar himported
  have hdepth : l.names.depth? f.setting l.type = some depth :=
    Names.depth?_eq_some_iff.mpr (Or.inl hknown)
  exact ⟨l, hl, hquiet, rfl, Lookup.short_of_depth (valid_of_mem_emitted hcollect hl)
    (Names.space_of_rule_far hfar).2 hdepth⟩

/-- **Every short name of a far type has a reason**: a declaration around it, or an
    import. -/
theorem bound_of_short {types : List ClassName} (htypes : f.importedTypes = .ok types)
    {l : Lookup} (hother : l.type.space ≠ f.space) (hglobal : l.type.space ≠ "")
    (hshort : l.Short f.setting) :
    ∃ depth ≤ l.type.inner.length, l.text f.setting = Names.dotted l.type depth
      ∧ ∃ d, d.canonical = (l.type.upTo depth).canonical
        ∧ Denotes f.setting l.names.outer? l.names.scopes (l.type.upTo depth).simple d
        ∧ (Denotes ⟨f.space, []⟩ l.names.outer? l.names.scopes (l.type.upTo depth).simple d
          ∨ d ∈ types) := by
  cases hdepth : l.names.depth? f.setting l.type with
  | none => exact absurd (Lookup.text_of_no_depth hdepth) hshort
  | some depth =>
    refine ⟨depth, Names.depth_le_of_depth? hdepth, Lookup.text_of_depth hdepth, ?_⟩
    rcases Names.depth?_eq_some_iff.mp hdepth with hknown | ⟨hnear, -⟩
    · obtain ⟨-, hbinds⟩ := Names.binds_of_known hknown
      obtain ⟨d, hd, hcanonical⟩ := (Names.binds_iff _ _ _).mp hbinds
      refine ⟨d, hcanonical, hd, ?_⟩
      cases hd with
      | nested inside scope around hscopes hinside hscope =>
        exact Or.inl (.nested inside scope around hscopes hinside hscope)
      | outermost hscopes houter => exact Or.inl (.outermost hscopes houter)
      | imported type hscopes houter htype =>
        refine Or.inr ((mem_imports_iff htypes d).mp ?_)
        exact List.mem_map.mpr ⟨_, Table.mem_of_get? htype, rfl⟩
    · rcases Names.space_of_rule_near hnear with hspace | hspace
      · exact absurd hspace hother
      · exact absurd hspace hglobal

/-- **Imports are exact.**  The `using` lines name the namespaces that are asked for and
    those of the imported types, in increasing order.  If documentation stands apart, every
    imported type is written short outside comments.  A far type that is written short is
    bound by a declaration around it or is imported. -/
theorem imports_exact (hf : Obtainable (.built .file f)) {text : String}
    (h : f.render = .ok text) : ∃ types, f.importedTypes = .ok types
    ∧ (∃ spaces, f.UsingSection spaces text ∧ spaces.Pairwise (· < ·)
      ∧ ∀ space, space ∈ spaces ↔ space ∈ f.usings
        ∨ (∃ t ∈ types, t.space = space)
          ∧ ¬ (f.style.skipSystemImports = true ∧ space = systemNamespace))
    ∧ (f.docsApart = true → ∀ t ∈ types, ∃ l ∈ f.emitted, l.site ∈ f.mentions ∧ l.quiet = false
      ∧ l.type.outermost = t ∧ l.Short f.setting)
    ∧ ∀ l ∈ f.emitted, l.type.space ≠ f.space → l.type.space ≠ "" → l.Short f.setting →
      ∃ depth ≤ l.type.inner.length, l.text f.setting = Names.dotted l.type depth
        ∧ ∃ d, d.canonical = (l.type.upTo depth).canonical
          ∧ Denotes f.setting l.names.outer? l.names.scopes (l.type.upTo depth).simple d
          ∧ (Denotes ⟨f.space, []⟩ l.names.outer? l.names.scopes (l.type.upTo depth).simple d
            ∨ d ∈ types) := by
  have hfit : f.Fit := hf.fit
  obtain ⟨types, htypes⟩ := importedTypes_of_render h
  refine ⟨types, htypes, ⟨f.usingNamespaces f.imports, usingSection_of_render hfit h,
    Ordered.pairwise_ofList _, mem_usingNamespaces_iff htypes⟩, ?_, ?_⟩
  · intro hapart t ht
    obtain ⟨found, hcollect⟩ := collect_of_render h
    obtain ⟨l, hl, hquiet, htype, hshort⟩ := short_of_imported htypes ht
    have hsite := (taken_of_mem_emitted hcollect hl).1
    rw [references_eq_mentions (Item.Fit.arranged (i := .built .file f) hfit) hapart] at hsite
    exact ⟨l, hl, hsite, hquiet, htype, hshort⟩
  · intro l _ hother hglobal hshort
    exact bound_of_short htypes hother hglobal hshort

theorem render_of_importedTypes {types : List ClassName} (h : f.importedTypes = .ok types) :
    ∃ text, f.render = .ok text := by
  obtain ⟨found, hcollect, -⟩ := collect_of_importedTypes h
  obtain ⟨w, hw⟩ := emit_of_collect hcollect
  refine ⟨w.text f.style.layout, ?_⟩
  simp only [render, hcollect, hw, bind, Except.bind, pure, Except.pure]

theorem imports_exact_orders : ∃ text types, orders.render = .ok text
    ∧ orders.importedTypes = .ok types
    ∧ (∃ spaces, orders.UsingSection spaces text ∧ "Money" ∈ spaces)
    ∧ ∃ l ∈ orders.emitted, l.type.outermost = ⟨"Money", "Amount", []⟩ ∧ l.quiet = false
      ∧ ∃ depth ≤ l.type.inner.length, l.text orders.setting = Names.dotted l.type depth := by
  obtain ⟨text, htext⟩ := render_of_importedTypes importedTypes_orders
  obtain ⟨types, htypes, ⟨spaces, hsection, -, hspaces⟩, hused, hreason⟩ :=
    imports_exact obtainable_orders htext
  cases importedTypes_orders.symm.trans htypes
  obtain ⟨l, hl, -, hquiet, houtermost, hshort⟩ := hused docsApart_orders _ List.mem_cons_self
  have hspace : l.type.space = "Money" := congrArg ClassName.space houtermost
  obtain ⟨depth, hdepth, hdotted, -⟩ :=
    hreason l hl (by rw [hspace]; decide) (by rw [hspace]; decide) hshort
  refine ⟨text, _, htext, htypes, ⟨spaces, hsection, ?_⟩, l, hl, houtermost, hquiet, depth,
    hdepth, hdotted⟩
  exact (hspaces "Money").mpr (Or.inr ⟨⟨_, List.mem_cons_self, rfl⟩, by simp [orders, bare]⟩)

/-- A class with a line of documentation. -/
def sample : TypeDecl :=
  .of { (TypeDecl.bareClass "Sample" [] []).layer with doc := ⟨[.text "A sample."], 0⟩ }

/-- The documentation of a class shows another class with documentation of its own, and
    mentions a type behind it. -/
def documented : SourceFile :=
  .bare "App" (.of { (TypeDecl.bareClass "Main" [] []).layer with
    doc := ⟨[.declaration sample, .type (.named ⟨"Other", "Y", []⟩)], 0⟩ })

/-- **A type can be imported for documentation alone.**  The end of the inner documentation
    counts as the end of the outer one. -/
theorem documented_type_imported : Obtainable (.built .file documented)
    ∧ (∃ text, documented.render = .ok text)
    ∧ (∃ types, documented.importedTypes = .ok types ∧ ⟨"Other", "Y", []⟩ ∈ types)
    ∧ ∀ r ∈ documented.mentions, r.type.outermost = ⟨"Other", "Y", []⟩ → r.quiet = true := by
  have hsample : Obtainable (.built .type sample) :=
    .built (.edited (k := .type) (e := TypeDecl.Edit.addDoc "A sample." [])
      (.opened (.named .classKind "Sample") (by simp)) (by simp [Construct.handed])) rfl
  have hmain : Obtainable (.built .type documented.type) := by
    refine .built (.edited (k := .type)
      (e := TypeDecl.Edit.addDoc "$L$T" [.declaration sample, .type (.named ⟨"Other", "Y", []⟩)])
      (.opened (.named .classKind "Main") (by simp)) ?_) rfl
    simpa [Construct.handed, Argument.handed] using hsample
  have htypes : documented.importedTypes = .ok [⟨"Other", "Y", []⟩] :=
    Except.eq_ok_of_toOption (by decide +kernel)
  have hopened : Reachable .file ({ space := "App", type := documented.type } : Draft) :=
    .opened (.file "App" _) (List.forall_mem_singleton.mpr hmain)
  refine ⟨.built hopened rfl, render_of_importedTypes htypes, ⟨_, htypes, List.mem_cons_self⟩, ?_⟩
  decide +kernel

end SourceFile

end CSharpGen
