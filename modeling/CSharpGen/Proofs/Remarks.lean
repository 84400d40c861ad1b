/-
  CSharpGen/Proofs/Remarks.lean
  =============================
  **Remarks stay remarks.**  Documentation and comments are written as whole
  lines, each with its mark behind the indentation, and a type that is mentioned
  in them is not claimed for import (`Remark.lines_marked`).

  The mark is put where the writer begins a line.  This leaves two gaps.  A line
  that the wrapper breaks off is not begun by the writer, so it has no mark; and
  the flag for documentation is one flag, so that documentation inside of
  documentation ends both (`Remark.gaps`).  What is proved is therefore about
  blocks without breaks, and about documentation that no other one ends.
-/
import CSharpGen.Proofs.Restoration
import CSharpGen.Proofs.Simulation

namespace CSharpGen

/-! ### Lines -/

/-- The text of some lines. -/
def Text.unlines : List String → String
  | [] => ""
  | line :: rest => line ++ "\n" ++ unlines rest

theorem Text.unlines_concat (lines : List String) (line : String) :
    unlines (lines ++ [line]) = unlines lines ++ line ++ "\n" := by
  induction lines with
  | nil => simp [unlines]
  | cons first rest ih => simp [unlines, ih, String.append_assoc]

theorem Style.mem_indentation (style : Style) (level : Nat) :
    ∀ c ∈ (style.layout.indentation level).toList, c = ' ' ∨ c = '\t' := by
  have hunit : ∀ c ∈ style.layout.unit.toList, c = ' ' ∨ c = '\t' := by
    show ∀ c ∈ style.indent.unit.toList, _
    cases style.indent with
    | tab => simp [Indent.unit]
    | spaces width => simp [Indent.unit]
  induction level with
  | zero => simp [Layout.indentation]
  | succ level ih =>
    intro c hc
    rw [Layout.indentation, String.toList_append, List.mem_append] at hc
    exact hc.elim (hunit c) (ih c)

/-- Text that is skipped by a compiler. -/
inductive Remark where
  | documentation | comment
  deriving DecidableEq, Repr

namespace Remark

/-- What stands at the beginning of each line. -/
def mark : Remark → String
  | documentation => "///"
  | comment => "//"

def opening : Remark → Instruction
  | documentation => .openDoc
  | comment => .openComment

def closing : Remark → Instruction
  | documentation => .closeDoc
  | comment => .closeComment

def isOpen (p : Position) : Remark → Bool
  | documentation => p.inDoc
  | comment => p.inComment

/-- What a block is written as when it is a remark. -/
def stream (statics : List ClassName) (c : Code TypeDecl) : Remark → Stream
  | documentation => c.docStream statics (TypeDecl.stream statics)
  | comment => c.commentStream statics (TypeDecl.stream statics)

/-- A line of the remark: blanks, the mark, and text. -/
def Line (k : Remark) (line : String) : Prop :=
  ∃ blanks rest, line = blanks ++ k.mark ++ rest
    ∧ (∀ c ∈ blanks.toList, c = ' ' ∨ c = '\t') ∧ '\n' ∉ rest.toList

theorem Line.append {k : Remark} {line s : String} (h : k.Line line) (hs : '\n' ∉ s.toList) :
    k.Line (line ++ s) := by
  obtain ⟨blanks, rest, rfl, hblanks, hrest⟩ := h
  exact ⟨blanks, rest ++ s, by simp [String.append_assoc], hblanks, by simp [hrest, hs]⟩

/-- The writer begins lines with a mark of the remark.  Documentation inside of a comment
    has its own, which begins like that of the comment. -/
theorem mark?_of_isOpen {k : Remark} {w : Writer} (h : k.isOpen w.position = true) :
    ∃ m, w.mark? = some m ∧ ∀ (style : Style) (level : Nat),
      k.Line (style.layout.indentation level ++ m) := by
  have hline : ∀ more : String, '\n' ∉ more.toList → ∀ (style : Style) (level : Nat),
      k.Line (style.layout.indentation level ++ (k.mark ++ more)) :=
    fun more hmore style level =>
      ⟨_, more, by rw [String.append_assoc], style.mem_indentation level, hmore⟩
  cases k with
  | documentation =>
    have hdoc : w.inDoc = true := h
    exact ⟨"///", by simp [Writer.mark?, hdoc], by simpa [mark] using hline "" (by simp)⟩
  | comment =>
    have hcomment : w.inComment = true := h
    cases hdoc : w.inDoc with
    | true =>
      exact ⟨"///", by simp [Writer.mark?, hdoc], by simpa [mark] using hline "/" (by decide)⟩
    | false =>
      exact ⟨"//", by simp [Writer.mark?, hdoc, hcomment], by simpa [mark] using hline "" (by simp)⟩

end Remark

/-! ### Writing lines -/

namespace Writer

section Text

variable (layout : Layout) {w : Writer} {m : String}

theorem position_write (w : Writer) (s : String) :
    (w.write layout s).position = w.position := by
  have hshape := congrArg Shape.position (shape_write layout w s).1
  rw [Shape.write_position] at hshape
  exact hshape

theorem writeChar_eq (w : Writer) (c : Char) :
    writeChar layout w c = w.write layout (String.singleton c) := by
  simp [write_eq_foldl]

theorem append_out (hheld : w.wrapper.held = none) (s : String) :
    (w.append layout s).wrapper.out = w.wrapper.out ++ s
      ∧ (w.append layout s).wrapper.held = none := by
  simp [append, Wrapper.append, hheld, Wrapper.write]

theorem newline_out (hheld : w.wrapper.held = none) (hmark : w.mark? = some m) :
    (w.newline layout).wrapper.out = w.wrapper.out
      ++ (if w.atLineStart then layout.indentation w.level ++ m else "") ++ "\n" := by
  have hmarked : (w.markEmptyLine layout).wrapper.out = w.wrapper.out
        ++ (if w.atLineStart then layout.indentation w.level ++ m else "")
      ∧ (w.markEmptyLine layout).wrapper.held = none := by
    obtain ⟨column, hindented⟩ := appendIndentation_of_no_break layout hheld w.level
    cases hstart : w.atLineStart with
    | true =>
      simp [markEmptyLine, hmark, hstart, hindented, append_out, String.append_assoc]
    | false => simp [markEmptyLine, hmark, hstart, hheld]
  rw [newline_wrapper, ← hmarked.1]
  exact (append_out layout hmarked.2 "\n").1

theorem writeLine_out (hheld : w.wrapper.held = none) (hmark : w.mark? = some m) {line : String}
    (hline : line ≠ "") :
    (w.writeLine layout line).wrapper.out = w.wrapper.out
        ++ (if w.atLineStart then layout.indentation w.level ++ m ++ " " else "") ++ line
      ∧ (w.writeLine layout line).wrapper.held = none
      ∧ (w.writeLine layout line).atLineStart = false := by
  have hne := String.isEmpty_eq_false_iff.mpr hline
  obtain ⟨column, hindented⟩ := appendIndentation_of_no_break layout hheld w.level
  cases hstart : w.atLineStart with
  | true =>
    simp [writeLine, hne, hstart, startLine, hmark, hindented, append_out, String.append_assoc]
  | false => simp [writeLine, hne, hstart, hheld, append_out]

end Text

/-- Nothing but lines of the remark stands behind a text, the last one not ended yet. -/
structure Remarked (k : Remark) (start : String) (w : Writer) : Prop where
  held : w.wrapper.held = none
  text : ∃ lines current, w.wrapper.out = start ++ Text.unlines lines ++ current
    ∧ (∀ line ∈ lines, k.Line line)
    ∧ (w.atLineStart = true → current = "") ∧ (w.atLineStart = false → k.Line current)

namespace Remarked

variable {k : Remark} {start : String} {w v : Writer}

theorem begin (hheld : w.wrapper.held = none) (hstart : w.atLineStart = true) :
    w.Remarked k w.wrapper.out :=
  ⟨hheld, [], "", by simp [Text.unlines], by simp, fun _ => rfl, by simp [hstart]⟩

theorem congr (h : w.Remarked k start) (hwrapper : v.wrapper = w.wrapper)
    (hstart : v.atLineStart = w.atLineStart) : v.Remarked k start := by
  obtain ⟨hheld, htext⟩ := h
  exact ⟨by rw [hwrapper]; exact hheld, by rw [hwrapper, hstart]; exact htext⟩

variable (style : Style)

theorem newline (h : w.Remarked k start) (hopen : k.isOpen w.position = true) :
    (w.newline style.layout).Remarked k start := by
  obtain ⟨m, hmark, hline⟩ := Remark.mark?_of_isOpen hopen
  obtain ⟨hheld, lines, current, hout, hlines, hempty, hcurrent⟩ := h
  obtain ⟨out, hwrapper⟩ := w.newline_settled style.layout
  have hnew := newline_out style.layout hheld hmark
  have hlast : ∀ line, k.Line line → ∀ l ∈ lines ++ [line], k.Line l := by
    intro line hl
    exact List.forall_mem_append.mpr ⟨hlines, List.forall_mem_singleton.mpr hl⟩
  refine ⟨by rw [hwrapper], ?_⟩
  -- A line that nothing stands on is given its mark before it ends.
  cases hstart : w.atLineStart with
  | true =>
    refine ⟨lines ++ [style.layout.indentation w.level ++ m], "", ?_,
      hlast _ (hline style w.level), fun _ => rfl, by simp⟩
    rw [hnew, hout, hempty hstart, Text.unlines_concat]
    simp [hstart, String.append_assoc]
  | false =>
    refine ⟨lines ++ [current], "", ?_, hlast _ (hcurrent hstart), fun _ => rfl, by simp⟩
    rw [hnew, hout, Text.unlines_concat]
    simp [hstart, String.append_assoc]

theorem writeChar (h : w.Remarked k start) (hopen : k.isOpen w.position = true) (c : Char) :
    (w.writeChar style.layout c).Remarked k start := by
  unfold Writer.writeChar
  split
  · exact h.newline style hopen
  · next hc =>
    obtain ⟨m, hmark, hline⟩ := Remark.mark?_of_isOpen hopen
    obtain ⟨hheld, lines, current, hout, hlines, hempty, hcurrent⟩ := h
    have hc : '\n' ∉ (String.singleton c).toList := by simpa using Ne.symm hc
    have hne : String.singleton c ≠ "" := by simp
    obtain ⟨hnew, hnone, hbegun⟩ := writeLine_out style.layout hheld hmark hne
    refine ⟨hnone, lines, ?_⟩
    cases hstart : w.atLineStart with
    | true =>
      refine ⟨style.layout.indentation w.level ++ m ++ " " ++ String.singleton c, ?_, hlines,
        by simp [hbegun], fun _ => ((hline style w.level).append (by decide)).append hc⟩
      rw [hnew, hout, hempty hstart]
      simp only [hstart, if_true, String.append_empty, String.append_assoc]
    | false =>
      refine ⟨current ++ String.singleton c, ?_, hlines, by simp [hbegun],
        fun _ => (hcurrent hstart).append hc⟩
      rw [hnew, hout]
      simp only [hstart, Bool.false_eq_true, if_false, String.append_empty, String.append_assoc]

/-- **Whatever is written inside a remark, each line of it gets the mark.** -/
theorem write (h : w.Remarked k start) (hopen : k.isOpen w.position = true) (s : String) :
    (w.write style.layout s).Remarked k start := by
  rw [write_eq_foldl]
  generalize s.toList = cs
  induction cs generalizing w with
  | nil => exact h
  | cons c cs ih =>
    refine ih (h.writeChar style hopen c) ?_
    rw [writeChar_eq, position_write]
    exact hopen

theorem endLine (h : w.Remarked k start) (hopen : k.isOpen w.position = true) :
    (w.endLine style.layout).Remarked k start ∧ (w.endLine style.layout).atLineStart = true := by
  unfold Writer.endLine
  split
  · next hstart => exact ⟨h, hstart⟩
  · refine ⟨h.write style hopen "\n", ?_⟩
    rw [write_newline]
    exact w.newline_atLineStart style.layout

theorem closeStatement (h : w.Remarked k start) (hopen : k.isOpen w.position = true)
    (hclosed : w.closeStatement style.layout = .ok v) : v.Remarked k start := by
  have hsemi := h.write style hopen ";"
  have hposition := position_write style.layout w ";"
  obtain ⟨level, -, rfl⟩ := closeStatement_eq_ok hclosed
  have hended : ({ w.write style.layout ";" with level := level, statement := none } :
      Writer).Remarked k start := hsemi.congr rfl rfl
  refine hended.write style ?_ "\n"
  show k.isOpen (w.write style.layout ";").position = true
  rw [hposition]
  exact hopen

end Remarked

end Writer

/-! ### Running the instructions of a remark -/

namespace Remark

variable {k : Remark} {w v : Writer} {i : Instruction} {s : Stream}

theorem isOpen_step {session : Session} (hi : i ≠ k.closing) (hopen : k.isOpen w.position = true)
    (h : w.step session i = .ok v) : k.isOpen v.position = true := by
  rw [Writer.position_step h]
  cases k with
  | documentation =>
    cases i with
    | closeDoc => exact absurd rfl hi
    | openDoc => rfl
    | _ => exact hopen
  | comment =>
    cases i with
    | closeComment => exact absurd rfl hi
    | openComment => rfl
    | _ => exact hopen

/-- Nothing is claimed inside a remark. -/
theorem wanted_step {session : Session} (hopen : k.isOpen w.position = true)
    (h : w.step session i = .ok v) : v.names.wanted = w.names.wanted := by
  rw [Writer.names_step h]
  cases hsite : w.position.site? i with
  | none => rfl
  | some r =>
    have hquiet : r.quiet = true := by
      cases i with
      | reference c =>
        cases hsite
        cases k with
        | documentation =>
          have hdoc : w.position.inDoc = true := hopen
          simp [hdoc]
        | comment =>
          have hcomment : w.position.inComment = true := hopen
          simp [hcomment]
      | _ => cases hsite
    show (w.names.visit session.setting r).wanted = w.names.wanted
    rw [Names.wanted_visit]
    simp [Site.claimed?, hquiet, Names.claimAll]

theorem remarked_step {style : Style} {setting : Setting} {start : String}
    (hbreak : i.isBreak = false) (hopen : k.isOpen w.position = true)
    (h : w.step ⟨style.layout, setting⟩ i = .ok v) (hw : w.Remarked k start) :
    v.Remarked k start := by
  cases i with
  | text s =>
    cases h
    exact hw.write style hopen s
  | reference c =>
    obtain ⟨-, rfl⟩ := Writer.reference_eq_ok h
    have hnamed : ({ w with
        names := (w.names.spell setting (w.inDoc || w.inComment) c).2 } : Writer).Remarked k start :=
      hw.congr rfl rfl
    refine hnamed.write style ?_ _
    cases k <;> exact hopen
  | unindent =>
    obtain ⟨-, rfl⟩ := Writer.unindent_eq_ok h
    exact hw.congr rfl rfl
  | closeStatement => exact hw.closeStatement style hopen h
  | openStatement =>
    simp only [Writer.step] at h
    split at h <;> cases h
    exact hw.congr rfl rfl
  | closeDoc | closeComment =>
    cases h
    exact (hw.endLine style hopen).1.congr rfl rfl
  | refuse fault => cases h
  | wrapSpace | wrapPoint => cases hbreak
  | indent | enterScope | leaveScope | enterVariables | leaveVariables | suspendStatement
  | resumeStatement | openDoc | openComment =>
    cases h
    exact hw.congr rfl rfl

/-- **A run inside a remark** stays there, claims nothing and writes marked lines. -/
theorem run_inside {style : Style} {setting : Setting} (hs : k.closing ∉ s)
    (hopen : k.isOpen w.position = true) (h : w.run ⟨style.layout, setting⟩ s = .ok v) :
    k.isOpen v.position = true ∧ v.names.wanted = w.names.wanted
      ∧ ((∀ i ∈ s, i.isBreak = false) → ∀ start, w.Remarked k start → v.Remarked k start) := by
  induction s generalizing w with
  | nil =>
    cases h
    exact ⟨hopen, rfl, fun _ _ hw => hw⟩
  | cons i rest ih =>
    obtain ⟨mid, hi, h⟩ := Except.bind_eq_ok h
    have hne : i ≠ k.closing := fun heq => hs (heq ▸ List.mem_cons_self)
    have hmid := isOpen_step hne hopen hi
    obtain ⟨hopened, hwanted, hmarked⟩ := ih (fun hin => hs (List.mem_cons_of_mem _ hin)) hmid h
    refine ⟨hopened, hwanted.trans (wanted_step hopen hi), fun hbreaks start hw => ?_⟩
    refine hmarked (fun j hj => hbreaks j (List.mem_cons_of_mem _ hj)) start ?_
    exact remarked_step (hbreaks i List.mem_cons_self) hopen hi hw

/-- No block ends a comment. -/
theorem closeComment_notMem (statics : List ClassName) (c : Code TypeDecl) :
    .closeComment ∉ c.stream statics (TypeDecl.stream statics) := by
  have hcount : ∀ s : Stream, (Stream.tally s).2 = 0 → .closeComment ∉ s := by
    intro s
    induction s with
    | nil => simp
    | cons i rest ih =>
      intro htally
      rw [Stream.tally_cons, Prod.snd_add, Nat.add_eq_zero_iff] at htally
      intro hmem
      rcases List.mem_cons.mp hmem with rfl | hmem
      · cases htally.1
      · exact ih htally.2 hmem
  refine hcount _ ?_
  rw [Code.tally_written statics fun u _ => (u.tally_emission statics).2 []]

theorem stream_cases (k : Remark) (statics : List ClassName) (c : Code TypeDecl) :
    k.stream statics c = [] ∨ k.stream statics c
      = k.opening :: (c.stream statics (TypeDecl.stream statics) ++ [k.closing]) := by
  cases hempty : c.isEmpty with
  | true => cases k <;> exact .inl (by simp [stream, Code.docStream, Code.commentStream, hempty])
  | false =>
    cases k <;> exact .inr (by
      simp [stream, Code.docStream, Code.commentStream, hempty, opening, closing])

theorem opening_step {session : Session} (h : w.step session k.opening = .ok v) :
    v.wrapper = w.wrapper ∧ v.atLineStart = w.atLineStart ∧ v.names = w.names
      ∧ k.isOpen v.position = true := by
  cases k <;> cases h <;> exact ⟨rfl, rfl, rfl, rfl⟩

theorem closing_step {session : Session} (h : w.step session k.closing = .ok v) :
    v.wrapper = (w.endLine session.layout).wrapper
      ∧ v.atLineStart = (w.endLine session.layout).atLineStart := by
  cases k <;> cases h <;> exact ⟨rfl, rfl⟩

/-- **Remarks stay remarks.**  Documentation and comments claim no type for import, and
    without breaks they are written as whole lines with a mark each.  Documentation must
    not be ended by another one inside of it. -/
theorem lines_marked (k : Remark) (c : Code TypeDecl) (style : Style) (setting : Setting)
    (statics : List ClassName) {w v : Writer} (hstart : w.atLineStart = true)
    (hheld : w.wrapper.held = none)
    (hinner : k = .documentation → .closeDoc ∉ c.stream statics (TypeDecl.stream statics))
    (hrun : w.run ⟨style.layout, setting⟩ (k.stream statics c) = .ok v) :
    (v.names.claims = w.names.claims ∧ v.names.ambiguous = w.names.ambiguous)
    ∧ ((∀ i ∈ c.stream statics (TypeDecl.stream statics), i.isBreak = false) →
      v.atLineStart = true ∧ v.wrapper.held = none
        ∧ ∃ lines, v.wrapper.out = w.wrapper.out ++ Text.unlines lines
          ∧ ∀ line ∈ lines, k.Line line) := by
  rcases k.stream_cases statics c with hnone | hsome
  · rw [hnone] at hrun
    cases hrun
    exact ⟨⟨rfl, rfl⟩, fun _ => ⟨hstart, hheld, [], by simp [Text.unlines], by simp⟩⟩
  · rw [hsome] at hrun
    obtain ⟨first, last, hfirst, hinside, hlast⟩ := w.run_bracket hrun
    obtain ⟨hwrapper, hbegun, hnames, hopened⟩ := opening_step hfirst
    have hclosing : k.closing ∉ c.stream statics (TypeDecl.stream statics) := by
      cases k with
      | documentation => exact hinner rfl
      | comment => exact closeComment_notMem statics c
    obtain ⟨hopen, hwanted, hmarked⟩ := run_inside hclosing hopened hinside
    have hclaims : v.names.wanted = w.names.wanted := by
      rw [wanted_step hopen hlast, hwanted, hnames]
    refine ⟨⟨congrArg Prod.fst hclaims, congrArg Prod.snd hclaims⟩, fun hbreaks => ?_⟩
    have hremarked := hmarked hbreaks w.wrapper.out
      ((Writer.Remarked.begin hheld hstart).congr hwrapper hbegun)
    obtain ⟨hended, hwhole⟩ := hremarked.endLine style hopen
    obtain ⟨hout, hline⟩ := closing_step hlast
    obtain ⟨hnone, lines, current, htext, hlines, hempty, -⟩ := hended
    refine ⟨hline.trans hwhole, by rw [hout]; exact hnone, lines, ?_, hlines⟩
    rw [hout, htext, hempty hwhole, String.append_empty]

/-- Two paragraphs, the first of which mentions a type. -/
def note : Code TypeDecl :=
  ⟨[.text "Keeps a ", .type (.named ⟨"Other", "Store", []⟩), .text ".\n\nNever empty."], 0⟩

theorem lines_marked_note :
    ∃ v, ({ level := 1 } : Writer).run ⟨({} : Style).layout, ⟨"App", []⟩⟩
        (documentation.stream [] note) = .ok v
      ∧ v.wrapper.out = "\t/// Keeps a Other.Store.\n\t///\n\t/// Never empty.\n"
      ∧ v.names.claims = []
      ∧ ∃ lines, v.wrapper.out = Text.unlines lines ∧ ∀ line ∈ lines, documentation.Line line := by
  have htext : ((({ level := 1 } : Writer).run ⟨({} : Style).layout, ⟨"App", []⟩⟩
      (documentation.stream [] note)).toOption.map fun v => v.wrapper.out)
        = some "\t/// Keeps a Other.Store.\n\t///\n\t/// Never empty.\n" := by
    decide +kernel
  obtain ⟨v, hv, hout⟩ := Option.map_eq_some_iff.mp htext
  have hrun := Except.eq_ok_of_toOption hv
  obtain ⟨⟨hclaims, -⟩, hlines⟩ :=
    lines_marked .documentation note {} ⟨"App", []⟩ [] rfl rfl (fun _ => by decide) hrun
  obtain ⟨-, -, lines, hwritten, hmarked⟩ := hlines (by decide)
  exact ⟨v, hrun, hout, hclaims, lines, by simpa using hwritten, hmarked⟩

/-- Two words with a break between them. -/
def broken : Code TypeDecl := ⟨[.text "see", .wrapSpace, .text "below"], 0⟩

/-- A class with documentation of its own, and a type behind it. -/
def shown : Code TypeDecl :=
  ⟨[.declaration SourceFile.sample, .type (.named ⟨"Other", "Y", []⟩)], 0⟩

/-- **A remark can leave its lines.**  The line that is broken off has no mark, in
    documentation and in comments.  Behind the inner documentation the outer one goes on as
    code, without marks and with a claim for the type. -/
theorem gaps : Obtainable (.code broken) ∧ Obtainable (.code shown)
    ∧ (∀ k : Remark, ∃ v, ({} : Writer).run ⟨({ columnLimit := 10 } : Style).layout, ⟨"App", []⟩⟩
        (k.stream [] broken) = .ok v
      ∧ v.wrapper.out = k.mark ++ " see\n\t\tbelow\n" ∧ ¬ k.Line "\t\tbelow")
    ∧ ∃ v, ({} : Writer).run ⟨({} : Style).layout, ⟨"App", []⟩⟩
        (documentation.stream [] shown) = .ok v
      ∧ v.wrapper.out = "/// A sample.\nclass Sample \x7b\n\x7d\nOther.Y\n"
      ∧ v.names.claims = [("Y", ⟨"Other", "Y", []⟩)] := by
  have hbroken : Obtainable (.code broken) := by
    refine .code (.finished (.edited (e := .add "see$Wbelow" []) .empty trivial ?_) rfl) ?_
    · simp [Code.Edit.blocks]
    · intro t ht
      cases ht
  have hsample : Obtainable (.built .type SourceFile.sample) :=
    .built (.edited (k := .type) (e := TypeDecl.Edit.addDoc "A sample." [])
      (.opened (.named .classKind "Sample") (by simp)) (by simp [Construct.handed])) rfl
  have hshown : Obtainable (.code shown) := by
    refine .code (.finished (.edited
      (e := .add "$L$T" [.declaration SourceFile.sample, .type (.named ⟨"Other", "Y", []⟩)])
      .empty trivial ?_) rfl) ?_
    · simp [Code.Edit.blocks, Argument.blocks]
    · intro t ht
      cases List.mem_singleton.mp ht
      exact hsample
  refine ⟨hbroken, hshown, fun k => ?_, ?_⟩
  · have htext : ((({} : Writer).run ⟨({ columnLimit := 10 } : Style).layout, ⟨"App", []⟩⟩
        (k.stream [] broken)).toOption.map fun v => v.wrapper.out)
          = some (k.mark ++ " see\n\t\tbelow\n") := by
      cases k <;> decide +kernel
    obtain ⟨v, hv, hout⟩ := Option.map_eq_some_iff.mp htext
    refine ⟨v, Except.eq_ok_of_toOption hv, hout, ?_⟩
    rintro ⟨blanks, rest, hline, -⟩
    have hslash : '/' ∈ "\t\tbelow".toList := by
      rw [hline]
      cases k <;> simp [mark]
    exact absurd hslash (by decide)
  · have htext : ((({} : Writer).run ⟨({} : Style).layout, ⟨"App", []⟩⟩
        (documentation.stream [] shown)).toOption.map fun v => (v.wrapper.out, v.names.claims))
          = some ("/// A sample.\nclass Sample \x7b\n\x7d\nOther.Y\n",
            [("Y", ⟨"Other", "Y", []⟩)]) := by
      decide +kernel
    obtain ⟨v, hv, hfound⟩ := Option.map_eq_some_iff.mp htext
    obtain ⟨hout, hclaims⟩ := Prod.mk.inj hfound
    exact ⟨v, Except.eq_ok_of_toOption hv, hout, hclaims⟩

end Remark

end CSharpGen
