/-
  CSharpGen/Proofs/Transcripts.lean
  =================================
  **Fragments say what their blocks say.**  The transcript of a block is the
  concatenation of its texts, string literals and types, with a semicolon where
  a statement ends; nothing in it depends on a writer.  A block without
  declarations renders as its transcript up to blanks, and exactly as its
  transcript if it holds no marks for layout (`Code.render_eq_transcript`).

  A fragment stands in no namespace and imports nothing, so that every type is
  written by its canonical name (`Names.Bare.spell`), although each one of the
  global namespace takes its simple name on the way.  Hence a type may be
  replaced by its text before the block is run (`Writer.run_literal`), and what
  remains is to follow texts through the writer.
-/
import CSharpGen.Proofs.Failures
import CSharpGen.Proofs.Ink
import CSharpGen.Proofs.Scripts

namespace CSharpGen

/-! ### Transcripts -/

section Transcript

variable {δ : Type}

namespace Part

/-- What a part stands for in the text. -/
def plain : Part δ → String
  | .text s | .name s => s
  | .quoted (some s) => Text.quote s
  | .quoted none => "null"
  | .type t => t.text
  | .closeStatement => ";"
  | .block _ | .declaration _ | .indent | .unindent | .openStatement | .wrapSpace
  | .wrapPoint => ""

/-- Whether a part is a mark that moves text about. -/
def isLayout : Part δ → Bool
  | .indent | .unindent | .openStatement | .closeStatement | .wrapSpace | .wrapPoint => true
  | _ => false

/-- The part with the text of a type in place of the type. -/
def literal : Part δ → Part δ
  | .type t => .text t.text
  | p => p

def isBlock : Part δ → Bool
  | .block _ => true
  | _ => false

/-- Whether a part is neither a block nor a declaration. -/
def isAtomic : Part δ → Bool
  | .block _ | .declaration _ => false
  | _ => true

end Part

mutual

theorem Part.isBlock_of_mem_flat : ∀ (p : Part δ) {q : Part δ}, q ∈ p.flat → q.isBlock = false
  | .block c, q, h => Code.isBlock_of_mem_flat c (by rwa [Part.flat] at h)
  | .text _, q, h | .name _, q, h | .quoted _, q, h | .type _, q, h | .declaration _, q, h
  | .indent, q, h | .unindent, q, h | .openStatement, q, h | .closeStatement, q, h
  | .wrapSpace, q, h | .wrapPoint, q, h => by
    cases List.mem_singleton.mp h
    rfl

theorem Code.isBlock_of_mem_flat : ∀ (c : Code δ) {q : Part δ}, q ∈ c.flat → q.isBlock = false
  | ⟨parts, _⟩, q, h => Part.isBlock_of_mem_flatAll parts (by rwa [Code.flat] at h)

theorem Part.isBlock_of_mem_flatAll : ∀ (ps : List (Part δ)) {q : Part δ},
    q ∈ Part.flatAll ps → q.isBlock = false
  | [], q, h => by cases h
  | p :: ps, q, h => by
    rw [Part.flatAll] at h
    rcases List.mem_append.mp h with h | h
    · exact Part.isBlock_of_mem_flat p h
    · exact Part.isBlock_of_mem_flatAll ps h

end

mutual

theorem Part.flatMap_flat {γ : Type} {v : Part δ → List γ}
    (hblock : ∀ c, v (.block c) = c.parts.flatMap v) : ∀ p : Part δ, p.flat.flatMap v = v p
  | .block c => by rw [Part.flat, Code.flatMap_flat hblock c, hblock]
  | .text _ | .name _ | .quoted _ | .type _ | .declaration _ | .indent | .unindent
  | .openStatement | .closeStatement | .wrapSpace | .wrapPoint => by simp [Part.flat]

/-- What is read off the parts of a block is read off its flat parts. -/
theorem Code.flatMap_flat {γ : Type} {v : Part δ → List γ}
    (hblock : ∀ c, v (.block c) = c.parts.flatMap v) :
    ∀ c : Code δ, c.flat.flatMap v = c.parts.flatMap v
  | ⟨parts, _⟩ => by rw [Code.flat, Part.flatMap_flatAll hblock parts]

theorem Part.flatMap_flatAll {γ : Type} {v : Part δ → List γ}
    (hblock : ∀ c, v (.block c) = c.parts.flatMap v) :
    ∀ ps : List (Part δ), (Part.flatAll ps).flatMap v = ps.flatMap v
  | [] => rfl
  | p :: ps => by
    rw [Part.flatAll, List.flatMap_append, Part.flatMap_flat hblock p,
      Part.flatMap_flatAll hblock ps, List.flatMap_cons]

end

theorem Code.declarations_flat (c : Code δ) :
    c.flat.flatMap Part.declarations = c.declarations := by
  rw [Code.flatMap_flat (fun c => by rw [Part.declarations, Code.declarations_eq]),
    Code.declarations_eq]

theorem Code.classNames_flat (c : Code δ) : c.flat.flatMap Part.classNames = c.classNames := by
  rw [Code.flatMap_flat (fun c => by rw [Part.classNames, Code.classNames_eq]),
    Code.classNames_eq]

/-- The flat parts of a block without declarations are atomic. -/
theorem Code.isAtomic_of_mem_flat {c : Code δ} (h : c.declarations = []) :
    ∀ p ∈ c.flat, p.isAtomic = true := by
  intro p hp
  rw [← c.declarations_flat] at h
  have hnone : p.declarations = [] := List.flatMap_eq_nil_iff.mp h p hp
  have hplain := c.isBlock_of_mem_flat hp
  cases p with
  | block => cases hplain
  | declaration d => simp [Part.declarations] at hnone
  | _ => rfl

/-- The texts of a block in order, those of nested blocks included. -/
def Code.transcript (c : Code δ) : String := String.join (c.flat.map Part.plain)

end Transcript

/-! ### Names outside of declarations -/

namespace Names

/-- No declaration is open, and names are taken by types of the global namespace only. -/
structure Bare (names : Names) : Prop where
  scopes : names.scopes = []
  typeVariables : names.typeVariables = []
  taken : ∀ simple c, names.taken.get? simple = some c → c = .topLevel "" simple

/-- The place of a fragment: no namespace and no imports. -/
abbrev nowhere : Setting := ⟨"", []⟩

variable {names : Names}

theorem Bare.start : ({} : Names).Bare := ⟨rfl, rfl, fun _ _ h => by cases h⟩

theorem Bare.resolve (h : names.Bare) (simple : String) :
    names.resolve nowhere simple = none := by
  simp [Names.resolve, h.scopes, resolveNested, Table.get?]

theorem Bare.reserve (h : names.Bare) (top : String) :
    ∃ after, names.reserve? (.topLevel "" top) = some after ∧ after.Bare := by
  unfold reserve?
  rcases htaken : names.taken.get? top with _ | existing
  · refine ⟨{ names with taken := names.taken.put top (.topLevel "" top) },
      by simp [ClassName.topLevel, htaken], h.scopes, h.typeVariables, ?_⟩
    intro simple c hc
    by_cases hsimple : top = simple
    · subst hsimple
      simpa using hc.symm
    · rw [Table.get?_put_of_ne hsimple] at hc
      exact h.taken simple c hc
  · have hsame : existing = .topLevel "" top := h.taken top existing htaken
    exact ⟨names, by simp [ClassName.topLevel, htaken, hsame, ClassName.same], h⟩

/-- **Outside of declarations every type is written by its canonical name.** -/
theorem Bare.spell (h : names.Bare) (quiet : Bool) (c : ClassName) :
    (names.spell nowhere quiet c).1 = c.canonical ∧ (names.spell nowhere quiet c).2.Bare := by
  have hchain : c.chain.find? (names.binds nowhere) = none := by
    rw [List.find?_eq_none]
    intro d _
    simp [binds, h.resolve]
  by_cases hspace : c.space = ""
  · obtain ⟨after, hafter, hbare⟩ := h.reserve c.top
    have hdotted : dotted c 0 = c.canonical := by
      rw [ClassName.canonical_eq_join]
      simp [dotted, ClassName.path, ClassName.spacePath, hspace]
    have hspell : names.spell nowhere quiet c = (dotted c 0, after) := by
      simp [Names.spell, h.typeVariables, hchain, h.resolve, hspace, ClassName.outermost, hafter]
    rw [hspell]
    exact ⟨hdotted, hbare⟩
  · have hclaim : (names.claim c.outermost).Bare := by
      unfold claim
      split
      · exact ⟨h.scopes, h.typeVariables, h.taken⟩
      · split
        · exact h
        · exact ⟨h.scopes, h.typeVariables, h.taken⟩
    have hspell : names.spell nowhere quiet c
        = (c.canonical, if quiet then names else names.claim c.outermost) := by
      simp [Names.spell, h.typeVariables, hchain, h.resolve, hspace, String.isEmpty_iff]
    rw [hspell]
    refine ⟨rfl, ?_⟩
    split
    · exact h
    · exact hclaim

end Names

/-! ### Writing does not look at names -/

namespace Writer

/-- The writer with other names. -/
def named (w : Writer) (names : Names) : Writer := { w with names := names }

variable (layout : Layout) (w : Writer) (names : Names)

@[simp] theorem named_mark? : (w.named names).mark? = w.mark? := rfl

@[simp] theorem named_level : (w.named names).level = w.level := rfl

@[simp] theorem named_atLineStart : (w.named names).atLineStart = w.atLineStart := rfl

@[simp] theorem named_statement : (w.named names).statement = w.statement := rfl

theorem appendIndentation_named (level : Nat) :
    (w.named names).appendIndentation layout level
      = (w.appendIndentation layout level).named names := by
  induction level generalizing w with
  | zero => rfl
  | succ level ih => exact ih (w.append layout layout.unit)

theorem writeLine_named (line : String) :
    (w.named names).writeLine layout line = (w.writeLine layout line).named names := by
  have hstart : (w.named names).startLine layout = (w.startLine layout).named names := by
    have hindented := w.appendIndentation_named layout names w.level
    rw [startLine, startLine, named_mark?, named_level, hindented]
    rcases w.mark? with _ | mark
    · rfl
    · rfl
  rw [writeLine, writeLine, named_atLineStart, hstart]
  split
  · rfl
  · split
    · rfl
    · rfl

theorem newline_named : (w.named names).newline layout = (w.newline layout).named names := by
  have hmarked : (w.named names).markEmptyLine layout = (w.markEmptyLine layout).named names := by
    have hindented := w.appendIndentation_named layout names w.level
    rw [markEmptyLine, markEmptyLine, named_mark?, named_level, named_atLineStart, hindented]
    rcases w.mark? with _ | mark
    · rfl
    · simp only
      split
      · rfl
      · rfl
  have hcontinue : ∀ v : Writer,
      (v.named names).continueStatement = v.continueStatement.named names := by
    intro v
    rw [continueStatement, continueStatement, named_statement]
    rcases v.statement with _ | lines
    · rfl
    · rfl
  rw [newline, newline, hmarked]
  exact hcontinue { (w.markEmptyLine layout).append layout "\n" with atLineStart := true }

theorem write_named (s : String) :
    (w.named names).write layout s = (w.write layout s).named names := by
  rw [write_eq_foldl, write_eq_foldl]
  generalize s.toList = cs
  induction cs generalizing w with
  | nil => rfl
  | cons c cs ih =>
    have hchar : writeChar layout (w.named names) c = (writeChar layout w c).named names := by
      unfold writeChar
      split
      · exact w.newline_named layout names
      · exact w.writeLine_named layout names _
    rw [List.foldl_cons, List.foldl_cons, hchar, ih]

theorem unindent_named (levels : Nat) : (w.named names).unindent levels
    = (w.unindent levels).map fun v => v.named names := by
  by_cases hlow : w.level < levels
  · rw [unindent, unindent, named_level, if_pos hlow, if_pos hlow]
    rfl
  · rw [unindent, unindent, named_level, if_neg hlow, if_neg hlow]
    rfl

theorem closeStatement_named : (w.named names).closeStatement layout
    = (w.closeStatement layout).map fun v => v.named names := by
  have hend : ∀ v : Writer, ({ v.named names with statement := none } : Writer).write layout "\n"
      = (({ v with statement := none } : Writer).write layout "\n").named names :=
    fun v => write_named layout { v with statement := none } names "\n"
  simp only [closeStatement, w.write_named layout names ";", named_statement, unindent_named]
  split
  · rcases (w.write layout ";").unindent 2 with e | v
    · rfl
    · exact congrArg Except.ok (hend v)
  · exact congrArg Except.ok (hend (w.write layout ";"))

end Writer

/-! ### Instructions that write a text -/

/-- The session of a fragment. -/
abbrev Session.alone (layout : Layout) : Session := ⟨layout, Names.nowhere⟩

/-- Outside of declarations the instructions do nothing but to write the text, and to take
    and claim names. -/
def Stream.Says (layout : Layout) (s : Stream) (text : String) : Prop :=
  ∀ (w : Writer) (names : Names), names.Bare →
    ∃ after : Names, after.Bare ∧ (w.named names).run (.alone layout) s
      = .ok ((w.write layout text).named after)

namespace Stream.Says

variable {layout : Layout} {s t : Stream} {a b : String}

theorem nothing : Says layout [] "" := by
  intro w names hbare
  have hnothing : w.write layout "" = w := by rw [Writer.write_eq_foldl]; rfl
  exact ⟨names, hbare, by rw [hnothing]; rfl⟩

theorem text (a : String) : Says layout [.text a] a := by
  intro w names hbare
  exact ⟨names, hbare, congrArg Except.ok (w.write_named layout names a)⟩

theorem reference {c : ClassName} (hc : c.validate = .ok ()) :
    Says layout [.reference c] c.canonical := by
  intro w names hbare
  obtain ⟨hname, hafter⟩ := hbare.spell (w.inDoc || w.inComment) c
  refine ⟨_, hafter, ?_⟩
  rw [← Writer.write_named, ← hname]
  simp [Writer.run, Writer.step, Writer.reference, Writer.named, Names.lookup, hc, bind,
    Except.bind, pure, Except.pure]

theorem append (hs : Says layout s a) (ht : Says layout t b) :
    Says layout (s ++ t) (a ++ b) := by
  intro w names hbare
  obtain ⟨mid, hmid, hfirst⟩ := hs w names hbare
  obtain ⟨after, hafter, hsecond⟩ := ht (w.write layout a) mid hmid
  refine ⟨after, hafter, ?_⟩
  rw [Writer.run_append, hfirst, Writer.write_append]
  exact hsecond

end Stream.Says

mutual

/-- **A type is written as its text.** -/
theorem TypeRef.says_stream (layout : Layout) : ∀ t : TypeRef,
    (∀ c ∈ t.classNames, c.validate = .ok ()) → t.stream.Says layout t.text
  | .builtIn b, _ => .text b.keyword
  | .typeVariable name, _ => .text name
  | .named c, h => .reference (h c (by simp [TypeRef.classNames]))
  | .generic raw args, h => by
    have hraw : Stream.Says layout [.reference raw] raw.canonical :=
      .reference (h raw (by simp [TypeRef.classNames]))
    have hargs := TypeRef.says_streamAll layout args fun c hc =>
      h c (by simp [TypeRef.classNames, hc])
    simpa [TypeRef.stream, TypeRef.text] using
      ((hraw.append (.text "<")).append hargs).append (.text ">")
  | .array t, h =>
    (TypeRef.says_stream layout t (by simpa [TypeRef.classNames] using h)).append (.text "[]")
  | .nullable t, h =>
    (TypeRef.says_stream layout t (by simpa [TypeRef.classNames] using h)).append (.text "?")

theorem TypeRef.says_streamAll (layout : Layout) : ∀ ts : List TypeRef,
    (∀ c ∈ TypeRef.classNamesAll ts, c.validate = .ok ()) →
      (TypeRef.streamAll ts).Says layout (TypeRef.textList ts)
  | [], _ => .nothing
  | [t], h => TypeRef.says_stream layout t fun c hc => h c (by simp [TypeRef.classNamesAll, hc])
  | t :: u :: rest, h => by
    have ht := TypeRef.says_stream layout t fun c hc => h c (by simp [TypeRef.classNamesAll, hc])
    have hrest := TypeRef.says_streamAll layout (u :: rest) fun c hc =>
      h c (by rw [TypeRef.classNamesAll]; exact List.mem_append_right _ hc)
    simpa [TypeRef.streamAll, TypeRef.textList] using (ht.append (.text ", ")).append hrest

end

/-! ### Types replaced by their texts -/

section Literal

variable {δ : Type} (layout : Layout) (emit : δ → Stream)

theorem Part.run_literal {p : Part δ} (hp : p.isAtomic = true)
    (hvalid : ∀ c ∈ p.classNames, c.validate = .ok ()) (w : Writer) {names : Names}
    (hbare : names.Bare) :
    ∃ after : Names, after.Bare ∧ (w.named names).run (.alone layout) (p.stream [] emit)
      = (w.run (.alone layout) (p.literal.stream [] emit)).map fun v => v.named after := by
  have hsays : ∀ {s : Stream} {a : String}, s.Says layout a → ∃ after : Names, after.Bare
      ∧ (w.named names).run (.alone layout) s
        = (w.run (.alone layout) [.text a]).map fun v => v.named after :=
    fun h => h w names hbare
  have hstep : ∀ {i : Instruction}, (w.named names).step (.alone layout) i
        = (w.step (.alone layout) i).map (fun v => v.named names) →
      ∃ after : Names, after.Bare ∧ (w.named names).run (.alone layout) [i]
        = (w.run (.alone layout) [i]).map fun v => v.named after := by
    intro i hi
    refine ⟨names, hbare, ?_⟩
    simp only [Writer.run, hi]
    rcases w.step (.alone layout) i with e | v
    · rfl
    · rfl
  rcases p with s | s | s | t | c | d | _ | _ | _ | _ | _ | _
  · exact hsays (.text s)
  · exact hsays (.text s)
  · rcases s with _ | s
    · exact hsays (.text "null")
    · exact hsays (.text (Text.quote s))
  · exact hsays (t.says_stream layout (by simpa [Part.classNames] using hvalid))
  · cases hp
  · cases hp
  · exact hstep rfl
  · exact hstep (w.unindent_named names 1)
  · refine hstep ?_
    rcases hstatement : w.statement with _ | lines
    · simp [Writer.step, Writer.named, hstatement, Except.map]
    · simp [Writer.step, Writer.named, hstatement, Except.map]
  · exact hstep (w.closeStatement_named layout names)
  · exact hstep rfl
  · exact hstep rfl

/-- **Types may be replaced by their texts.** -/
theorem Writer.run_literal {ps : List (Part δ)} (hps : ∀ p ∈ ps, p.isAtomic = true)
    (hvalid : ∀ p ∈ ps, ∀ c ∈ p.classNames, c.validate = .ok ()) (w : Writer) {names : Names}
    (hbare : names.Bare) :
    ∃ after : Names, after.Bare ∧ (w.named names).run (.alone layout) (Part.spelling emit ps)
      = (w.run (.alone layout) (Part.spelling emit (ps.map Part.literal))).map
          fun v => v.named after := by
  induction ps generalizing w names with
  | nil => exact ⟨names, hbare, rfl⟩
  | cons p ps ih =>
    obtain ⟨mid, hmid, hfirst⟩ := Part.run_literal layout emit (hps p (by simp))
      (hvalid p (by simp)) w hbare
    simp only [Part.spelling, List.map_cons, List.flatMap_cons, Writer.run_append, hfirst]
    rcases hrun : w.run (.alone layout) (p.literal.stream [] emit) with e | v
    · exact ⟨names, hbare, rfl⟩
    · exact ih (fun q hq => hps q (List.mem_cons_of_mem _ hq))
        (fun q hq => hvalid q (List.mem_cons_of_mem _ hq)) v hmid

end Literal

/-! ### The ink of texts -/

namespace Writer

variable {layout : Layout} {w : Writer}

theorem ink_writeLine (hblank : layout.Blank) (hmark : w.mark? = none) (line : String) :
    (w.writeLine layout line).wrapper.ink = w.wrapper.ink ++ Text.ink line
      ∧ (w.writeLine layout line).mark? = none := by
  have hindented : ∀ (level : Nat) (v : Writer),
      (v.appendIndentation layout level).wrapper.ink = v.wrapper.ink := by
    intro level
    induction level with
    | zero => exact fun _ => rfl
    | succ level ih =>
      intro v
      have hunit : (v.append layout layout.unit).wrapper.ink = v.wrapper.ink := by
        rw [append, v.wrapper.ink_append hblank, hblank, String.append_empty]
      rw [appendIndentation, ih, hunit]
  have hstart : (w.startLine layout).wrapper.ink = w.wrapper.ink := by
    rw [startLine, hmark]
    exact hindented w.level w
  obtain ⟨wrapper, hstarted⟩ := startLine_eq layout w
  by_cases hline : line = ""
  · subst hline
    exact ⟨by simp [writeLine, Text.ink_empty], by simpa [writeLine] using hmark⟩
  · rw [writeLine, String.isEmpty_eq_false_iff.mpr hline]
    by_cases hbegin : w.atLineStart = true
    · refine ⟨?_, by simpa [hbegin, hstarted, append, mark?] using hmark⟩
      simp only [hbegin, if_true, append]
      exact ((w.startLine layout).wrapper.ink_append hblank line).trans (by rw [hstart])
    · refine ⟨?_, by simpa [hbegin, append, mark?] using hmark⟩
      simp only [hbegin, append]
      exact w.wrapper.ink_append hblank line

theorem ink_newline (hblank : layout.Blank) (hmark : w.mark? = none) :
    (w.newline layout).wrapper.ink = w.wrapper.ink ∧ (w.newline layout).mark? = none := by
  have hended : (w.wrapper.append layout "\n").ink = w.wrapper.ink := by
    rw [w.wrapper.ink_append hblank, Text.ink_newline, String.append_empty]
  rw [newline, markEmptyLine_of_no_mark hmark]
  rcases hstatement : w.statement with _ | lines
  · simpa [continueStatement, append, hstatement] using ⟨hended, hmark⟩
  · simpa [continueStatement, append, hstatement] using ⟨hended, hmark⟩

/-- Outside of comments a text leaves its own ink. -/
theorem ink_write (hblank : layout.Blank) (hmark : w.mark? = none) (s : String) :
    (w.write layout s).wrapper.ink = w.wrapper.ink ++ Text.ink s
      ∧ (w.write layout s).mark? = none := by
  have hchars : ∀ (cs : List Char) (v : Writer), v.mark? = none →
      (cs.foldl (writeChar layout) v).wrapper.ink = v.wrapper.ink ++ Text.ink (String.ofList cs)
        ∧ (cs.foldl (writeChar layout) v).mark? = none := by
    intro cs
    induction cs with
    | nil => exact fun v hv => ⟨by simp [Text.ink_empty], hv⟩
    | cons c cs ih =>
      intro v hv
      have hchar : (writeChar layout v c).wrapper.ink
            = v.wrapper.ink ++ Text.ink (String.singleton c)
          ∧ (writeChar layout v c).mark? = none := by
        unfold writeChar
        split
        · next hc =>
          subst hc
          obtain ⟨hink, hnone⟩ := ink_newline hblank hv
          exact ⟨hink.trans String.append_empty.symm, hnone⟩
        · exact ink_writeLine hblank hv _
      obtain ⟨hink, hnone⟩ := ih _ hchar.2
      have hsplit : String.ofList (c :: cs) = String.singleton c ++ String.ofList cs := by simp
      exact ⟨by rw [List.foldl_cons, hink, hchar.1, hsplit, Text.ink_append, String.append_assoc],
        hnone⟩
  rw [write_eq_foldl]
  simpa using hchars s.toList w hmark

theorem ink_closeStatement {v : Writer} (hblank : layout.Blank) (hmark : w.mark? = none)
    (h : w.closeStatement layout = .ok v) :
    v.wrapper.ink = w.wrapper.ink ++ Text.ink ";" ∧ v.mark? = none := by
  obtain ⟨hsemi, hnone⟩ := ink_write hblank hmark ";"
  obtain ⟨level, -, rfl⟩ := closeStatement_eq_ok h
  obtain ⟨hink, hafter⟩ := ink_write (w := { w.write layout ";" with
    level := level, statement := none }) hblank hnone "\n"
  refine ⟨?_, hafter⟩
  rw [hink, Text.ink_newline, String.append_empty, ← hsemi]

end Writer

/-! ### The text of a block -/

section Parts

variable {δ : Type} {session : Session} (emit : δ → Stream)

theorem Part.ink_run (hblank : session.layout.Blank) {p : Part δ} (hp : p.isAtomic = true)
    {w v : Writer} (hmark : w.mark? = none)
    (h : w.run session (p.literal.stream [] emit) = .ok v) :
    v.wrapper.ink = w.wrapper.ink ++ Text.ink p.plain ∧ v.mark? = none := by
  have htext : ∀ s : String, w.run session [.text s] = .ok v →
      v.wrapper.ink = w.wrapper.ink ++ Text.ink s ∧ v.mark? = none := by
    intro s hs
    cases hs
    exact Writer.ink_write hblank hmark s
  have hblankInk : Text.ink "" = "" := Text.ink_empty
  rcases p with s | s | s | t | c | d | _ | _ | _ | _ | _ | _
  · exact htext s h
  · exact htext s h
  · rcases s with _ | s
    · exact htext _ h
    · exact htext _ h
  · exact htext _ h
  · cases hp
  · cases hp
  · cases h
    exact ⟨by simp [Part.plain, hblankInk], hmark⟩
  · obtain ⟨u, hu, hv⟩ := Except.bind_eq_ok h
    cases hv
    rw [Writer.step, Writer.unindent] at hu
    split at hu
    · cases hu
    · cases hu
      exact ⟨by simp [Part.plain, hblankInk], hmark⟩
  · obtain ⟨u, hu, hv⟩ := Except.bind_eq_ok h
    cases hv
    rw [Writer.step] at hu
    split at hu
    · cases hu
    · cases hu
      exact ⟨by simp [Part.plain, hblankInk], hmark⟩
  · obtain ⟨u, hu, hv⟩ := Except.bind_eq_ok h
    cases hv
    exact Writer.ink_closeStatement hblank hmark hu
  · cases h
    exact ⟨by simp [Part.plain, hblankInk, w.wrapper.ink_addSpace hblank], hmark⟩
  · cases h
    exact ⟨by simp [Part.plain, hblankInk, w.wrapper.ink_addPoint hblank], hmark⟩

theorem Part.ink_run_all (hblank : session.layout.Blank) {ps : List (Part δ)}
    (hps : ∀ p ∈ ps, p.isAtomic = true) {w v : Writer} (hmark : w.mark? = none)
    (h : w.run session (Part.spelling emit (ps.map Part.literal)) = .ok v) :
    v.wrapper.ink = w.wrapper.ink ++ Text.ink (String.join (ps.map Part.plain)) := by
  induction ps generalizing w with
  | nil =>
    cases h
    simp [Text.ink_empty]
  | cons p ps ih =>
    simp only [Part.spelling, List.map_cons, List.flatMap_cons, Writer.run_append] at h
    obtain ⟨u, hu, hv⟩ := Except.bind_eq_ok h
    obtain ⟨hink, hnone⟩ := Part.ink_run emit hblank (hps p (by simp)) hmark hu
    rw [ih (fun q hq => hps q (List.mem_cons_of_mem _ hq)) hnone hv, hink]
    simp [Text.ink_append, String.append_assoc]

variable (session) in
/-- Without marks for layout, parts are written as one text. -/
theorem Part.run_plain {ps : List (Part δ)} (hps : ∀ p ∈ ps, p.isAtomic = true)
    (hlayout : ∀ p ∈ ps, p.isLayout = false) (w : Writer) :
    w.run session (Part.spelling emit (ps.map Part.literal))
      = .ok (w.write session.layout (String.join (ps.map Part.plain))) := by
  have hone : ∀ (p : Part δ) (w : Writer), p.isAtomic = true → p.isLayout = false →
      w.run session (p.literal.stream [] emit) = .ok (w.write session.layout p.plain) := by
    intro p w hatomic hplain
    rcases p with s | s | s | t | c | d | _ | _ | _ | _ | _ | _
    · rfl
    · rfl
    · rcases s with _ | s
      · rfl
      · rfl
    · rfl
    · cases hatomic
    · cases hatomic
    all_goals cases hplain
  induction ps generalizing w with
  | nil =>
    have hnothing : w.write session.layout "" = w := by rw [Writer.write_eq_foldl]; rfl
    exact congrArg Except.ok hnothing.symm
  | cons p ps ih =>
    have hfirst := hone p w (hps p (by simp)) (hlayout p (by simp))
    simp only [Part.spelling, List.map_cons, List.flatMap_cons, Writer.run_append, hfirst,
      String.join_cons, Writer.write_append]
    exact ih (fun q hq => hps q (List.mem_cons_of_mem _ hq))
      (fun q hq => hlayout q (List.mem_cons_of_mem _ hq)) _

end Parts

/-! ### Rendering -/

theorem Layout.lines_zero (layout : Layout) (s : String) : layout.lines 0 0 s = s := by
  have hline : ∀ l : String, layout.line 0 l = l := by
    intro l
    by_cases hl : l = ""
    · simp [Layout.line, hl]
    · simp [Layout.line, String.isEmpty_iff, hl, Layout.indentation]
  have hjoin : ∀ ls : List (List Char),
      (String.join ((ls.map String.ofList).map fun l => "\n" ++ l)).toList
        = ls.flatMap ('\n' :: ·) := by
    intro ls
    simp [List.flatMap_map]
  rw [← String.toList_inj]
  simp only [Layout.lines, hline, Text.split, String.toList_append, hjoin, String.toList_ofList]
  exact Text.join_cutAll '\n' s.toList

namespace Code

variable {c : Code TypeDecl}

/-- What runs in place of the block: its flat parts with types as texts. -/
theorem render_literal (hdecl : c.declarations = [])
    (hvalid : ∀ n ∈ c.classNames, n.validate = .ok ()) :
    c.fragment.render
      = (Part.spelling (TypeDecl.stream []) (c.flat.map Part.literal)).render := by
  have hparts : ∀ p ∈ c.flat, ∀ n ∈ p.classNames, n.validate = .ok () := fun p hp n hn =>
    hvalid n (c.classNames_flat ▸ List.mem_flatMap.mpr ⟨p, hp, hn⟩)
  obtain ⟨after, -, hrun⟩ := Writer.run_literal ({} : Style).layout (TypeDecl.stream [])
    (isAtomic_of_mem_flat hdecl) hparts {} Names.Bare.start
  have hstart : ({} : Writer).named {} = {} := rfl
  rw [hstart, Part.spelling, stream_flat] at hrun
  rw [Stream.render, Stream.render, Stream.run, Stream.run, fragment, hrun]
  rcases ({} : Writer).run (.alone ({} : Style).layout)
    (Part.spelling (TypeDecl.stream []) (c.flat.map Part.literal)) with e | v
  · rfl
  · rfl

theorem render_succeeds (h : Obtainable (.code c)) (hdecl : c.declarations = [])
    (hvalid : ∀ n ∈ c.classNames, n.validate = .ok ()) : ∃ text, c.fragment.render = .ok text := by
  obtain ⟨hsettles, -⟩ := h.fit.settles
  rcases hsettles with hok | ⟨e, -, hblamed⟩
  · exact hok
  · exfalso
    rcases hblamed with ⟨n, hn, hfails⟩ | ⟨⟨x, hx, -⟩, -⟩
    · rcases hn with hn | hn | ⟨t, ht, -⟩
      · cases hn
      · rw [hvalid n (by simpa [Item.codes] using hn)] at hfails
        cases hfails
      · simp [Item.roots, Item.codes, hdecl] at ht
    · rcases hx with heq | ⟨t, ht, -⟩
      · cases heq
      · simp [Item.roots, Item.codes, hdecl] at ht

/-- Up to blanks the text is the transcript. -/
theorem ink_render (hdecl : c.declarations = [])
    (hvalid : ∀ n ∈ c.classNames, n.validate = .ok ()) {text : String}
    (h : c.fragment.render = .ok text) : Text.ink text = Text.ink c.transcript := by
  rw [render_literal hdecl hvalid, Stream.render] at h
  obtain ⟨w, hrun, hw⟩ := Except.bind_eq_ok h
  cases hw
  have hink := Part.ink_run_all (TypeDecl.stream []) (Style.blank_layout {})
    (isAtomic_of_mem_flat hdecl) rfl hrun
  rw [Writer.text, w.wrapper.ink_finish (Style.blank_layout {}), hink]
  exact String.empty_append

/-- Without marks for layout the text is the transcript. -/
theorem render_of_no_layout (hdecl : c.declarations = [])
    (hvalid : ∀ n ∈ c.classNames, n.validate = .ok ())
    (hlayout : ∀ p ∈ c.flat, p.isLayout = false) : c.fragment.render = .ok c.transcript := by
  have hplain := Part.run_plain (.alone ({} : Style).layout) (TypeDecl.stream [])
    (isAtomic_of_mem_flat hdecl) hlayout {}
  obtain ⟨column, start, hwritten⟩ := Writer.Direct.write ({} : Style).layout
    (w := {}) ⟨rfl, rfl⟩ rfl (String.join (c.flat.map Part.plain))
  rw [render_literal hdecl hvalid, Stream.render, Stream.run, hplain, hwritten]
  simp [Writer.text, Writer.past, Wrapper.finish, Wrapper.settle, Writer.continuedLevel,
    Layout.lines_zero, transcript, bind, Except.bind, pure, Except.pure]

/-- A type makes no difference to its text, wherever it stands. -/
theorem render_type_as_text (hdecl : c.declarations = [])
    (hvalid : ∀ n ∈ c.classNames, n.validate = .ok ()) {before after : List (Part TypeDecl)}
    {t : TypeRef} (hc : c.flat = before ++ .type t :: after) {b : Code TypeDecl}
    (hb : b.flat = before ++ .text t.text :: after) : b.fragment.render = c.fragment.render := by
  have hbdecl : b.declarations = [] := by
    rw [← c.declarations_flat, hc] at hdecl
    rw [← b.declarations_flat, hb]
    simpa [Part.declarations] using hdecl
  have hbvalid : ∀ n ∈ b.classNames, n.validate = .ok () := by
    intro n hn
    refine hvalid n ?_
    rw [← b.classNames_flat, hb] at hn
    rw [← c.classNames_flat, hc]
    simp only [List.flatMap_append, List.flatMap_cons, List.mem_append, Part.classNames] at hn ⊢
    tauto
  have hparts : b.flat.map Part.literal = c.flat.map Part.literal := by
    rw [hb, hc]
    simp [Part.literal]
  rw [render_literal hbdecl hbvalid, hparts, ← render_literal hdecl hvalid]

/-- The block of a single argument. -/
theorem ofFormat_argument (placeholder : Placeholder) {arg : Argument TypeDecl}
    {p : Part TypeDecl}
    (hpart : ∀ d : Draft TypeDecl, d.argumentPart placeholder arg = .ok (p, d)) :
    ofFormat ("$" ++ placeholder.letter) [arg] = .ok ⟨[p], 0⟩ := by
  have hunused : ({ next := 1, relative := true, used := [0] } : Cursor).unused? 1 = none := rfl
  simp [ofFormat, Draft.add, Format.parse_placeholder, Draft.interpret, Draft.directive,
    Cursor.take, Cursor.advance, hpart, Draft.finish, hunused, Draft.push, Draft.build,
    textParts_empty, bind, Except.bind, pure, Except.pure]

theorem render_single {p : Part TypeDecl} (hp : p.isAtomic = true) (hlayout : p.isLayout = false)
    (hvalid : ∀ n ∈ p.classNames, n.validate = .ok ()) :
    (⟨[p], 0⟩ : Code TypeDecl).fragment.render = .ok p.plain := by
  have hflat : (⟨[p], 0⟩ : Code TypeDecl).flat = [p] := by
    cases p with
    | block | declaration => cases hp
    | _ => rfl
  have hnone : p.declarations = [] := by
    cases p with
    | block | declaration => cases hp
    | _ => rfl
  have hrender := render_of_no_layout (c := ⟨[p], 0⟩)
    (by simpa [Code.declarations_eq] using hnone)
    (by simpa [Code.classNames_eq] using hvalid) (by simpa [hflat] using hlayout)
  simpa [transcript, hflat] using hrender

/-- **A fragment says what its block says.**  A block without declarations whose types are
    well-formed renders; the text is the transcript of the block up to blanks, and exactly
    the transcript if there are no marks for layout.  It makes no difference whether a type
    is given as a type or as a literal, and a literal text is written as it is. -/
theorem render_eq_transcript (h : Obtainable (.code c)) (hdecl : c.declarations = [])
    (hvalid : ∀ n ∈ c.classNames, n.validate = .ok ()) :
    (∃ text, c.fragment.render = .ok text ∧ Text.ink text = Text.ink c.transcript
      ∧ ((∀ p ∈ c.flat, p.isLayout = false) → text = c.transcript)
      ∧ ∀ before t after, c.flat = before ++ .type t :: after → ∀ b : Code TypeDecl,
        b.flat = before ++ .text t.text :: after → b.fragment.render = .ok text)
    ∧ (∀ t : TypeRef, (∀ n ∈ t.classNames, n.validate = .ok ()) → ∃ a b : Code TypeDecl,
      ofFormat "$T" [.type t] = .ok a ∧ ofFormat "$L" [.type t] = .ok b
        ∧ a.fragment.render = .ok t.text ∧ b.fragment.render = .ok t.text)
    ∧ ∀ s : String, ∃ a : Code TypeDecl,
      ofFormat "$L" [.text s] = .ok a ∧ a.fragment.render = .ok s := by
  refine ⟨?_, ?_, ?_⟩
  · obtain ⟨text, htext⟩ := render_succeeds h hdecl hvalid
    refine ⟨text, htext, ink_render hdecl hvalid htext, ?_, ?_⟩
    · intro hlayout
      rw [render_of_no_layout hdecl hvalid hlayout] at htext
      exact (Except.ok.inj htext).symm
    · intro before t after hc b hb
      rw [render_type_as_text hdecl hvalid hc hb, htext]
  · intro t ht
    exact ⟨_, _, ofFormat_argument .type fun _ => rfl, ofFormat_argument .literal fun _ => rfl,
      render_single (p := .type t) rfl rfl (by simpa [Part.classNames] using ht),
      render_single (p := .text t.text) rfl rfl (by simp [Part.classNames])⟩
  · intro s
    exact ⟨_, ofFormat_argument .literal fun _ => rfl,
      render_single (p := .text s) rfl rfl (by simp [Part.classNames])⟩

/-- A string literal with a placeholder in it. -/
def price : Code TypeDecl := ⟨[.quoted (some "$5")], 0⟩

/-- A statement with a type, a break and a nested block. -/
def sale : Code TypeDecl :=
  ⟨[.openStatement, .text "Sell<", .type (.named ⟨"", "Item", []⟩), .text ">(", .wrapPoint,
    .block price, .text ")", .closeStatement], 1⟩

theorem render_eq_transcript_sale :
    Obtainable (.code sale) ∧ sale.transcript = "Sell<Item>(\"$5\");"
      ∧ ∃ text, sale.fragment.render = .ok text
        ∧ Text.ink text = "Sell<Item>(\"$5\");" := by
  have hprice : price.Built fun _ => True :=
    .finished (.edited (e := .add "$S" [.text "$5"]) .empty trivial
      (by simp [Edit.blocks, Argument.blocks])) rfl
  have hsale : Obtainable (.code sale) := by
    refine .code (.finished (.edited (e := .addStatement "Sell<$T>($Z$L)"
      [.type (.named ⟨"", "Item", []⟩), .code price]) .empty trivial ?_) rfl) ?_
    · simpa [Edit.blocks, Argument.blocks] using hprice
    · intro t ht
      cases ht
  have hvalid : ∀ n ∈ sale.classNames, n.validate = .ok () := by
    intro n hn
    cases List.mem_singleton.mp hn
    rfl
  have htranscript : sale.transcript = "Sell<Item>(\"$5\");" := by decide
  obtain ⟨⟨text, htext, hink, -⟩, -⟩ := render_eq_transcript hsale rfl hvalid
  refine ⟨hsale, htranscript, text, htext, ?_⟩
  rw [hink, htranscript]
  decide

end Code

end CSharpGen
