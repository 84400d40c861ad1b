/-
  CSharpGen/Proofs/LineStates.lean
  ================================
  **What stands on the current line** — whether a line has been begun with more
  than its indentation can be told from the instructions alone, as far as it does
  not hang on a break that is still undecided.  `LineState.after` follows one
  instruction, and the writer agrees with it, step by step
  (`Writer.OnLine.step`) and along every run (`Writer.OnLine.run`).

  An undecided break has two outcomes, so a wrapper can be read in two ways
  (`Wrapper.Reads`).  All that is said about the current line is said about both:
  whatever the final text is, it begins with one of them (`Writer.reads_run`).
-/
import CSharpGen.Proofs.Ink
import CSharpGen.Proofs.Remarks
import Mathlib.Data.List.DropRight

namespace CSharpGen

/-! ### Lines -/

namespace Text

/-- The characters that may stand before the first one of a line: spaces and tabs. -/
def isGap (c : Char) : Bool := c == ' ' || c == '\t'

/-- The characters behind the last line end. -/
def lastLine (s : String) : List Char := s.toList.rtakeWhile (· ≠ '\n')

theorem lastLine_newline (s : String) : lastLine (s ++ "\n") = [] := by
  simp [lastLine]

theorem lastLine_append {t : String} (ht : '\n' ∉ t.toList) (s : String) :
    lastLine (s ++ t) = lastLine s ++ t.toList := by
  have hlist : ∀ cs : List Char, '\n' ∉ cs →
      (s.toList ++ cs).rtakeWhile (· ≠ '\n') = lastLine s ++ cs := by
    intro cs
    induction cs using List.reverseRecOn with
    | nil => simp [lastLine]
    | append_singleton cs c ih =>
      intro hcs
      rw [List.mem_append, not_or, List.mem_singleton] at hcs
      rw [← List.append_assoc, List.rtakeWhile_concat, ih hcs.1]
      simp [Ne.symm hcs.2]
  rw [lastLine, String.toList_append]
  exact hlist t.toList ht

theorem newline_not_mem_of_isGap {cs : List Char} (h : ∀ c ∈ cs, isGap c = true) : '\n' ∉ cs :=
  fun hmem => absurd (h _ hmem) (by decide)

end Text

/-- Indentation is made of spaces and tabs. -/
def Layout.Gaps (layout : Layout) : Prop :=
  ∀ level, ∀ c ∈ (layout.indentation level).toList, Text.isGap c = true

theorem Style.gaps_layout (style : Style) : style.layout.Gaps := by
  intro level c hc
  rcases style.mem_indentation level c hc with rfl | rfl <;> rfl

/-! ### Reading a wrapper -/

namespace Wrapper

variable {layout : Layout} {w : Wrapper} {t : String}

/-- A text that the wrapper stands for, with its break decided one way or the other. -/
def Reads (layout : Layout) (w : Wrapper) (t : String) : Prop :=
  ∃ wrap, t = (w.settle layout wrap).out

theorem reads_finish (layout : Layout) (w : Wrapper) : w.Reads layout (w.finish layout) :=
  ⟨false, rfl⟩

theorem Reads.ink (h : w.Reads layout t) (hblank : layout.Blank) : Text.ink t = w.ink := by
  obtain ⟨wrap, rfl⟩ := h
  rw [← w.ink_settle hblank wrap, ink_of_no_break (held_settle layout w wrap)]

theorem reads_append {s : String} (h : (w.append layout s).Reads layout t) :
    ∃ old, w.Reads layout old ∧ t = old ++ s := by
  obtain ⟨wrap, rfl⟩ := h
  have hwrite : ∀ v : Wrapper, v.held = none →
      ((v.write s).settle layout wrap).out = v.out ++ s := by
    intro v hv
    rw [settle_of_no_break (w := v.write s) hv]
    rfl
  unfold append
  cases hheld : w.held with
  | none => exact ⟨w.out, ⟨wrap, by rw [settle_of_no_break hheld]⟩, hwrite w hheld⟩
  | some held =>
    simp only
    split
    · refine ⟨_, ⟨wrap, rfl⟩, ?_⟩
      cases wrap <;> simp [settle, hheld, String.append_assoc]
    · exact ⟨_, ⟨_, rfl⟩, hwrite _ (held_settle layout w _)⟩

theorem reads_addSpace {level : Nat} (h : (w.addSpace layout level).Reads layout t) :
    ∃ old, w.Reads layout old
      ∧ (t = old ++ " " ∨ t = old ++ "\n" ++ layout.indentation level) := by
  obtain ⟨wrap, rfl⟩ := h
  refine ⟨_, ⟨false, rfl⟩, ?_⟩
  cases wrap with
  | true => exact .inr (by simp [addSpace, settle])
  | false => exact .inl (by simp [addSpace, settle, Break.text])

theorem reads_addPoint {level : Nat} (h : (w.addPoint layout level).Reads layout t) :
    ∃ old, w.Reads layout old ∧ (t = old ∨ t = old ++ "\n" ++ layout.indentation level) := by
  unfold addPoint at h
  split at h
  · exact ⟨t, h, .inl rfl⟩
  · obtain ⟨wrap, rfl⟩ := h
    refine ⟨_, ⟨false, rfl⟩, ?_⟩
    cases wrap with
    | true => exact .inr (by simp [settle])
    | false => exact .inl (by simp [settle, Break.text])

/-- Every reading begins with a reading of an earlier wrapper. -/
def GrownFrom (layout : Layout) (old w : Wrapper) : Prop :=
  ∀ t, w.Reads layout t → ∃ s, old.Reads layout s ∧ ∃ more, t = s ++ more

theorem lasting_grownFrom (layout : Layout) (old : Wrapper) :
    Lasting layout layout True fun u v => v = u ∧ GrownFrom layout old u := by
  have hgrow : ∀ {u v : Wrapper}, GrownFrom layout old u →
      (∀ t, v.Reads layout t → ∃ s, u.Reads layout s ∧ ∃ more, t = s ++ more) →
      GrownFrom layout old v := by
    intro u v hu hv t ht
    obtain ⟨s, hs, more, rfl⟩ := hv t ht
    obtain ⟨first, hfirst, rest, rfl⟩ := hu s hs
    exact ⟨first, hfirst, rest ++ more, String.append_assoc⟩
  have happend : ∀ {u : Wrapper} (s : String), GrownFrom layout old u →
      GrownFrom layout old (u.append layout s) := by
    intro u s hu
    refine hgrow hu fun t ht => ?_
    obtain ⟨first, hfirst, rfl⟩ := reads_append ht
    exact ⟨first, hfirst, s, rfl⟩
  constructor
  · rintro u v s ⟨rfl, hu⟩
    exact ⟨rfl, happend s hu⟩
  · rintro u v ⟨rfl, hu⟩
    exact ⟨rfl, happend _ hu⟩
  · rintro u v level - ⟨rfl, hu⟩
    refine ⟨rfl, hgrow hu fun t ht => ?_⟩
    obtain ⟨first, hfirst, rfl | rfl⟩ := reads_addSpace ht
    · exact ⟨first, hfirst, _, rfl⟩
    · exact ⟨first, hfirst, "\n" ++ layout.indentation level, String.append_assoc⟩
  · rintro u v level - ⟨rfl, hu⟩
    refine ⟨rfl, hgrow hu fun t ht => ?_⟩
    obtain ⟨first, hfirst, rfl | rfl⟩ := reads_addPoint ht
    · exact ⟨t, hfirst, "", by simp⟩
    · exact ⟨first, hfirst, "\n" ++ layout.indentation level, String.append_assoc⟩

end Wrapper

/-- **What has been written is the beginning of what will be**, up to an undecided break. -/
theorem Writer.reads_run {session : Session} {w v : Writer} {s : Stream} {t : String}
    (h : w.run session s = .ok v) (ht : v.wrapper.Reads session.layout t) :
    ∃ old, w.wrapper.Reads session.layout old ∧ ∃ more, t = old ++ more := by
  have hstart : Wrapper.GrownFrom session.layout w.wrapper w.wrapper := fun t ht =>
    ⟨t, ht, "", by simp⟩
  have hbeside := Beside.run (Wrapper.lasting_grownFrom session.layout w.wrapper)
    (w := w) (v := w) ⟨w.wrapper, ⟨rfl, hstart⟩, rfl⟩ session.setting (s := s) fun _ _ _ => trivial
  rw [show (⟨session.layout, session.setting⟩ : Session) = session from rfl, h] at hbeside
  cases hbeside with
  | ok hbeside =>
    obtain ⟨wrapper, ⟨-, hgrown⟩, -⟩ := hbeside
    exact hgrown t ht

/-! ### The state of a line -/

/-- What is known about the current line. -/
inductive LineState where
  /-- Nothing but spaces and tabs stands on it, and in a comment its mark. -/
  | clear
  /-- Something else stands on it. -/
  | inked
  /-- That depends on a break. -/
  | pending
  deriving DecidableEq, Repr

namespace LineState

/-- The state behind a character. -/
def char (l : LineState) (c : Char) : LineState :=
  if c = '\n' then clear else if Text.isGap c then l else inked

/-- The state behind an instruction. -/
def after (l : LineState) : Instruction → LineState
  | .text s => s.toList.foldl char l
  | .reference _ => inked
  -- A refusal ends the run, so that nothing hangs on the state behind it.
  | .closeStatement | .closeDoc | .closeComment | .refuse _ => clear
  | .wrapSpace | .wrapPoint => if l = inked then pending else l
  | _ => l

/-- The state behind some instructions. -/
def through (l : LineState) (s : Stream) : LineState := s.foldl after l

@[simp] theorem through_nil (l : LineState) : l.through [] = l := rfl

@[simp] theorem through_cons (l : LineState) (i : Instruction) (s : Stream) :
    l.through (i :: s) = (l.after i).through s := rfl

@[simp] theorem through_append (l : LineState) (s t : Stream) :
    l.through (s ++ t) = (l.through s).through t := List.foldl_append

/-- The line is in the state, where a comment with the given mark is open. -/
def Holds (mark? : Option String) : LineState → List Char → Prop
  | clear, line =>
    match mark? with
    | none => ∀ c ∈ line, Text.isGap c = true
    | some _ => ∃ before mark behind, line = before ++ mark ++ behind
      ∧ mark ∈ ["".toList, "//".toList, "///".toList]
      ∧ (∀ c ∈ before, Text.isGap c = true) ∧ ∀ c ∈ behind, Text.isGap c = true
  | inked, line => ∃ c ∈ line, Text.isGap c = false
  | pending, _ => True

variable {mark? : Option String} {l : LineState} {line more : List Char}

theorem holds_clear (h : ∀ c ∈ line, Text.isGap c = true) (mark? : Option String) :
    Holds mark? clear line := by
  cases mark? with
  | none => exact h
  | some mark => exact ⟨line, [], [], by simp, by simp, h, by simp⟩

theorem Holds.gap (h : Holds mark? l line) (hmore : ∀ c ∈ more, Text.isGap c = true) :
    Holds mark? l (line ++ more) := by
  cases l with
  | clear =>
    cases mark? with
    | none => exact List.forall_mem_append.mpr ⟨h, hmore⟩
    | some mark =>
      obtain ⟨before, mark, behind, rfl, hmark, hbefore, hbehind⟩ := h
      exact ⟨before, mark, behind ++ more, by simp, hmark, hbefore,
        List.forall_mem_append.mpr ⟨hbehind, hmore⟩⟩
  | inked =>
    obtain ⟨c, hc, hink⟩ := h
    exact ⟨c, List.mem_append_left _ hc, hink⟩
  | pending => trivial

theorem Holds.comment (h : Holds mark? l line) (mark : String) : Holds (some mark) l line := by
  cases l with
  | clear =>
    cases mark? with
    | none => exact holds_clear h _
    | some _ => exact h
  | inked | pending => exact h

theorem Holds.char (h : Holds mark? l line) {c : Char} (hc : c ≠ '\n') :
    Holds mark? (l.char c) (line ++ [c]) := by
  unfold LineState.char
  rw [if_neg hc]
  split
  · next hgap => exact h.gap (List.forall_mem_singleton.mpr hgap)
  · next hink => exact ⟨c, by simp, by simpa using hink⟩

theorem foldl_char_of_ink {cs : List Char} (hne : cs ≠ [])
    (h : ∀ c ∈ cs, c ≠ '\n' ∧ Text.isGap c = false) (l : LineState) :
    cs.foldl char l = inked := by
  induction cs using List.reverseRecOn with
  | nil => exact absurd rfl hne
  | append_singleton cs c ih =>
    obtain ⟨hc, hgap⟩ := h c (by simp)
    simp [LineState.char, hc, hgap]

end LineState

/-- The name of a well-formed type begins and goes on without blanks. -/
theorem Names.spell_unblank (setting : Setting) (quiet : Bool) (names : Names) {c : ClassName}
    (hc : c.Valid) : (names.spell setting quiet c).1 ≠ ""
      ∧ ∀ x ∈ (names.spell setting quiet c).1.toList, x ≠ '\n' ∧ Text.isGap x = false := by
  obtain ⟨hne, hline⟩ := names.spell_plain setting quiet hc
  have hjoin : ∀ {xs : List String} {x : Char}, (∀ s ∈ xs, Identifier.isValid s = true) →
      x = ' ' ∨ x = '\t' → x ∉ (Text.join "." xs).toList := by
    rintro xs x hxs hx hmem
    rcases Text.mem_toList_join hmem with rfl | ⟨s, hs, hmem⟩
    · revert hx
      decide
    · refine Identifier.not_mem_of_isForeign (hxs s hs) ?_ hmem
      rcases hx with rfl | rfl <;> decide
  have hgap : ∀ x : Char, x = ' ' ∨ x = '\t' → x ∉ (names.spell setting quiet c).1.toList := by
    intro x hx
    rw [spell_fst]
    cases names.depth? setting c with
    | some depth =>
      exact hjoin (hc.isValid_of_mem_drop depth) hx
    | none =>
      have hplain := hjoin hc.isValid_of_mem_path hx
      simp only [ClassName.qualified, ClassName.canonical_eq_join]
      split
      · rcases hx with rfl | rfl <;> simpa using hplain
      · exact hplain
  refine ⟨hne, fun x hx => ⟨fun hnewline => hline (hnewline ▸ hx), ?_⟩⟩
  cases hblank : Text.isGap x with
  | false => rfl
  | true => exact absurd hx (hgap x (by simpa [Text.isGap] using hblank))

/-! ### The writer is on such a line -/

namespace Writer

variable {layout : Layout} {w v : Writer} {l : LineState} {t : String}

/-- The current line is in the state, however the break is decided, and nothing stands on a
    line that has not been begun. -/
structure OnLine (layout : Layout) (l : LineState) (w : Writer) : Prop where
  start : w.atLineStart = true → ∀ t, w.wrapper.Reads layout t →
    ∀ c ∈ Text.lastLine t, Text.isGap c = true
  line : ∀ t, w.wrapper.Reads layout t → l.Holds w.mark? (Text.lastLine t)

theorem onLine_initial (layout : Layout) (names : Names) :
    OnLine layout .clear { names := names } := by
  have hempty : ∀ t, ({ names := names } : Writer).wrapper.Reads layout t →
      ∀ c ∈ Text.lastLine t, Text.isGap c = true := by
    rintro t ⟨wrap, rfl⟩ c hc
    cases hc
  exact ⟨fun _ => hempty, hempty⟩

theorem OnLine.congr (h : w.OnLine layout l) (hwrapper : v.wrapper = w.wrapper)
    (hstart : v.atLineStart = w.atLineStart) (hmark : v.mark? = w.mark?) : v.OnLine layout l := by
  obtain ⟨hbegun, hline⟩ := h
  exact ⟨by rwa [hwrapper, hstart], by rwa [hwrapper, hmark]⟩

theorem OnLine.comment (h : w.OnLine layout l) (hwrapper : v.wrapper = w.wrapper)
    (hstart : v.atLineStart = w.atLineStart) (hmark : v.mark?.isSome = true) :
    v.OnLine layout l := by
  obtain ⟨mark, hmark⟩ := Option.isSome_iff_exists.mp hmark
  obtain ⟨hbegun, hline⟩ := h
  refine ⟨by rwa [hwrapper, hstart], fun t ht => ?_⟩
  rw [hmark]
  exact (hline t (hwrapper ▸ ht)).comment mark

/-- On a line that has not been begun the marks of comments are of no concern. -/
theorem OnLine.of_start (h : w.OnLine layout l) (hstart : w.atLineStart = true)
    (hwrapper : v.wrapper = w.wrapper) : v.OnLine layout .clear := by
  have hgaps := h.start hstart
  rw [← hwrapper] at hgaps
  exact ⟨fun _ => hgaps, fun t ht => LineState.holds_clear (hgaps t ht) _⟩

/-- A line end begins a line. -/
theorem onLine_newline (layout : Layout) (w : Writer) :
    (w.newline layout).OnLine layout .clear := by
  have hempty : ∀ t, (w.newline layout).wrapper.Reads layout t → Text.lastLine t = [] := by
    intro t ht
    rw [newline_wrapper] at ht
    obtain ⟨old, -, rfl⟩ := Wrapper.reads_append ht
    exact Text.lastLine_newline old
  refine ⟨fun _ t ht c hc => ?_, fun t ht => ?_⟩
  · rw [hempty t ht] at hc
    cases hc
  · rw [hempty t ht]
    exact LineState.holds_clear (by simp) _

theorem reads_appendIndentation {level : Nat}
    (h : (w.appendIndentation layout level).wrapper.Reads layout t) :
    ∃ old, w.wrapper.Reads layout old ∧ t = old ++ layout.indentation level := by
  induction level generalizing w with
  | zero => exact ⟨t, h, by simp [Layout.indentation]⟩
  | succ level ih =>
    obtain ⟨mid, hmid, rfl⟩ := ih h
    obtain ⟨old, hold, rfl⟩ := Wrapper.reads_append hmid
    exact ⟨old, hold, by simp [Layout.indentation, String.append_assoc]⟩

/-- What is written before the first character of a line. -/
def lead (layout : Layout) (w : Writer) : String :=
  if w.atLineStart then
    layout.indentation w.level ++ (match w.mark? with | some mark => mark ++ " " | none => "")
  else ""

theorem writeChar_of_ne {c : Char} (hc : c ≠ '\n') (layout : Layout) (w : Writer) :
    w.writeChar layout c = { (if w.atLineStart then w.startLine layout else w).append layout
      (String.singleton c) with atLineStart := false } := by
  have hne : (String.singleton c).isEmpty = false := by simp [String.isEmpty_eq_false_iff]
  simp [writeChar, hc, writeLine, hne]

theorem reads_writeChar {c : Char} (hc : c ≠ '\n')
    (h : (w.writeChar layout c).wrapper.Reads layout t) :
    ∃ old, w.wrapper.Reads layout old ∧ t = old ++ w.lead layout ++ String.singleton c := by
  rw [writeChar_of_ne hc] at h
  obtain ⟨old, hold, rfl⟩ := Wrapper.reads_append h
  unfold lead
  split at hold
  · next hstart =>
    cases hmark : w.mark? with
    | some mark =>
      simp only [startLine, hmark] at hold
      obtain ⟨mid, hmid, rfl⟩ := Wrapper.reads_append hold
      obtain ⟨first, hfirst, rfl⟩ := reads_appendIndentation hmid
      exact ⟨first, hfirst, by simp [hstart, String.append_assoc]⟩
    | none =>
      simp only [startLine, hmark] at hold
      obtain ⟨first, hfirst, rfl⟩ := reads_appendIndentation hold
      exact ⟨first, hfirst, by simp [hstart]⟩
  · next hbegun => exact ⟨old, hold, by simp [hbegun]⟩

theorem mark?_eq_some {mark : String} (h : w.mark? = some mark) : mark = "///" ∨ mark = "//" := by
  unfold mark? at h
  split at h
  · exact .inl (Option.some.inj h).symm
  · split at h
    · exact .inr (Option.some.inj h).symm
    · cases h

/-- What begins a line is the indentation and, in a comment, its mark. -/
theorem holds_lead (hgaps : layout.Gaps) (hstart : w.atLineStart = true)
    (ht : ∀ c ∈ Text.lastLine t, Text.isGap c = true) :
    LineState.clear.Holds w.mark? (Text.lastLine (t ++ w.lead layout)) := by
  have hindent := hgaps w.level
  have hblank : ∀ c ∈ Text.lastLine t ++ (layout.indentation w.level).toList,
      Text.isGap c = true := List.forall_mem_append.mpr ⟨ht, hindent⟩
  have hline : ∀ m : String, '\n' ∉ m.toList →
      Text.lastLine (t ++ (layout.indentation w.level ++ m))
        = Text.lastLine t ++ (layout.indentation w.level).toList ++ m.toList := by
    intro m hm
    rw [Text.lastLine_append, String.toList_append, List.append_assoc]
    rw [String.toList_append, List.mem_append, not_or]
    exact ⟨Text.newline_not_mem_of_isGap hindent, hm⟩
  rw [Writer.lead, if_pos hstart]
  cases hmark : w.mark? with
  | none =>
    rw [hline "" (by simp)]
    exact LineState.holds_clear (by simpa using hblank) none
  | some mark =>
    rw [hline (mark ++ " ") (by rcases mark?_eq_some hmark with rfl | rfl <;> decide)]
    refine ⟨_, mark.toList, [' '], by simp, ?_, hblank, by simp [Text.isGap]⟩
    rcases mark?_eq_some hmark with rfl | rfl <;> simp

/-- **The state holds of the line up to the character that is written next.** -/
theorem OnLine.lead (h : w.OnLine layout l) (hgaps : layout.Gaps)
    (ht : w.wrapper.Reads layout t) : l.Holds w.mark? (Text.lastLine (t ++ w.lead layout)) := by
  cases hstart : w.atLineStart with
  | false => simpa [Writer.lead, hstart] using h.line t ht
  | true =>
    have hbefore := h.start hstart t ht
    cases l with
    | clear => exact holds_lead hgaps hstart hbefore
    | inked =>
      obtain ⟨c, hc, hink⟩ := h.line t ht
      rw [hbefore c hc] at hink
      cases hink
    | pending => trivial

theorem writeChar_flags (layout : Layout) (w : Writer) {c : Char} (hc : c ≠ '\n') :
    (w.writeChar layout c).atLineStart = false ∧ (w.writeChar layout c).mark? = w.mark? := by
  obtain ⟨wrapper, hstarted⟩ := startLine_eq layout w
  rw [writeChar_of_ne hc]
  simp only [append, mark?, true_and]
  split
  · rw [hstarted]
  · rfl

/-- **A character is written on the line that is open**, or ends it. -/
theorem OnLine.writeChar (h : w.OnLine layout l) (hgaps : layout.Gaps) (c : Char) :
    (w.writeChar layout c).OnLine layout (l.char c) := by
  by_cases hc : c = '\n'
  · have hnewline : w.writeChar layout c = w.newline layout := by simp [Writer.writeChar, hc]
    rw [hnewline, LineState.char, if_pos hc]
    exact onLine_newline layout w
  · obtain ⟨hbegun, hmark⟩ := writeChar_flags layout w hc
    refine ⟨fun hstart => ?_, fun t ht => ?_⟩
    · rw [hbegun] at hstart
      cases hstart
    · obtain ⟨old, hold, rfl⟩ := reads_writeChar hc ht
      have hplain : '\n' ∉ (String.singleton c).toList := by simpa using Ne.symm hc
      rw [hmark, Text.lastLine_append hplain, String.toList_singleton]
      exact (h.lead hgaps hold).char hc

theorem OnLine.write (h : w.OnLine layout l) (hgaps : layout.Gaps) (s : String) :
    (w.write layout s).OnLine layout (s.toList.foldl LineState.char l) := by
  rw [write_eq_foldl]
  generalize s.toList = cs
  induction cs generalizing w l with
  | nil => exact h
  | cons c cs ih => exact ih (h.writeChar hgaps c)

theorem onLine_endLine (h : w.OnLine layout l) :
    (w.endLine layout).atLineStart = true ∧ (w.endLine layout).OnLine layout .clear := by
  unfold endLine
  split
  · next hstart => exact ⟨hstart, h.of_start hstart rfl⟩
  · rw [write_newline]
    exact ⟨w.newline_atLineStart layout, onLine_newline layout w⟩

/-- A break leaves a clear line clear, whether it is taken or not. -/
theorem OnLine.hold (h : w.OnLine layout l) (hgaps : layout.Gaps) (level : Nat)
    (hreads : ∀ t, v.wrapper.Reads layout t → ∃ old, w.wrapper.Reads layout old
      ∧ ∃ gap : String, (∀ c ∈ gap.toList, Text.isGap c = true)
        ∧ (t = old ++ gap ∨ t = old ++ "\n" ++ layout.indentation level))
    (hstart : v.atLineStart = w.atLineStart) (hmark : v.mark? = w.mark?) :
    v.OnLine layout (if l = .inked then .pending else l) := by
  have hafter : ∀ t, v.wrapper.Reads layout t → ∃ old, w.wrapper.Reads layout old
      ∧ ((∃ gap : List Char, (∀ c ∈ gap, Text.isGap c = true)
          ∧ Text.lastLine t = Text.lastLine old ++ gap)
        ∨ ∀ c ∈ Text.lastLine t, Text.isGap c = true) := by
    intro t ht
    obtain ⟨old, hold, gap, hgap, rfl | rfl⟩ := hreads t ht
    · exact ⟨old, hold, .inl ⟨gap.toList, hgap,
        Text.lastLine_append (Text.newline_not_mem_of_isGap hgap) old⟩⟩
    · refine ⟨old, hold, .inr ?_⟩
      rw [Text.lastLine_append (Text.newline_not_mem_of_isGap (hgaps level)),
        Text.lastLine_newline]
      exact hgaps level
  refine ⟨fun hbegun t ht => ?_, fun t ht => ?_⟩
  · obtain ⟨old, hold, ⟨gap, hgap, hline⟩ | hline⟩ := hafter t ht
    · rw [hline]
      exact List.forall_mem_append.mpr ⟨h.start (hstart ▸ hbegun) old hold, hgap⟩
    · exact hline
  · obtain ⟨old, hold, ⟨gap, hgap, hline⟩ | hline⟩ := hafter t ht
    · cases l with
      | clear =>
        rw [hmark, hline]
        exact (h.line old hold).gap hgap
      | inked | pending => trivial
    · cases l with
      | clear => exact LineState.holds_clear hline _
      | inked | pending => trivial

/-! ### Steps and runs -/

/-- **A step keeps to the state of the line.** -/
theorem OnLine.step {session : Session} (h : w.OnLine session.layout l)
    (hgaps : session.layout.Gaps) {i : Instruction} (hi : w.step session i = .ok v) :
    v.OnLine session.layout (l.after i) := by
  cases i with
  | text s =>
    cases hi
    exact h.write hgaps s
  | reference c =>
    obtain ⟨hvalid, rfl⟩ := reference_eq_ok hi
    have hc := (ClassName.validate_eq_ok_iff c).mp hvalid
    have hname := Names.spell_unblank session.setting (w.inDoc || w.inComment) w.names hc
    have hnamed := (h.congr (v := { w with names :=
      (w.names.spell session.setting (w.inDoc || w.inComment) c).2 }) rfl rfl rfl).write hgaps
        (w.names.spell session.setting (w.inDoc || w.inComment) c).1
    rwa [LineState.foldl_char_of_ink (by simpa using hname.1) hname.2] at hnamed
  | unindent =>
    obtain ⟨-, rfl⟩ := unindent_eq_ok hi
    exact h.congr rfl rfl rfl
  | closeStatement =>
    obtain ⟨level, -, rfl⟩ := closeStatement_eq_ok hi
    rw [write_newline]
    exact onLine_newline session.layout _
  | openStatement =>
    simp only [Writer.step] at hi
    split at hi
    · cases hi
    · cases hi
      exact h.congr rfl rfl rfl
  | wrapSpace =>
    cases hi
    refine h.hold hgaps (w.level + 2) (fun t ht => ?_) rfl rfl
    obtain ⟨old, hold, ht⟩ := Wrapper.reads_addSpace ht
    exact ⟨old, hold, " ", by simp [Text.isGap], ht⟩
  | wrapPoint =>
    cases hi
    refine h.hold hgaps (w.level + 2) (fun t ht => ?_) rfl rfl
    obtain ⟨old, hold, ht⟩ := Wrapper.reads_addPoint ht
    exact ⟨old, hold, "", by simp, by simpa using ht⟩
  | openDoc =>
    cases hi
    exact h.comment rfl rfl (by simp [mark?])
  | openComment =>
    cases hi
    exact h.comment rfl rfl (by cases w.inDoc <;> simp [mark?])
  | closeDoc | closeComment =>
    cases hi
    obtain ⟨hstart, hended⟩ := onLine_endLine h
    exact hended.of_start hstart rfl
  | refuse fault => cases hi
  | indent | enterScope | leaveScope | enterVariables | leaveVariables | suspendStatement
  | resumeStatement =>
    cases hi
    exact h.congr rfl rfl rfl

/-- **A run keeps to the state of the line.** -/
theorem OnLine.run {session : Session} (h : w.OnLine session.layout l)
    (hgaps : session.layout.Gaps) {s : Stream} (hs : w.run session s = .ok v) :
    v.OnLine session.layout (l.through s) := by
  induction s generalizing w l with
  | nil =>
    cases hs
    exact h
  | cons i rest ih =>
    obtain ⟨mid, hi, hrest⟩ := Except.bind_eq_ok hs
    exact ih (h.step hgaps hi) hrest

end Writer

end CSharpGen
