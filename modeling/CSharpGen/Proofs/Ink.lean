/-
  CSharpGen/Proofs/Ink.lean
  =========================
  **Layout moves blanks and nothing else.**  The unit of indentation and the
  column limit decide where lines are broken and how far they are indented.
  Under two layouts the same instructions leave the same ink: the texts are
  equal once spaces, tabs and line ends are taken out
  (`SourceFile.layout_moves_blanks`).

  A writer holds a break back together with the text behind it, so that at any
  moment the texts of two runs may differ in more than blanks.  What is compared
  is therefore the ink of the whole wrapper (`Wrapper.ink`), text held back
  included; all else in the writers is equal (`Writer.SameInk`).
-/
import CSharpGen.Proofs.Simulation
import CSharpGen.SourceFile

namespace CSharpGen

/-! ### Blanks -/

namespace Text

/-- Spaces, tabs and line ends. -/
def isBlank (c : Char) : Bool := c == ' ' || c == '\t' || c == '\n'

/-- A text without its blanks. -/
def ink (s : String) : String := String.ofList (s.toList.filter fun c => !isBlank c)

theorem ink_append (s t : String) : ink (s ++ t) = ink s ++ ink t := by
  simp [ink, String.toList_append]

theorem ink_empty : ink "" = "" := rfl

theorem ink_newline : ink "\n" = "" := by decide

end Text

theorem Break.ink_text (kind : Break) : Text.ink kind.text = "" := by
  cases kind <;> decide

namespace Layout

/-- The unit of indentation leaves no ink. -/
def Blank (layout : Layout) : Prop := Text.ink layout.unit = ""

theorem Blank.ink_indentation {layout : Layout} (h : layout.Blank) (level : Nat) :
    Text.ink (layout.indentation level) = "" := by
  induction level with
  | zero => rfl
  | succ level ih =>
    rw [indentation, Text.ink_append, h, ih]
    rfl

end Layout

theorem Style.blank_layout (style : Style) : style.layout.Blank := by
  show Text.ink style.indent.unit = ""
  cases style.indent with
  | tab => decide
  | spaces width => simp [Indent.unit, Text.ink, Text.isBlank]

/-! ### The wrapper -/

namespace Wrapper

/-- What has been written and what is held back, without blanks. -/
def ink (w : Wrapper) : String := Text.ink w.out ++ Text.ink (w.held.elim "" Held.text)

theorem ink_of_no_break {w : Wrapper} (h : w.held = none) : w.ink = Text.ink w.out := by
  simp [ink, h, Text.ink_empty]

section Ink

variable {layout : Layout} (h : layout.Blank) (w : Wrapper)

include h

/-- Deciding a break moves what is held into the text, with blanks before it. -/
theorem ink_settle (wrap : Bool) : (w.settle layout wrap).ink = w.ink := by
  rw [ink_of_no_break (held_settle layout w wrap)]
  unfold settle ink
  cases hheld : w.held with
  | none => simp [Text.ink_empty]
  | some held =>
    cases wrap with
    | true => simp [Text.ink_append, Text.ink_newline, h.ink_indentation]
    | false => simp [Text.ink_append, held.kind.ink_text]

theorem ink_append (s : String) : (w.append layout s).ink = w.ink ++ Text.ink s := by
  have hwrite : ∀ v : Wrapper, v.held = none → (v.write s).ink = v.ink ++ Text.ink s := by
    intro v hv
    rw [ink_of_no_break hv, ink_of_no_break (w := v.write s) hv]
    exact Text.ink_append v.out s
  unfold append
  cases hheld : w.held with
  | none => exact hwrite w hheld
  | some held =>
    simp only
    split
    · simp [ink, hheld, Text.ink_append, String.append_assoc]
    · rw [hwrite _ (held_settle layout w _), w.ink_settle h]

theorem ink_addSpace (level : Nat) : (w.addSpace layout level).ink = w.ink := by
  rw [← w.ink_settle h false, ink_of_no_break (held_settle layout w false)]
  simp [addSpace, ink, Text.ink_empty]

theorem ink_addPoint (level : Nat) : (w.addPoint layout level).ink = w.ink := by
  unfold addPoint
  split
  · rfl
  · rw [← w.ink_settle h false, ink_of_no_break (held_settle layout w false)]
    simp [ink, Text.ink_empty]

theorem ink_finish : Text.ink (w.finish layout) = w.ink := by
  rw [← w.ink_settle h false, ink_of_no_break (held_settle layout w false), finish]

end Ink

/-- Wrappers with the same ink keep the same ink. -/
theorem lasting_ink {l m : Layout} (hl : l.Blank) (hm : m.Blank) :
    Lasting l m True fun u v => v.ink = u.ink where
  append s h := by rw [ink_append hl, ink_append hm, h]
  appendUnit h := by rw [ink_append hl, ink_append hm, h, hl, hm]
  addSpace level _ h := by rw [ink_addSpace hl, ink_addSpace hm, h]
  addPoint level _ h := by rw [ink_addPoint hl, ink_addPoint hm, h]

end Wrapper

/-! ### Two runs side by side -/

namespace Writer

/-- The writers are in one state, except for blanks in what they have written. -/
def SameInk (w v : Writer) : Prop :=
  ∃ wrapper : Wrapper, wrapper.ink = w.wrapper.ink ∧ v = { w with wrapper := wrapper }

theorem SameInk.refl (w : Writer) : w.SameInk w := ⟨w.wrapper, rfl, rfl⟩

/-- Both runs fail with one error, or both go on with the same ink. -/
inductive Agree : Except Error Writer → Except Error Writer → Prop
  | error (e : Error) : Agree (.error e) (.error e)
  | ok {w v : Writer} (h : w.SameInk v) : Agree (.ok w) (.ok v)

theorem Agree.elim {x y : Except Error Writer} (h : Agree x y) :
    (∃ e, x = .error e ∧ y = .error e) ∨ ∃ w v, x = .ok w ∧ y = .ok v ∧ w.SameInk v := by
  cases h with
  | error e => exact .inl ⟨e, rfl, rfl⟩
  | ok h => exact .inr ⟨_, _, rfl, rfl, h⟩

theorem InStep.agree {x y : Except Error Writer}
    (h : InStep (fun u v => v.ink = u.ink) x y) : Agree x y := by
  cases h with
  | error e => exact .error e
  | ok h => exact .ok h

section SameInk

variable {l m : Layout} (hl : l.Blank) (hm : m.Blank) {w v : Writer}

include hl hm

/-- **A run under two layouts**: the same failure, or the same names and the same ink. -/
theorem SameInk.run (h : w.SameInk v) (setting : Setting) (s : Stream) :
    Agree (w.run ⟨l, setting⟩ s) (v.run ⟨m, setting⟩ s) :=
  (Beside.run (Wrapper.lasting_ink hl hm) h setting fun _ _ _ => trivial).agree

theorem SameInk.ink_text (h : w.SameInk v) : Text.ink (w.text l) = Text.ink (v.text m) := by
  obtain ⟨wrapper, hink, rfl⟩ := h
  unfold Writer.text
  rw [w.wrapper.ink_finish hl, wrapper.ink_finish hm, hink]

end SameInk

end Writer

/-! ### Files -/

namespace SourceFile

/-- The file with another unit of indentation and another column limit. -/
def withLayout (f : SourceFile) (indent : Indent) (limit : Nat) : SourceFile :=
  { f with style := { f.style with indent := indent, columnLimit := limit } }

section Layout

variable (f : SourceFile) (indent indent' : Indent) (limit limit' : Nat)

theorem collect_withLayout :
    (f.withLayout indent limit).collect = (f.withLayout indent' limit').collect := by
  have hrun : Writer.Agree
      (Stream.run ((f.withLayout indent limit).session []) ((f.withLayout indent limit).stream []))
      (Stream.run ((f.withLayout indent' limit').session [])
        ((f.withLayout indent' limit').stream [])) :=
    (Writer.SameInk.refl {}).run (Style.blank_layout _) (Style.blank_layout _) ⟨f.space, []⟩
      (f.stream [])
  unfold collect
  rcases hrun.elim with ⟨e, hx, hy⟩ | ⟨w, v, hx, hy, wrapper, -, rfl⟩
  · rw [hx, hy]
  · rw [hx, hy]
    rfl

theorem emit_withLayout (found : Names) :
    Writer.Agree ((f.withLayout indent limit).emit found)
      ((f.withLayout indent' limit').emit found) :=
  (Writer.SameInk.refl _).run (Style.blank_layout _) (Style.blank_layout _)
    ⟨f.space, found.imports⟩ (f.stream found.imports)

/-- **Layout moves blanks and nothing else.**  Under two units of indentation and two column
    limits a file is written with the same failure, or as two texts that are equal without
    their blanks, and it imports the same types. -/
theorem layout_moves_blanks :
    ((∃ e, (f.withLayout indent limit).render = .error e
        ∧ (f.withLayout indent' limit').render = .error e)
      ∨ ∃ s t, (f.withLayout indent limit).render = .ok s
        ∧ (f.withLayout indent' limit').render = .ok t ∧ Text.ink s = Text.ink t)
    ∧ (f.withLayout indent limit).importedTypes = (f.withLayout indent' limit').importedTypes := by
  have hcollect := f.collect_withLayout indent indent' limit limit'
  refine ⟨?_, by simp only [importedTypes, hcollect]⟩
  unfold render
  rw [hcollect]
  cases (f.withLayout indent' limit').collect with
  | error e => exact .inl ⟨e, rfl, rfl⟩
  | ok found =>
    simp only [bind, Except.bind]
    rcases (f.emit_withLayout indent indent' limit limit' found).elim with
      ⟨e, hx, hy⟩ | ⟨w, v, hx, hy, hink⟩
    · rw [hx, hy]
      exact .inl ⟨e, rfl, rfl⟩
    · rw [hx, hy]
      exact .inr ⟨_, _, rfl, rfl, hink.ink_text (Style.blank_layout _) (Style.blank_layout _)⟩

end Layout

end SourceFile

end CSharpGen
