/-
  CSharpGen/Proofs/Simulation.lean
  ================================
  **Two runs side by side.**  Some facts compare two runs of the same
  instructions that differ only in the text written so far: under another layout,
  or with another text at one place.  The writers are then equal except for their
  wrappers (`Writer.Beside`), and nothing but the wrapper has to be looked at: a
  relation between wrappers that lasts whatever both write
  (`Wrapper.Lasting`) lasts along the whole run, and the runs fail alike
  (`Writer.Beside.run`).

  This works because the writer never asks its wrapper for anything.  Whether a
  line has been begun it knows from the instructions, since a line end that the
  wrapper adds is not reported back.
-/
import CSharpGen.Emit.Writer

namespace CSharpGen

/-- A place where the wrapper may break the line. -/
def Instruction.isBreak : Instruction → Bool
  | .wrapSpace | .wrapPoint => true
  | _ => false

/-- A relation between the wrappers of two runs, under the layouts `l` and `m`, that lasts
    whatever both write.  Breaks are written only if `breaks` holds. -/
structure Wrapper.Lasting (l m : Layout) (breaks : Prop) (R : Wrapper → Wrapper → Prop) :
    Prop where
  append : ∀ {u v : Wrapper} (s : String), R u v → R (u.append l s) (v.append m s)
  appendUnit : ∀ {u v : Wrapper}, R u v → R (u.append l l.unit) (v.append m m.unit)
  addSpace : ∀ {u v : Wrapper} (level : Nat), breaks → R u v →
    R (u.addSpace l level) (v.addSpace m level)
  addPoint : ∀ {u v : Wrapper} (level : Nat), breaks → R u v →
    R (u.addPoint l level) (v.addPoint m level)

namespace Writer

variable {R : Wrapper → Wrapper → Prop}

/-- The writers are in one state, except for their wrappers, which are related. -/
def Beside (R : Wrapper → Wrapper → Prop) (w v : Writer) : Prop :=
  ∃ wrapper : Wrapper, R w.wrapper wrapper ∧ v = { w with wrapper := wrapper }

/-- Both runs fail with one error, or both go on side by side. -/
inductive InStep (R : Wrapper → Wrapper → Prop) :
    Except Error Writer → Except Error Writer → Prop
  | error (e : Error) : InStep R (.error e) (.error e)
  | ok {w v : Writer} (h : w.Beside R v) : InStep R (.ok w) (.ok v)

theorem InStep.bind {x y : Except Error Writer} (h : InStep R x y)
    {f g : Writer → Except Error Writer} (hfg : ∀ w v, w.Beside R v → InStep R (f w) (g v)) :
    InStep R (x >>= f) (y >>= g) := by
  cases h with
  | error e => exact .error e
  | ok h => exact hfg _ _ h

namespace Beside

variable {w v : Writer}

theorem mark?_eq (h : w.Beside R v) : v.mark? = w.mark? := by
  obtain ⟨wrapper, -, rfl⟩ := h
  rfl

theorem level_eq (h : w.Beside R v) : v.level = w.level := by
  obtain ⟨wrapper, -, rfl⟩ := h
  rfl

theorem atLineStart_eq (h : w.Beside R v) : v.atLineStart = w.atLineStart := by
  obtain ⟨wrapper, -, rfl⟩ := h
  rfl

theorem statement_eq (h : w.Beside R v) : v.statement = w.statement := by
  obtain ⟨wrapper, -, rfl⟩ := h
  rfl

theorem setLineStart (h : w.Beside R v) (start : Bool) :
    ({ w with atLineStart := start } : Writer).Beside R { v with atLineStart := start } := by
  obtain ⟨wrapper, hR, rfl⟩ := h
  exact ⟨wrapper, hR, rfl⟩

theorem append {l m : Layout} {s t : String} (h : w.Beside R v)
    (hst : ∀ u u' : Wrapper, R u u' → R (u.append l s) (u'.append m t)) :
    (w.append l s).Beside R (v.append m t) := by
  obtain ⟨wrapper, hR, rfl⟩ := h
  exact ⟨wrapper.append m t, hst _ _ hR, rfl⟩

theorem continueStatement (h : w.Beside R v) :
    w.continueStatement.Beside R v.continueStatement := by
  obtain ⟨wrapper, hR, rfl⟩ := h
  unfold Writer.continueStatement
  cases hstatement : w.statement with
  | none => exact ⟨wrapper, hR, by simp [hstatement]⟩
  | some lines => exact ⟨wrapper, hR, by simp⟩

theorem unindent (h : w.Beside R v) (levels : Nat) :
    InStep R (w.unindent levels) (v.unindent levels) := by
  obtain ⟨wrapper, hR, rfl⟩ := h
  unfold Writer.unindent
  split
  · exact .error _
  · exact .ok ⟨wrapper, hR, rfl⟩

section Lasting

variable {l m : Layout} {breaks : Prop} (hR : Wrapper.Lasting l m breaks R)

include hR

theorem appendIndentation (h : w.Beside R v) (level : Nat) :
    (w.appendIndentation l level).Beside R (v.appendIndentation m level) := by
  induction level generalizing w v with
  | zero => exact h
  | succ level ih => exact ih (h.append fun _ _ => hR.appendUnit)

theorem startLine (h : w.Beside R v) : (w.startLine l).Beside R (v.startLine m) := by
  have hindented := h.appendIndentation hR w.level
  unfold Writer.startLine
  rw [h.mark?_eq, h.level_eq]
  cases w.mark? with
  | none => exact hindented
  | some mark => exact hindented.append fun _ _ => hR.append _

theorem startIfNeeded (h : w.Beside R v) :
    (if w.atLineStart then w.startLine l else w).Beside R
      (if v.atLineStart then v.startLine m else v) := by
  rw [h.atLineStart_eq]
  split
  · exact h.startLine hR
  · exact h

theorem writeLine (h : w.Beside R v) (line : String) :
    (w.writeLine l line).Beside R (v.writeLine m line) := by
  unfold Writer.writeLine
  split
  · exact h
  · exact ((h.startIfNeeded hR).append fun _ _ => hR.append line).setLineStart false

theorem markEmptyLine (h : w.Beside R v) :
    (w.markEmptyLine l).Beside R (v.markEmptyLine m) := by
  unfold Writer.markEmptyLine
  rw [h.mark?_eq, h.level_eq, h.atLineStart_eq]
  cases w.mark? with
  | none => exact h
  | some mark =>
    simp only
    split
    · exact (h.appendIndentation hR w.level).append fun _ _ => hR.append mark
    · exact h

theorem newline (h : w.Beside R v) : (w.newline l).Beside R (v.newline m) :=
  (((h.markEmptyLine hR).append fun _ _ => hR.append "\n").setLineStart true).continueStatement

theorem write (h : w.Beside R v) (s : String) : (w.write l s).Beside R (v.write m s) := by
  refine List.foldl_rel (r := fun w v : Writer => w.Beside R v) (h.writeLine hR _) ?_
  intro line _ w v h
  exact (h.newline hR).writeLine hR line

theorem endLine (h : w.Beside R v) : (w.endLine l).Beside R (v.endLine m) := by
  unfold Writer.endLine
  rw [h.atLineStart_eq]
  split
  · exact h
  · exact h.write hR "\n"

theorem closeStatement (h : w.Beside R v) :
    InStep R (w.closeStatement l) (v.closeStatement m) := by
  have hsemi := h.write hR ";"
  have hend : ∀ {w v : Writer}, w.Beside R v →
      InStep R (.ok (({ w with statement := none } : Writer).write l "\n"))
        (.ok (({ v with statement := none } : Writer).write m "\n")) := by
    rintro w _ ⟨wrapper, hwrapper, rfl⟩
    have hclosed : ({ w with statement := none } : Writer).Beside R
        { w with statement := none, wrapper := wrapper } := ⟨wrapper, hwrapper, rfl⟩
    exact .ok (hclosed.write hR "\n")
  simp only [Writer.closeStatement, hsemi.statement_eq]
  split
  · exact (hsemi.unindent 2).bind fun w v h => hend h
  · exact hend hsemi

/-- Names are looked up alike, since the text written has no part in it. -/
theorem reference (h : w.Beside R v) (setting : Setting) (c : ClassName) :
    InStep R (w.reference ⟨l, setting⟩ c) (v.reference ⟨m, setting⟩ c) := by
  obtain ⟨wrapper, hwrapper, rfl⟩ := h
  unfold Writer.reference
  simp only [bind, Except.bind]
  cases w.names.lookup setting (w.inDoc || w.inComment) c with
  | error e => exact .error e
  | ok found =>
    obtain ⟨name, names⟩ := found
    have hnamed : ({ w with names := names } : Writer).Beside R
        { w with names := names, wrapper := wrapper } := ⟨wrapper, hwrapper, rfl⟩
    exact .ok (hnamed.write hR name)

/-- **One step side by side.** -/
theorem step (h : w.Beside R v) (setting : Setting) {i : Instruction}
    (hi : i.isBreak = true → breaks) :
    InStep R (w.step ⟨l, setting⟩ i) (v.step ⟨m, setting⟩ i) := by
  cases i with
  | text s => exact .ok (h.write hR s)
  | reference c => exact h.reference hR setting c
  | unindent => exact h.unindent 1
  | closeStatement => exact h.closeStatement hR
  | openStatement =>
    obtain ⟨wrapper, hwrapper, rfl⟩ := h
    simp only [Writer.step]
    split
    · exact .error _
    · exact .ok ⟨wrapper, hwrapper, rfl⟩
  | wrapSpace =>
    obtain ⟨wrapper, hwrapper, rfl⟩ := h
    exact .ok ⟨_, hR.addSpace (w.level + 2) (hi rfl) hwrapper, rfl⟩
  | wrapPoint =>
    obtain ⟨wrapper, hwrapper, rfl⟩ := h
    exact .ok ⟨_, hR.addPoint (w.level + 2) (hi rfl) hwrapper, rfl⟩
  | closeDoc | closeComment =>
    obtain ⟨wrapper, hwrapper, heq⟩ := h.endLine hR
    exact .ok ⟨wrapper, hwrapper, by rw [heq]⟩
  | refuse fault => exact .error _
  | indent | enterScope | leaveScope | enterVariables | leaveVariables | suspendStatement
  | resumeStatement | openDoc | openComment =>
    obtain ⟨wrapper, hwrapper, rfl⟩ := h
    exact .ok ⟨wrapper, hwrapper, rfl⟩

/-- **A run side by side**: one failure, or wrappers that are still related. -/
theorem run (h : w.Beside R v) (setting : Setting) {s : Stream}
    (hs : ∀ i ∈ s, i.isBreak = true → breaks) :
    InStep R (w.run ⟨l, setting⟩ s) (v.run ⟨m, setting⟩ s) := by
  induction s generalizing w v with
  | nil => exact .ok h
  | cons i rest ih =>
    obtain ⟨hi, hrest⟩ := List.forall_mem_cons.mp hs
    exact (h.step hR setting hi).bind fun w v h => ih h hrest

end Lasting

end Beside

end Writer

end CSharpGen
