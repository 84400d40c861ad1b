/-
  CSharpGen/Proofs/LineEnds.lean
  ==============================
  **How many lines are written.**  A line ends where a text that is written holds
  a line end, where the writer ends it, and where the wrapper turns a break into a
  line end.  The last is decided by the column alone.  So two runs that write
  different one-line texts at one place end equally many lines if the texts are
  equally wide, or if there are no breaks at all (`Writer.lineEnds_apart`).

  The wrappers of the two runs are compared by `Wrapper.SameLines`: where breaks
  may come, they stand at one column and hold back text of one width; otherwise
  they hold nothing back, and the columns do not matter.
-/
import CSharpGen.Proofs.Paths
import CSharpGen.Proofs.Simulation

namespace CSharpGen

/-! ### Texts -/

namespace Text

/-- The number of line ends in a text. -/
def lineEnds (s : String) : Nat := s.toList.count '\n'

@[simp] theorem lineEnds_append (s t : String) : lineEnds (s ++ t) = lineEnds s + lineEnds t := by
  simp [lineEnds, String.toList_append]

theorem lineEnds_of_not_mem {s : String} (h : '\n' ∉ s.toList) : lineEnds s = 0 :=
  List.count_eq_zero.mpr h

/-- One text, or two on one line each; equally wide ones where `breaks` holds. -/
def SameLines (breaks : Prop) (s t : String) : Prop :=
  s = t ∨ '\n' ∉ s.toList ∧ '\n' ∉ t.toList ∧ (breaks → s.length = t.length)

variable {breaks : Prop} {s t : String}

theorem SameLines.lineEnds_eq (h : SameLines breaks s t) : lineEnds s = lineEnds t := by
  rcases h with rfl | ⟨hs, ht, -⟩
  · rfl
  · rw [lineEnds_of_not_mem hs, lineEnds_of_not_mem ht]

theorem SameLines.length_eq (h : SameLines breaks s t) (hb : breaks) : s.length = t.length := by
  rcases h with rfl | ⟨-, -, hlength⟩
  · rfl
  · exact hlength hb

/-- The first lines are equally wide. -/
theorem SameLines.firstLine_eq (h : SameLines breaks s t) (hb : breaks) :
    (s.toList.takeWhile (· ≠ '\n')).length = (t.toList.takeWhile (· ≠ '\n')).length := by
  rcases h with rfl | ⟨hs, ht, hlength⟩
  · rfl
  · rw [takeWhile_of_not_mem hs, takeWhile_of_not_mem ht, String.length_toList,
      String.length_toList, hlength hb]

end Text

/-! ### Wrappers -/

/-- Held breaks of one kind and level, with equally many characters and line ends behind
    them. -/
structure Held.SameLines (h k : Held) : Prop where
  kind : h.kind = k.kind
  level : h.level = k.level
  length : h.text.length = k.text.length
  lineEnds : Text.lineEnds h.text = Text.lineEnds k.text

namespace Wrapper

/-- Equally many lines have been ended, and equally many will be, whatever is written next.
    Breaks come only if `breaks` holds. -/
structure SameLines (breaks : Prop) (u v : Wrapper) : Prop where
  lineEnds : Text.lineEnds u.out = Text.lineEnds v.out
  column : breaks → u.column = v.column
  held : (u.held = none ∧ v.held = none)
    ∨ breaks ∧ ∃ h k, u.held = some h ∧ v.held = some k ∧ h.SameLines k

variable {breaks : Prop} {u v : Wrapper} {layout : Layout}

theorem SameLines.refl {u : Wrapper} (h : u.held = none) : u.SameLines breaks u :=
  ⟨rfl, fun _ => rfl, .inl ⟨h, h⟩⟩

theorem SameLines.settle (h : u.SameLines breaks v) (layout : Layout) (wrap : Bool) :
    (u.settle layout wrap).SameLines breaks (v.settle layout wrap)
      ∧ (u.settle layout wrap).held = none ∧ (v.settle layout wrap).held = none := by
  rcases h.held with ⟨hu, hv⟩ | ⟨hb, x, y, hu, hv, hxy⟩
  · rw [settle_of_no_break hu, settle_of_no_break hv]
    exact ⟨h, hu, hv⟩
  · simp only [Wrapper.settle, hu, hv]
    cases wrap with
    | true =>
      refine ⟨⟨?_, fun _ => ?_, .inl ⟨rfl, rfl⟩⟩, rfl, rfl⟩
      · simp [h.lineEnds, hxy.level, hxy.lineEnds]
      · simp [hxy.level, hxy.length]
    | false =>
      refine ⟨⟨?_, h.column, .inl ⟨rfl, rfl⟩⟩, rfl, rfl⟩
      simp [h.lineEnds, hxy.kind, hxy.lineEnds]

theorem SameLines.write (h : u.SameLines breaks v) (hu : u.held = none) (hv : v.held = none)
    {s t : String} (hst : Text.SameLines breaks s t) :
    (u.write s).SameLines breaks (v.write t) := by
  refine ⟨?_, fun hb => ?_, .inl ⟨hu, hv⟩⟩
  · simp [Wrapper.write, h.lineEnds, hst.lineEnds_eq]
  · rcases hst with rfl | ⟨hs, ht, hlength⟩
    · simp [Wrapper.write, h.column hb]
    · simp [Wrapper.write, Text.cutLast_of_not_mem hs, Text.cutLast_of_not_mem ht, h.column hb,
        hlength hb]

theorem SameLines.append (h : u.SameLines breaks v) {s t : String}
    (hst : Text.SameLines breaks s t) :
    (u.append layout s).SameLines breaks (v.append layout t) := by
  rcases h.held with ⟨hu, hv⟩ | ⟨hb, x, y, hu, hv, hxy⟩
  · simp only [Wrapper.append, hu, hv]
    exact h.write hu hv hst
  · simp only [Wrapper.append, hu, hv, h.column hb, hst.firstLine_eq hb, hst.length_eq hb]
    split
    · refine ⟨h.lineEnds, fun _ => rfl, .inr ⟨hb, _, _, rfl, rfl, hxy.kind, hxy.level, ?_, ?_⟩⟩
      · simp [hxy.length, hst.length_eq hb]
      · simp [hxy.lineEnds, hst.lineEnds_eq]
    · obtain ⟨hsettled, hu', hv'⟩ := h.settle layout _
      exact hsettled.write hu' hv' hst

theorem SameLines.hold (h : u.SameLines breaks v) (hb : breaks) (held : Held) :
    ({ u with held := some held } : Wrapper).SameLines breaks { v with held := some held } :=
  ⟨h.lineEnds, h.column, .inr ⟨hb, held, held, rfl, rfl, rfl, rfl, rfl, rfl⟩⟩

/-- The relation lasts: equal texts keep it, and so do breaks, since both wrappers stand at
    one column. -/
theorem lasting_sameLines (layout : Layout) (breaks : Prop) :
    Lasting layout layout breaks (SameLines breaks) where
  append s h := h.append (.inl rfl)
  appendUnit h := h.append (.inl rfl)
  addSpace level hb h := by
    obtain ⟨hsettled, -, -⟩ := h.settle layout false
    have hmoved : ∀ {u v : Wrapper}, u.SameLines breaks v →
        ({ u with column := u.column + 1 } : Wrapper).SameLines breaks
          { v with column := v.column + 1 } := fun h =>
      ⟨h.lineEnds, fun hb => congrArg (· + 1) (h.column hb), h.held⟩
    exact (hmoved hsettled).hold hb _
  addPoint level hb h := by
    unfold addPoint
    rw [h.column hb]
    split
    · exact h
    · exact (h.settle layout false).1.hold hb _

end Wrapper

/-! ### Runs -/

namespace Writer

theorem write_line (layout : Layout) (w : Writer) {line : String} (h : '\n' ∉ line.toList) :
    w.write layout line = w.writeLine layout line := by
  simp [write, Text.split, Text.cutAll_of_not_mem h]

/-- Two runs side by side may write two different texts on one line each. -/
theorem Beside.write_apart {breaks : Prop} {layout : Layout} {w v : Writer}
    (h : w.Beside (Wrapper.SameLines breaks) v) {s t : String} (hs : s ≠ "" ∧ '\n' ∉ s.toList)
    (ht : t ≠ "" ∧ '\n' ∉ t.toList) (hwidth : breaks → s.length = t.length) :
    (w.write layout s).Beside (Wrapper.SameLines breaks) (v.write layout t) := by
  have hstarted := h.startIfNeeded (Wrapper.lasting_sameLines layout breaks)
  rw [write_line layout w hs.2, write_line layout v ht.2]
  simp only [Writer.writeLine, String.isEmpty_iff, if_neg hs.1, if_neg ht.1]
  exact (hstarted.append fun _ _ hR => hR.append (.inr ⟨hs.2, ht.2, hwidth⟩)).setLineStart false

theorem Beside.lineEnds_text {breaks : Prop} {layout : Layout} {w v : Writer}
    (h : w.Beside (Wrapper.SameLines breaks) v) :
    Text.lineEnds (w.text layout) = Text.lineEnds (v.text layout) := by
  obtain ⟨wrapper, hlines, rfl⟩ := h
  exact (hlines.settle layout false).1.lineEnds

/-- **Only the width of a one-line text matters for the number of lines**, and only if there
    are breaks: with either text at one place the run fails alike, or ends equally many
    lines. -/
theorem lineEnds_apart (session : Session) {w : Writer} (hheld : w.wrapper.held = none)
    {before after : Stream} {s t : String} (hs : s ≠ "" ∧ '\n' ∉ s.toList)
    (ht : t ≠ "" ∧ '\n' ∉ t.toList)
    (hfit : s.length = t.length ∨ ∀ i ∈ before ++ after, i.isBreak = false) :
    (∃ e, w.run session (before ++ .text s :: after) = .error e
        ∧ w.run session (before ++ .text t :: after) = .error e)
      ∨ ∃ u v, w.run session (before ++ .text s :: after) = .ok u
        ∧ w.run session (before ++ .text t :: after) = .ok v
        ∧ Text.lineEnds (u.text session.layout) = Text.lineEnds (v.text session.layout) := by
  have hbreaks : ∀ i ∈ before ++ after, i.isBreak = true → s.length = t.length := by
    intro i hi hbreak
    rcases hfit with hlength | hnone
    · exact hlength
    · rw [hnone i hi] at hbreak
      cases hbreak
  obtain ⟨hbefore, hafter⟩ := List.forall_mem_append.mp hbreaks
  have hlasting := Wrapper.lasting_sameLines session.layout (s.length = t.length)
  have hstart : w.Beside (Wrapper.SameLines (s.length = t.length)) w :=
    ⟨w.wrapper, .refl hheld, rfl⟩
  have hruns : InStep (Wrapper.SameLines (s.length = t.length))
      (w.run session (before ++ .text s :: after)) (w.run session (before ++ .text t :: after)) := by
    rw [run_append, run_append]
    refine (hstart.run hlasting session.setting hbefore).bind fun u v h => ?_
    exact (h.write_apart hs ht id).run hlasting session.setting hafter
  rcases hsrun : w.run session (before ++ .text s :: after) with e | u
  · rw [hsrun] at hruns
    rcases htrun : w.run session (before ++ .text t :: after) with e' | v
    · rw [htrun] at hruns
      cases hruns
      exact .inl ⟨e, rfl, rfl⟩
    · rw [htrun] at hruns
      cases hruns
  · rw [hsrun] at hruns
    rcases htrun : w.run session (before ++ .text t :: after) with e' | v
    · rw [htrun] at hruns
      cases hruns
    · rw [htrun] at hruns
      cases hruns with
      | ok h => exact .inr ⟨u, v, rfl, rfl, h.lineEnds_text⟩

end Writer

end CSharpGen
