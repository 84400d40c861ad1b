/-
  CSharpGen/Emit/Wrap.lean
  ========================
  **Breaking long lines** — at a break it is not yet known whether what follows
  fits before the column limit.  The break is held, together with the text
  behind it, until the text no longer fits (then the break becomes a line end
  and the indentation asked for), or until the line or the next break comes
  (then a breakable space is a space, and a break point is nothing).
-/
import CSharpGen.Text.Pieces

namespace CSharpGen

/-- The unit of indentation and the column limit. -/
structure Layout where
  unit : String
  limit : Nat
  deriving DecidableEq, Repr

/-- The text of some levels of indentation. -/
def Layout.indentation (layout : Layout) : Nat → String
  | 0 => ""
  | level + 1 => layout.unit ++ layout.indentation level

/-- The two kinds of places where a line may be broken. -/
inductive Break where
  | space | point
  deriving DecidableEq, Repr

/-- What is written for a break at which the line is not broken. -/
def Break.text : Break → String
  | space => " "
  | point => ""

/-- A break that is not decided yet. -/
structure Held where
  kind : Break
  /-- The levels of indentation behind the line end, if the line is broken. -/
  level : Nat
  /-- The text behind the break. -/
  text : String
  deriving DecidableEq, Repr

/-- Text with at most one undecided break at its end. -/
structure Wrapper where
  out : String := ""
  /-- The column at which the next character stands if the held break is not a
      line end. -/
  column : Nat := 0
  held : Option Held := none
  deriving DecidableEq, Repr

namespace Wrapper

/-- Write text that cannot move any more. -/
def write (w : Wrapper) (s : String) : Wrapper :=
  { w with
    out := w.out ++ s
    column :=
      match Text.cutLast '\n' s.toList with
      | some (_, last) => last.length
      | none => w.column + s.length }

theorem write_newline (w : Wrapper) :
    w.write "\n" = { w with out := w.out ++ "\n", column := 0 } := by
  have hlast : Text.cutLast '\n' ['\n'] = some ([], []) := by decide
  simp [write, hlast]

/-- Decide the held break: break the line there, or do not. -/
def settle (layout : Layout) (w : Wrapper) (wrap : Bool) : Wrapper :=
  match w.held with
  | none => w
  | some held =>
    if wrap then
      { out := w.out ++ "\n" ++ layout.indentation held.level ++ held.text
        column := held.level * layout.unit.length + held.text.length }
    else { w with out := w.out ++ held.kind.text ++ held.text, held := none }

/-- No break is left once it is decided. -/
theorem held_settle (layout : Layout) (w : Wrapper) (wrap : Bool) :
    (w.settle layout wrap).held = none := by
  unfold settle
  cases hheld : w.held with
  | none => exact hheld
  | some held => cases wrap <;> rfl

theorem settle_of_no_break {layout : Layout} {w : Wrapper} (h : w.held = none) (wrap : Bool) :
    w.settle layout wrap = w := by
  simp [settle, h]

/-- Add text. -/
def append (layout : Layout) (w : Wrapper) (s : String) : Wrapper :=
  match w.held with
  | none => w.write s
  | some held =>
    let line := s.toList.takeWhile (· ≠ '\n')
    let fits := w.column + line.length ≤ layout.limit
    if fits && line.length == s.length then
      { w with column := w.column + s.length, held := some { held with text := held.text ++ s } }
    else (w.settle layout !fits).write s

/-- A line end leaves nothing to decide. -/
theorem append_newline (layout : Layout) (w : Wrapper) :
    ∃ out, w.append layout "\n" = ⟨out, 0, none⟩ := by
  unfold append
  cases hheld : w.held with
  | none =>
    simp only [write_newline, hheld]
    exact ⟨_, rfl⟩
  | some held =>
    have hline : "\n".toList.takeWhile (· ≠ '\n') = [] := by decide
    have hlength : (0 == "\n".length) = false := by decide
    simp only [hline, List.length_nil, hlength, Bool.and_false, Bool.false_eq_true, if_false,
      write_newline, held_settle]
    exact ⟨_, rfl⟩

/-- Add a space at which the line may be broken.  It takes a column of its own. -/
def addSpace (layout : Layout) (w : Wrapper) (level : Nat) : Wrapper :=
  let settled := w.settle layout false
  { settled with column := settled.column + 1, held := some ⟨.space, level, ""⟩ }

/-- Add a point at which the line may be broken, unless a line begins here. -/
def addPoint (layout : Layout) (w : Wrapper) (level : Nat) : Wrapper :=
  if w.column = 0 then w
  else { w.settle layout false with held := some ⟨.point, level, ""⟩ }

/-- The whole text. -/
def finish (layout : Layout) (w : Wrapper) : String := (w.settle layout false).out

end Wrapper

end CSharpGen
