/-
  CSharpGen/Code/Format.lean
  ==========================
  **Format strings** — plain text with placeholders that begin with `$`:

    * `$L`, `$S`, `$T`, `$N` take an argument: the next one, or the one whose
      position, counted from 1, stands in digits between `$` and the letter;
    * `$>` and `$<` indent and unindent, `$[` and `$]` begin and end a statement,
      `$W` and `$Z` are a space and a point where the line may break;
    * `$$` is a dollar sign.

  Reading a format cuts it into segments: some plain text and the directive
  after it.  What follows the last directive is the ending: plain text, or the
  fault of the first placeholder that is none.
-/
import CSharpGen.Error

namespace CSharpGen

/-- What a placeholder asks for. -/
inductive Directive where
  | indent | unindent | openStatement | closeStatement | wrapSpace | wrapPoint
  /-- An argument: the next one, or the one at the position counted from zero. -/
  | argument (placeholder : Placeholder) (position : Option Nat)
  deriving DecidableEq, Repr

/-- A format string cut at its directives. -/
structure Format where
  /-- The plain text before each directive, and the directive. -/
  segments : List (String × Directive)
  /-- The plain text behind the last directive, or the first fault. -/
  ending : Except CodeFault String

namespace Format

/-- The positions of arguments are counted in 64 bits. -/
def positionLimit : Nat := Nat.pow 2 64

/-- The number that decimal digits spell. -/
def number (digits : List Char) : Nat :=
  digits.foldl (fun n d => 10 * n + (d.toNat - '0'.toNat)) 0

/-- The position that the digits of a placeholder stand for. -/
def position? (digits : List Char) : Except CodeFault (Option Nat) :=
  if digits.isEmpty then .ok none
  else if 0 < number digits ∧ number digits < positionLimit then .ok (some (number digits - 1))
  else .error (.badIndex (String.ofList digits))

/-- The placeholders that take an argument, by their letter. -/
def placeholder? : Char → Option Placeholder
  | 'L' => some .literal
  | 'S' => some .string
  | 'T' => some .type
  | 'N' => some .name
  | _ => none

/-- The directives without argument, by their character. -/
def mark? : Char → Option Directive
  | '>' => some .indent
  | '<' => some .unindent
  | '[' => some .openStatement
  | ']' => some .closeStatement
  | 'W' => some .wrapSpace
  | 'Z' => some .wrapPoint
  | _ => none

/-- The directive of a dollar sign, some digits and the character behind them;
    none for an escaped dollar sign. -/
def directive? (digits : List Char) (kind : Char) : Except CodeFault (Option Directive) :=
  match placeholder? kind with
  | some p => do
    let position ← position? digits
    return some (.argument p position)
  | none =>
    if !digits.isEmpty then .error (.notIndexable (String.ofList digits) kind)
    else if kind = '$' then .ok none
    else
      match mark? kind with
      | some d => .ok (some d)
      | none => .error (.unknownPlaceholder kind)

/-- Read the rest of `format` behind the plain text `lead` and, inside a
    placeholder, the digits read so far. -/
def scan (format : String) (lead : List Char) (digits : Option (List Char)) :
    List Char → Format
  | [] =>
    match digits with
    | none => ⟨[], .ok (String.ofList lead)⟩
    | some _ => ⟨[], .error (.dangling format)⟩
  | c :: cs =>
    match digits with
    | none =>
      if c = '$' then scan format lead (some []) cs else scan format (lead ++ [c]) none cs
    | some ds =>
      if c.isDigit then scan format lead (some (ds ++ [c])) cs
      else
        match directive? ds c with
        | .error fault => ⟨[], .error fault⟩
        | .ok none => scan format (lead ++ ['$']) none cs
        | .ok (some d) =>
          let rest := scan format [] none cs
          ⟨(String.ofList lead, d) :: rest.segments, rest.ending⟩

/-- Read a format string. -/
def parse (format : String) : Format := scan format [] none format.toList

end Format

end CSharpGen
