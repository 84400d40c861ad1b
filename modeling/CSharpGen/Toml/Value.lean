/-
  CSharpGen/Toml/Value.lean
  =========================
  **Values of a settings document** — the TOML values that layout options are
  made of: strings, integers, booleans and tables.  Of arrays only the empty one
  is kept; a document with any other array, a float or a date-time is refused,
  because no option has such a value.

  A table remembers how it came about, since that decides what may still be
  added to it.
-/
import CSharpGen.Table

namespace CSharpGen.Toml

/-- How a table came about. -/
inductive Origin where
  /-- A header `[a.b]` names it. -/
  | header
  /-- A header names a table inside it. -/
  | implied
  /-- A dotted key `a.b = …` goes through it. -/
  | dotted
  /-- It is written in braces, and complete. -/
  | inline
  deriving DecidableEq, Repr

/-- A value. -/
inductive Value where
  | string (s : String)
  | integer (n : Int)
  | boolean (b : Bool)
  | emptyArray
  | table (origin : Origin) (entries : List (String × Value))

/-- The entries of a table. -/
abbrev Entries := Table Value

/-- Give the value at a dotted key, which must not have one.  A table on the way may
    be added to only if no header names it and it is not in braces. -/
def define : List String → Value → Entries → Option Entries
  | [], _, _ => none
  | [key], value, t => if t.has key then none else some (t.put key value)
  | key :: next :: path, value, t =>
    match t.get? key with
    | none => (define (next :: path) value []).map fun inner => t.put key (.table .dotted inner)
    | some (.table .dotted inner) =>
      (define (next :: path) value inner).map fun inner => t.put key (.table .dotted inner)
    | some (.table .implied inner) =>
      (define (next :: path) value inner).map fun inner => t.put key (.table .implied inner)
    | some _ => none

/-- Give the value at a dotted key inside the table at `here`. -/
def defineIn : List String → List String → Value → Entries → Option Entries
  | [], key, value, t => define key value t
  | name :: here, key, value, t =>
    match t.get? name with
    | some (.table origin inner) =>
      (defineIn here key value inner).map fun inner => t.put name (.table origin inner)
    | _ => none

/-- Open the table that a header names.  A table is named by one header only, and a
    table that came about by a dotted key or in braces by none. -/
def openTable : List String → Entries → Option Entries
  | [], _ => none
  | [key], t =>
    match t.get? key with
    | none => some (t.put key (.table .header []))
    | some (.table .implied inner) => some (t.put key (.table .header inner))
    | some _ => none
  | key :: next :: path, t =>
    match t.get? key with
    | none => (openTable (next :: path) []).map fun inner => t.put key (.table .implied inner)
    | some (.table .inline _) => none
    | some (.table origin inner) =>
      (openTable (next :: path) inner).map fun inner => t.put key (.table origin inner)
    | some _ => none

end CSharpGen.Toml
