/-
  CSharpGen/Style/Reader.lean
  ===========================
  **Layout options from a settings document** — every option may be missing;
  unknown keys and values of a wrong type or out of range are refused.

  The indentation is the word `tab` or a table with the width in spaces.  The
  choice `tab` may also be written as a table whose one entry `tab` is empty.
-/
import CSharpGen.Style
import CSharpGen.Toml.Document

namespace CSharpGen

/-- Column limits are numbers of 64 bits. -/
def Style.limitBound : Nat := Nat.pow 2 64

/-- Whether a value has nothing in it. -/
def Toml.Value.isVoid : Toml.Value → Bool
  | .emptyArray => true
  | .table _ entries => entries.isEmpty
  | _ => false

/-- The unit of indentation that a value stands for. -/
def Indent.ofValue? : Toml.Value → Option Indent
  | .string "tab" => some .tab
  | .table _ [("spaces", .integer n)] =>
    if 0 ≤ n ∧ n < UInt8.size then some (.spaces (UInt8.ofNat n.toNat)) else none
  | .table _ [("tab", value)] => if value.isVoid then some .tab else none
  | _ => none

/-- Set the option of the given key. -/
def Style.set? (style : Style) (key : String) (value : Toml.Value) : Option Style :=
  if key = "indent" then
    (Indent.ofValue? value).map fun indent => { style with indent := indent }
  else if key = "column_limit" then
    match value with
    | .integer n =>
      if 0 ≤ n ∧ n < Style.limitBound then some { style with columnLimit := n.toNat } else none
    | _ => none
  else if key = "file_scoped_namespace" then
    match value with
    | .boolean b => some { style with fileScopedNamespace := b }
    | _ => none
  else if key = "skip_system_imports" then
    match value with
    | .boolean b => some { style with skipSystemImports := b }
    | _ => none
  else none

/-- Set the options of some entries in order. -/
def Style.setAll? (style : Style) : Toml.Entries → Option Style
  | [] => some style
  | (key, value) :: rest => do
    let style ← style.set? key value
    style.setAll? rest

/-- The layout options that a document gives. -/
def Style.parse? (s : String) : Option Style := do
  let entries ← Toml.parse? s
  ({} : Style).setAll? entries

/-- The wording of a refused document. -/
def Style.refusal : String := "failed to parse format configuration"

end CSharpGen
