/-
  CSharpGen/Toml/Scalar.lean
  ==========================
  **Strings, integers and booleans of a settings document** — the four ways to
  write a string, and the words for integers and booleans.

  Each string reader is handed the text behind the opening quotes and returns
  the characters of the string and the text behind the closing ones.
-/
import CSharpGen.Text.Quoted
import CSharpGen.Toml.Value

namespace CSharpGen.Toml

/-- What a reader returns: a value and the text behind it. -/
abbrev Read (α : Type) := Option (α × List Char)

/-! ### Characters -/

/-- The blanks inside a line. -/
def isBlank (c : Char) : Bool := c == ' ' || c == '\t'

/-- The characters that may stand in a comment or a string on one line: no control
    characters but the tab. -/
def isPlain (c : Char) : Bool := c == '\t' || (0x20 ≤ c.toNat && c.toNat ≠ 0x7f)

/-- The character that stands behind a backslash for another one. -/
def shortEscape? : Char → Option Char
  | 'b' => some '\x08'
  | 't' => some '\t'
  | 'n' => some '\n'
  | 'f' => some '\x0c'
  | 'r' => some '\r'
  | 'e' => some '\x1b'
  | '"' => some '"'
  | '\\' => some '\\'
  | _ => none

/-- Put a character in front of what a reader returned. -/
def before (c : Char) : Read (List Char) → Read (List Char) :=
  Option.map fun (text, rest) => (c :: text, rest)

/-! ### Strings in double quotes -/

/-- Where the reader of a string in double quotes stands. -/
inductive Mode where
  /-- Between characters; after an escaped line end blanks are skipped. -/
  | plain (skipping : Bool)
  /-- Behind a backslash. -/
  | escape
  /-- Behind a backslash and blanks, before a line end. -/
  | lineEnd
  /-- Inside a character code, before so many further digits. -/
  | code (digits value : Nat)

/-- The mode behind a further digit of a character code, and the character if that
    was the last digit. -/
def codeDigit? (digits value : Nat) (c : Char) : Option (Mode × Option Char) :=
  match Text.hexValue? c with
  | none => none
  | some d =>
    if 1 < digits then some (.code (digits - 1) (16 * value + d), none)
    else if (16 * value + d).isValidChar then
      some (.plain false, some (Char.ofNat (16 * value + d)))
    else none

/-- The mode behind a backslash and a character, and the character meant if the
    escape ends there. -/
def escaped? (c : Char) : Option (Mode × Option Char) :=
  if c = 'x' then some (.code 2 0, none)
  else if c = 'u' then some (.code 4 0, none)
  else if c = 'U' then some (.code 8 0, none)
  else (shortEscape? c).map fun d => (.plain false, some d)

/-- A string in double quotes on one line. -/
def readBasic : Mode → List Char → Read (List Char)
  | _, [] => none
  | .plain _, c :: rest =>
    if c = '"' then some ([], rest)
    else if c = '\\' then readBasic .escape rest
    else if isPlain c then before c (readBasic (.plain false) rest)
    else none
  | .lineEnd, _ :: _ => none
  | .escape, c :: rest =>
    match escaped? c with
    | some (mode, some d) => before d (readBasic mode rest)
    | some (mode, none) => readBasic mode rest
    | none => none
  | .code digits value, c :: rest =>
    match codeDigit? digits value c with
    | some (mode, some d) => before d (readBasic mode rest)
    | some (mode, none) => readBasic mode rest
    | none => none

/-- A string in three double quotes.  Up to two quotes may stand before the closing
    three, and a backslash at the end of a line joins it to the next text. -/
def readMultiBasic : Mode → List Char → Read (List Char)
  | _, [] => none
  | .plain _, '"' :: '"' :: '"' :: '"' :: '"' :: rest => some (['"', '"'], rest)
  | .plain _, '"' :: '"' :: '"' :: '"' :: rest => some (['"'], rest)
  | .plain _, '"' :: '"' :: '"' :: rest => some ([], rest)
  | .plain skipping, '\r' :: '\n' :: rest =>
    if skipping then readMultiBasic (.plain true) rest
    else before '\n' (readMultiBasic (.plain false) rest)
  | .plain skipping, c :: rest =>
    if skipping && (isBlank c || c == '\n') then readMultiBasic (.plain true) rest
    else if c = '\\' then readMultiBasic .escape rest
    else if isPlain c || c == '\n' then before c (readMultiBasic (.plain false) rest)
    else none
  | .lineEnd, '\r' :: '\n' :: rest => readMultiBasic (.plain true) rest
  | .lineEnd, c :: rest =>
    if isBlank c then readMultiBasic .lineEnd rest
    else if c = '\n' then readMultiBasic (.plain true) rest
    else none
  | .escape, '\r' :: '\n' :: rest => readMultiBasic (.plain true) rest
  | .escape, c :: rest =>
    if isBlank c then readMultiBasic .lineEnd rest
    else if c = '\n' then readMultiBasic (.plain true) rest
    else
      match escaped? c with
      | some (mode, some d) => before d (readMultiBasic mode rest)
      | some (mode, none) => readMultiBasic mode rest
      | none => none
  | .code digits value, c :: rest =>
    match codeDigit? digits value c with
    | some (mode, some d) => before d (readMultiBasic mode rest)
    | some (mode, none) => readMultiBasic mode rest
    | none => none

/-! ### Strings in single quotes -/

/-- A string in single quotes on one line. -/
def readLiteral : List Char → Read (List Char)
  | [] => none
  | c :: rest =>
    if c = '\'' then some ([], rest)
    else if isPlain c then before c (readLiteral rest)
    else none

/-- A string in three single quotes. -/
def readMultiLiteral : List Char → Read (List Char)
  | [] => none
  | '\'' :: '\'' :: '\'' :: '\'' :: '\'' :: rest => some (['\'', '\''], rest)
  | '\'' :: '\'' :: '\'' :: '\'' :: rest => some (['\''], rest)
  | '\'' :: '\'' :: '\'' :: rest => some ([], rest)
  | '\r' :: '\n' :: rest => before '\n' (readMultiLiteral rest)
  | c :: rest =>
    if isPlain c || c == '\n' then before c (readMultiLiteral rest) else none

/-- A line end directly behind three opening quotes is not part of the string. -/
def dropLineEnd : List Char → List Char
  | '\n' :: rest => rest
  | '\r' :: '\n' :: rest => rest
  | text => text

/-! ### Integers and booleans -/

/-- Digits of a radix with single underscores between them; `pending` says that a
    digit has to follow. -/
def digits? (radix : Nat) (value : Nat) (pending : Bool) : List Char → Option Nat
  | [] => if pending then none else some value
  | c :: rest =>
    if c = '_' then if pending then none else digits? radix value true rest
    else
      match Text.hexValue? c with
      | some d => if d < radix then digits? radix (radix * value + d) false rest else none
      | none => none

/-- A decimal integer without sign: no zero leads other digits. -/
def decimal? : List Char → Option Nat
  | ['0'] => some 0
  | '0' :: _ => none
  | text => digits? 10 0 true text

/-- An integer: decimal with an optional sign, or in another radix without one. -/
def integer? : List Char → Option Int
  | '0' :: 'x' :: text => (digits? 16 0 true text).map Int.ofNat
  | '0' :: 'o' :: text => (digits? 8 0 true text).map Int.ofNat
  | '0' :: 'b' :: text => (digits? 2 0 true text).map Int.ofNat
  | '+' :: text => (decimal? text).map Int.ofNat
  | '-' :: text => (decimal? text).map fun n => -Int.ofNat n
  | text => (decimal? text).map Int.ofNat

/-- The characters of words for integers and booleans. -/
def isWordChar (c : Char) : Bool := c.isAlphanum || c == '_' || c == '+' || c == '-' || c == '.'

/-- An integer or a boolean. -/
def readWord (text : List Char) : Read Value :=
  let word := text.takeWhile isWordChar
  let rest := text.dropWhile isWordChar
  if word = ['t', 'r', 'u', 'e'] then some (.boolean true, rest)
  else if word = ['f', 'a', 'l', 's', 'e'] then some (.boolean false, rest)
  else (integer? word).map fun n => (.integer n, rest)

end CSharpGen.Toml
