/-
  CSharpGen/Toml/Document.lean
  ============================
  **Reading a settings document** — lines with a key and a value, headers that
  open a table, and comments.  A table in braces may run over several lines,
  with comments, and its last entry may have a comma behind it.

  The two loops that are not recursions on the characters, over the entries of
  a table in braces and over the lines of the document, are given the length of
  the document as fuel: each round takes at least one character.
-/
import CSharpGen.Toml.Scalar

namespace CSharpGen.Toml

/-- The text behind leading blanks. -/
def skipBlanks (text : List Char) : List Char := text.dropWhile isBlank

/-- The text behind leading blanks, line ends and comments. -/
def skipGap (inComment : Bool) : List Char → Option (List Char)
  | [] => some []
  | '\n' :: rest => skipGap false rest
  | '\r' :: '\n' :: rest => skipGap false rest
  | c :: rest =>
    if inComment then if isPlain c then skipGap true rest else none
    else if c = '#' then skipGap true rest
    else if isBlank c then skipGap false rest
    else some (c :: rest)

/-! ### Keys -/

/-- The characters of a key without quotes. -/
def isKeyChar (c : Char) : Bool := c.isAlphanum || c == '_' || c == '-'

/-- One segment of a key. -/
def readSegment : List Char → Read String
  | '"' :: rest => (readBasic (.plain false) rest).map fun (s, rest) => (String.ofList s, rest)
  | '\'' :: rest => (readLiteral rest).map fun (s, rest) => (String.ofList s, rest)
  | text =>
    let key := text.takeWhile isKeyChar
    if key.isEmpty then none else some (String.ofList key, text.dropWhile isKeyChar)

/-- A key: segments with dots between them, and blanks around the dots. -/
def readKey : Nat → List Char → Option (List String × List Char)
  | 0, _ => none
  | fuel + 1, text => do
    let (segment, rest) ← readSegment (skipBlanks text)
    match skipBlanks rest with
    | '.' :: rest =>
      let (key, rest) ← readKey fuel rest
      return (segment :: key, rest)
    | rest => return ([segment], rest)

/-! ### Values -/

/-- The rest of an array without members. -/
def readEmptyArray (text : List Char) : Read Value :=
  match skipGap false text with
  | some (']' :: rest) => some (.emptyArray, rest)
  | _ => none

/-- The value of a string that a reader returned. -/
def stringValue : Read (List Char) → Read Value :=
  Option.map fun (s, rest) => (.string (String.ofList s), rest)

/-- The text behind what may separate the parts of an entry: in a table in braces
    also line ends and comments. -/
def skipBetween (inBraces : Bool) (text : List Char) : Option (List Char) :=
  if inBraces then skipGap false text else some (skipBlanks text)

mutual

/-- A value. -/
def readValue : Nat → List Char → Read Value
  | 0, _ => none
  | fuel + 1, text =>
    match text with
    | '"' :: '"' :: '"' :: rest => stringValue (readMultiBasic (.plain false) (dropLineEnd rest))
    | '"' :: rest => stringValue (readBasic (.plain false) rest)
    | '\'' :: '\'' :: '\'' :: rest => stringValue (readMultiLiteral (dropLineEnd rest))
    | '\'' :: rest => stringValue (readLiteral rest)
    | '[' :: rest => readEmptyArray rest
    | '\x7b' :: rest => readEntries fuel [] rest
    | text => readWord text

/-- The rest of a table in braces that goes on with an entry or ends. -/
def readEntries : Nat → Entries → List Char → Option (Value × List Char)
  | 0, _, _ => none
  | fuel + 1, entries, text => do
    match ← skipGap false text with
    | '\x7d' :: rest => return (.table .inline entries, rest)
    | text =>
      let (key, value, rest) ← readPair fuel true text
      let entries ← define key value entries
      match ← skipGap false rest with
      | ',' :: rest => readEntries fuel entries rest
      | '\x7d' :: rest => return (.table .inline entries, rest)
      | _ => none

/-- A key, the equals sign and a value. -/
def readPair : Nat → Bool → List Char → Option (List String × Value × List Char)
  | 0, _, _ => none
  | fuel + 1, inBraces, text => do
    let (key, rest) ← readKey (fuel + 1) text
    match ← skipBetween inBraces rest with
    | '=' :: rest =>
      let rest ← skipBetween inBraces rest
      let (value, rest) ← readValue fuel rest
      return (key, value, rest)
    | _ => none

end

/-! ### Lines -/

/-- Nothing but blanks and a comment may follow on the line. -/
def lineDone (text : List Char) : Option (List Char) :=
  match skipBlanks text with
  | [] => some []
  | '\n' :: rest => some ('\n' :: rest)
  | '\r' :: '\n' :: rest => some ('\n' :: rest)
  | '#' :: rest => some ('#' :: rest)
  | _ => none

/-- The name of the table that a header opens, given the text behind its bracket. -/
def readHeader (fuel : Nat) (text : List Char) : Option (List String × List Char) := do
  let (path, rest) ← readKey fuel text
  match rest with
  | ']' :: rest => return (path, rest)
  | _ => none

/-- The entries of a document, given those read so far and the open table. -/
def readLines : Nat → Entries → List String → List Char → Option Entries
  | 0, _, _, _ => none
  | fuel + 1, root, here, text =>
    match skipGap false text with
    | none => none
    | some [] => some root
    | some ('[' :: rest) => do
      let (path, rest) ← readHeader fuel rest
      let rest ← lineDone rest
      let root ← openTable path root
      readLines fuel root path rest
    | some text => do
      let (key, value, rest) ← readPair fuel false text
      let rest ← lineDone rest
      let root ← defineIn here key value root
      readLines fuel root here rest

/-- A byte order mark at the beginning of a document does not count. -/
def dropMark : List Char → List Char
  | '\uFEFF' :: rest => rest
  | text => text

/-- The entries of a document, if it is well formed. -/
def parse? (s : String) : Option Entries :=
  let text := dropMark s.toList
  readLines (4 * text.length + 4) [] [] text

end CSharpGen.Toml
