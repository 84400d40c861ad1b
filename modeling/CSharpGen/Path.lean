/-
  CSharpGen/Path.lean
  ===================
  **Paths as they are written** — a path below a root directory is the list of
  the texts between its slashes, so that its text can be given back as it was.
  A segment that is empty (between two slashes, or behind the last one) or a
  single dot leads nowhere, and two dots lead one directory up.

  What a path leads to depends on the tree; here are only its text and the
  paths that are made from it.
-/
import CSharpGen.Text.Pieces

namespace CSharpGen

/-- A path below a root; the path without segments is the root itself. -/
abbrev Path := List String

namespace Path

/-! ### Texts -/

/-- The path that a text spells. -/
def ofText (s : String) : Path := if s.isEmpty then [] else Text.pieces '/' s

/-- The segments with slashes between them. -/
def text (p : Path) : String := Text.join "/" p

/-- The text of a path below a root of the given name. -/
def under (root : String) (p : Path) : String := Text.join "/" (root :: p)

/-! ### Segments -/

/-- The segments that lead nowhere. -/
def isIdle (segment : String) : Bool := segment.isEmpty || segment == "."

/-- The segment that leads to the directory above. -/
def up : String := ".."

/-- Names of entries have at most this many bytes. -/
def nameLimit : Nat := 255

/-- The segments that can name an entry. -/
def isName (segment : String) : Bool :=
  !isIdle segment && segment != up && segment.utf8ByteSize ≤ nameLimit

/-- Paths have fewer bytes than this. -/
def byteLimit : Nat := 4096

/-- The paths that can be looked up: they are not too long and have no NUL. -/
def isUsable (p : Path) : Bool :=
  p.text.utf8ByteSize < byteLimit && p.all fun segment => !segment.toList.contains '\x00'

/-! ### Paths made from others -/

/-- The path without the segments at its end that lead nowhere. -/
def trim (p : Path) : Path := (p.reverse.dropWhile isIdle).reverse

/-- The path to the directory in which the last segment that leads somewhere is
    looked up. -/
def parent (p : Path) : Path := trim (trim p).dropLast

/-- A path that goes on behind another.  A slash at the end of the first one is the
    slash between the two. -/
def join (base rest : Path) : Path :=
  (if base.getLast? = some "" then base.dropLast else base) ++ rest

/-- The beginnings of a path that end in a segment that leads somewhere, from the
    shortest to the longest. -/
def steps (p : Path) : List Path :=
  ((List.range p.length).map fun n => p.take (n + 1)).filter fun q => !isIdle (q.getLastD "")

end Path

end CSharpGen
