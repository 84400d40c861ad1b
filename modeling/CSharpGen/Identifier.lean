/-
  CSharpGen/Identifier.lean
  =========================
  **Identifiers, namespaces and operator tokens** — which texts C# accepts as
  the name of a declaration.  Contextual keywords (`var`, `value`, `get`, …)
  are legal identifiers, so only the reserved ones are listed.
-/
import CSharpGen.Text.Alphabetic
import CSharpGen.Text.Numeric
import CSharpGen.Text.Pieces

namespace CSharpGen.Identifier

/-- The reserved keywords. -/
def keywords : List String := [
  "abstract", "as", "base", "bool", "break", "byte", "case", "catch", "char", "checked",
  "class", "const", "continue", "decimal", "default", "delegate", "do", "double", "else",
  "enum", "event", "explicit", "extern", "false", "finally", "fixed", "float", "for",
  "foreach", "goto", "if", "implicit", "in", "int", "interface", "internal", "is", "lock",
  "long", "namespace", "new", "null", "object", "operator", "out", "override", "params",
  "private", "protected", "public", "readonly", "ref", "return", "sbyte", "sealed", "short",
  "sizeof", "stackalloc", "static", "string", "struct", "switch", "this", "throw", "true",
  "try", "typeof", "uint", "ulong", "unchecked", "unsafe", "ushort", "using", "virtual",
  "void", "volatile", "while"]

/-- The tokens of the operators that a type may overload. -/
def operatorTokens : List String := [
  "+", "-", "!", "~", "++", "--", "true", "false", "*", "/", "%", "&", "|", "^", "<<", ">>",
  ">>>", "==", "!=", "<", ">", "<=", ">="]

/-- Whether the text is a reserved keyword. -/
def isKeyword (s : String) : Bool := keywords.contains s

/-- Whether the text is the token of an overloadable operator. -/
def isOperatorToken (s : String) : Bool := operatorTokens.contains s

/-- The characters an identifier may begin with. -/
def startsWord (c : Char) : Bool := Text.isAlphabetic c || c == '_'

/-- The characters an identifier may go on with. -/
def continuesWord (c : Char) : Bool := Text.isAlphabetic c || Text.isNumeric c || c == '_'

/-- A first character and any number of further ones. -/
def isWord : List Char → Bool
  | [] => false
  | c :: cs => startsWord c && cs.all continuesWord

/-- Whether the text is a legal identifier.  A leading `@` makes it verbatim, and
    a verbatim identifier may spell a keyword. -/
def isValid (s : String) : Bool :=
  match s.toList with
  | '@' :: body => isWord body
  | body => isWord body && !isKeyword s

/-- Whether the text is a dotted path of legal identifiers. -/
def isValidNamespace (s : String) : Bool := (Text.pieces '.' s).all isValid

end CSharpGen.Identifier
