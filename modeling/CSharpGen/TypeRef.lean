/-
  CSharpGen/TypeRef.lean
  ======================
  **Type references** — built-in types, named types, constructed generic types,
  arrays, nullable types and type variables.

  A reference to a type variable is only the variable's name: its bounds belong
  to the declaration that introduces it (`TypeVariable`), which writes them as
  constraints.
-/
import CSharpGen.ClassName

namespace CSharpGen

/-- A built-in type. -/
inductive BuiltIn where
  | voidKw | boolKw | byteKw | sbyteKw | charKw | shortKw | ushortKw | intKw | uintKw | longKw
  | ulongKw | floatKw | doubleKw | decimalKw | stringKw | objectKw
  deriving DecidableEq, Repr

namespace BuiltIn

/-- The built-in types. -/
def all : List BuiltIn := [
  voidKw, boolKw, byteKw, sbyteKw, charKw, shortKw, ushortKw, intKw, uintKw, longKw, ulongKw,
  floatKw, doubleKw, decimalKw, stringKw, objectKw]

/-- The keyword of a built-in type. -/
def keyword : BuiltIn → String
  | voidKw => "void"
  | boolKw => "bool"
  | byteKw => "byte"
  | sbyteKw => "sbyte"
  | charKw => "char"
  | shortKw => "short"
  | ushortKw => "ushort"
  | intKw => "int"
  | uintKw => "uint"
  | longKw => "long"
  | ulongKw => "ulong"
  | floatKw => "float"
  | doubleKw => "double"
  | decimalKw => "decimal"
  | stringKw => "string"
  | objectKw => "object"

/-- The built-in type of the given keyword. -/
def ofKeyword? (s : String) : Option BuiltIn := all.find? fun b => b.keyword == s

end BuiltIn

/-- A reference to a type. -/
inductive TypeRef where
  | builtIn (type : BuiltIn)
  | named (type : ClassName)
  | generic (raw : ClassName) (args : List TypeRef)
  | array (component : TypeRef)
  | nullable (type : TypeRef)
  | typeVariable (name : String)
  deriving Inhabited

namespace TypeRef

/-- The type `void`. -/
def void : TypeRef := .builtIn .voidKw

/-- The type `object`. -/
def object : TypeRef := .builtIn .objectKw

/-- The keyword that reads as a built-in type, and any other text as a named type. -/
def ofText (s : String) : TypeRef :=
  match BuiltIn.ofKeyword? s with
  | some b => .builtIn b
  | none => .named (ClassName.parse s)

/-- Whether the type is a built-in one. -/
def isBuiltIn : TypeRef → Bool
  | .builtIn _ => true
  | _ => false

/-- Whether the type is `void`. -/
def isVoid : TypeRef → Bool
  | .builtIn .voidKw => true
  | _ => false

/-- Whether the type is an array. -/
def isArray : TypeRef → Bool
  | .array _ => true
  | _ => false

mutual

/-- The text of a type with every name in canonical form. -/
def text : TypeRef → String
  | .builtIn b => b.keyword
  | .named c => c.canonical
  | .generic raw args => raw.canonical ++ "<" ++ textList args ++ ">"
  | .array t => text t ++ "[]"
  | .nullable t => text t ++ "?"
  | .typeVariable name => name

/-- The texts of type arguments, with commas between them. -/
def textList : List TypeRef → String
  | [] => ""
  | [t] => text t
  | t :: u :: rest => text t ++ ", " ++ textList (u :: rest)

end

mutual

/-- Whether two references denote the same type: named types by canonical name,
    type variables by name. -/
def same : TypeRef → TypeRef → Bool
  | .builtIn a, .builtIn b => a == b
  | .named a, .named b => a.same b
  | .generic a as, .generic b bs => a.same b && sameAll as bs
  | .array a, .array b => same a b
  | .nullable a, .nullable b => same a b
  | .typeVariable a, .typeVariable b => a == b
  | _, _ => false

/-- Whether two lists denote the same types one by one. -/
def sameAll : List TypeRef → List TypeRef → Bool
  | [], [] => true
  | a :: as, b :: bs => same a b && sameAll as bs
  | _, _ => false

end

end TypeRef

/-- A type variable as its declaration introduces it. -/
structure TypeVariable where
  name : String
  bounds : List TypeRef
  deriving Inhabited

end CSharpGen
