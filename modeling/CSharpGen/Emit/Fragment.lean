/-
  CSharpGen/Emit/Fragment.lean
  ============================
  **Fragments outside of any file** — a fragment is rendered without imports, so
  every type outside the global namespace is written by its qualified name.  The
  imports it requires are those that a file of the given namespace would have
  for it.
-/
import CSharpGen.Emit.Stream
import CSharpGen.Emit.Writer
import CSharpGen.Style

namespace CSharpGen

/-- The unit of indentation and the column limit of a style. -/
def Style.layout (style : Style) : Layout := ⟨style.indent.unit, style.columnLimit⟩

/-- Run instructions from the beginning of a text. -/
def Stream.run (session : Session) (s : Stream) : Except Error Writer :=
  Writer.run session {} s

/-- The text of a fragment. -/
def Stream.render (s : Stream) : Except Error String := do
  let layout := ({} : Style).layout
  let w ← Stream.run ⟨layout, ⟨"", []⟩⟩ s
  return w.text layout

/-- The types that a writer found worth importing, ordered by canonical name. -/
def Writer.importedTypes (w : Writer) : List ClassName :=
  Ordered.sort ClassName.canonical (w.names.imports.map Prod.snd)

/-- The types that a file of the namespace would import for a fragment. -/
def Stream.requiredImports (s : Stream) (space : String) : Except Error (List ClassName) := do
  let w ← Stream.run ⟨({} : Style).layout, ⟨space, []⟩⟩ s
  return w.importedTypes

/-! ### The fragments -/

/-- What a code block is written as on its own. -/
def Code.fragment (c : Code TypeDecl) : Stream := c.stream [] (TypeDecl.stream [])

/-- What an attribute is written as on its own. -/
def Attribute.fragment (a : Attribute TypeDecl) : Stream := a.stream [] (TypeDecl.stream [])

/-- What a parameter is written as on its own. -/
def Parameter.fragment (p : Parameter TypeDecl) : Stream := p.stream [] (TypeDecl.stream [])

/-- What a field is written as on its own. -/
def Field.fragment (x : Field TypeDecl) : Stream := x.stream [] (TypeDecl.stream []) []

/-- What a method is written as on its own. -/
def Method.fragment (m : Method TypeDecl) : Stream := m.stream [] (TypeDecl.stream []) none []

/-- What a property is written as on its own. -/
def Property.fragment (p : Property TypeDecl) : Stream := p.stream [] (TypeDecl.stream []) []

/-- What a type is written as on its own. -/
def TypeDecl.fragment (t : TypeDecl) : Stream := t.stream []

end CSharpGen
