/-
  CSharpGen/SourceFile.lean
  =========================
  **Source files** — one top-level type in a namespace, with a comment and the
  `using` directives above it.

  A file is written in two passes over the same instructions.  The first
  (`collect`) finds the types worth importing and the simple names taken by
  types of the namespace; the second starts from those names, with the imports
  in place, and its text is the file.
-/
import CSharpGen.Code.Draft
import CSharpGen.Decl.Same
import CSharpGen.Emit.Fragment
import CSharpGen.Path

namespace CSharpGen

/-- A source file. -/
structure SourceFile where
  space : String
  comment : Code TypeDecl
  type : TypeDecl
  /-- The namespaces asked for by `using`, in increasing order. -/
  usings : List String
  /-- The types asked for by `using static`, ordered by canonical name. -/
  statics : List ClassName
  style : Style

namespace SourceFile

/-! ### Drafts -/

/-- A source file in the making. -/
structure Draft where
  space : String
  comment : Code.Draft TypeDecl := {}
  type : TypeDecl
  usings : List String := []
  statics : List ClassName := []
  style : Style := {}

/-- An edit of a source file. -/
inductive Edit where
  | addComment (format : String) (args : List (Argument TypeDecl))
  | addUsing (space : String)
  | addStaticUsing (c : ClassName)
  | skipSystemImports (skip : Bool)
  | indent (indent : Indent)
  | columnLimit (limit : Nat)
  | fileScopedNamespace (wanted : Bool)
  | style (style : Style)

namespace Draft

/-- The draft after an edit. -/
def apply (d : Draft) : Edit → Draft
  | .addComment format args => { d with comment := d.comment.add format args }
  | .addUsing space => { d with usings := Ordered.insert id space d.usings }
  | .addStaticUsing c => { d with statics := Ordered.insert ClassName.canonical c d.statics }
  | .skipSystemImports skip => { d with style := { d.style with skipSystemImports := skip } }
  | .indent indent => { d with style := { d.style with indent := indent } }
  | .columnLimit limit => { d with style := { d.style with columnLimit := limit } }
  | .fileScopedNamespace wanted =>
    { d with style := { d.style with fileScopedNamespace := wanted } }
  | .style style => { d with style := style }

/-- The draft after some edits in order. -/
def applyAll (d : Draft) (edits : List Edit) : Draft := edits.foldl apply d

/-- What the draft is called in messages. -/
def subject (d : Draft) : Subject :=
  match d.type.layer.name? with
  | some name => .file d.space name
  | none => .unnamedFile

/-- The rules for the names of a file. -/
def checkNames (d : Draft) : Except DeclFault Unit := do
  if d.type.layer.isAnonymous then .error .anonymousTop
  if !d.space.isEmpty && !Identifier.isValidNamespace d.space then .error (.badNamespace d.space)
  if let some space := d.usings.find? fun space => !Identifier.isValidNamespace space then
    .error (.badUsing space)

/-- Every reference must be well formed. -/
def checkStatics : List ClassName → Except Error Unit
  | [] => .ok ()
  | c :: rest => do
    c.validate
    checkStatics rest

/-- The finished file. -/
def build (d : Draft) : Except Error SourceFile :=
  match d.checkNames with
  | .error fault => .error (.construction d.subject fault)
  | .ok () => do
    checkStatics d.statics
    if d.style.columnLimit = 0 then .error (.construction d.subject .zeroColumnLimit)
    let comment ← d.comment.build
    return ⟨d.space, comment, d.type, d.usings, d.statics, d.style⟩

end Draft

/-- The draft that goes on from a file. -/
def toDraft (f : SourceFile) : Draft where
  space := f.space
  comment := f.comment.toDraft
  type := f.type
  usings := f.usings
  statics := f.statics
  style := f.style

/-- Whether two files are the same. -/
def same (a b : SourceFile) : Bool :=
  a.space == b.space && Code.same TypeDecl.same a.comment b.comment && a.type.same b.type
    && a.usings == b.usings && sameList ClassName.same a.statics b.statics && a.style == b.style

/-- The name of the top-level type. -/
def typeName (f : SourceFile) : String := f.type.layer.name?.getD ""

/-! ### Instructions -/

/-- The namespace that may be left out. -/
def systemNamespace : String := "System"

/-- The namespaces of the `using` directives: those asked for and those of the
    imported types, in increasing order. -/
def usingNamespaces (f : SourceFile) (imports : Table ClassName) : List String :=
  let imported := (imports.map fun (_, c) => c.space).filter fun space =>
    !(f.style.skipSystemImports && space == systemNamespace)
  Ordered.ofList id (imported ++ f.usings)

/-- Some directives with an empty line behind them; nothing without directives. -/
def directives (lead : String) (names : List String) : Stream :=
  if names.isEmpty then []
  else names.map (fun name => .text (lead ++ name ++ ";\n")) ++ [.text "\n"]

/-- The comment at the top with an empty line behind it. -/
def commentStream (f : SourceFile) : Stream :=
  if f.comment.isEmpty then []
  else f.comment.commentStream f.statics (TypeDecl.stream f.statics) ++ [.text "\n"]

/-- The type in its namespace. -/
def bodyStream (f : SourceFile) : Stream :=
  let type := f.type.stream f.statics
  if f.space.isEmpty then type
  else if f.style.fileScopedNamespace then .text ("namespace " ++ f.space ++ ";\n\n") :: type
  else .text ("namespace " ++ f.space ++ " \x7b\n") :: .indent :: (type
    ++ [.unindent, .text "\x7d\n"])

/-- The instructions for a file with the given imports. -/
def stream (f : SourceFile) (imports : Table ClassName) : Stream :=
  f.commentStream ++ directives "using " (f.usingNamespaces imports)
    ++ directives "using static " (f.statics.map ClassName.canonical) ++ f.bodyStream

/-! ### The two passes -/

/-- The session of a pass with the given imports. -/
def session (f : SourceFile) (imports : Table ClassName) : Session :=
  ⟨f.style.layout, ⟨f.space, imports⟩⟩

/-- The first pass: what is known about names when nothing is imported. -/
def collect (f : SourceFile) : Except Error Names := do
  let w ← Stream.run (f.session []) (f.stream [])
  return w.names

/-- The second pass, given what the first one found. -/
def emit (f : SourceFile) (found : Names) : Except Error Writer :=
  Writer.run (f.session found.imports) { names := { taken := found.taken } }
    (f.stream found.imports)

/-- The text of the file. -/
def render (f : SourceFile) : Except Error String := do
  let found ← f.collect
  let w ← f.emit found
  return w.text f.style.layout

/-- The types the file imports, ordered by canonical name. -/
def importedTypes (f : SourceFile) : Except Error (List ClassName) := do
  let found ← f.collect
  return Ordered.sort ClassName.canonical (found.imports.map Prod.snd)

/-! ### Where the text goes -/

/-- The path of the file below an output directory. -/
def path (f : SourceFile) : Path :=
  (Text.pieces '.' f.space).filter (fun segment => !segment.isEmpty) ++ [f.typeName ++ ".cs"]

/-- A destination with room for a limited number of further bytes. -/
structure Sink where
  text : String
  room : Nat
  deriving DecidableEq, Repr

/-- The sink with more text, if there is room for it. -/
def Sink.write? (sink : Sink) (s : String) : Option Sink :=
  if s.utf8ByteSize ≤ sink.room then some ⟨sink.text ++ s, sink.room - s.utf8ByteSize⟩ else none

/-- Write the file into a sink.  The text is complete before the sink is touched. -/
def writeTo (f : SourceFile) (sink : Sink) : Except Error Sink := do
  let text ← f.render
  match sink.write? text with
  | some sink => return sink
  | none => .error .write

end SourceFile

end CSharpGen
