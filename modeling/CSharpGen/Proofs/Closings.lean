/-
  CSharpGen/Proofs/Closings.lean
  ==============================
  **The brace that closes a body** — methods, accessors, lists of accessors,
  static constructors, initializer blocks and types are written as bodies in
  braces (`Body`).  Before the closing brace the indentation is taken back, but no
  line is begun: whether the brace is the first on its line is left to the code
  directly before it (`Body.last`).  That code decides it, wherever the body is
  written (`Item.brace_follows_code`), and a comment without a line end
  swallows the brace (`Item.comment_swallows_brace`).

  What the generator itself writes before a closing brace ends its line
  (`EndsLine`).  So the brace of a list of accessors is always the first,
  and so is the one of a type, unless free-form code comes last in it.
-/
import CSharpGen.Proofs.Bodies
import CSharpGen.Proofs.Expressions
import CSharpGen.Proofs.Failures
import CSharpGen.Proofs.LineStates

namespace CSharpGen

variable {δ : Type}

/-! ### Streams that end a line -/

/-- A line has been ended behind the instructions, whatever came before them. -/
def EndsLine (s : Stream) : Prop := ∀ l : LineState, l.through s = .clear

theorem EndsLine.append {t : Stream} (h : EndsLine t) (s : Stream) : EndsLine (s ++ t) := by
  intro l
  rw [LineState.through_append]
  exact h _

theorem EndsLine.cons {s : Stream} (h : EndsLine s) (i : Instruction) : EndsLine (i :: s) :=
  fun l => h (l.after i)

/-- The ends of contexts write nothing. -/
theorem EndsLine.concat {s : Stream} (h : EndsLine s) {i : Instruction}
    (hi : LineState.clear.after i = .clear) : EndsLine (s ++ [i]) := by
  intro l
  rw [LineState.through_append, h l]
  exact hi

theorem endsLine_text (s : String) : EndsLine [.text (s ++ "\n")] := by
  intro l
  simp [LineState.after, LineState.char]

section EndsLine

variable (statics : List ClassName) (emit : δ → Stream)

theorem Code.endsLine_bodyStream (c : Code δ) : EndsLine (c.bodyStream statics emit) :=
  (((endsLine_text "\x7d").cons .unindent).append (c.stream statics emit)).cons .indent

theorem Code.endsLine_arrowStream (c : Code δ) : EndsLine (c.arrowStream statics emit) :=
  ((endsLine_text ";").append (c.stream statics emit)).cons (.text " => ")

theorem Field.endsLine_stream (x : Field δ) (implied : List Modifier) :
    EndsLine (x.stream statics emit implied) := by
  have hclosed : EndsLine [.closeStatement] := fun _ => rfl
  refine EndsLine.append ?_ _
  unfold Field.statementStream
  split
  · split
    · exact fun _ => rfl
    · exact (hclosed.append _).cons _
  · exact (((hclosed.cons _).cons _).append _).cons _

theorem Method.endsLine_stream (m : Method δ) (enclosing : Option String)
    (implied : List Modifier) : EndsLine (m.stream statics emit enclosing implied) := by
  refine (EndsLine.concat (EndsLine.append ?_ _) rfl).cons _
  split
  · exact endsLine_text ";"
  · exact (m.body.endsLine_bodyStream statics emit).cons _

theorem endsLine_accessorStream (keyword : String) (body : Code δ) :
    EndsLine (accessorStream statics emit keyword body) := by
  refine EndsLine.cons ?_ _
  split
  · exact endsLine_text ";"
  · split
    · exact Code.endsLine_arrowStream statics emit _
    · exact (body.endsLine_bodyStream statics emit).cons _

theorem Property.endsLine_stream (p : Property δ) (implied : List Modifier) :
    EndsLine (p.stream statics emit implied) := by
  refine EndsLine.append ?_ _
  unfold Property.accessorsStream
  split
  · exact ((endsLine_text "").append _).cons _
  · exact Code.endsLine_arrowStream statics emit _
  · exact ((((endsLine_text "\x7d").cons .unindent).append _).cons _).cons _

end EndsLine

/-! ### Bodies in braces -/

/-- A body in braces, from the opening brace to the closing one. -/
structure Body where
  /-- The text that the opening brace and the line end behind it stand in. -/
  opening : String
  /-- What is written between the braces. -/
  inner : Stream
  /-- The code of the caller directly before the closing brace; nothing if something else
      is written there. -/
  last : Stream
  /-- What is written together with the closing brace, behind it. -/
  tail : String

namespace Body

/-- The instructions up to the closing brace. -/
def before (b : Body) : Stream := .text (b.opening ++ "\x7b\n") :: (b.inner ++ [.unindent])

/-- The instructions for the body. -/
def stream (b : Body) : Stream := b.before ++ [.text ("\x7d" ++ b.tail)]

/-- The state of the line on which the closing brace is written. -/
def line (b : Body) : LineState := LineState.clear.through b.last

end Body

section Members

variable (statics : List ClassName) (emit : δ → Stream)

/-- A body that is a block of the caller. -/
def Code.body (opening : String) (c : Code δ) : Body :=
  ⟨opening, .indent :: c.stream statics emit, c.stream statics emit, "\n"⟩

theorem Code.stream_body (opening : String) (c : Code δ) :
    (c.body statics emit opening).stream
      = .text (opening ++ "\x7b\n") :: c.bodyStream statics emit := by
  simp [Body.stream, Body.before, Code.body, Code.bodyStream]

/-- The body of a method that is written with it. -/
def Method.bodies (m : Method δ) (implied : List Modifier) : List Body :=
  if m.isBodiless implied then [] else [m.body.body statics emit " "]

/-- The accessors that are written in braces, and the list of all accessors around them. -/
def Property.bodies (p : Property δ) (implied : List Modifier) : List Body :=
  match p.form implied with
  | .auto | .terse _ => []
  | .listed =>
    ⟨" ", .indent :: (p.accessors.flatMap fun (keyword, body) =>
        accessorStream statics emit keyword body), [], "\n"⟩
      :: (p.accessors.filter fun (_, body) =>
          !body.isEmpty && body.singleExpression?.isNone).map fun (_, body) =>
        body.body statics emit " "

end Members

namespace TypeDecl

variable (statics : List ClassName)

/-- The body of a type.  Free-form code stands before the closing brace if no nested type
    comes behind it. -/
def ownBody (t : TypeDecl) : Body where
  opening := if t.layer.isAnonymous then ") " else " "
  inner := (if t.layer.isAnonymous then [] else [.leaveScope])
    ++ withScope t.layer.name? (t.layer.types.filterMap fun u => (u.emission statics).name)
      (.indent :: separated ((t.layer.map (emission statics)).members statics))
  last :=
    if t.layer.types.isEmpty then
      match t.layer.extras.getLast? with
      | some c => c.stream statics (stream statics)
      | none => []
    else []
  tail := ""

/-- The body of a type and those of its members. -/
def bodies (t : TypeDecl) : List Body :=
  t.ownBody statics
    :: (if t.layer.staticBlock.isEmpty then []
      else [t.layer.staticBlock.body statics (stream statics) "() "])
    ++ (if t.layer.initializerBlock.isEmpty then []
      else [t.layer.initializerBlock.body statics (stream statics) ""])
    ++ t.layer.methods.flatMap (fun m =>
      m.bodies statics (stream statics) t.layer.kind.impliedOnMethods)
    ++ t.layer.properties.flatMap fun p =>
      p.bodies statics (stream statics) t.layer.kind.impliedOnMethods

end TypeDecl

/-- The item is written with the body at the given place: a method or a property has it, or
    the type or one of those nested in it. -/
def Item.HasBody (ctx : Item.Context) (b : Body) : Item → Prop
  | .built .method m =>
    b ∈ Method.bodies ctx.statics (TypeDecl.stream ctx.statics) m ctx.implied
  | .built .property p =>
    b ∈ Property.bodies ctx.statics (TypeDecl.stream ctx.statics) p ctx.implied
  | .built .type t =>
    ctx.constant = none ∧ ∃ u : TypeDecl, u.NestedIn t ∧ b ∈ u.bodies ctx.statics
  | _ => False

/-! ### The state before the closing brace -/

/-- Members are written with an empty line between each two, so that the last one decides. -/
theorem through_separated (ss : List Stream) :
    LineState.clear.through (separated ss) = ss.getLast?.elim .clear LineState.clear.through := by
  induction ss with
  | nil => rfl
  | cons s rest ih =>
    cases rest with
    | nil => rfl
    | cons next rest =>
      have hbetween : ∀ l : LineState, l.after (.text "\n") = .clear := fun _ => rfl
      rw [separated, LineState.through_append, LineState.through_cons, hbetween, ih]
      simp

namespace TypeDecl

variable {statics : List ClassName}

/-- A nested type ends the line behind its closing brace. -/
theorem endsLine_member {t : TypeDecl} (h : t.layer.isAnonymous = false)
    (implied : List Modifier) : EndsLine ((t.emission statics).member implied) := by
  cases t with
  | of d =>
    rw [emission, fold_of]
    have hnamed : (d.map (fold (Declaration.emission statics))).isAnonymous = false := by
      show (d.map (fold (Declaration.emission statics))).name?.isNone = false
      rw [Declaration.name?_map]
      exact h
    refine EndsLine.concat (EndsLine.cons (EndsLine.concat ?_ rfl) _) rfl
    rw [Declaration.stream, hnamed]
    exact (endsLine_text "").append _

/-- The members before the free-form code end their lines. -/
theorem members_eq (statics : List ClassName) (t : TypeDecl) :
    ∃ front, (t.layer.map (emission statics)).members statics
        = front ++ t.layer.extras.map (fun c => c.stream statics (stream statics))
          ++ t.layer.types.map (fun u => (u.emission statics).member t.layer.kind.impliedOnTypes)
      ∧ ∀ s ∈ front, EndsLine s := by
  rw [Declaration.members_map]
  simp only [Code.stream_map]
  refine ⟨_, rfl, fun s hs => ?_⟩
  simp only [List.mem_append, List.mem_map] at hs
  rcases hs with (((((hs | hs) | hs) | hs) | hs) | hs) | hs
  · split at hs
    · cases hs
    · rw [List.mem_singleton.mp hs]
      exact (endsLine_text "").append _
  · obtain ⟨x, -, rfl⟩ := hs
    exact Field.endsLine_stream _ _ _ _
  · split at hs
    · cases hs
    · rw [List.mem_singleton.mp hs]
      exact (((Code.endsLine_bodyStream _ _ _).cons _).cons _).cons _
  · obtain ⟨x, -, rfl⟩ := hs
    exact Field.endsLine_stream _ _ _ _
  · split at hs
    · cases hs
    · rw [List.mem_singleton.mp hs]
      exact (Code.endsLine_bodyStream _ _ _).cons _
  · obtain ⟨m, -, rfl⟩ := hs
    exact Method.endsLine_stream _ _ _ _ _
  · obtain ⟨p, -, rfl⟩ := hs
    exact Property.endsLine_stream _ _ _ _

/-- **The code before the brace of a type is its last member, if that is free-form code.** -/
theorem through_ownBody {t : TypeDecl} (h : ∀ u ∈ t.layer.types, u.layer.isAnonymous = false) :
    LineState.clear.through (t.ownBody statics).inner = (t.ownBody statics).line := by
  obtain ⟨front, hmembers, hfront⟩ := t.members_eq statics
  have hinner : LineState.clear.through (t.ownBody statics).inner = LineState.clear.through
      (separated ((t.layer.map (emission statics)).members statics)) := by
    unfold ownBody withScope
    cases t.layer.isAnonymous <;> simp [LineState.after]
  rw [hinner, through_separated, hmembers]
  simp only [Body.line, ownBody]
  rcases List.eq_nil_or_concat t.layer.types with htypes | ⟨types, u, htypes⟩
  · rw [htypes]
    rcases List.eq_nil_or_concat t.layer.extras with hextras | ⟨extras, c, hextras⟩
    · rcases List.eq_nil_or_concat front with rfl | ⟨rest, s, rfl⟩
      · simp [hextras]
      · simpa [hextras] using hfront s (by simp) .clear
    · simp [hextras]
  · have hu := h u (by simp [htypes])
    simpa [htypes] using endsLine_member hu t.layer.kind.impliedOnTypes .clear

end TypeDecl

/-! ### Where bodies are written -/

/-- The body is a part of the instructions, and the code that is said to stand directly
    before its closing brace decides about the line there. -/
structure Body.WrittenIn (b : Body) (s : Stream) : Prop where
  part : b.stream <:+: s
  decided : LineState.clear.through b.inner = b.line

theorem Body.WrittenIn.mono {b : Body} {s t : Stream} (h : b.WrittenIn s) (hst : s <:+: t) :
    b.WrittenIn t := ⟨h.part.trans hst, h.decided⟩

section Members

variable {statics : List ClassName} {emit : δ → Stream} {b : Body}

theorem Code.writtenIn_body {opening : String} {c : Code δ} {s : Stream}
    (h : .text (opening ++ "\x7b\n") :: c.bodyStream statics emit <:+: s) :
    (c.body statics emit opening).WrittenIn s :=
  ⟨by rwa [Code.stream_body], rfl⟩

theorem Method.writtenIn_stream {m : Method δ} {implied : List Modifier}
    (hb : b ∈ m.bodies statics emit implied) (enclosing : Option String) :
    b.WrittenIn (m.stream statics emit enclosing implied) := by
  have hend := m.suffix_stream statics emit enclosing implied
  unfold Method.bodies at hb
  split at hb
  · cases hb
  · next hbody =>
    rw [if_neg hbody] at hend
    rw [List.mem_singleton.mp hb]
    exact Code.writtenIn_body (.trans ⟨[], [.leaveVariables], rfl⟩ hend.isInfix)

theorem through_flatMap {ι : Type} {f : ι → Stream} {xs : List ι} (h : ∀ x, EndsLine (f x)) :
    LineState.clear.through (xs.flatMap f) = .clear := by
  induction xs with
  | nil => rfl
  | cons x rest ih => rw [List.flatMap_cons, LineState.through_append, h x, ih]

theorem Property.writtenIn_stream {p : Property δ} {implied : List Modifier}
    (hb : b ∈ p.bodies statics emit implied) : b.WrittenIn (p.stream statics emit implied) := by
  have hlast : p.accessorsStream statics emit implied <:+ p.stream statics emit implied :=
    List.suffix_append _ _
  refine Body.WrittenIn.mono ?_ hlast.isInfix
  cases hform : p.form implied with
  | auto => simp [Property.bodies, hform] at hb
  | terse expression => simp [Property.bodies, hform] at hb
  | listed =>
    simp only [Property.bodies, hform] at hb
    simp only [Property.accessorsStream, hform]
    rcases List.mem_cons.mp hb with rfl | hb
    · refine ⟨⟨[], [], by simp [Body.stream, Body.before]⟩, ?_⟩
      exact through_flatMap fun a => endsLine_accessorStream statics emit a.1 a.2
    · obtain ⟨a, ha, rfl⟩ := List.mem_map.mp hb
      obtain ⟨haccessor, hbraced⟩ := List.mem_filter.mp ha
      simp only [Bool.and_eq_true, Bool.not_eq_true', Option.isNone_iff_eq_none] at hbraced
      have hown : .text " \x7b\n" :: a.2.bodyStream statics emit
          <:+: accessorStream statics emit a.1 a.2 := by
        simp only [accessorStream, hbraced.1, hbraced.2, Bool.false_eq_true, if_false]
        exact (List.suffix_cons _ _).isInfix
      have hlist : accessorStream statics emit a.1 a.2
          <:+: p.accessors.flatMap fun (keyword, body) =>
            accessorStream statics emit keyword body :=
        List.infix_of_mem_flatten (List.mem_map_of_mem haccessor)
      refine Code.writtenIn_body (hown.trans (hlist.trans ?_))
      exact ⟨[.text " \x7b\n", .indent], [.unindent, .text "\x7d\n"], by simp⟩

end Members

/-- The head of a type ends with the opening brace. -/
theorem Declaration.headStream_eq (statics : List ClassName) (d : Declaration Emission)
    (implied : List Modifier) : ∃ front, d.headStream statics implied
      = front ++ .text ((if d.isAnonymous then ") " else " ") ++ "\x7b\n")
        :: (if d.isAnonymous then [] else [.leaveScope]) := by
  unfold Declaration.headStream
  cases hidentity : d.identity with
  | anonymous arguments =>
    have hanonymous : d.isAnonymous = true := by simp [isAnonymous, hidentity, Identity.isAnonymous,
      Identity.name?]
    exact ⟨.text "new " :: (d.base.stream ++ .text "("
      :: arguments.stream statics Emission.embedded), by simp [hanonymous]⟩
  | named kind name =>
    have hnamed : d.isAnonymous = false := by simp [isAnonymous, hidentity, Identity.isAnonymous,
      Identity.name?]
    refine ⟨.enterScope ⟨some name, []⟩ :: (d.doc.docStream statics Emission.embedded
        ++ Attribute.streamAll statics Emission.embedded "\n" d.attributes
        ++ d.modifiers.stream (implied ++ kind.impliedAsMember)
        ++ [.text kind.keyword, .text " ", .text name]
        ++ TypeVariable.streamList d.typeVariables ++ supertypesStream d.supertypes
        ++ d.typeVariables.flatMap TypeVariable.constraint), ?_⟩
    simp [hnamed, withScope]

namespace TypeDecl

variable {statics : List ClassName} {b : Body}

theorem infix_ownBody (t : TypeDecl) (implied : List Modifier) :
    (t.ownBody statics).stream <:+: (t.emission statics).member implied := by
  cases t with
  | of d =>
    obtain ⟨front, hhead⟩ := (d.map (emission statics)).headStream_eq statics implied
    have hanonymous : (d.map (emission statics)).isAnonymous = d.isAnonymous := by
      show (d.map (emission statics)).name?.isNone = d.name?.isNone
      rw [Declaration.name?_map]
    have hnested : (d.map (emission statics)).types.filterMap Emission.name
        = d.types.filterMap fun u => (u.emission statics).name := List.filterMap_map
    have hown : ((of d).ownBody statics).stream
        <:+: (d.map (emission statics)).stream statics implied := by
      rw [Declaration.stream, hhead, hanonymous, hnested, Declaration.name?_map]
      refine ⟨front, if d.isAnonymous then [] else [.text "\n"], ?_⟩
      cases hd : d.isAnonymous <;> simp [Body.stream, Body.before, ownBody, layer, hd]
    rw [show (of d).emission statics = (d.map (emission statics)).emission statics from
      fold_of _ d]
    exact hown.trans ⟨[.suspendStatement, .enterVariables _], [.leaveVariables, .resumeStatement],
      by simp [Declaration.emission, Declaration.framed, withVariables]; rfl⟩

/-- **A type is written with its own body and those of its members.** -/
theorem writtenIn_member {t : TypeDecl} (h : ∀ u ∈ t.layer.types, u.layer.isAnonymous = false)
    (hb : b ∈ t.bodies statics) (implied : List Modifier) :
    b.WrittenIn ((t.emission statics).member implied) := by
  have hblock : ∀ {opening : String} {c : Code TypeDecl} {s : Stream},
      s ∈ (t.layer.map (emission statics)).members statics →
      .text (opening ++ "\x7b\n") :: c.bodyStream statics (stream statics) <:+: s →
      (c.body statics (stream statics) opening).WrittenIn ((t.emission statics).member implied) :=
    fun hs hbody => (Code.writtenIn_body hbody).mono (infix_member hs implied)
  have hmapped : ∀ c : Code TypeDecl, c.bodyStream statics (stream statics)
      = (c.map (emission statics)).bodyStream statics Emission.embedded := by
    intro c
    rw [Code.bodyStream_map]
    rfl
  unfold bodies at hb
  simp only [List.cons_append, List.mem_cons, List.mem_append, List.mem_flatMap] at hb
  rcases hb with rfl | ((hb | hb) | ⟨m, hm, hb⟩) | ⟨p, hp, hb⟩
  · exact ⟨t.infix_ownBody implied, through_ownBody h⟩
  · split at hb
    · cases hb
    · next hstatic =>
      rw [List.mem_singleton.mp hb]
      refine hblock (s := .text "static " :: .text (t.layer.name?.getD "") :: .text "() \x7b\n"
        :: t.layer.staticBlock.bodyStream statics (stream statics)) ?_
        ⟨[.text "static ", .text (t.layer.name?.getD "")], [], by simp⟩
      rw [Declaration.members_map, hmapped]
      simp [hstatic]
  · split at hb
    · cases hb
    · next hinitializer =>
      rw [List.mem_singleton.mp hb]
      refine hblock (s := .text "\x7b\n"
        :: t.layer.initializerBlock.bodyStream statics (stream statics)) ?_ ⟨[], [], by simp⟩
      rw [Declaration.members_map, hmapped]
      simp [hinitializer]
  · exact (Method.writtenIn_stream hb _).mono (infix_methodStream hm implied)
  · exact (Property.writtenIn_stream hb).mono (infix_propertyStream hp implied)

end TypeDecl

/-! ### The brace in the text -/

/-- The code before the closing brace decides, wherever the body is written. -/
theorem Body.through_before {b : Body} (h : LineState.clear.through b.inner = b.line)
    (l : LineState) : l.through b.before = b.line := by
  have hopened : l.after (.text (b.opening ++ "\x7b\n")) = .clear := by
    simp [LineState.after, LineState.char]
  rw [Body.before, LineState.through_cons, hopened, LineState.through_append, h]
  rfl

/-- What begins a line leaves no ink but the mark of a comment. -/
theorem Writer.ink_lead {layout : Layout} (h : layout.Blank) (w : Writer) :
    ∃ mark, Text.ink (w.lead layout) = mark ∧ (mark = "" ∨ w.mark? = some mark) := by
  unfold Writer.lead
  split
  · cases hmark : w.mark? with
    | none => exact ⟨"", by simp [h.ink_indentation], .inl rfl⟩
    | some mark =>
      refine ⟨mark, ?_, .inr rfl⟩
      rw [Text.ink_append, h.ink_indentation]
      rcases mark?_eq_some hmark with rfl | rfl <;> decide
  · exact ⟨"", rfl, .inl rfl⟩

namespace Item

variable {i : Item} {ctx : Context} {b : Body}

theorem HasBody.writtenIn (h : Obtainable i) (hb : i.HasBody ctx b) :
    b.WrittenIn (i.streamIn ctx) := by
  match i with
  | .built .method m => exact Method.writtenIn_stream hb ctx.enclosing
  | .built .property p => exact Property.writtenIn_stream hb
  | .built .type t =>
    obtain ⟨hconstant, u, hu, hb⟩ := hb
    have hnamed : ∀ n ∈ u.layer.types, n.layer.isAnonymous = false :=
      fun n hn => ((TypeDecl.legal_of_nestedIn h hu).types n hn).1
    obtain ⟨own, hown⟩ := hu.infix_stream ctx.implied
    have hmember := (TypeDecl.writtenIn_member hnamed hb own).mono hown
    simpa only [streamIn, hconstant] using hmember
  | .code _ | .built .attr _ | .built .parameter _ | .built .field _ | .built .file _ =>
    exact hb.elim

/-- **The code before a closing brace decides whether the brace is the first on its line.**
    Every body of a method, of a property or of a type, and of the types nested in it, is
    written as a part of it.  In every text that the body is written in, on its own, in a
    file or embedded in other code, the brace stands behind the ink of all that is written
    before it, and the line up to it is in the state in which the code before it leaves a
    line that has been begun. -/
theorem brace_follows_code (h : Obtainable i) (hb : i.HasBody ctx b) :
    b.stream <:+: i.streamIn ctx
    ∧ ∀ (style : Style) (setting : Setting) (names : Names) (front back : Stream) (v : Writer),
      Writer.run ⟨style.layout, setting⟩ { names := names } (front ++ b.stream ++ back) = .ok v →
      ∃ mid before mark after,
        Writer.run ⟨style.layout, setting⟩ { names := names } (front ++ b.before) = .ok mid
        ∧ v.text style.layout = before ++ "\x7d" ++ after
        ∧ Text.ink before = Text.ink (mid.text style.layout) ++ mark
        ∧ (mark = "" ∨ mid.mark? = some mark)
        ∧ b.line.Holds mid.mark? (Text.lastLine before) := by
  obtain ⟨hpart, hdecided⟩ := hb.writtenIn h
  refine ⟨hpart, fun style setting names front back v hrun => ?_⟩
  have hsplit : front ++ b.stream ++ back
      = (front ++ b.before) ++ .text ("\x7d" ++ b.tail) :: back := by
    simp [Body.stream]
  rw [hsplit] at hrun
  obtain ⟨mid, hmid, hrest⟩ := Writer.run_append_eq_ok _ hrun
  have honline : mid.OnLine style.layout b.line := by
    have hline := (Writer.onLine_initial style.layout names).run style.gaps_layout hmid
    rwa [LineState.through_append, Body.through_before hdecided] at hline
  -- The brace is a character of its own, and what comes behind it is a run from there.
  have hbrace : (mid.writeChar style.layout '\x7d').run ⟨style.layout, setting⟩
      (.text b.tail :: back) = .ok v := by
    rw [Writer.run_text, Writer.writeChar_eq, ← Writer.write_append]
    rwa [Writer.run_text] at hrest
  obtain ⟨text, htext, after, hafter⟩ :=
    Writer.reads_run hbrace (Wrapper.reads_finish style.layout v.wrapper)
  obtain ⟨old, hold, rfl⟩ := Writer.reads_writeChar (by decide) htext
  obtain ⟨mark, hmark, hcases⟩ := mid.ink_lead style.blank_layout
  refine ⟨mid, old ++ mid.lead style.layout, mark, after, hmid, hafter, ?_, hcases,
    honline.lead style.gaps_layout hold⟩
  rw [Text.ink_append, hold.ink style.blank_layout, hmark, Writer.text,
    mid.wrapper.ink_finish style.blank_layout]

/-- A comment without a line end. -/
def remark : Code TypeDecl := ⟨[.text "// done"], 0⟩

/-- A property whose getter is a comment. -/
def remarkedProperty : Property TypeDecl :=
  ⟨some "Size", .builtIn .intKw, .empty, [], .empty, [], some remark, none, none⟩

def remarkedMethod : Method TypeDecl :=
  ⟨some "Run", .empty, [], .empty, [], .void, [], remark, none⟩

/-- A class with the comment in its static constructor, in its initializer block and behind
    them. -/
def remarkedType : TypeDecl :=
  .of ⟨.named .classKind "Host", .empty, [], .empty, [], none, [], [], [], remark, remark, [], [],
    [remark], [], []⟩

theorem obtainable_remark : Obtainable (.code remark) := by
  refine .code (.finished (.edited (e := .add "// done" []) .empty trivial ?_) rfl) ?_
  · simp [Code.Edit.blocks]
  · intro t ht
    cases ht

theorem obtainable_remarkedProperty : Obtainable (.built .property remarkedProperty) :=
  .built (.edited (k := .property) (e := Property.Edit.getter remark)
    (.opened (.property (.builtIn .intKw) (some "Size")) (by simp))
    (by simpa [Construct.handed] using obtainable_remark)) rfl

/-- The brace of the getter stands behind the comment, the one of the list around it on a
    line of its own. -/
theorem brace_follows_code_remarked : Obtainable (.built .property remarkedProperty)
    ∧ ∃ v, Writer.run ⟨({} : Style).layout, ⟨"", []⟩⟩ {}
        ((Item.built .property remarkedProperty).streamIn {}) = .ok v
      ∧ v.text ({} : Style).layout = "int Size \x7b\n\tget \x7b\n\t\t// done\x7d\n\x7d\n"
      ∧ (∃ before after, v.text ({} : Style).layout = before ++ "\x7d" ++ after
        ∧ ∃ c ∈ Text.lastLine before, Text.isGap c = false)
      ∧ ∃ before after, v.text ({} : Style).layout = before ++ "\x7d" ++ after
        ∧ ∀ c ∈ Text.lastLine before, Text.isGap c = true := by
  have htext : ((Writer.run ⟨({} : Style).layout, ⟨"", []⟩⟩ {}
      ((Item.built .property remarkedProperty).streamIn {})).toOption.map
        fun v => v.text ({} : Style).layout)
          = some "int Size \x7b\n\tget \x7b\n\t\t// done\x7d\n\x7d\n" := by
    decide +kernel
  obtain ⟨v, hv, hout⟩ := Option.map_eq_some_iff.mp htext
  have hrun := Except.eq_ok_of_toOption hv
  have hlist : (Item.built .property remarkedProperty).HasBody {} ⟨" ", .indent ::
      accessorStream [] (TypeDecl.stream []) "get" remark, [], "\n"⟩ := List.mem_cons_self
  have hgetter : (Item.built .property remarkedProperty).HasBody {}
      (remark.body [] (TypeDecl.stream []) " ") := List.mem_cons_of_mem _ List.mem_cons_self
  obtain ⟨-, hlist⟩ := brace_follows_code obtainable_remarkedProperty hlist
  obtain ⟨-, hgetter⟩ := brace_follows_code obtainable_remarkedProperty hgetter
  obtain ⟨_, before, -, after, -, hbefore, -, -, hinked⟩ := hgetter {} ⟨"", []⟩ {}
    [.text "int", .text " ", .text "Size", .text " \x7b\n", .indent, .text "get"]
    [.unindent, .text "\x7d\n"] v hrun
  obtain ⟨mid, before', -, after', hmid, hbefore', -, -, hclear⟩ := hlist {} ⟨"", []⟩ {}
    [.text "int", .text " ", .text "Size"] [] v hrun
  have hmark : mid.mark? = none := by
    have hposition := Writer.position_run hmid
    have hplain : mid.inDoc = false ∧ mid.inComment = false :=
      ⟨congrArg Position.inDoc hposition, congrArg Position.inComment hposition⟩
    simp [Writer.mark?, hplain]
  rw [hmark] at hclear
  exact ⟨obtainable_remarkedProperty, v, hrun, hout, ⟨before, after, hbefore, hinked⟩,
    before', after', hbefore', hclear⟩

/-- **A comment swallows the brace behind it**: the closing braces of a method, of an
    accessor, of a static constructor, of an initializer block and of a type stand on the
    line of a comment that comes last before them. -/
theorem comment_swallows_brace :
    Obtainable (.built .method remarkedMethod)
    ∧ Item.render (.built .method remarkedMethod) = .ok "void Run() \x7b\n\t// done\x7d\n"
    ∧ Obtainable (.built .property remarkedProperty)
    ∧ Item.render (.built .property remarkedProperty)
      = .ok "int Size \x7b\n\tget \x7b\n\t\t// done\x7d\n\x7d\n"
    ∧ Obtainable (.built .type remarkedType)
    ∧ Item.render (.built .type remarkedType)
      = .ok ("class Host \x7b\n\tstatic Host() \x7b\n\t\t// done\x7d\n\n"
        ++ "\t\x7b\n\t\t// done\x7d\n\n\t// done\x7d\n") := by
  have hnone : ∀ i ∈ ([] : List Item), Obtainable i := by simp
  have hmethod : Obtainable (.built .method remarkedMethod) :=
    .built (.edited (k := .method) (e := Method.Edit.body (.add "// done" []))
      (.opened (.method (some "Run")) hnone) hnone) rfl
  have htype : Obtainable (.built .type remarkedType) :=
    .built (.edited (k := .type) (e := TypeDecl.Edit.addCode remark)
      (.edited (k := .type) (e := TypeDecl.Edit.addInitializerBlock remark)
        (.edited (k := .type) (e := TypeDecl.Edit.addStaticBlock remark)
          (.opened (.named .classKind "Host") hnone)
          (by simpa [Construct.handed] using obtainable_remark))
        (by simpa [Construct.handed] using obtainable_remark))
      (by simpa [Construct.handed] using obtainable_remark)) rfl
  exact ⟨hmethod, Except.eq_ok_of_toOption (by decide +kernel), obtainable_remarkedProperty,
    Except.eq_ok_of_toOption (by decide +kernel), htype,
    Except.eq_ok_of_toOption (by decide +kernel)⟩

end Item

end CSharpGen
