/-
  CSharpGen/Proofs/Bodies.lean
  ============================
  **No body is dropped.**  Whether the body of a member is written depends on its
  own modifiers and on those that the kind of the type around it implies.  In a
  type that can be built, and in the types nested in it, a body that is not
  written is empty or belongs to an external method (`TypeDecl.bodies_written`).

  Three checks made at different times carry this:

    * a body on an abstract member is refused when the member is built
      (`Method.Legal`, `Property.Legal`);
    * an interface implies `abstract`, but takes only members that say either
      `abstract` or `static` themselves (`TypeKind.isAbstract_eq`);
    * what a layer is written as holds each of its members, in a nested type as
      in the outermost one (`TypeDecl.NestedIn.infix_stream`).
-/
import CSharpGen.Proofs.Legality
import CSharpGen.Proofs.Members

namespace CSharpGen

variable {δ : Type}

/-! ### What is abstract -/

theorem TypeKind.checkExplicit_of_checkMember {kind : TypeKind} {member : MemberKind}
    {s : ModifierSet} (h : kind.checkMember member s = .ok ())
    (hkind : kind.requiresExplicitMembers = true) : s.checkExplicit member = .ok () := by
  unfold checkMember at h
  obtain ⟨⟨⟩, -, h⟩ := Except.bind_eq_ok h
  rw [hkind] at h
  by_cases hmethod : member = .method
  · rw [if_pos hmethod] at h
    obtain ⟨⟨⟩, -, h⟩ := Except.bind_eq_ok h
    obtain ⟨⟨⟩, h, -⟩ := Except.bind_eq_ok h
    exact h
  · rw [if_neg hmethod] at h
    obtain ⟨⟨⟩, h, -⟩ := Except.bind_eq_ok h
    exact h

/-- Methods and properties that spell out what they are say one of the two. -/
theorem ModifierSet.static_eq_of_checkExplicit {s : ModifierSet} {member : MemberKind}
    (hmember : member = .method ∨ member = .property)
    (h : s.checkExplicit member = .ok ()) : s.has .staticKw = !s.has .abstractKw := by
  have hone : s.exactlyOneOf [.abstractKw, .staticKw] = .ok () := by
    rcases hmember with rfl | rfl
    · obtain ⟨⟨⟩, -, h⟩ := Except.bind_eq_ok h
      exact h
    · obtain ⟨⟨⟩, -, h⟩ := Except.bind_eq_ok h
      exact h
  unfold exactlyOneOf countOf at hone
  cases hstatic : s.has .staticKw <;> cases habstract : s.has .abstractKw <;>
    simp [hstatic, habstract] at hone ⊢

/-- **Only what says so is abstract.**  The `abstract` that an interface implies is
    spelled out on its members, unless they are static. -/
theorem TypeKind.isAbstract_eq {kind : TypeKind} {member : MemberKind} {s : ModifierSet}
    (hmember : member = .method ∨ member = .property)
    (h : kind.checkMember member s = .ok ()) :
    isAbstract s kind.impliedOnMethods = s.has .abstractKw := by
  cases kind with
  | interfaceKind =>
    have hstatic := ModifierSet.static_eq_of_checkExplicit hmember
      (checkExplicit_of_checkMember h rfl)
    simp [isAbstract, impliedOnMethods, hstatic]
  | classKind | structKind | enumKind | attributeKind => simp [isAbstract, impliedOnMethods]

/-! ### Where members are written -/

theorem infix_separated {s : Stream} {ss : List Stream} (h : s ∈ ss) : s <:+: separated ss := by
  induction ss with
  | nil => cases h
  | cons first rest ih =>
    cases rest with
    | nil =>
      cases List.mem_singleton.mp h
      exact List.infix_rfl
    | cons next rest =>
      rcases List.mem_cons.mp h with rfl | h
      · exact (List.prefix_append _ _).isInfix
      · exact (ih h).trans ((List.suffix_cons _ _).trans (List.suffix_append _ _)).isInfix

/-- A layer is written with each of its members. -/
theorem Declaration.infix_member {statics : List ClassName} {d : Declaration Emission}
    {s : Stream} (h : s ∈ d.members statics) (implied : List Modifier) :
    s <:+: (d.emission statics).member implied := by
  have hmembers : separated (d.members statics) <:+: d.stream statics implied :=
    ⟨d.headStream statics implied
        ++ [.enterScope ⟨d.name?, d.types.filterMap Emission.name⟩, .indent],
      .leaveScope :: ([.unindent, .text "\x7d"] ++ if d.isAnonymous then [] else [.text "\n"]),
      by simp [stream, withScope]⟩
  have hframed : d.stream statics implied <:+: d.framed (d.stream statics implied) :=
    ⟨[.suspendStatement, .enterVariables (d.typeVariables.map TypeVariable.name)],
      [.leaveVariables, .resumeStatement], by simp [framed, withVariables]⟩
  exact (infix_separated h).trans (hmembers.trans hframed)

namespace TypeDecl

/-- The first declaration is the second one, or a type nested in it at some depth. -/
inductive NestedIn : TypeDecl → TypeDecl → Prop
  | self (t : TypeDecl) : NestedIn t t
  | inner {t u v : TypeDecl} (hu : u ∈ t.layer.types) (hv : NestedIn v u) : NestedIn v t

theorem WellFormed.nested {t u : TypeDecl} (h : t.WellFormed) (hu : u.NestedIn t) :
    u.WellFormed := by
  induction hu with
  | self t => exact h
  | inner hu _ ih =>
    cases h with
    | of _ types _ => exact ih (types _ hu)

/-- A type that can be built obeys the rules at every depth. -/
theorem legal_of_nestedIn {t u : TypeDecl} (h : Obtainable (.built .type t)) (hu : u.NestedIn t) :
    u.layer.Legal := by
  have hwell : t.WellFormed := h.legal
  cases hwell.nested hu with
  | of legal _ _ => exact legal

variable (statics : List ClassName)

/-- What a method of the type is written as in it. -/
def methodStream (t : TypeDecl) (m : Method TypeDecl) : Stream :=
  m.stream statics (stream statics) t.layer.name? t.layer.kind.impliedOnMethods

/-- What a property of the type is written as in it. -/
def propertyStream (t : TypeDecl) (p : Property TypeDecl) : Stream :=
  p.stream statics (stream statics) t.layer.kind.impliedOnMethods

variable {statics}

theorem infix_member {t : TypeDecl} {s : Stream}
    (h : s ∈ (t.layer.map (emission statics)).members statics) (implied : List Modifier) :
    s <:+: (t.emission statics).member implied := by
  cases t with
  | of d =>
    rw [emission, fold_of]
    exact Declaration.infix_member h implied

theorem infix_methodStream {t : TypeDecl} {m : Method TypeDecl} (hm : m ∈ t.layer.methods)
    (implied : List Modifier) :
    t.methodStream statics m <:+: (t.emission statics).member implied := by
  have hstream : t.methodStream statics m = (m.map (emission statics)).stream statics
      Emission.embedded t.layer.name? t.layer.kind.impliedOnMethods := by
    rw [Method.stream_map]
    rfl
  refine infix_member ?_ implied
  rw [Declaration.members_map, hstream]
  simp only [List.mem_append, List.mem_map]
  grind

theorem infix_propertyStream {t : TypeDecl} {p : Property TypeDecl}
    (hp : p ∈ t.layer.properties) (implied : List Modifier) :
    t.propertyStream statics p <:+: (t.emission statics).member implied := by
  have hstream : t.propertyStream statics p = (p.map (emission statics)).stream statics
      Emission.embedded t.layer.kind.impliedOnMethods := by
    rw [Property.stream_map]
    rfl
  refine infix_member ?_ implied
  rw [Declaration.members_map, hstream]
  simp only [List.mem_append, List.mem_map]
  grind

/-- **A nested type is written in the types around it**, with what their kinds imply. -/
theorem NestedIn.infix_stream {t u : TypeDecl} (h : u.NestedIn t) (implied : List Modifier) :
    ∃ own, (u.emission statics).member own <:+: (t.emission statics).member implied := by
  induction h generalizing implied with
  | self t => exact ⟨implied, List.infix_rfl⟩
  | @inner t u v hu _ ih =>
    obtain ⟨own, hown⟩ := ih t.layer.kind.impliedOnTypes
    refine ⟨own, hown.trans (infix_member ?_ implied)⟩
    rw [Declaration.members_map]
    exact List.mem_append_right _ (List.mem_map_of_mem hu)

end TypeDecl

/-! ### The bodies of methods -/

section Bodies

variable (statics : List ClassName) (emit : δ → Stream)

namespace Method

/-- The end of a method that is written without a body. -/
def bareEnd : Stream := [.text ";\n", .leaveVariables]

/-- The end of a method that is written with its body. -/
def bodyEnd (m : Method δ) : Stream :=
  .text " \x7b\n" :: (m.body.bodyStream statics emit ++ [.leaveVariables])

/-- The method is written with its body, unless it is external or the body is empty. -/
structure BodyWritten (m : Method δ) (enclosing : Option String) (implied : List Modifier) :
    Prop where
  bare : bareEnd <:+ m.stream statics emit enclosing implied →
    m.modifiers.has .externKw = true ∨ m.body.isEmpty = true
  body : ¬ bareEnd <:+ m.stream statics emit enclosing implied →
    m.bodyEnd statics emit <:+ m.stream statics emit enclosing implied

theorem suffix_stream (m : Method δ) (enclosing : Option String) (implied : List Modifier) :
    (if m.isBodiless implied then bareEnd else m.bodyEnd statics emit)
      <:+ m.stream statics emit enclosing implied := by
  have hend : ∀ front last : Stream, last ++ [.leaveVariables]
      <:+ withVariables m.typeVariables (front ++ last) := fun front last =>
    (List.suffix_append_self_iff.mpr (List.suffix_append front last)).trans (List.suffix_cons _ _)
  unfold Method.stream
  split
  · exact hend _ [.text ";\n"]
  · exact hend _ (.text " \x7b\n" :: m.body.bodyStream statics emit)

theorem not_bareEnd {m : Method δ} {s : Stream} (h : m.bodyEnd statics emit <:+ s) :
    ¬ bareEnd <:+ s := by
  intro hbare
  have hbrace : [.text "\x7d\n", .leaveVariables] <:+ s :=
    .trans ⟨.text " \x7b\n" :: .indent :: (m.body.stream statics emit ++ [.unindent]),
      by simp [bodyEnd, Code.bodyStream]⟩ h
  have hsame := (List.suffix_of_suffix_length_le hbare hbrace (Nat.le_refl 2)).eq_of_length rfl
  simp [bareEnd] at hsame

theorem bodyWritten {m : Method δ} {enclosing : Option String} {implied : List Modifier}
    (h : isAbstract m.modifiers implied = true → m.body.isEmpty = true) :
    m.BodyWritten statics emit enclosing implied := by
  have hend := m.suffix_stream statics emit enclosing implied
  cases hbodiless : m.isBodiless implied with
  | true =>
    rw [hbodiless, if_pos rfl] at hend
    refine ⟨fun _ => ?_, fun hno => absurd hend hno⟩
    rcases Bool.or_eq_true_iff.mp hbodiless with habstract | hextern
    · exact .inr (h habstract)
    · exact .inl hextern
  | false =>
    rw [hbodiless, if_neg Bool.false_ne_true] at hend
    exact ⟨fun hbare => absurd hbare (not_bareEnd statics emit hend), fun _ => hend⟩

end Method

/-! ### The bodies of accessors -/

/-- The body of an accessor is written, whole in braces or as its single expression. -/
def Code.WrittenIn (body : Code δ) (s : Stream) : Prop :=
  (.text " \x7b\n" :: body.bodyStream statics emit) <:+: s
    ∨ ∃ e, body.singleExpression? = some e ∧ e.arrowStream statics emit <:+: s

theorem Code.writtenIn_accessorStream {body : Code δ} (h : body.isEmpty = false)
    (keyword : String) :
    body.WrittenIn statics emit (accessorStream statics emit keyword body) := by
  unfold accessorStream
  rw [h, if_neg Bool.false_ne_true]
  cases hsingle : body.singleExpression? with
  | none => exact .inl (List.suffix_cons _ _).isInfix
  | some e => exact .inr ⟨e, hsingle, (List.suffix_cons _ _).isInfix⟩

theorem Code.WrittenIn.mono {body : Code δ} {s t : Stream}
    (h : body.WrittenIn statics emit s) (hst : s <:+: t) : body.WrittenIn statics emit t := by
  rcases h with hbraces | ⟨e, he, harrow⟩
  · exact .inl (hbraces.trans hst)
  · exact .inr ⟨e, he, harrow.trans hst⟩

namespace Property

/-- The accessors of a property without their bodies. -/
def bareAccessors (p : Property δ) : Stream :=
  .text " \x7b" :: ((p.accessors.flatMap fun (keyword, _) =>
    [.text " ", .text keyword, .text ";"]) ++ [.text " \x7d"])

/-- Each body is written, unless all of them are empty. -/
structure BodiesWritten (p : Property δ) (implied : List Modifier) : Prop where
  last : p.accessorsStream statics emit implied <:+ p.stream statics emit implied
  bare : p.bareAccessors <+: p.accessorsStream statics emit implied →
    ∀ a ∈ p.accessors, a.2.isEmpty = true
  bodies : ¬ p.bareAccessors <+: p.accessorsStream statics emit implied →
    ∀ a ∈ p.accessors, a.2.isEmpty = false →
      a.2.WrittenIn statics emit (p.accessorsStream statics emit implied)

/-- What each form of the accessors is chosen for. -/
theorem form_cases (p : Property δ) (implied : List Modifier) :
    p.form implied = .auto ∧ (isAbstract p.modifiers implied = true ∨ p.isAuto = true)
      ∨ (∃ body e, p.form implied = .terse e ∧ p.accessors = [("get", body)]
        ∧ body.singleExpression? = some e)
      ∨ p.form implied = .listed := by
  unfold form
  split
  next hauto => exact .inl ⟨rfl, Bool.or_eq_true_iff.mp hauto⟩
  next =>
    split
    next e hsetter hgetter =>
      obtain ⟨body, hbody, he⟩ := Option.bind_eq_some_iff.mp hgetter
      exact .inr (.inl ⟨body, e, rfl, by simp [accessors, hsetter, hbody], he⟩)
    next => exact .inr (.inr rfl)

theorem bodiesWritten {p : Property δ} {implied : List Modifier}
    (h : isAbstract p.modifiers implied = true → p.isAuto = true) :
    p.BodiesWritten statics emit implied := by
  have hlast : p.accessorsStream statics emit implied <:+ p.stream statics emit implied :=
    List.suffix_append _ _
  rcases p.form_cases implied with ⟨hform, hauto⟩ | ⟨body, e, hform, haccessors, he⟩ | hform
  · -- Abstract or not, no accessor has a body.
    have hempty : p.isAuto = true := hauto.elim h id
    have hbare : p.bareAccessors <+: p.accessorsStream statics emit implied := by
      simp [accessorsStream, hform, bareAccessors]
    refine ⟨hlast, fun _ => ?_, fun hno => absurd hbare hno⟩
    simpa [isAuto] using hempty
  · have harrow : p.accessorsStream statics emit implied = e.arrowStream statics emit := by
      simp only [accessorsStream, hform]
    refine ⟨hlast, fun hbare => ?_, fun _ a ha _ => ?_⟩
    · simp [harrow, bareAccessors, Code.arrowStream] at hbare
    · rw [haccessors, List.mem_singleton] at ha
      rw [ha, harrow]
      exact .inr ⟨e, he, List.infix_rfl⟩
  · have hlisted : (p.accessors.flatMap fun (keyword, body) =>
        accessorStream statics emit keyword body)
          <:+: p.accessorsStream statics emit implied := by
      simp only [accessorsStream, hform]
      exact ⟨[.text " \x7b\n", .indent], [.unindent, .text "\x7d\n"], by simp⟩
    refine ⟨hlast, fun hbare => ?_, fun _ a ha hbody => ?_⟩
    · simp [accessorsStream, hform, bareAccessors] at hbare
    · refine (Code.writtenIn_accessorStream statics emit hbody a.1).mono statics emit
        (.trans ?_ hlisted)
      exact List.infix_of_mem_flatten (List.mem_map_of_mem ha)

end Property

end Bodies

/-! ### Types with their members -/

namespace TypeDecl

/-- **No body is dropped.**  Every method and property of a type, and of the types nested
    in it, is written as a part of the type; without its body only if there is none or the
    method is external. -/
theorem bodies_written {t u : TypeDecl} (h : Obtainable (.built .type t)) (hu : u.NestedIn t)
    (statics : List ClassName) :
    (∀ m ∈ u.layer.methods, u.methodStream statics m <:+: t.stream statics
      ∧ m.BodyWritten statics (stream statics) u.layer.name? u.layer.kind.impliedOnMethods)
    ∧ ∀ p ∈ u.layer.properties, u.propertyStream statics p <:+: t.stream statics
      ∧ p.BodiesWritten statics (stream statics) u.layer.kind.impliedOnMethods := by
  have hlegal := legal_of_nestedIn h hu
  obtain ⟨own, hwritten⟩ : ∃ own, (u.emission statics).member own <:+: t.stream statics :=
    hu.infix_stream []
  refine ⟨fun m hm => ?_, fun p hp => ?_⟩
  · obtain ⟨hmethod, hcheck, -⟩ := hlegal.methods m hm
    refine ⟨(infix_methodStream hm own).trans hwritten, Method.bodyWritten _ _ ?_⟩
    rw [TypeKind.isAbstract_eq (.inl rfl) hcheck]
    exact hmethod.abstractBody
  · obtain ⟨hproperty, hcheck⟩ := hlegal.properties p hp
    refine ⟨(infix_propertyStream hp own).trans hwritten, Property.bodiesWritten _ _ ?_⟩
    rw [TypeKind.isAbstract_eq (.inr rfl) hcheck]
    exact fun habstract => hproperty.auto (.inl habstract)

def origin : Method TypeDecl :=
  ⟨some "Origin", .empty, [], ModifierSet.empty.addAll [.publicKw, .staticKw], [],
    .builtIn .intKw, [], ⟨[.openStatement, .text "return 0", .closeStatement], 1⟩, none⟩

def area : Property TypeDecl :=
  ⟨some "Area", .builtIn .intKw, .empty, [], ModifierSet.empty.addAll [.publicKw, .abstractKw],
    [], some .empty, none, none⟩

/-- An interface with a static method that has a body, and an abstract property. -/
def figure : TypeDecl :=
  .of ⟨.named .interfaceKind "IFigure", .empty, [], .empty, [], none, [], [], [], .empty, .empty,
    [origin], [area], [], [], []⟩

def drawing : TypeDecl :=
  .of ⟨.named .classKind "Drawing", .empty, [], .empty, [], none, [], [], [], .empty, .empty, [],
    [], [], [figure], []⟩

theorem bodies_written_drawing :
    Obtainable (.built .type drawing) ∧ figure.NestedIn drawing
    ∧ figure.methodStream [] origin <:+: drawing.stream []
    ∧ origin.bodyEnd [] (stream []) <:+ figure.methodStream [] origin
    ∧ area.bareAccessors <+: area.accessorsStream [] (stream []) [.publicKw, .abstractKw]
    ∧ ∀ a ∈ area.accessors, a.2.isEmpty = true := by
  have hnone : ∀ i ∈ ([] : List Item), Obtainable i := by simp
  have horigin : Obtainable (.built .method origin) :=
    .built (.edited (k := .method) (e := Method.Edit.body (.addStatement "return 0" []))
      (.edited (k := .method) (e := Method.Edit.returns (.builtIn .intKw))
        (.edited (k := .method) (e := Method.Edit.addModifiers [.publicKw, .staticKw])
          (.opened (.method (some "Origin")) hnone) hnone) hnone) hnone) rfl
  have hempty : Obtainable (.code .empty) := by
    refine .code (.finished .empty rfl) ?_
    intro t ht
    cases ht
  have harea : Obtainable (.built .property area) :=
    .built (.edited (k := .property) (e := Property.Edit.getter .empty)
      (.edited (k := .property) (e := Property.Edit.addModifiers [.publicKw, .abstractKw])
        (.opened (.property (.builtIn .intKw) (some "Area")) hnone) hnone)
      (by simpa [Construct.handed] using hempty)) rfl
  have hfigure : Obtainable (.built .type figure) :=
    .built (.edited (k := .type) (e := Edit.addProperty area)
      (.edited (k := .type) (e := Edit.addMethod origin)
        (.opened (.named .interfaceKind "IFigure") hnone)
        (by simpa [Construct.handed] using horigin))
      (by simpa [Construct.handed] using harea)) rfl
  have hdrawing : Obtainable (.built .type drawing) :=
    .built (.edited (k := .type) (e := Edit.addType figure)
      (.opened (.named .classKind "Drawing") hnone)
      (by simpa [Construct.handed] using hfigure)) rfl
  have hnested : figure.NestedIn drawing := .inner (by simp [drawing, layer]) (.self _)
  obtain ⟨hmethods, hproperties⟩ := bodies_written hdrawing hnested []
  obtain ⟨hwhere, hmethod⟩ := hmethods origin (by simp [figure, layer])
  obtain ⟨-, hproperty⟩ := hproperties area (by simp [figure, layer])
  have hauto : area.bareAccessors
      <+: area.accessorsStream [] (stream []) [.publicKw, .abstractKw] := ⟨[.text "\n"], rfl⟩
  refine ⟨hdrawing, hnested, hwhere, hmethod.body fun hbare => ?_, hauto, hproperty.bare hauto⟩
  rcases hmethod.bare hbare with hextern | hbody
  · exact absurd hextern (by decide)
  · exact absurd hbody (by decide)

end TypeDecl

end CSharpGen
