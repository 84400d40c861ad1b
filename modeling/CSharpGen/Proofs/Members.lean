/-
  CSharpGen/Proofs/Members.lean
  =============================
  **Members and declarations are put together alike.**  One lemma for each kind
  of member says that it is written alike under two readings of the declarations
  inside it, if these are written alike and its blocks fit.  By induction over
  declarations every sound declaration is well arranged
  (`TypeDecl.Sound.alike`).

  A declaration may list its attributes, fields, methods, properties, free-form
  blocks and nested types in another order (`Declaration.Shuffled`); it is still
  written alike (`Declaration.Shuffled.alike`).
-/
import CSharpGen.Proofs.Arrangement

namespace CSharpGen

/-! ### The types of a member -/

section Views

variable {δ : Type}

def Attribute.typeRefs (a : Attribute δ) : List TypeRef := [a.type]

def Parameter.typeRefs (p : Parameter δ) : List TypeRef :=
  p.type :: p.attributes.flatMap Attribute.typeRefs

def Field.typeRefs (x : Field δ) : List TypeRef :=
  x.type :: x.attributes.flatMap Attribute.typeRefs

def Method.typeRefs (m : Method δ) : List TypeRef :=
  m.returns :: (m.typeVariables.flatMap TypeVariable.bounds
    ++ m.attributes.flatMap Attribute.typeRefs ++ m.parameters.flatMap Parameter.typeRefs)

def Property.typeRefs (p : Property δ) : List TypeRef :=
  p.type :: (p.attributes.flatMap Attribute.typeRefs ++ p.parameters.flatMap Parameter.typeRefs)

/-- The types that a layer and its members are declared with. -/
def Declaration.typeRefs (d : Declaration δ) : List TypeRef :=
  d.supertypes ++ d.typeVariables.flatMap TypeVariable.bounds
    ++ d.attributes.flatMap Attribute.typeRefs ++ d.fields.flatMap Field.typeRefs
    ++ d.methods.flatMap Method.typeRefs ++ d.properties.flatMap Property.typeRefs

namespace Declaration

variable {d : Declaration δ}

theorem typeRefs_of_field {x : Field δ} (h : x ∈ d.fields) : x.typeRefs ⊆ d.typeRefs := by
  intro t ht
  have hmem : t ∈ d.fields.flatMap Field.typeRefs := List.mem_flatMap.mpr ⟨x, h, ht⟩
  simp only [typeRefs, List.mem_append]
  grind

theorem typeRefs_of_method {m : Method δ} (h : m ∈ d.methods) : m.typeRefs ⊆ d.typeRefs := by
  intro t ht
  have hmem : t ∈ d.methods.flatMap Method.typeRefs := List.mem_flatMap.mpr ⟨m, h, ht⟩
  simp only [typeRefs, List.mem_append]
  grind

theorem typeRefs_of_property {p : Property δ} (h : p ∈ d.properties) :
    p.typeRefs ⊆ d.typeRefs := by
  intro t ht
  have hmem : t ∈ d.properties.flatMap Property.typeRefs := List.mem_flatMap.mpr ⟨p, h, ht⟩
  simp only [typeRefs, List.mem_append]
  grind

end Declaration

/-- Whether the initial value of a field opens a statement. -/
def Field.opensStatement (x : Field δ) : Bool := x.initializer.any Code.opensStatement

end Views

/-! ### Replacing declarations in members -/

section Map

variable {α β : Type} (w : α → β) (statics : List ClassName) (emit : β → Stream)

theorem Code.docStream_map (c : Code α) :
    (c.map w).docStream statics emit = c.docStream statics fun d => emit (w d) := by
  simp only [Code.docStream, Code.isEmpty_map, Code.stream_map]

theorem Code.bodyStream_map (c : Code α) :
    (c.map w).bodyStream statics emit = c.bodyStream statics fun d => emit (w d) := by
  simp only [Code.bodyStream, Code.stream_map]

theorem Code.arrowStream_map (c : Code α) :
    (c.map w).arrowStream statics emit = c.arrowStream statics fun d => emit (w d) := by
  simp only [Code.arrowStream, Code.stream_map]

theorem Attribute.stream_map (a : Attribute α) :
    (a.map w).stream statics emit = a.stream statics fun d => emit (w d) := by
  simp only [Attribute.stream, Attribute.map, List.map_map, Function.comp_def, Code.stream_map]

theorem Attribute.streamAll_map (sep : String) (as : List (Attribute α)) :
    Attribute.streamAll statics emit sep (as.map (Attribute.map w))
      = Attribute.streamAll statics (fun d => emit (w d)) sep as := by
  simp only [Attribute.streamAll, List.flatMap_map, Attribute.stream_map]

theorem Parameter.stream_map (p : Parameter α) :
    (p.map w).stream statics emit = p.stream statics fun d => emit (w d) := by
  simp only [Parameter.stream, Parameter.map, Attribute.streamAll_map]
  cases p.defaultValue with
  | none => rfl
  | some value => simp only [Option.map, Code.stream_map]

theorem Parameter.streamAll_map (ps : List (Parameter α)) :
    Parameter.streamAll statics emit (ps.map (Parameter.map w))
      = Parameter.streamAll statics (fun d => emit (w d)) ps := by
  simp only [Parameter.streamAll, List.map_map, Function.comp_def, Parameter.stream_map]

theorem Field.stream_map (x : Field α) (implied : List Modifier) :
    (x.map w).stream statics emit implied = x.stream statics (fun d => emit (w d)) implied := by
  have hstatement : (x.map w).statementStream statics emit
      = x.statementStream statics fun d => emit (w d) := by
    simp only [Field.statementStream, Field.map]
    cases x.initializer with
    | none => rfl
    | some value => simp only [Option.map, Code.opensStatement_map, Code.stream_map]
  simp only [Field.stream, hstatement]
  simp only [Field.map, Code.docStream_map, Attribute.streamAll_map]

theorem Method.headStream_map (m : Method α) (enclosing : Option String)
    (implied : List Modifier) :
    (m.map w).headStream enclosing implied = m.headStream enclosing implied := rfl

theorem Method.stream_map (m : Method α) (enclosing : Option String) (implied : List Modifier) :
    (m.map w).stream statics emit enclosing implied
      = m.stream statics (fun d => emit (w d)) enclosing implied := by
  have hbodiless : (m.map w).isBodiless implied = m.isBodiless implied := rfl
  simp only [Method.stream, Method.headStream_map, hbodiless]
  simp only [Method.map, Code.docStream_map, Attribute.streamAll_map, Parameter.streamAll_map,
    Code.bodyStream_map]
  cases m.chained with
  | none => rfl
  | some value => simp only [Option.map, Code.stream_map]

/-- The same form for the replaced code. -/
def AccessorForm.map : AccessorForm α → AccessorForm β
  | .auto => .auto
  | .terse expression => .terse (expression.map w)
  | .listed => .listed

theorem Property.accessors_map (p : Property α) :
    (p.map w).accessors = p.accessors.map fun (keyword, body) => (keyword, body.map w) := by
  simp [Property.accessors, Property.map, Option.toList_map, Function.comp_def]

theorem Property.form_map (p : Property α) (implied : List Modifier) :
    (p.map w).form implied = (p.form implied).map w := by
  have hauto : (p.map w).isAuto = p.isAuto := by
    simp [Property.isAuto, Property.accessors_map, List.all_map, Function.comp_def]
  have hsingle : (p.map w).getter.bind Code.singleExpression?
      = (p.getter.bind Code.singleExpression?).map (Code.map w) := by
    cases hgetter : p.getter with
    | none => simp [Property.map, hgetter]
    | some body => simpa [Property.map, hgetter] using Code.singleExpression?_map w body
  have hmodifiers : (p.map w).modifiers = p.modifiers := rfl
  have hsetter : (p.map w).setter = p.setter.map (Code.map w) := rfl
  unfold Property.form
  rw [hauto, hsingle, hmodifiers, hsetter]
  split
  · rfl
  · cases p.setter with
    | some body => rfl
    | none =>
      cases p.getter.bind Code.singleExpression? with
      | none => rfl
      | some expression => rfl

theorem accessorStream_map (keyword : String) (body : Code α) :
    accessorStream statics emit keyword (body.map w)
      = accessorStream statics (fun d => emit (w d)) keyword body := by
  simp only [accessorStream, Code.isEmpty_map, Code.singleExpression?_map, Code.bodyStream_map]
  cases body.singleExpression? with
  | none => rfl
  | some expression => simp only [Option.map, Code.arrowStream_map]

theorem Property.stream_map (p : Property α) (implied : List Modifier) :
    (p.map w).stream statics emit implied = p.stream statics (fun d => emit (w d)) implied := by
  have haccessors : (p.map w).accessorsStream statics emit implied
      = p.accessorsStream statics (fun d => emit (w d)) implied := by
    simp only [Property.accessorsStream, Property.form_map, Property.accessors_map,
      List.flatMap_map]
    cases p.form implied with
    | auto =>
      simp only [AccessorForm.map, Property.map]
      cases p.initializer with
      | none => rfl
      | some value => simp only [Option.map, Code.stream_map]
    | terse expression => simp only [AccessorForm.map, Code.arrowStream_map]
    | listed => simp only [AccessorForm.map, accessorStream_map]
  have hindexer : (p.map w).isIndexer = p.isIndexer := rfl
  have htitle : (p.map w).title = p.title := rfl
  simp only [Property.stream, haccessors, hindexer, htitle]
  simp only [Property.map, Code.docStream_map, Attribute.streamAll_map, Parameter.streamAll_map]

end Map

/-! ### Pieces of members -/

section Members

variable {ι : Type} {blame : Blame} {w w' : ι → Emission} {d : Nat} (statics : List ClassName)

namespace Code.Fits

variable {c : Code ι} (h : c.Fits blame w w')

include h

theorem stream : Arranged blame ⟨d, false⟩ ⟨d, false⟩ ((c.map w).stream statics Emission.embedded)
    ((c.map w').stream statics Emission.embedded) :=
  h.arranged statics rfl

theorem docStream : Arranged blame ⟨d, false⟩ ⟨d, false⟩
    ((c.map w).docStream statics Emission.embedded)
    ((c.map w').docStream statics Emission.embedded) := by
  simp only [Code.docStream, Code.isEmpty_map]
  split
  · exact .nil
  · exact .doc (h.stream statics)

theorem bodyStream : Arranged blame ⟨d, false⟩ ⟨d, false⟩
    ((c.map w).bodyStream statics Emission.embedded)
    ((c.map w').bodyStream statics Emission.embedded) :=
  (h.stream statics).braces (.plain rfl)

theorem arrowStream : Arranged blame ⟨d, false⟩ ⟨d, false⟩
    ((c.map w).arrowStream statics Emission.embedded)
    ((c.map w').arrowStream statics Emission.embedded) :=
  .cons rfl ((h.stream statics).concat rfl)

end Code.Fits

theorem Arranged.parenthesized {f : Frame} {ss ts : List Stream}
    (h : ss.Forall₂ (Arranged blame f f) ts) :
    Arranged blame f f
      (if ss.isEmpty then [] else .text "(" :: (CSharpGen.commaSeparated ss ++ [.text ")"]))
      (if ts.isEmpty then [] else .text "(" :: (CSharpGen.commaSeparated ts ++ [.text ")"])) := by
  have harguments := Arranged.commaSeparated h
  cases h with
  | nil => exact .nil
  | cons _ _ => exact .cons rfl (harguments.concat rfl)

theorem Attribute.arranged {a : Attribute ι} (htype : a.type.Named blame)
    (hcodes : ∀ c ∈ a.codes, c.Fits blame w w') :
    Arranged blame ⟨d, false⟩ ⟨d, false⟩ ((a.map w).stream statics Emission.embedded)
      ((a.map w').stream statics Emission.embedded) := by
  have hpositional : ∀ c ∈ a.arguments, c.Fits blame w w' := fun c hc =>
    hcodes c (List.mem_append_left _ hc)
  have hnamed : ∀ e ∈ a.named, e.2.Fits blame w w' := fun e he =>
    hcodes e.2 (List.mem_append_right _ (List.mem_map_of_mem he))
  have harguments := List.rel_append
    (Arranged.forall₂_map (f := ⟨d, false⟩) fun c hc => (hpositional c hc).stream statics)
    (Arranged.forall₂_map fun e he => Arranged.cons (i := .text e.1) rfl
      (Arranged.cons (i := .text " = ") rfl ((hnamed e he).stream statics)))
  simp only [Attribute.stream, Attribute.map, List.map_map, Function.comp_def]
  exact .cons rfl (((a.type.arranged htype).append (.parenthesized harguments)).append
    (.plain rfl))

theorem Attribute.arranged_streamAll (sep : String) (as : List (Attribute ι))
    (htypes : ∀ t ∈ as.flatMap Attribute.typeRefs, t.Named blame)
    (hcodes : ∀ c ∈ as.flatMap Attribute.codes, c.Fits blame w w') :
    Arranged blame ⟨d, false⟩ ⟨d, false⟩
      (Attribute.streamAll statics Emission.embedded sep (as.map (Attribute.map w)))
      (Attribute.streamAll statics Emission.embedded sep (as.map (Attribute.map w'))) := by
  simp only [Attribute.streamAll, List.flatMap_map]
  refine Arranged.flatMap ?_
  intro a ha
  have htype : a.type.Named blame :=
    htypes a.type (List.mem_flatMap.mpr ⟨a, ha, by simp [Attribute.typeRefs]⟩)
  have harranged := Attribute.arranged statics htype (d := d) fun c hc =>
    hcodes c (List.mem_flatMap.mpr ⟨a, ha, hc⟩)
  exact harranged.concat rfl

theorem Parameter.arranged {p : Parameter ι} (htypes : ∀ t ∈ p.typeRefs, t.Named blame)
    (hcodes : ∀ c ∈ p.codes, c.Fits blame w w') :
    Arranged blame ⟨d, false⟩ ⟨d, false⟩ ((p.map w).stream statics Emission.embedded)
      ((p.map w').stream statics Emission.embedded) := by
  have hattributes := Attribute.arranged_streamAll statics (d := d) " " p.attributes
    (fun t ht => htypes t (List.mem_cons_of_mem _ ht))
    (fun c hc => hcodes c (List.mem_append_left _ hc))
  have htype := p.type.arranged (f := ⟨d, false⟩) (htypes p.type (by simp [Parameter.typeRefs]))
  simp only [Parameter.stream, Parameter.map]
  refine (((hattributes.append (p.modifiers.arranged_stream [])).append htype).append
    (.cons rfl (.plain rfl))).append ?_
  cases hvalue : p.defaultValue with
  | none => exact .nil
  | some value =>
    exact .cons rfl ((hcodes value (by simp [Parameter.codes, hvalue])).stream statics)

theorem Parameter.arranged_streamAll (ps : List (Parameter ι))
    (htypes : ∀ t ∈ ps.flatMap Parameter.typeRefs, t.Named blame)
    (hcodes : ∀ c ∈ ps.flatMap Parameter.codes, c.Fits blame w w') :
    Arranged blame ⟨d, false⟩ ⟨d, false⟩
      (Parameter.streamAll statics Emission.embedded (ps.map (Parameter.map w)))
      (Parameter.streamAll statics Emission.embedded (ps.map (Parameter.map w'))) := by
  simp only [Parameter.streamAll, List.map_map]
  apply Arranged.commaSeparated
  apply Arranged.forall₂_map
  intro p hp
  exact Parameter.arranged statics (fun t ht => htypes t (List.mem_flatMap.mpr ⟨p, hp, ht⟩))
    fun c hc => hcodes c (List.mem_flatMap.mpr ⟨p, hp, hc⟩)

/-! ### Fields -/

theorem Field.arranged {x : Field ι} (htypes : ∀ t ∈ x.typeRefs, t.Named blame)
    (hcodes : ∀ c ∈ x.codes, c.Fits blame w w') (hfault : x.opensStatement = true → blame.faults)
    (implied : List Modifier) :
    Arranged blame ⟨d, false⟩ ⟨d, false⟩ ((x.map w).stream statics Emission.embedded implied)
      ((x.map w').stream statics Emission.embedded implied) := by
  have hdoc := (hcodes x.doc (by simp [Field.codes])).docStream statics (d := d)
  have hattributes := Attribute.arranged_streamAll statics (d := d) "\n" x.attributes
    (fun t ht => htypes t (List.mem_cons_of_mem _ ht))
    (fun c hc => hcodes c (List.mem_cons_of_mem _ (List.mem_append_left _ hc)))
  have htype := x.type.arranged (f := ⟨d, true⟩) (htypes x.type (by simp [Field.typeRefs]))
  have hstatement : Arranged blame ⟨d, false⟩ ⟨d, false⟩
      ((x.map w).statementStream statics Emission.embedded)
      ((x.map w').statementStream statics Emission.embedded) := by
    simp only [Field.statementStream, Field.map]
    cases hvalue : x.initializer with
    | none =>
      exact Arranged.openStatement.append (htype.append (.cons rfl (.cons rfl .closeStatement)))
    | some value =>
      simp only [Option.map, Code.opensStatement_map]
      split
      · next hopens => exact .refuse (hfault (by simpa [Field.opensStatement, hvalue] using hopens))
      · next hopens =>
        have hfits := hcodes value (by simp [Field.codes, hvalue])
        have hinside := hfits.arranged statics (f := ⟨d, true⟩) (by simpa using hopens)
        exact ((htype.append (.cons rfl (.cons rfl (.plain rfl)))).append hinside).statement
  exact ((hdoc.append hattributes).append (x.modifiers.arranged_stream implied)).append hstatement

/-! ### Methods -/

theorem Method.arranged_headStream {m : Method ι} (hreturns : m.returns.Named blame)
    (enclosing : Option String) (implied : List Modifier) :
    Arranged blame ⟨d, false⟩ ⟨d, false⟩ (m.headStream enclosing implied)
      (m.headStream enclosing implied) := by
  have hmodifiers : ∀ implied, Arranged blame ⟨d, false⟩ ⟨d, false⟩ (m.modifiers.stream implied)
      (m.modifiers.stream implied) := m.modifiers.arranged_stream
  have htype := m.returns.arranged (f := ⟨d, false⟩) hreturns
  unfold Method.headStream
  split
  · exact (hmodifiers _).append (.plain rfl)
  · refine (hmodifiers _).append ?_
    split
    · exact .plain rfl
    · exact htype
  · exact ((hmodifiers _).append htype).append (.cons rfl (.plain rfl))
  · exact (((hmodifiers _).append htype).append (.cons rfl (.plain rfl))).append
      (TypeVariable.arranged_streamList m.typeVariables)

theorem Method.arranged {m : Method ι} (htypes : ∀ t ∈ m.typeRefs, t.Named blame)
    (hcodes : ∀ c ∈ m.codes, c.Fits blame w w') (enclosing : Option String)
    (implied : List Modifier) :
    Arranged blame ⟨d, false⟩ ⟨d, false⟩
      ((m.map w).stream statics Emission.embedded enclosing implied)
      ((m.map w').stream statics Emission.embedded enclosing implied) := by
  have hdoc := (hcodes m.doc (by simp [Method.codes])).docStream statics (d := d)
  have hattributes := Attribute.arranged_streamAll statics (d := d) "\n" m.attributes
    (fun t ht => htypes t (by simp only [Method.typeRefs, List.mem_cons, List.mem_append]; grind))
    (fun c hc => hcodes c (by simp only [Method.codes, List.mem_cons, List.mem_append]; grind))
  have hhead := Method.arranged_headStream (d := d) (m := m) (htypes m.returns
    (by simp [Method.typeRefs])) enclosing implied
  have hparameters := Parameter.arranged_streamAll statics (d := d) m.parameters
    (fun t ht => htypes t (by simp only [Method.typeRefs, List.mem_cons, List.mem_append]; grind))
    (fun c hc => hcodes c (by simp only [Method.codes, List.mem_cons, List.mem_append]; grind))
  have hconstraints := TypeVariable.arranged_constraints (f := ⟨d, false⟩) m.typeVariables
    fun t ht => htypes t (by simp only [Method.typeRefs, List.mem_cons, List.mem_append]; grind)
  simp only [Method.stream, Method.headStream_map]
  refine .typeVars m.typeVariables ((((((((hdoc.append hattributes).append hhead).append
    (.plain rfl)).append hparameters).append (.plain rfl)).append ?_).append
    hconstraints).append ?_)
  · simp only [Method.map]
    cases hvalue : m.chained with
    | none => exact .nil
    | some value =>
      exact .cons rfl ((hcodes value (by simp [Method.codes, hvalue])).stream statics)
  · show Arranged blame _ _ (if m.isBodiless implied then _ else _)
      (if m.isBodiless implied then _ else _)
    split
    · exact .plain rfl
    · exact .cons rfl ((hcodes m.body (by simp [Method.codes])).bodyStream statics)

/-! ### Properties -/

theorem arranged_accessorStream (keyword : String) {body : Code ι} (h : body.Fits blame w w') :
    Arranged blame ⟨d, false⟩ ⟨d, false⟩
      (accessorStream statics Emission.embedded keyword (body.map w))
      (accessorStream statics Emission.embedded keyword (body.map w')) := by
  simp only [accessorStream, Code.isEmpty_map, Code.singleExpression?_map]
  refine .cons rfl ?_
  split
  · exact .plain rfl
  · cases hsingle : body.singleExpression? with
    | some expression => exact (h.singleExpression hsingle).arrowStream statics
    | none => exact .cons rfl (h.bodyStream statics)

theorem Property.mem_codes_of_mem_accessors {p : Property ι} {a : String × Code ι}
    (h : a ∈ p.accessors) : a.2 ∈ p.codes := by
  simp only [Property.codes, List.mem_cons, List.mem_append]
  rcases List.mem_append.mp h with h | h
  · obtain ⟨body, hbody, rfl⟩ := List.mem_map.mp h
    grind
  · obtain ⟨body, hbody, rfl⟩ := List.mem_map.mp h
    grind

theorem Property.arranged_accessorsStream {p : Property ι} (h : ∀ c ∈ p.codes, c.Fits blame w w')
    (implied : List Modifier) :
    Arranged blame ⟨d, false⟩ ⟨d, false⟩
      ((p.map w).accessorsStream statics Emission.embedded implied)
      ((p.map w').accessorsStream statics Emission.embedded implied) := by
  simp only [Property.accessorsStream, Property.form_map, Property.accessors_map, List.flatMap_map]
  cases hform : p.form implied with
  | auto =>
    refine .cons rfl (((Arranged.append (.flatMap ?_) (.plain rfl)).append ?_).append (.plain rfl))
    · intro a _
      exact .cons rfl (.cons rfl (.plain rfl))
    · simp only [Property.map]
      cases hvalue : p.initializer with
      | none => exact .nil
      | some value =>
        have hfits := h value (by simp [Property.codes, hvalue])
        exact .cons rfl ((hfits.stream statics).concat rfl)
  | terse expression =>
    obtain ⟨body, hbody, hsingle⟩ := Option.bind_eq_some_iff.mp (p.getter_of_terse hform)
    have hfits := h body (by simp [Property.codes, hbody])
    exact (hfits.singleExpression hsingle).arrowStream statics
  | listed =>
    refine .cons rfl (Arranged.braces (.flatMap ?_) (.plain rfl))
    intro a ha
    exact arranged_accessorStream statics a.1 (h a.2 (Property.mem_codes_of_mem_accessors ha))

theorem Property.arranged {p : Property ι} (htypes : ∀ t ∈ p.typeRefs, t.Named blame)
    (hcodes : ∀ c ∈ p.codes, c.Fits blame w w') (implied : List Modifier) :
    Arranged blame ⟨d, false⟩ ⟨d, false⟩ ((p.map w).stream statics Emission.embedded implied)
      ((p.map w').stream statics Emission.embedded implied) := by
  have hdoc := (hcodes p.doc (by simp [Property.codes])).docStream statics (d := d)
  have hattributes := Attribute.arranged_streamAll statics (d := d) "\n" p.attributes
    (fun t ht => htypes t (by simp only [Property.typeRefs, List.mem_cons, List.mem_append]; grind))
    (fun c hc => hcodes c (by simp only [Property.codes, List.mem_cons, List.mem_append]; grind))
  have hparameters := Parameter.arranged_streamAll statics (d := d) p.parameters
    (fun t ht => htypes t (by simp only [Property.typeRefs, List.mem_cons, List.mem_append]; grind))
    (fun c hc => hcodes c (by simp only [Property.codes, List.mem_cons, List.mem_append]; grind))
  have htype := p.type.arranged (f := ⟨d, false⟩) (htypes p.type (by simp [Property.typeRefs]))
  refine Arranged.append ?_ (Property.arranged_accessorsStream statics hcodes implied)
  refine Arranged.append ((((hdoc.append hattributes).append
    (p.modifiers.arranged_stream implied)).append htype).append (.cons rfl (.plain rfl))) ?_
  show Arranged blame _ _ (if p.isIndexer then _ else _) (if p.isIndexer then _ else _)
  split
  · exact .cons rfl (hparameters.concat rfl)
  · exact .nil

end Members

/-! ### Declarations -/

/-- What a layer needs to be written alike under both readings. -/
structure Declaration.Fits {ι : Type} (blame : Blame) (w w' : ι → Emission)
    (d : Declaration ι) : Prop where
  types : ∀ t ∈ d.typeRefs, t.Named blame
  codes : ∀ c ∈ d.codes, c.Fits blame w w'
  faults : ∀ x ∈ d.fields, x.opensStatement = true → blame.faults
  inner : ∀ i ∈ d.inner, (w i).Alike blame (w' i)

/-- The same layer with attributes, fields, methods, properties, free-form blocks and
    nested types in another order.  Handles are never written and may be any. -/
inductive Declaration.Shuffled {ι : Type} (d : Declaration ι) : Declaration ι → Prop
  | of {attributes : List (Attribute ι)} {fields : List (Field ι)} {methods : List (Method ι)}
      {properties : List (Property ι)} {extras : List (Code ι)} {types : List ι}
      (origins : List String) (hattributes : d.attributes.Perm attributes)
      (hfields : d.fields.Perm fields) (hmethods : d.methods.Perm methods)
      (hproperties : d.properties.Perm properties) (hextras : d.extras.Perm extras)
      (htypes : d.types.Perm types) :
      Shuffled d { d with attributes, fields, methods, properties, extras, types, origins }

theorem Declaration.Shuffled.supertypes_eq {ι : Type} {d d' : Declaration ι}
    (h : d.Shuffled d') : d'.supertypes = d.supertypes := by
  obtain ⟨⟩ := h
  rfl

theorem Declaration.Shuffled.refl {ι : Type} (d : Declaration ι) : d.Shuffled d :=
  .of d.origins (.refl _) (.refl _) (.refl _) (.refl _) (.refl _) (.refl _)

namespace Declaration

variable {ι : Type} {blame : Blame} {w w' : ι → Emission} {d d' : Declaration ι} {k : Nat}
  (statics : List ClassName)

theorem Fits.right (h : d.Fits blame w w') : d.Fits blame w' w' where
  types := h.types
  codes := fun c hc =>
    ⟨(h.codes c hc).sound, (h.codes c hc).names, fun i hi => ((h.codes c hc).inner i hi).right⟩
  faults := h.faults
  inner := fun i hi => (h.inner i hi).right

theorem arranged_attributes (h : d.Fits blame w w') {attributes : List (Attribute ι)}
    (hperm : d.attributes.Perm attributes) :
    Arranged blame ⟨k, false⟩ ⟨k, false⟩
      (Attribute.streamAll statics Emission.embedded "\n" (d.attributes.map (Attribute.map w)))
      (Attribute.streamAll statics Emission.embedded "\n"
        (attributes.map (Attribute.map w'))) := by
  have htypes : ∀ t ∈ d.attributes.flatMap Attribute.typeRefs, t.Named blame := fun t ht =>
    h.types t (by simp only [typeRefs, List.mem_append]; grind)
  have hcodes : ∀ c ∈ d.attributes.flatMap Attribute.codes, c.Fits blame w w' := fun c hc =>
    h.codes c (by simp only [codes, List.mem_append, List.mem_cons]; grind)
  have hcongr := Attribute.arranged_streamAll statics (d := k) "\n" d.attributes htypes hcodes
  refine hcongr.trans (Arranged.flatMap_perm (hperm.map _) ?_)
  intro a ha
  obtain ⟨b, hb, rfl⟩ := List.mem_map.mp ha
  have htype : b.type.Named blame :=
    htypes b.type (List.mem_flatMap.mpr ⟨b, hb, by simp [Attribute.typeRefs]⟩)
  have hone := Attribute.arranged statics htype (d := k) fun c hc =>
    hcodes c (List.mem_flatMap.mpr ⟨b, hb, hc⟩)
  exact hone.right.concat rfl

theorem arranged_constantStream (hshuffled : d.Shuffled d') (h : d.Fits blame w w')
    (name : String) : Arranged blame ⟨k, false⟩ ⟨k, false⟩ ((d.map w).constantStream statics name)
      ((d'.map w').constantStream statics name) := by
  obtain ⟨_, hattributes, -, -, -, -, -⟩ := hshuffled
  have hdoc := (h.codes d.doc (by simp [codes])).docStream statics (d := k)
  simp only [constantStream, Declaration.map]
  refine ((hdoc.append (arranged_attributes statics h hattributes)).append (.plain rfl)).append ?_
  cases hvalue : d.identity with
  | named kind other => exact .nil
  | anonymous value =>
    simp only [Identity.map, Code.isEmpty_map]
    split
    · exact .nil
    · have hfits := h.codes value (by simp [codes, hvalue, Identity.arguments?])
      exact .cons rfl (hfits.stream statics)

theorem arranged_supertypesStream {f : Frame} {ts : List TypeRef} (h : ∀ t ∈ ts, t.Named blame) :
    Arranged blame f f (supertypesStream ts) (supertypesStream ts) := by
  cases ts with
  | nil => exact .nil
  | cons t rest => exact .cons rfl (TypeRef.arranged_streamAll h)

theorem named_base (h : ∀ t ∈ d.supertypes, t.Named blame) : (d.map w).base.Named blame := by
  have hobject : TypeRef.object.Named blame := by
    simp [TypeRef.Named, TypeRef.object, TypeRef.classNames]
  unfold base
  split
  · next first rest hinterfaces =>
    have hinterfaces : d.interfaces = first :: rest := hinterfaces
    refine h first ?_
    unfold supertypes
    split <;> simp [hinterfaces]
  · show (d.superclass.getD .object).Named blame
    cases hsuper : d.superclass with
    | none => exact hobject
    | some t => exact h t (by simp [supertypes, hsuper])

theorem arranged_headStream (hshuffled : d.Shuffled d') (h : d.Fits blame w w')
    (implied : List Modifier) :
    Arranged blame ⟨k, false⟩ ⟨k, false⟩ ((d.map w).headStream statics implied)
      ((d'.map w').headStream statics implied) := by
  have hsuper : ∀ t ∈ d.supertypes, t.Named blame := fun t ht =>
    h.types t (by simp only [typeRefs, List.mem_append]; grind)
  have hbase := (d.map w).base.arranged (f := ⟨k, false⟩) (named_base hsuper)
  have hdoc := (h.codes d.doc (by simp [codes])).docStream statics (d := k)
  have hconstraints := TypeVariable.arranged_constraints (f := ⟨k, false⟩)
    d.typeVariables fun t ht => h.types t (by simp only [typeRefs, List.mem_append]; grind)
  simp only [headStream, supertypes_map, hshuffled.supertypes_eq]
  obtain ⟨_, hattributes, -, -, -, -, -⟩ := hshuffled
  have hattributes := arranged_attributes statics (k := k) h hattributes
  simp only [Declaration.map]
  cases hcase : d.identity with
  | anonymous arguments =>
    have hfits := h.codes arguments (by simp [codes, hcase, Identity.arguments?])
    exact .cons rfl (hbase.append (.cons rfl ((hfits.stream statics).concat rfl)))
  | named kind name =>
    exact .scope _ (.refl _) (((((((hdoc.append hattributes).append
      (d.modifiers.arranged_stream _)).append (.cons rfl (.cons rfl (.plain rfl)))).append
      (TypeVariable.arranged_streamList d.typeVariables)).append
      (arranged_supertypesStream hsuper)).append hconstraints).append (.plain rfl))

theorem arranged_constantsStream {f : Frame} {cs : List (String × ι)}
    (h : ∀ e ∈ cs, (w e.2).Alike blame (w' e.2)) :
    Arranged blame f f (constantsStream (cs.map fun (name, value) => (name, w value)))
      (constantsStream (cs.map fun (name, value) => (name, w' value))) := by
  induction cs with
  | nil => exact .nil
  | cons e rest ih =>
    have hfirst := (h e (by simp)).constant e.1 f
    have hrest := ih fun e' he' => h e' (List.mem_cons_of_mem _ he')
    cases rest with
    | nil => exact hfirst
    | cons next rest => exact hfirst.append (.cons rfl hrest)

/-! ### The members of a declaration -/

theorem members_map (w : ι → Emission) (d : Declaration ι) : (d.map w).members statics =
    (if d.constants.isEmpty then []
      else [constantsStream (d.constants.map fun (name, value) => (name, w value))
        ++ [.text "\n"]])
    ++ (d.fields.filter Field.isStatic).map (fun x =>
      (x.map w).stream statics Emission.embedded d.kind.impliedOnFields)
    ++ (if d.staticBlock.isEmpty then []
      else [.text "static " :: .text (d.name?.getD "") :: .text "() \x7b\n"
        :: (d.staticBlock.map w).bodyStream statics Emission.embedded])
    ++ (d.fields.filter fun x => !x.isStatic).map (fun x =>
      (x.map w).stream statics Emission.embedded d.kind.impliedOnFields)
    ++ (if d.initializerBlock.isEmpty then []
      else [.text "\x7b\n" :: (d.initializerBlock.map w).bodyStream statics Emission.embedded])
    ++ d.methods.map (fun m =>
      (m.map w).stream statics Emission.embedded d.name? d.kind.impliedOnMethods)
    ++ d.properties.map (fun p =>
      (p.map w).stream statics Emission.embedded d.kind.impliedOnMethods)
    ++ d.extras.map (fun c => (c.map w).stream statics Emission.embedded)
    ++ d.types.map fun i => (w i).member d.kind.impliedOnTypes := by
  have hstatic : Field.isStatic ∘ Field.map w = Field.isStatic := rfl
  have hinstance : (fun x : Field Emission => !x.isStatic) ∘ Field.map w
      = fun x => !x.isStatic := rfl
  simp only [members, kind_map, name?_map]
  simp only [Declaration.map, List.isEmpty_map, Code.isEmpty_map, List.filter_map, hstatic,
    hinstance, List.map_map, Function.comp_def]

/-- **The members of a layer are written alike one by one.** -/
theorem forall₂_members (h : d.Fits blame w w') :
    ((d.map w).members statics).Forall₂ (Arranged blame ⟨k, false⟩ ⟨k, false⟩)
      ((d.map w').members statics) := by
  have hfields : ∀ x ∈ d.fields, Arranged blame ⟨k, false⟩ ⟨k, false⟩
      ((x.map w).stream statics Emission.embedded d.kind.impliedOnFields)
      ((x.map w').stream statics Emission.embedded d.kind.impliedOnFields) := by
    intro x hx
    exact Field.arranged statics (fun t ht => h.types t (typeRefs_of_field hx ht))
      (fun c hc => h.codes c (codes_of_field hx hc)) (h.faults x hx) _
  have hmethods : ∀ m ∈ d.methods, Arranged blame ⟨k, false⟩ ⟨k, false⟩
      ((m.map w).stream statics Emission.embedded d.name? d.kind.impliedOnMethods)
      ((m.map w').stream statics Emission.embedded d.name? d.kind.impliedOnMethods) := by
    intro m hm
    exact Method.arranged statics (fun t ht => h.types t (typeRefs_of_method hm ht))
      (fun c hc => h.codes c (codes_of_method hm hc)) _ _
  have hproperties : ∀ p ∈ d.properties, Arranged blame ⟨k, false⟩ ⟨k, false⟩
      ((p.map w).stream statics Emission.embedded d.kind.impliedOnMethods)
      ((p.map w').stream statics Emission.embedded d.kind.impliedOnMethods) := by
    intro p hp
    exact Property.arranged statics (fun t ht => h.types t (typeRefs_of_property hp ht))
      (fun c hc => h.codes c (codes_of_property hp hc)) _
  have hextras : ∀ c ∈ d.extras, c.Fits blame w w' := fun c hc =>
    h.codes c (codes_of_extras hc)
  have hconstants : ∀ e ∈ d.constants, (w e.2).Alike blame (w' e.2) := fun e he =>
    h.inner e.2 (List.mem_append_left _ (List.mem_append_right _ (List.mem_map_of_mem he)))
  have hstatic := (h.codes d.staticBlock (by simp [codes])).bodyStream statics (d := k)
  have hinitializer := (h.codes d.initializerBlock (by simp [codes])).bodyStream statics (d := k)
  rw [members_map, members_map]
  refine List.rel_append (List.rel_append (List.rel_append (List.rel_append (List.rel_append
    (List.rel_append (List.rel_append (List.rel_append ?_ ?_) ?_) ?_) ?_) ?_) ?_) ?_) ?_
  · split
    · exact .nil
    · exact .cons ((arranged_constantsStream hconstants).concat rfl) .nil
  · exact Arranged.forall₂_map fun x hx => hfields x (List.mem_filter.mp hx).1
  · split
    · exact .nil
    · exact .cons (.cons rfl (.cons rfl (.cons rfl hstatic))) .nil
  · exact Arranged.forall₂_map fun x hx => hfields x (List.mem_filter.mp hx).1
  · split
    · exact .nil
    · exact .cons (.cons rfl hinitializer) .nil
  · exact Arranged.forall₂_map hmethods
  · exact Arranged.forall₂_map hproperties
  · exact Arranged.forall₂_map fun c hc => (hextras c hc).stream statics
  · exact Arranged.forall₂_map fun i hi =>
      (h.inner i (List.mem_append_right _ hi)).member _ _

theorem Shuffled.members_perm (h : d.Shuffled d') :
    ((d.map w).members statics).Perm ((d'.map w).members statics) := by
  obtain ⟨_, -, hfields, hmethods, hproperties, hextras, htypes⟩ := h
  rw [members_map, members_map]
  exact ((((((((List.Perm.refl _).append ((hfields.filter _).map _)).append (.refl _)).append
    ((hfields.filter _).map _)).append (.refl _)).append (hmethods.map _)).append
    (hproperties.map _)).append (hextras.map _)).append (htypes.map _)

/-- A layer without the statement put aside around it. -/
theorem Shuffled.arranged_stream (hshuffled : d.Shuffled d') (h : d.Fits blame w w')
    (implied : List Modifier) :
    Arranged blame ⟨k, false⟩ ⟨k, false⟩ ((d.map w).stream statics implied)
      ((d'.map w').stream statics implied) := by
  have hname : d'.name? = d.name? := by
    obtain ⟨⟩ := hshuffled
    rfl
  have hmembers : Arranged blame ⟨k + 1, false⟩ ⟨k + 1, false⟩
      (separated ((d.map w).members statics)) (separated ((d'.map w').members statics)) := by
    refine (Arranged.separated (forall₂_members statics h)).trans
      (Arranged.separated_perm (hshuffled.members_perm statics) ?_)
    exact List.forall₂_same.mp (forall₂_members statics h.right)
  have hnested : ((d.map w).types.filterMap Emission.name).Perm
      ((d'.map w').types.filterMap Emission.name) := by
    have hsame : (d.types.map w).filterMap Emission.name
        = (d.types.map w').filterMap Emission.name := by
      simp only [List.filterMap_map, Function.comp_def]
      refine List.filterMap_congr ?_
      intro i hi
      exact (h.inner i (List.mem_append_right _ hi)).name
    have hperm : d.types.Perm d'.types := by
      obtain ⟨_, -, -, -, -, -, htypes⟩ := hshuffled
      exact htypes
    show ((d.types.map w).filterMap Emission.name).Perm ((d'.types.map w').filterMap Emission.name)
    rw [hsame]
    exact (hperm.map w').filterMap _
  have hend : Arranged blame ⟨k, false⟩ ⟨k, false⟩
      (if (d.map w).isAnonymous then [] else [.text "\n"])
      (if (d'.map w').isAnonymous then [] else [.text "\n"]) := by
    have hanonymous : (d'.map w').isAnonymous = (d.map w).isAnonymous := by
      show (d'.map w').name?.isNone = (d.map w).name?.isNone
      rw [name?_map, name?_map, hname]
    rw [hanonymous]
    split
    · exact .nil
    · exact .plain rfl
  have hbody := Arranged.scope d.name? hnested (Arranged.indent.append hmembers)
  simp only [stream, name?_map, hname]
  exact (((arranged_headStream statics hshuffled h implied).append hbody).append
    (Arranged.unindent.append (.plain rfl))).append hend

/-- **A layer is written alike** under both readings of its inner declarations and with
    its members in any order. -/
theorem Shuffled.alike (hshuffled : d.Shuffled d') (h : d.Fits blame w w') :
    ((d.map w).emission statics).Alike blame ((d'.map w').emission statics) := by
  have hvariables : d'.typeVariables = d.typeVariables := by
    obtain ⟨⟩ := hshuffled
    rfl
  have hname : d'.name? = d.name? := by
    obtain ⟨⟩ := hshuffled
    rfl
  refine ⟨?_, ?_, ?_⟩
  · show (d.map w).name? = (d'.map w').name?
    rw [name?_map, name?_map, hname]
  · rintro name ⟨k, b⟩
    simp only [emission, framed]
    show Arranged blame _ _ (.suspendStatement :: (withVariables d.typeVariables _ ++ _))
      (.suspendStatement :: (withVariables d'.typeVariables _ ++ _))
    rw [hvariables]
    exact .aside (.typeVars _ (arranged_constantStream statics hshuffled h name))
  · rintro implied ⟨k, b⟩
    simp only [emission, framed]
    show Arranged blame _ _ (.suspendStatement :: (withVariables d.typeVariables _ ++ _))
      (.suspendStatement :: (withVariables d'.typeVariables _ ++ _))
    rw [hvariables]
    exact .aside (.typeVars _ (hshuffled.arranged_stream statics h implied))

end Declaration

/-! ### Whole declarations -/

/-- The types that a layer refers to, in its declarations and in its code. -/
def Declaration.classNames {δ : Type} (d : Declaration δ) : List ClassName :=
  d.typeRefs.flatMap TypeRef.classNames ++ d.codes.flatMap Code.classNames

namespace TypeDecl

/-- The blocks of the declaration are sound, at every depth. -/
inductive Sound : TypeDecl → Prop
  | of {d : Declaration TypeDecl} (codes : ∀ c ∈ d.codes, c.Sound False)
      (inner : ∀ t ∈ d.inner, Sound t) : Sound (.of d)

/-- The first declaration is the second one, or stands somewhere inside it. -/
inductive Within : TypeDecl → TypeDecl → Prop
  | self (t : TypeDecl) : Within t t
  | inner {t u v : TypeDecl} (hu : u ∈ t.layer.inner) (hv : Within v u) : Within v t

/-- What the declaration and those inside it refer to may be blamed. -/
structure Covered (blame : Blame) (t : TypeDecl) : Prop where
  names : ∀ u : TypeDecl, u.Within t → ∀ n ∈ u.layer.classNames, blame.names n
  faults : ∀ u : TypeDecl, u.Within t →
    ∀ x ∈ u.layer.fields, x.opensStatement = true → blame.faults

theorem Covered.inner {blame : Blame} {t u : TypeDecl} (h : t.Covered blame)
    (hu : u ∈ t.layer.inner) : u.Covered blame :=
  ⟨fun v hv => h.names v (.inner hu hv), fun v hv => h.faults v (.inner hu hv)⟩

/-- A layer whose blocks are sound and whose inner declarations are well arranged fits. -/
theorem Covered.fits {blame : Blame} {w : TypeDecl → Emission} {d : Declaration TypeDecl}
    (h : (TypeDecl.of d).Covered blame) (hcodes : ∀ c ∈ d.codes, c.Sound False)
    (hinner : ∀ u ∈ d.inner, (w u).Alike blame (w u)) : d.Fits blame w w := by
  have hnames := h.names _ (.self _)
  refine ⟨?_, ?_, h.faults _ (.self _), hinner⟩
  · intro t ht n hn
    exact hnames n (List.mem_append_left _ (List.mem_flatMap.mpr ⟨t, ht, hn⟩))
  · intro c hc
    refine ⟨hcodes c hc, ?_, ?_⟩
    · intro n hn
      exact hnames n (List.mem_append_right _ (List.mem_flatMap.mpr ⟨c, hc, hn⟩))
    · intro u hu
      exact hinner u (List.mem_append_left _ (List.mem_append_left _
        (List.mem_flatMap.mpr ⟨c, hc, hu⟩)))

/-- **Every sound declaration is well arranged.** -/
theorem Sound.alike (statics : List ClassName) {blame : Blame} {t : TypeDecl} (h : t.Sound)
    (hcovered : t.Covered blame) :
    (t.emission statics).Alike blame (t.emission statics) := by
  induction h with
  | @of d hcodes _ ih =>
    have halike : ∀ u ∈ d.inner, (u.emission statics).Alike blame (u.emission statics) :=
      fun u hu => ih u hu (hcovered.inner hu)
    rw [emission, fold_of]
    exact Declaration.Shuffled.alike statics (.refl d) (hcovered.fits hcodes halike)

end TypeDecl

end CSharpGen
