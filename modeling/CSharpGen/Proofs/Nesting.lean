/-
  CSharpGen/Proofs/Nesting.lean
  =============================
  **Declarations are written inside one another.**  The instructions for a
  declaration leave every scope that they enter, and all references between
  stand inside what was around the declaration (`Contained`).  Blocks, members
  and whole layers are put together from such stretches, so by induction over
  declarations all of them are contained (`TypeDecl.sealed_emission`).

  The result for a file is that behind its comment nothing is open, and that
  everything its type refers to stands inside that type
  (`SourceFile.outermost_scope`).
-/
import CSharpGen.Proofs.Layers
import CSharpGen.Proofs.Passes

namespace CSharpGen

/-! ### Contained stretches -/

/-- Whether an instruction leaves the declarations and type variables around it alone. -/
def Instruction.isFlat : Instruction → Bool
  | .enterScope _ | .leaveScope | .enterVariables _ | .leaveVariables => false
  | _ => true

theorem Position.after_of_isFlat {i : Instruction} (h : i.isFlat = true) (p : Position) :
    (p.after i).scopes = p.scopes ∧ (p.after i).typeVars = p.typeVars := by
  cases i with
  | enterScope | leaveScope | enterVariables | leaveVariables => cases h
  | _ => exact ⟨rfl, rfl⟩

/-- Instructions that leave what they enter, with all references inside what is around
    them. -/
structure Contained (s : Stream) : Prop where
  scopes : ∀ p : Position, (s.foldl Position.after p).scopes = p.scopes
  typeVars : ∀ p : Position, (s.foldl Position.after p).typeVars = p.typeVars
  inside : ∀ p : Position, ∀ r ∈ sites p s,
    p.scopes <:+ r.scopes ∧ p.typeVars <:+ r.typeVars

namespace Contained

theorem nil : Contained [] where
  scopes := fun _ => rfl
  typeVars := fun _ => rfl
  inside := by
    intro p r hr
    cases hr

theorem append {s t : Stream} (hs : Contained s) (ht : Contained t) : Contained (s ++ t) where
  scopes := fun p => by rw [List.foldl_append, ht.scopes, hs.scopes]
  typeVars := fun p => by rw [List.foldl_append, ht.typeVars, hs.typeVars]
  inside := by
    intro p r hr
    rw [sites_append] at hr
    rcases List.mem_append.mp hr with hr | hr
    · exact hs.inside p r hr
    · have hin := ht.inside _ r hr
      rw [hs.scopes, hs.typeVars] at hin
      exact hin

theorem of_isFlat {i : Instruction} (h : i.isFlat = true) : Contained [i] where
  scopes := fun p => (Position.after_of_isFlat h p).1
  typeVars := fun p => (Position.after_of_isFlat h p).2
  inside := by
    intro p r hr
    cases i with
    | reference c =>
      cases List.mem_singleton.mp hr
      exact ⟨List.suffix_refl _, List.suffix_refl _⟩
    | _ => cases hr

theorem cons {i : Instruction} {s : Stream} (h : i.isFlat = true) (hs : Contained s) :
    Contained (i :: s) :=
  (of_isFlat h).append hs

theorem of_text {text : String} {s : Stream} (h : Contained (.text text :: s)) : Contained s :=
  ⟨h.scopes, h.typeVars, h.inside⟩

theorem flat {s : Stream} (h : ∀ i ∈ s, i.isFlat = true) : Contained s := by
  induction s with
  | nil => exact nil
  | cons i rest ih =>
    refine cons (h i (by simp)) (ih ?_)
    intro j hj
    exact h j (List.mem_cons_of_mem _ hj)

theorem flatMap {α : Type} {f : α → Stream} {as : List α} (h : ∀ a ∈ as, Contained (f a)) :
    Contained (as.flatMap f) := by
  induction as with
  | nil => exact nil
  | cons a rest ih =>
    rw [List.flatMap_cons]
    refine (h a (by simp)).append (ih ?_)
    intro b hb
    exact h b (List.mem_cons_of_mem _ hb)

theorem commaSeparated {ss : List Stream} (h : ∀ s ∈ ss, Contained s) :
    Contained (commaSeparated ss) := by
  fun_induction CSharpGen.commaSeparated ss with
  | case1 => exact nil
  | case2 s => exact h s (by simp)
  | case3 s t rest ih =>
    refine (h s (by simp)).append (cons rfl (cons rfl (ih ?_)))
    intro u hu
    exact h u (List.mem_cons_of_mem _ hu)

theorem separated {ss : List Stream} (h : ∀ s ∈ ss, Contained s) : Contained (separated ss) := by
  fun_induction CSharpGen.separated ss with
  | case1 => exact nil
  | case2 s => exact h s (by simp)
  | case3 s t rest ih =>
    refine (h s (by simp)).append (cons rfl (ih ?_))
    intro u hu
    exact h u (List.mem_cons_of_mem _ hu)

/-- References inside a scope stand inside that scope. -/
theorem inside_withScope {s : Stream} (hs : Contained s) {name : Option String}
    {nested : List String} {p : Position} {r : Site} (hr : r ∈ sites p (withScope name nested s)) :
    (⟨name, nested⟩ :: p.scopes) <:+ r.scopes ∧ p.typeVars <:+ r.typeVars := by
  have hsplit : sites p (withScope name nested s)
      = sites (p.after (.enterScope ⟨name, nested⟩)) s := by
    simp [withScope, sites, sites_append, Position.site?]
  rw [hsplit] at hr
  exact hs.inside _ r hr

theorem withScope {s : Stream} (hs : Contained s) (name : Option String) (nested : List String) :
    Contained (withScope name nested s) where
  scopes := fun p => by
    simp only [CSharpGen.withScope, List.foldl_cons, List.foldl_append, List.foldl_nil]
    simp [Position.after, hs.scopes]
  typeVars := fun p => by
    simp only [CSharpGen.withScope, List.foldl_cons, List.foldl_append, List.foldl_nil]
    simp [Position.after, hs.typeVars]
  inside := by
    intro p r hr
    obtain ⟨hscopes, hvariables⟩ := hs.inside_withScope hr
    exact ⟨(List.suffix_cons _ _).trans hscopes, hvariables⟩

theorem withVariables {s : Stream} (hs : Contained s) (vs : List TypeVariable) :
    Contained (withVariables vs s) where
  scopes := fun p => by
    simp only [CSharpGen.withVariables, List.foldl_cons, List.foldl_append, List.foldl_nil]
    simp [Position.after, hs.scopes]
  typeVars := fun p => by
    simp only [CSharpGen.withVariables, List.foldl_cons, List.foldl_append, List.foldl_nil]
    simp [Position.after, hs.typeVars]
  inside := by
    intro p r hr
    have hsplit : sites p (CSharpGen.withVariables vs s)
        = sites (p.after (.enterVariables (vs.map TypeVariable.name))) s := by
      simp [CSharpGen.withVariables, sites, sites_append, Position.site?]
    rw [hsplit] at hr
    obtain ⟨hscopes, hvariables⟩ := hs.inside _ r hr
    exact ⟨hscopes, (List.suffix_cons _ _).trans hvariables⟩

end Contained

/-! ### Types -/

mutual

theorem TypeRef.isFlat_of_mem_stream : ∀ t : TypeRef, ∀ i ∈ t.stream, i.isFlat = true
  | .builtIn _ | .named _ | .typeVariable _ => by simp [TypeRef.stream, Instruction.isFlat]
  | .generic _ args => by
    have hargs := TypeRef.isFlat_of_mem_streamAll args
    simp only [TypeRef.stream, List.mem_cons, List.mem_append]
    grind [Instruction.isFlat]
  | .array t | .nullable t => by
    have ht := TypeRef.isFlat_of_mem_stream t
    simp only [TypeRef.stream, List.mem_append, List.mem_singleton]
    grind [Instruction.isFlat]

theorem TypeRef.isFlat_of_mem_streamAll :
    ∀ ts : List TypeRef, ∀ i ∈ TypeRef.streamAll ts, i.isFlat = true
  | [] => by simp [TypeRef.streamAll]
  | [t] => by simpa [TypeRef.streamAll] using TypeRef.isFlat_of_mem_stream t
  | t :: u :: rest => by
    have ht := TypeRef.isFlat_of_mem_stream t
    have hrest := TypeRef.isFlat_of_mem_streamAll (u :: rest)
    simp only [TypeRef.streamAll, List.mem_append, List.mem_cons]
    grind [Instruction.isFlat]

end

theorem TypeRef.contained_stream (t : TypeRef) : Contained t.stream :=
  .flat t.isFlat_of_mem_stream

theorem TypeRef.contained_streamAll (ts : List TypeRef) : Contained (TypeRef.streamAll ts) :=
  .flat (TypeRef.isFlat_of_mem_streamAll ts)

theorem TypeVariable.contained_streamList (vs : List TypeVariable) :
    Contained (TypeVariable.streamList vs) := by
  have hnames : ∀ i ∈ TypeVariable.streamNames vs, i.isFlat = true := by
    fun_induction TypeVariable.streamNames vs with
    | case1 => simp
    | case2 v => simp [Instruction.isFlat]
    | case3 v u rest ih => simpa [Instruction.isFlat] using ih
  unfold TypeVariable.streamList
  split
  · exact .nil
  · exact .cons rfl ((Contained.flat hnames).append (.of_isFlat rfl))

theorem TypeVariable.contained_constraint (v : TypeVariable) : Contained v.constraint := by
  unfold TypeVariable.constraint
  split
  · exact .nil
  · exact .cons rfl (.cons rfl (.cons rfl (TypeRef.contained_streamAll v.bounds)))

theorem ModifierSet.contained_stream (s : ModifierSet) (implied : List Modifier) :
    Contained (s.stream implied) := by
  apply Contained.flatMap
  intro m _
  exact .cons rfl (.of_isFlat rfl)

/-! ### Code -/

section Code

variable {δ : Type} (statics : List ClassName) (emit : δ → Stream)

theorem Part.streamAll_text (text : String) (ps : List (Part δ)) :
    Part.streamAll statics emit (.text text :: ps)
      = .text text :: Part.streamAll statics emit ps := by
  rw [Part.streamAll]
  · rfl
  · simp

/-- Parts are written one after another, except that a type may be left out before its
    static member. -/
theorem Part.streamAll_cons (p : Part δ) (ps : List (Part δ)) :
    Part.streamAll statics emit (p :: ps)
        = p.stream statics emit ++ Part.streamAll statics emit ps
      ∨ ∃ rest more member, ps = .text rest :: more
        ∧ Part.streamAll statics emit (p :: ps)
          = .text member :: Part.streamAll statics emit more := by
  rw [Part.streamAll.eq_def]
  split
  · next heq => cases heq
  · next c rest more heq =>
    obtain ⟨rfl, rfl⟩ := List.cons.inj heq
    split
    · next member _ => exact Or.inr ⟨rest, more, member, rfl, rfl⟩
    · refine Or.inl ?_
      rw [Part.streamAll_text, Part.stream]
      rfl
  · next heq =>
    obtain ⟨rfl, rfl⟩ := List.cons.inj heq
    exact Or.inl rfl

/-- Every declaration embedded in the block is written as contained instructions. -/
def Code.Sealed (c : Code δ) : Prop := ∀ d ∈ c.declarations, Contained (emit d)

mutual

theorem Part.contained_stream : ∀ p : Part δ, (∀ d ∈ p.declarations, Contained (emit d)) →
    Contained (p.stream statics emit)
  | .text _, _ | .name _, _ | .quoted (some _), _ | .quoted none, _ | .indent, _ | .unindent, _
  | .openStatement, _ | .closeStatement, _ | .wrapSpace, _ | .wrapPoint, _ => by
    rw [Part.stream]
    exact .of_isFlat rfl
  | .type t, _ => by
    rw [Part.stream]
    exact t.contained_stream
  | .block c, h => by
    rw [Part.stream]
    exact Code.contained_stream c (by simpa [Part.declarations, Code.Sealed] using h)
  | .declaration d, h => by
    rw [Part.stream]
    exact h d (by simp [Part.declarations])

theorem Code.contained_stream : ∀ c : Code δ, c.Sealed emit → Contained (c.stream statics emit)
  | ⟨parts, _⟩, h => by
    rw [Code.stream]
    exact Part.contained_streamAll parts (by simpa [Code.declarations, Code.Sealed] using h)

theorem Part.contained_streamAll : ∀ ps : List (Part δ),
    (∀ d ∈ Part.declarationsAll ps, Contained (emit d)) →
    Contained (Part.streamAll statics emit ps)
  | [], _ => by
    rw [Part.streamAll]
    exact .nil
  | p :: ps, h => by
    have hp := Part.contained_stream p fun d hd => h d (by simp [Part.declarationsAll, hd])
    have hps := Part.contained_streamAll ps fun d hd => h d (by simp [Part.declarationsAll, hd])
    rcases Part.streamAll_cons statics emit p ps with heq | ⟨rest, more, member, rfl, heq⟩
    · rw [heq]
      exact hp.append hps
    · rw [heq]
      rw [Part.streamAll_text] at hps
      exact .cons rfl hps.of_text

end

end Code

/-! ### Members -/

section Members

variable {δ : Type} (statics : List ClassName) {emit : δ → Stream}

theorem Code.contained_docStream {c : Code δ} (h : c.Sealed emit) :
    Contained (c.docStream statics emit) := by
  unfold Code.docStream
  split
  · exact .nil
  · exact .cons rfl ((c.contained_stream statics emit h).append (.of_isFlat rfl))

theorem Code.contained_commentStream {c : Code δ} (h : c.Sealed emit) :
    Contained (c.commentStream statics emit) := by
  unfold Code.commentStream
  split
  · exact .nil
  · exact .cons rfl ((c.contained_stream statics emit h).append (.of_isFlat rfl))

theorem Code.contained_bodyStream {c : Code δ} (h : c.Sealed emit) :
    Contained (c.bodyStream statics emit) :=
  .cons rfl ((c.contained_stream statics emit h).append (.cons rfl (.of_isFlat rfl)))

theorem Attribute.contained_streamAll (sep : String) (as : List (Attribute δ))
    (h : ∀ c ∈ as.flatMap Attribute.codes, c.Sealed emit) :
    Contained (Attribute.streamAll statics emit sep as) := by
  apply Contained.flatMap
  intro a ha
  have hcodes : ∀ c ∈ a.codes, Contained (c.stream statics emit) := by
    intro c hc
    exact c.contained_stream statics emit (h c (List.mem_flatMap.mpr ⟨a, ha, hc⟩))
  refine Contained.append (.cons rfl ((a.type.contained_stream.append ?_).append ?_)) ?_
  · split
    · exact .nil
    · refine .cons rfl (Contained.append (.commaSeparated ?_) (.of_isFlat rfl))
      intro s hs
      rcases List.mem_append.mp hs with hs | hs
      · obtain ⟨value, hvalue, rfl⟩ := List.mem_map.mp hs
        exact hcodes value (List.mem_append_left _ hvalue)
      · obtain ⟨⟨name, value⟩, hvalue, rfl⟩ := List.mem_map.mp hs
        have hmem : value ∈ a.codes :=
          List.mem_append_right _ (List.mem_map.mpr ⟨(name, value), hvalue, rfl⟩)
        exact .cons rfl (.cons rfl (hcodes value hmem))
  · exact .of_isFlat rfl
  · exact .of_isFlat rfl

theorem Contained.optional (lead : String) (o : Option (Code δ)) :
    (∀ c ∈ o.toList, c.Sealed emit) →
    Contained (match o with
      | some value => .text lead :: value.stream statics emit
      | none => []) := by
  intro h
  cases o with
  | none => exact .nil
  | some value => exact .cons rfl (value.contained_stream statics emit (h value (by simp)))

theorem Parameter.contained_streamAll (ps : List (Parameter δ))
    (h : ∀ c ∈ ps.flatMap Parameter.codes, c.Sealed emit) :
    Contained (Parameter.streamAll statics emit ps) := by
  apply Contained.commaSeparated
  intro s hs
  obtain ⟨p, hp, rfl⟩ := List.mem_map.mp hs
  have hcodes : ∀ c ∈ p.codes, c.Sealed emit := by
    intro c hc
    exact h c (List.mem_flatMap.mpr ⟨p, hp, hc⟩)
  have hattributes := Attribute.contained_streamAll statics " " p.attributes fun c hc =>
    hcodes c (List.mem_append_left _ hc)
  have hdefault := Contained.optional statics " = " p.defaultValue fun c hc =>
    hcodes c (List.mem_append_right _ hc)
  exact (((hattributes.append (p.modifiers.contained_stream [])).append
    p.type.contained_stream).append (.cons rfl (.of_isFlat rfl))).append hdefault

theorem Field.contained_stream {x : Field δ} (h : ∀ c ∈ x.codes, c.Sealed emit)
    (implied : List Modifier) : Contained (x.stream statics emit implied) := by
  have hdoc := Code.contained_docStream statics (h x.doc (by simp [Field.codes]))
  have hattributes := Attribute.contained_streamAll statics "\n" x.attributes fun c hc =>
    h c (by simp only [Field.codes, List.mem_cons, List.mem_append]; exact Or.inr (Or.inl hc))
  have hstatement : Contained (x.statementStream statics emit) := by
    unfold Field.statementStream
    split
    · next value hvalue =>
      split
      · exact .of_isFlat rfl
      · have hstream := value.contained_stream statics emit
          (h value (by simp [Field.codes, hvalue]))
        exact .cons rfl (((x.type.contained_stream.append
          (.cons rfl (.cons rfl (.of_isFlat rfl)))).append hstream).append (.of_isFlat rfl))
    · exact .cons rfl (x.type.contained_stream.append (.cons rfl (.cons rfl (.of_isFlat rfl))))
  exact ((hdoc.append hattributes).append (x.modifiers.contained_stream implied)).append hstatement

theorem Method.contained_headStream (m : Method δ) (enclosing : Option String)
    (implied : List Modifier) : Contained (m.headStream enclosing implied) := by
  have hmodifiers := fun implied => m.modifiers.contained_stream implied
  unfold Method.headStream
  split
  · exact (hmodifiers _).append (.of_isFlat rfl)
  · refine (hmodifiers _).append ?_
    split
    · exact .of_isFlat rfl
    · exact m.returns.contained_stream
  · exact ((hmodifiers _).append m.returns.contained_stream).append (.cons rfl (.of_isFlat rfl))
  · exact (((hmodifiers _).append m.returns.contained_stream).append
      (.cons rfl (.of_isFlat rfl))).append (TypeVariable.contained_streamList m.typeVariables)

theorem Method.contained_stream {m : Method δ} (h : ∀ c ∈ m.codes, c.Sealed emit)
    (enclosing : Option String) (implied : List Modifier) :
    Contained (m.stream statics emit enclosing implied) := by
  have hdoc := Code.contained_docStream statics (h m.doc (by simp [Method.codes]))
  have hattributes := Attribute.contained_streamAll statics "\n" m.attributes fun c hc =>
    h c (by simp only [Method.codes, List.mem_cons, List.mem_append]; grind)
  have hparameters := Parameter.contained_streamAll statics m.parameters fun c hc =>
    h c (by simp only [Method.codes, List.mem_cons, List.mem_append]; grind)
  have hchained := Contained.optional statics " : " m.chained fun c hc =>
    h c (by simp only [Method.codes, List.mem_cons, List.mem_append]; grind)
  have hconstraints : Contained (m.typeVariables.flatMap TypeVariable.constraint) :=
    .flatMap fun v _ => v.contained_constraint
  have hbody : Contained (if m.isBodiless implied then [.text ";\n"]
      else .text " \x7b\n" :: m.body.bodyStream statics emit) := by
    split
    · exact .of_isFlat rfl
    · exact .cons rfl (Code.contained_bodyStream statics (h m.body (by simp [Method.codes])))
  exact ((((((((hdoc.append hattributes).append (m.contained_headStream enclosing implied)).append
    (.of_isFlat rfl)).append hparameters).append (.of_isFlat rfl)).append hchained).append
    hconstraints).append hbody).withVariables m.typeVariables

theorem Code.contained_arrowStream {c : Code δ} (h : c.Sealed emit) :
    Contained (c.arrowStream statics emit) :=
  .cons rfl ((c.contained_stream statics emit h).append (.of_isFlat rfl))

theorem Code.Sealed.singleExpression {c e : Code δ} (h : c.Sealed emit)
    (he : c.singleExpression? = some e) : e.Sealed emit :=
  fun d hd => h d (Code.declarations_singleExpression? he d hd)

theorem contained_accessorStream (keyword : String) {body : Code δ} (h : body.Sealed emit) :
    Contained (accessorStream statics emit keyword body) := by
  refine .cons rfl ?_
  split
  · exact .of_isFlat rfl
  · split
    · next expression hexpression =>
      exact (Code.contained_arrowStream statics (h.singleExpression hexpression))
    · exact .cons rfl (Code.contained_bodyStream statics h)

theorem Property.contained_accessorsStream {p : Property δ} (h : ∀ c ∈ p.codes, c.Sealed emit)
    (implied : List Modifier) : Contained (p.accessorsStream statics emit implied) := by
  have hinitializer : ∀ c ∈ p.initializer.toList, c.Sealed emit := by
    intro c hc
    exact h c (by simp only [Property.codes, List.mem_cons, List.mem_append]; grind)
  have hgetter : ∀ body, p.getter = some body → body.Sealed emit := by
    intro body hbody
    exact h body (by simp [Property.codes, hbody])
  have hsetter : ∀ body, p.setter = some body → body.Sealed emit := by
    intro body hbody
    exact h body (by simp [Property.codes, hbody])
  unfold Property.accessorsStream
  split
  · refine .cons rfl (((Contained.append (.flatMap ?_) (.of_isFlat rfl)).append ?_).append
      (.of_isFlat rfl))
    · rintro ⟨keyword, body⟩ _
      exact .cons rfl (.cons rfl (.of_isFlat rfl))
    · split
      · next value hvalue =>
        have hstream := value.contained_stream statics emit (hinitializer value (by simp [hvalue]))
        exact .cons rfl (hstream.append (.of_isFlat rfl))
      · exact .nil
  · next expression hform =>
    obtain ⟨body, hbody, hsingle⟩ := Option.bind_eq_some_iff.mp (p.getter_of_terse hform)
    exact Code.contained_arrowStream statics ((hgetter body hbody).singleExpression hsingle)
  · refine .cons rfl (.cons rfl (Contained.append (.flatMap ?_) (.cons rfl (.of_isFlat rfl))))
    rintro ⟨keyword, body⟩ hmem
    have hbody : body.Sealed emit := by
      rcases List.mem_append.mp hmem with hmem | hmem
      · obtain ⟨c, hc, heq⟩ := List.mem_map.mp hmem
        cases heq
        exact hgetter body (Option.mem_toList.mp hc)
      · obtain ⟨c, hc, heq⟩ := List.mem_map.mp hmem
        cases heq
        exact hsetter body (Option.mem_toList.mp hc)
    exact contained_accessorStream statics keyword hbody

theorem Property.contained_stream {p : Property δ} (h : ∀ c ∈ p.codes, c.Sealed emit)
    (implied : List Modifier) : Contained (p.stream statics emit implied) := by
  have hdoc := Code.contained_docStream statics (h p.doc (by simp [Property.codes]))
  have hattributes := Attribute.contained_streamAll statics "\n" p.attributes fun c hc =>
    h c (by simp only [Property.codes, List.mem_cons, List.mem_append]; grind)
  have hparameters := Parameter.contained_streamAll statics p.parameters fun c hc =>
    h c (by simp only [Property.codes, List.mem_cons, List.mem_append]; grind)
  refine Contained.append ?_ (Property.contained_accessorsStream statics h implied)
  refine Contained.append ((((hdoc.append hattributes).append
    (p.modifiers.contained_stream implied)).append p.type.contained_stream).append
    (.cons rfl (.of_isFlat rfl))) ?_
  split
  · exact .cons rfl (hparameters.append (.of_isFlat rfl))
  · exact .nil

end Members

/-! ### Whole declarations -/

/-- Wherever it stands, the declaration is written as contained instructions. -/
structure Emission.Sealed (e : Emission) : Prop where
  constant : ∀ name, Contained (e.constant name)
  member : ∀ implied, Contained (e.member implied)

namespace Declaration

variable (statics : List ClassName) {d : Declaration Emission}

theorem sealed_of_inner (h : ∀ e ∈ d.inner, e.Sealed) :
    ∀ c ∈ d.codes, c.Sealed Emission.embedded := by
  intro c hc e he
  refine (h e ?_).member []
  simp only [inner, List.mem_append, List.mem_flatMap]
  exact Or.inl (Or.inl ⟨c, hc, he⟩)

theorem contained_constantStream (h : ∀ c ∈ d.codes, c.Sealed Emission.embedded) (name : String) :
    Contained (d.constantStream statics name) := by
  have hdoc := Code.contained_docStream statics (h d.doc (by simp [codes]))
  have hattributes := Attribute.contained_streamAll statics "\n" d.attributes fun c hc =>
    h c (by simp only [codes, List.mem_cons, List.mem_append]; grind)
  refine ((hdoc.append hattributes).append (.of_isFlat rfl)).append ?_
  split
  · next value hidentity =>
    split
    · exact .nil
    · have hvalue := h value (by simp [codes, hidentity, Identity.arguments?])
      exact .cons rfl (value.contained_stream statics Emission.embedded hvalue)
  · exact .nil

theorem contained_supertypesStream (ts : List TypeRef) : Contained (supertypesStream ts) := by
  cases ts with
  | nil => exact .nil
  | cons t rest => exact .cons rfl (TypeRef.contained_streamAll (t :: rest))

/-- What stands before the members of a named type is inside a scope of that name. -/
theorem headStream_eq_withScope (h : ∀ c ∈ d.codes, c.Sealed Emission.embedded)
    (implied : List Modifier) {name : String} (hname : d.name? = some name) :
    ∃ s, d.headStream statics implied = withScope (some name) [] s ∧ Contained s := by
  unfold headStream
  split
  · next arguments hidentity => simp [name?, hidentity, Identity.name?] at hname
  · next kind other hidentity =>
    simp only [name?, hidentity, Identity.name?, Option.some.injEq] at hname
    subst hname
    refine ⟨_, rfl, ?_⟩
    have hdoc := Code.contained_docStream statics (h d.doc (by simp [codes]))
    have hattributes := Attribute.contained_streamAll statics "\n" d.attributes fun c hc =>
      h c (by simp only [codes, List.mem_cons, List.mem_append]; grind)
    have hconstraints : Contained (d.typeVariables.flatMap TypeVariable.constraint) :=
      .flatMap fun v _ => v.contained_constraint
    exact ((((((hdoc.append hattributes).append (ModifierSet.contained_stream _ _)).append
      (.cons rfl (.cons rfl (.of_isFlat rfl)))).append
      (TypeVariable.contained_streamList d.typeVariables)).append
      (contained_supertypesStream d.supertypes)).append hconstraints).append (.of_isFlat rfl)

theorem contained_headStream (h : ∀ c ∈ d.codes, c.Sealed Emission.embedded)
    (implied : List Modifier) : Contained (d.headStream statics implied) := by
  cases hname : d.name? with
  | some name =>
    obtain ⟨s, heq, hs⟩ := headStream_eq_withScope statics h implied hname
    rw [heq]
    exact hs.withScope _ _
  | none =>
    unfold headStream
    split
    · next arguments hidentity =>
      have harguments := h arguments (by simp [codes, hidentity, Identity.arguments?])
      exact .cons rfl (d.base.contained_stream.append (.cons rfl
        ((arguments.contained_stream statics Emission.embedded harguments).append
          (.of_isFlat rfl))))
    · next kind other hidentity => simp [name?, hidentity, Identity.name?] at hname

theorem contained_constantsStream (cs : Table Emission) (h : ∀ e ∈ cs.map Prod.snd, e.Sealed) :
    Contained (constantsStream cs) := by
  fun_induction constantsStream cs with
  | case1 => exact .nil
  | case2 name value => exact (h value (by simp)).constant name
  | case3 name value next rest ih =>
    refine ((h value (by simp)).constant name).append (.cons rfl (ih ?_))
    intro e he
    exact h e (List.mem_cons_of_mem _ he)

theorem contained_members (h : ∀ e ∈ d.inner, e.Sealed) :
    ∀ s ∈ d.members statics, Contained s := by
  have hcodes := sealed_of_inner h
  have hfields : ∀ x ∈ d.fields,
      Contained (x.stream statics Emission.embedded d.kind.impliedOnFields) := by
    intro x hx
    exact Field.contained_stream statics (fun c hc => hcodes c (codes_of_field hx hc)) _
  intro s hs
  simp only [members, List.mem_append] at hs
  rcases hs with (((((((hs | hs) | hs) | hs) | hs) | hs) | hs) | hs) | hs
  · split at hs
    · cases hs
    · cases List.mem_singleton.mp hs
      refine (contained_constantsStream d.constants ?_).append (.of_isFlat rfl)
      intro e he
      exact h e (by simp only [inner, List.mem_append]; exact Or.inl (Or.inr he))
  · obtain ⟨x, hx, rfl⟩ := List.mem_map.mp hs
    exact hfields x (List.mem_filter.mp hx).1
  · split at hs
    · cases hs
    · cases List.mem_singleton.mp hs
      exact .cons rfl (.cons rfl (.cons rfl
        (Code.contained_bodyStream statics (hcodes d.staticBlock (by simp [codes])))))
  · obtain ⟨x, hx, rfl⟩ := List.mem_map.mp hs
    exact hfields x (List.mem_filter.mp hx).1
  · split at hs
    · cases hs
    · cases List.mem_singleton.mp hs
      exact .cons rfl
        (Code.contained_bodyStream statics (hcodes d.initializerBlock (by simp [codes])))
  · obtain ⟨m, hm, rfl⟩ := List.mem_map.mp hs
    exact Method.contained_stream statics (fun c hc => hcodes c (codes_of_method hm hc)) _ _
  · obtain ⟨p, hp, rfl⟩ := List.mem_map.mp hs
    exact Property.contained_stream statics (fun c hc => hcodes c (codes_of_property hp hc)) _
  · obtain ⟨c, hc, rfl⟩ := List.mem_map.mp hs
    exact c.contained_stream statics Emission.embedded (hcodes c (codes_of_extras hc))
  · obtain ⟨t, ht, rfl⟩ := List.mem_map.mp hs
    exact (h t (List.mem_append_right _ ht)).member _

theorem contained_framed {s : Stream} (hs : Contained s) : Contained (d.framed s) :=
  .cons rfl ((hs.withVariables d.typeVariables).append (.of_isFlat rfl))

/-- **A layer is contained if its inner declarations are.** -/
theorem sealed_emission (h : ∀ e ∈ d.inner, e.Sealed) : (d.emission statics).Sealed where
  constant := fun name =>
    contained_framed (contained_constantStream statics (sealed_of_inner h) name)
  member := by
    intro implied
    refine contained_framed ?_
    have hbody : Contained (.indent :: separated (d.members statics)) :=
      .cons rfl (.separated (contained_members statics h))
    have hend : Contained (if d.isAnonymous then [] else [.text "\n"]) := by
      split
      · exact .nil
      · exact .of_isFlat rfl
    exact (((contained_headStream statics (sealed_of_inner h) implied).append
      (hbody.withScope _ _)).append (.cons rfl (.of_isFlat rfl))).append hend

end Declaration

/-- **Every declaration is written as contained instructions.** -/
theorem TypeDecl.sealed_emission (statics : List ClassName) (t : TypeDecl) :
    (t.emission statics).Sealed := by
  induction t using TypeDecl.induct with
  | h d ih =>
    rw [TypeDecl.emission, TypeDecl.fold_of]
    apply Declaration.sealed_emission
    rw [Declaration.inner_map]
    intro e he
    obtain ⟨inner, hinner, rfl⟩ := List.mem_map.mp he
    exact ih inner hinner

theorem Code.sealed_of_typeDecl (statics : List ClassName) (c : Code TypeDecl) :
    c.Sealed (TypeDecl.stream statics) :=
  fun t _ => (t.sealed_emission statics).member []

/-- What a named layer refers to stands inside a scope of its name. -/
theorem Declaration.inside_member (statics : List ClassName) {d : Declaration Emission}
    (h : ∀ e ∈ d.inner, e.Sealed) {name : String} (hname : d.name? = some name) {p : Position}
    {r : Site} (hr : r ∈ sites p ((d.emission statics).member [])) :
    ∃ nested, (⟨some name, nested⟩ :: p.scopes) <:+ r.scopes := by
  obtain ⟨s, hhead, hs⟩ := headStream_eq_withScope statics (sealed_of_inner h) [] hname
  have hbody : Contained (.indent :: separated (d.members statics)) :=
    .cons rfl (.separated (contained_members statics h))
  -- The variables of the type are entered outside of both scopes.
  have hframe : r ∈ sites (p.after (.enterVariables (d.typeVariables.map TypeVariable.name)))
      (d.stream statics []) := by
    simpa [emission, framed, withVariables, sites, sites_append, Position.site?, Position.after]
      using hr
  have hscopes := (hs.withScope (some name) []).scopes
    (p.after (.enterVariables (d.typeVariables.map TypeVariable.name)))
  have hend : ∀ q, sites q ([.unindent, .text "\x7d"] ++ if d.isAnonymous then [] else [.text "\n"])
      = [] := by
    intro q
    split <;> rfl
  rw [stream, hhead, List.append_assoc, List.append_assoc, sites_append, sites_append, hend,
    List.append_nil] at hframe
  rcases List.mem_append.mp hframe with hin | hin
  · exact ⟨[], (hs.inside_withScope hin).1⟩
  · have hinside := (hbody.inside_withScope hin).1
    rw [hscopes, hname] at hinside
    exact ⟨_, hinside⟩

/-- **What the instructions of a named type refer to stands inside that type.** -/
theorem TypeDecl.inside_stream (statics : List ClassName) (t : TypeDecl) {name : String}
    (hname : t.layer.name? = some name) {p : Position} {r : Site}
    (hr : r ∈ sites p (t.stream statics)) :
    ∃ nested, (⟨some name, nested⟩ :: p.scopes) <:+ r.scopes := by
  obtain ⟨d⟩ := t
  have hinner : ∀ e ∈ (d.map (TypeDecl.emission statics)).inner, e.Sealed := by
    rw [Declaration.inner_map]
    intro e he
    obtain ⟨inner, -, rfl⟩ := List.mem_map.mp he
    exact inner.sealed_emission statics
  have hname' : (d.map (TypeDecl.emission statics)).name? = some name := by
    rw [Declaration.name?_map]
    exact hname
  rw [TypeDecl.stream, TypeDecl.emission, TypeDecl.fold_of] at hr
  exact Declaration.inside_member statics hinner hname' hr

namespace SourceFile

theorem scopes_commentStream (f : SourceFile) :
    (f.commentStream.foldl Position.after {}).scopes = [] := by
  have hcontained : Contained f.commentStream := by
    unfold commentStream
    split
    · exact .nil
    · exact (Code.contained_commentStream f.statics
        (f.comment.sealed_of_typeDecl f.statics)).append (.of_isFlat rfl)
  exact hcontained.scopes {}

/-- **Everything below the comment of a file stands inside its type.** -/
theorem outermost_scope (f : SourceFile) {name : String} (hname : f.type.layer.name? = some name)
    {r : Site} (hr : r ∈ sites (f.commentStream.foldl Position.after {}) f.bodyStream) :
    ∃ nested, r.scopes.getLast? = some ⟨some name, nested⟩ := by
  have htype : r ∈ sites (f.commentStream.foldl Position.after {}) (f.type.stream f.statics) := by
    unfold bodyStream at hr
    split at hr
    · exact hr
    · split at hr
      · exact hr
      · simpa [sites, sites_append, Position.site?, Position.after] using hr
  obtain ⟨nested, hsuffix⟩ := f.type.inside_stream f.statics hname htype
  rw [scopes_commentStream] at hsuffix
  obtain ⟨inside, hinside⟩ := hsuffix
  exact ⟨nested, by rw [← hinside]; simp⟩

end SourceFile

end CSharpGen
