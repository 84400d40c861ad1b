/-
  CSharpGen/Proofs/Interleavings.lean
  ===================================
  **Independent edits of a type commute.**  Each edit extends one facet of the
  draft: its documentation, its fields, its nested types with the handles they
  were made from, and so on.  Two lists of edits that agree facet by facet, with
  the edits of different facets interleaved in any way, build the same type or
  both fail (`TypeDecl.Draft.build_interleaved`).

  An edit reads the identity of the draft and its own facet and nothing else:
  it does to a draft what it does to the facet alone (`Draft.apply_eq`).  So a
  whole list of edits falls apart into one list for each facet
  (`Draft.error_applyAll_iff`, `Draft.only_applyAll`).  The first error is
  recorded and may be another one in another order; whether there is one does
  not depend on it.
-/
import CSharpGen.Proofs.Reopening

namespace CSharpGen.TypeDecl

/-! ### Facets -/

/-- What an edit extends. -/
inductive Facet where
  | doc | attributes | modifiers | typeVariables | superclass | interfaces | constants | fields
  | staticBlock | initializerBlock | methods | properties | extras
  /-- The nested types, together with the handles of origins. -/
  | types
  deriving DecidableEq

def Edit.facet : Edit → Facet
  | .addDoc .. => .doc
  | .addAttribute _ => .attributes
  | .addModifiers _ => .modifiers
  | .addTypeVariable _ => .typeVariables
  | .superclass _ => .superclass
  | .addInterface _ => .interfaces
  | .addConstant _ | .addConstantWith .. => .constants
  | .addField _ => .fields
  | .addStaticBlock _ => .staticBlock
  | .addInitializerBlock _ => .initializerBlock
  | .addMethod _ => .methods
  | .addProperty _ => .properties
  | .addCode _ => .extras
  | .addType _ | .addOrigin _ => .types

/-- What a draft holds for a facet. -/
def Facet.Content : Facet → Type
  | doc | staticBlock | initializerBlock => Code.Draft TypeDecl
  | attributes => List (Attribute TypeDecl)
  | modifiers => ModifierSet
  | typeVariables => List TypeVariable
  | superclass => Option TypeRef
  | interfaces => List TypeRef
  | constants => Table TypeDecl
  | fields => List (Field TypeDecl)
  | methods => List (Method TypeDecl)
  | properties => List (Property TypeDecl)
  | extras => List (Code TypeDecl)
  | types => List TypeDecl × List String

/-- The edits of one facet, in their order. -/
def Edit.on (f : Facet) (es : List Edit) : List Edit := es.filter fun e => e.facet = f

theorem Edit.on_cons_self (e : Edit) (es : List Edit) :
    on e.facet (e :: es) = e :: on e.facet es :=
  List.filter_cons_of_pos (by simp)

theorem Edit.on_cons_of_ne {e : Edit} {f : Facet} (h : e.facet ≠ f) (es : List Edit) :
    on f (e :: es) = on f es :=
  List.filter_cons_of_neg (by simpa using h)

namespace Draft

def content (d : Draft) : (f : Facet) → f.Content
  | .doc => d.doc
  | .attributes => d.attributes
  | .modifiers => d.modifiers
  | .typeVariables => d.typeVariables
  | .superclass => d.superclass
  | .interfaces => d.interfaces
  | .constants => d.constants
  | .fields => d.fields
  | .staticBlock => d.staticBlock
  | .initializerBlock => d.initializerBlock
  | .methods => d.methods
  | .properties => d.properties
  | .extras => d.extras
  | .types => (d.types, d.origins)

/-- The draft with other content for a facet. -/
def put (d : Draft) : (f : Facet) → f.Content → Draft
  | .doc, c => { d with doc := c }
  | .attributes, c => { d with attributes := c }
  | .modifiers, c => { d with modifiers := c }
  | .typeVariables, c => { d with typeVariables := c }
  | .superclass, c => { d with superclass := c }
  | .interfaces, c => { d with interfaces := c }
  | .constants, c => { d with constants := c }
  | .fields, c => { d with fields := c }
  | .staticBlock, c => { d with staticBlock := c }
  | .initializerBlock, c => { d with initializerBlock := c }
  | .methods, c => { d with methods := c }
  | .properties, c => { d with properties := c }
  | .extras, c => { d with extras := c }
  | .types, c => { d with types := c.1, origins := c.2 }

section Put

variable (d : Draft) (f : Facet) (c : f.Content)

@[simp] theorem identity_put : (d.put f c).identity = d.identity := by cases f <;> rfl

@[simp] theorem error_put : (d.put f c).error = d.error := by cases f <;> rfl

@[simp] theorem content_put : (d.put f c).content f = c := by cases f <;> rfl

@[simp] theorem put_put (c' : f.Content) : (d.put f c).put f c' = d.put f c' := by
  cases f <;> rfl

theorem content_put_of_ne {f g : Facet} (h : f ≠ g) (c : f.Content) :
    (d.put f c).content g = d.content g := by
  cases f <;> cases g <;> first | rfl | exact absurd rfl h

end Put

/-- A draft is its identity, its facets and its error. -/
theorem eq_of_content {d d' : Draft} (hidentity : d.identity = d'.identity)
    (hcontent : ∀ f, d.content f = d'.content f) (herror : d.error = d'.error) : d = d' := by
  have htypes : (d.types, d.origins) = (d'.types, d'.origins) := hcontent .types
  rw [Prod.mk.injEq] at htypes
  cases d
  cases d'
  rw [Draft.mk.injEq]
  exact ⟨hidentity, hcontent .doc, hcontent .attributes, hcontent .modifiers,
    hcontent .typeVariables, hcontent .superclass, hcontent .interfaces, hcontent .constants,
    hcontent .fields, hcontent .staticBlock, hcontent .initializerBlock, hcontent .methods,
    hcontent .properties, hcontent .extras, htypes.1, htypes.2, herror⟩

/-- The draft with one facet and without errors. -/
def only (d : Draft) (f : Facet) : Draft := ({ identity := d.identity } : Draft).put f (d.content f)

@[simp] theorem identity_only (d : Draft) (f : Facet) : (d.only f).identity = d.identity :=
  identity_put ..

@[simp] theorem error_only (d : Draft) (f : Facet) : (d.only f).error = none := error_put ..

@[simp] theorem content_only (d : Draft) (f : Facet) : (d.only f).content f = d.content f :=
  content_put ..

theorem only_only (d : Draft) (f : Facet) : (d.only f).only f = d.only f := by
  unfold only
  rw [identity_put, content_put]

theorem only_put (d : Draft) (f : Facet) (c : f.Content) :
    (d.put f c).only f = (d.only f).put f c := by
  unfold only
  rw [identity_put, content_put, put_put]

/-- The draft after its facet was worked on apart from it. -/
def takeOver (d : Draft) (f : Facet) (apart : Draft) : Draft :=
  match apart.error with
  | none => d.put f (apart.content f)
  | some e => { d with error := some (d.error.getD e) }

theorem takeOver_of_ok {d apart : Draft} {f : Facet} (h : apart.error = none) :
    d.takeOver f apart = d.put f (apart.content f) := by
  rw [takeOver, h]

/-- **An edit sees its own facet only**: it does to the draft what it does to the facet
    apart from the rest. -/
theorem apply_eq (d : Draft) (e : Edit) :
    d.apply e = d.takeOver e.facet ((d.only e.facet).apply e) := by
  cases e with
  | addDoc | addAttribute | addInterface | addCode | addOrigin => rfl
  | addModifiers | addTypeVariable | addField | addStaticBlock | addInitializerBlock
  | addProperty =>
    simp only [apply, identity_only]
    split <;> rfl
  | superclass type =>
    have hcontent : (d.only .superclass).superclass = d.superclass := rfl
    simp only [apply, setSuperclass, Edit.facet, identity_only, hcontent]
    split
    · rfl
    · split
      · rfl
      · split <;> rfl
  | addConstant | addConstantWith =>
    simp only [apply, putConstant, constantFault?, identity_only]
    split <;> rfl
  | addMethod m =>
    simp only [apply, attachMethod, identity_only]
    split
    · rfl
    · split <;> rfl
  | addType t =>
    simp only [apply, attachType, identity_only]
    split
    · rfl
    · split <;> rfl

/-! ### One edit -/

theorem identity_apply (d : Draft) (e : Edit) : (d.apply e).identity = d.identity := by
  rw [apply_eq, takeOver]
  split
  · exact identity_put ..
  · rfl

/-- The other facets stay as they are. -/
theorem only_apply_of_ne {d : Draft} {e : Edit} {f : Facet} (h : e.facet ≠ f) :
    (d.apply e).only f = d.only f := by
  have hcontent : (d.apply e).content f = d.content f := by
    rw [apply_eq, takeOver]
    split
    · exact d.content_put_of_ne h _
    · rfl
  simp only [only, identity_apply, hcontent]

/-- An edit succeeds exactly if it does on its facet. -/
theorem error_apply_iff (d : Draft) (e : Edit) : (d.apply e).error = none ↔
    d.error = none ∧ ((d.only e.facet).apply e).error = none := by
  rw [apply_eq, takeOver]
  split
  next hnone => simp [hnone]
  next hsome => simp [hsome]

/-- The facet of an edit that succeeds is what becomes of it apart from the rest. -/
theorem only_apply {d : Draft} {e : Edit} (h : ((d.only e.facet).apply e).error = none) :
    (d.apply e).only e.facet = (d.only e.facet).apply e := by
  have hapart := apply_eq (d.only e.facet) e
  rw [only_only, takeOver_of_ok h] at hapart
  rw [apply_eq d, takeOver_of_ok h, only_put]
  exact hapart.symm

/-! ### Lists of edits -/

theorem error_of_applyAll {d : Draft} {es : List Edit} (h : (d.applyAll es).error = none) :
    d.error = none := by
  induction es generalizing d with
  | nil => exact h
  | cons e es ih => exact ((d.error_apply_iff e).mp (ih h)).1

/-- The edits of a facet can be made behind an edit that succeeds. -/
theorem applyAll_on_cons {d : Draft} {e : Edit} (h : ((d.only e.facet).apply e).error = none)
    (es : List Edit) (f : Facet) : (d.only f).applyAll (Edit.on f (e :: es))
      = ((d.apply e).only f).applyAll (Edit.on f es) := by
  by_cases hf : e.facet = f
  · subst hf
    rw [only_apply h, Edit.on_cons_self]
    rfl
  · rw [only_apply_of_ne hf, Edit.on_cons_of_ne hf]

/-- **A list of edits succeeds exactly if the edits of each facet do** on the facet alone. -/
theorem error_applyAll_iff (d : Draft) (es : List Edit) : (d.applyAll es).error = none ↔
    d.error = none ∧ ∀ f, ((d.only f).applyAll (Edit.on f es)).error = none := by
  induction es generalizing d with
  | nil => simp [applyAll, Edit.on]
  | cons e es ih =>
    show ((d.apply e).applyAll es).error = none ↔ _
    rw [ih, error_apply_iff, and_assoc]
    refine and_congr_right fun _ => ⟨?_, fun h => ?_⟩
    · rintro ⟨hown, hrest⟩ f
      rw [applyAll_on_cons hown]
      exact hrest f
    · -- The edit stands first among those of its facet, and errors stay.
      have hown : ((d.only e.facet).apply e).error = none := by
        have hfacet := h e.facet
        rw [Edit.on_cons_self] at hfacet
        exact error_of_applyAll hfacet
      refine ⟨hown, fun f => ?_⟩
      rw [← applyAll_on_cons hown]
      exact h f

/-- **After edits that succeed, a facet is what its own edits make of it.** -/
theorem only_applyAll {d : Draft} {es : List Edit} (h : (d.applyAll es).error = none)
    (f : Facet) : (d.applyAll es).only f = (d.only f).applyAll (Edit.on f es) := by
  induction es generalizing d with
  | nil => rfl
  | cons e es ih =>
    have hown := ((d.error_apply_iff e).mp (error_of_applyAll h)).2
    rw [applyAll_on_cons hown]
    exact ih h

/-! ### Interleavings -/

/-- Both lists hold the same edits, with those of each facet in the same order. -/
def Interleaved (es es' : List Edit) : Prop := ∀ f, Edit.on f es = Edit.on f es'

theorem applyAll_interleaved {d : Draft} {es es' : List Edit} (h : Interleaved es es')
    (herror : (d.applyAll es).error = none) : d.applyAll es' = d.applyAll es := by
  have herror' : (d.applyAll es').error = none := by
    rw [error_applyAll_iff] at herror ⊢
    refine ⟨herror.1, fun f => ?_⟩
    rw [← h f]
    exact herror.2 f
  have hfacets : ∀ f, (d.applyAll es').only f = (d.applyAll es).only f := by
    intro f
    rw [only_applyAll herror, only_applyAll herror', h f]
  refine eq_of_content ?_ (fun f => ?_) (herror'.trans herror.symm)
  · simpa using congrArg identity (hfacets .doc)
  · simpa using congrArg (fun d : Draft => d.content f) (hfacets f)

/-- **Independent edits commute.**  In whatever way the edits of different facets are
    interleaved, the same type is built, or none. -/
theorem build_interleaved (d : Draft) {es es' : List Edit} (h : Interleaved es es')
    (t : TypeDecl) : (d.applyAll es).build = .ok t ↔ (d.applyAll es').build = .ok t := by
  have hbuild : ∀ {es es' : List Edit}, Interleaved es es' →
      (d.applyAll es).build = .ok t → (d.applyAll es').build = .ok t := by
    intro es es' h ht
    obtain ⟨-, -, -, herror, -⟩ := of_build ht
    rw [applyAll_interleaved h herror]
    exact ht
  exact ⟨hbuild h, hbuild fun f => (h f).symm⟩

def coordinate (name : String) : Field TypeDecl :=
  ⟨name, .builtIn .intKw, .empty, [], .empty, none⟩

def reset : Method TypeDecl :=
  ⟨some "Reset", .empty, [], .empty, [], .void, [], .empty, none⟩

def point : TypeDecl :=
  .of ⟨.named .classKind "Point", .empty, [], .empty, [], none, [], [],
    [coordinate "X", coordinate "Y"], .empty, .empty, [reset], [], [], [], []⟩

theorem build_interleaved_point :
    Interleaved [.addMethod reset, .addField (coordinate "X"), .addField (coordinate "Y")]
      [.addField (coordinate "X"), .addMethod reset, .addField (coordinate "Y")]
    ∧ ((named .classKind "Point").applyAll
      [.addField (coordinate "X"), .addMethod reset, .addField (coordinate "Y")]).build
        = .ok point := by
  have hinterleaved : Interleaved
      [.addMethod reset, .addField (coordinate "X"), .addField (coordinate "Y")]
      [.addField (coordinate "X"), .addMethod reset, .addField (coordinate "Y")] := by
    intro f
    cases f <;> rfl
  exact ⟨hinterleaved, (build_interleaved _ hinterleaved point).mp rfl⟩

end Draft

end CSharpGen.TypeDecl
