/-
  CSharpGen/Proofs/Layers.lean
  ============================
  **Induction over type declarations.**  A layer of a declaration holds other
  declarations in three places: in its code blocks (`Declaration.codes`), as
  values of its enum constants, and as nested types.  `Declaration.inner` lists
  them all.

  What holds of a declaration whenever it holds of the inner declarations of
  its outermost layer holds of every declaration (`TypeDecl.induct`).  Since a
  fold replaces the inner declarations one by one (`Declaration.inner_map`),
  this is all that a fact about the result of a fold needs.
-/
import CSharpGen.Decl.Fold

namespace CSharpGen

/-! ### The declarations in a block -/

section Views

variable {α β δ : Type}

mutual

def Part.declarations : Part δ → List δ
  | .declaration d => [d]
  | .block c => Code.declarations c
  | _ => []

/-- The declarations embedded in a block, nested blocks included. -/
def Code.declarations : Code δ → List δ
  | ⟨parts, _⟩ => Part.declarationsAll parts

def Part.declarationsAll : List (Part δ) → List δ
  | [] => []
  | p :: ps => Part.declarations p ++ Part.declarationsAll ps

end

theorem Code.declarations_eq (c : Code δ) : c.declarations = c.parts.flatMap Part.declarations := by
  have hall : ∀ ps : List (Part δ), Part.declarationsAll ps = ps.flatMap Part.declarations := by
    intro ps
    induction ps with
    | nil => rfl
    | cons p ps ih => rw [Part.declarationsAll, ih, List.flatMap_cons]
  obtain ⟨parts, _⟩ := c
  rw [Code.declarations, hall]

/-- What can be read off the parts of a block, with nested blocks in their place, holds
    nothing new for the expression of a block that is one statement. -/
theorem Code.mem_singleExpression? {γ : Type} {v : Part δ → List γ} (htext : ∀ s, v (.text s) = [])
    (hblock : ∀ c, v (.block c) = c.parts.flatMap v) {c e : Code δ}
    (h : c.singleExpression? = some e) : ∀ x ∈ e.parts.flatMap v, x ∈ c.parts.flatMap v := by
  have hreturn : ∀ ps : List (Part δ), ∀ x ∈ (dropReturn ps).flatMap v, x ∈ ps.flatMap v := by
    intro ps x hx
    unfold dropReturn at hx
    split at hx
    · unfold textParts at hx
      split at hx
      · simpa [htext] using hx
      · simpa [htext] using hx
    · exact hx
  have hstatement : ∀ ps : List (Part δ), ∀ e, statementExpression? ps = some e →
      ∀ x ∈ e.parts.flatMap v, x ∈ ps.flatMap v := by
    intro ps e he x hx
    unfold statementExpression? at he
    split at he
    · split at he
      · cases he
      · cases he
        obtain ⟨p, hp, hxp⟩ := List.mem_flatMap.mp (hreturn _ x hx)
        exact List.mem_flatMap.mpr ⟨p, List.dropLast_subset _ hp, hxp⟩
    · cases he
  fun_induction Code.singleExpression? c with
  | case1 inner ih =>
    intro x hx
    simpa [hblock] using ih h x hx
  | case3 rest =>
    intro x hx
    exact List.mem_append_right _ (hstatement rest e h x hx)
  | case2 | case4 | case5 => cases h

theorem Code.declarations_singleExpression? {c e : Code δ} (h : c.singleExpression? = some e) :
    ∀ d ∈ e.declarations, d ∈ c.declarations := by
  simp only [Code.declarations_eq]
  refine Code.mem_singleExpression? (by simp [Part.declarations]) ?_ h
  intro c
  rw [Part.declarations, Code.declarations_eq]

/-! ### The blocks of a layer -/

def Attribute.codes (a : Attribute δ) : List (Code δ) := a.arguments ++ a.named.map Prod.snd

def Parameter.codes (p : Parameter δ) : List (Code δ) :=
  p.attributes.flatMap Attribute.codes ++ p.defaultValue.toList

def Field.codes (x : Field δ) : List (Code δ) :=
  x.doc :: (x.attributes.flatMap Attribute.codes ++ x.initializer.toList)

def Method.codes (m : Method δ) : List (Code δ) :=
  m.doc :: (m.attributes.flatMap Attribute.codes ++ m.parameters.flatMap Parameter.codes
    ++ m.body :: m.chained.toList)

def Property.codes (p : Property δ) : List (Code δ) :=
  p.doc :: (p.attributes.flatMap Attribute.codes ++ p.parameters.flatMap Parameter.codes
    ++ p.getter.toList ++ p.setter.toList ++ p.initializer.toList)

/-- The code blocks of a layer. -/
def Declaration.codes (d : Declaration δ) : List (Code δ) :=
  d.identity.arguments?.toList ++ d.doc :: d.staticBlock :: d.initializerBlock ::
    (d.attributes.flatMap Attribute.codes ++ d.fields.flatMap Field.codes
      ++ d.methods.flatMap Method.codes ++ d.properties.flatMap Property.codes ++ d.extras)

namespace Declaration

variable {d : Declaration δ}

theorem codes_of_field {x : Field δ} (h : x ∈ d.fields) : x.codes ⊆ d.codes := by
  intro c hc
  have hmem : c ∈ d.fields.flatMap Field.codes := List.mem_flatMap.mpr ⟨x, h, hc⟩
  simp only [codes, List.mem_cons, List.mem_append]
  grind

theorem codes_of_method {m : Method δ} (h : m ∈ d.methods) : m.codes ⊆ d.codes := by
  intro c hc
  have hmem : c ∈ d.methods.flatMap Method.codes := List.mem_flatMap.mpr ⟨m, h, hc⟩
  simp only [codes, List.mem_cons, List.mem_append]
  grind

theorem codes_of_property {p : Property δ} (h : p ∈ d.properties) : p.codes ⊆ d.codes := by
  intro c hc
  have hmem : c ∈ d.properties.flatMap Property.codes := List.mem_flatMap.mpr ⟨p, h, hc⟩
  simp only [codes, List.mem_cons, List.mem_append]
  grind

theorem codes_of_extras : d.extras ⊆ d.codes := by
  intro c hc
  simp only [codes, List.mem_cons, List.mem_append]
  grind

end Declaration

/-- The declarations directly inside a layer. -/
def Declaration.inner (d : Declaration δ) : List δ :=
  d.codes.flatMap Code.declarations ++ d.constants.map Prod.snd ++ d.types

/-! ### Replacing the declarations of a layer -/

variable (f : α → β)

mutual

theorem Part.declarations_map : ∀ p : Part α, (p.map f).declarations = p.declarations.map f
  | .block c => by simp [Part.map, Part.declarations, Code.declarations_map c]
  | .declaration d => by simp [Part.map, Part.declarations]
  | .text _ | .name _ | .quoted _ | .type _ | .indent | .unindent | .openStatement
  | .closeStatement | .wrapSpace | .wrapPoint => by simp [Part.map, Part.declarations]

theorem Code.declarations_map : ∀ c : Code α, (c.map f).declarations = c.declarations.map f
  | ⟨parts, _⟩ => by simp [Code.map, Code.declarations, Part.declarationsAll_map parts]

theorem Part.declarationsAll_map :
    ∀ ps : List (Part α),
      Part.declarationsAll (Part.mapAll f ps) = (Part.declarationsAll ps).map f
  | [] => by simp [Part.mapAll, Part.declarationsAll]
  | p :: ps => by
    simp [Part.mapAll, Part.declarationsAll, Part.declarations_map p, Part.declarationsAll_map ps]

end

theorem Attribute.codes_map (a : Attribute α) : (a.map f).codes = a.codes.map (Code.map f) := by
  simp [codes, Attribute.map, Function.comp_def]

theorem Attribute.flatMap_codes_map (as : List (Attribute α)) :
    (as.map (Attribute.map f)).flatMap codes = (as.flatMap codes).map (Code.map f) := by
  simp [List.flatMap_map, List.map_flatMap, Attribute.codes_map]

theorem Parameter.flatMap_codes_map (ps : List (Parameter α)) :
    (ps.map (Parameter.map f)).flatMap codes = (ps.flatMap codes).map (Code.map f) := by
  have hone : ∀ p : Parameter α, (p.map f).codes = p.codes.map (Code.map f) := by
    intro p
    simp [codes, Parameter.map, Attribute.flatMap_codes_map, Option.toList_map]
  simp [List.flatMap_map, List.map_flatMap, hone]

theorem Declaration.codes_map (d : Declaration α) :
    (d.map f).codes = d.codes.map (Code.map f) := by
  have hfield : ∀ x : Field α, (x.map f).codes = x.codes.map (Code.map f) := by
    intro x
    simp [Field.codes, Field.map, Attribute.flatMap_codes_map, Option.toList_map]
  have hmethod : ∀ m : Method α, (m.map f).codes = m.codes.map (Code.map f) := by
    intro m
    simp [Method.codes, Method.map, Attribute.flatMap_codes_map, Parameter.flatMap_codes_map,
      Option.toList_map]
  have hproperty : ∀ p : Property α, (p.map f).codes = p.codes.map (Code.map f) := by
    intro p
    simp [Property.codes, Property.map, Attribute.flatMap_codes_map, Parameter.flatMap_codes_map,
      Option.toList_map]
  have hidentity : ∀ i : Identity α,
      (i.map f).arguments?.toList = i.arguments?.toList.map (Code.map f) := by
    intro i
    cases i <;> simp [Identity.map, Identity.arguments?]
  simp [codes, Declaration.map, Attribute.codes_map, hidentity, List.flatMap_map,
    List.map_flatMap, hfield, hmethod, hproperty]

theorem Declaration.name?_map (d : Declaration α) : (d.map f).name? = d.name? := by
  unfold Declaration.name? Declaration.map
  cases d.identity <;> rfl

theorem Declaration.kind_map (d : Declaration α) : (d.map f).kind = d.kind := by
  unfold Declaration.kind Declaration.map
  cases d.identity <;> rfl

theorem Declaration.supertypes_map (d : Declaration α) : (d.map f).supertypes = d.supertypes := by
  unfold Declaration.supertypes
  rw [d.kind_map f]
  rfl

/-- **Replacing the inner declarations of a layer replaces them one by one.** -/
theorem Declaration.inner_map (d : Declaration α) : (d.map f).inner = d.inner.map f := by
  have hcodes : (d.map f).codes.flatMap Code.declarations
      = (d.codes.flatMap Code.declarations).map f := by
    rw [Declaration.codes_map]
    simp [List.flatMap_map, List.map_flatMap, Code.declarations_map]
  simp only [inner, hcodes, List.map_append]
  simp [Declaration.map, Function.comp_def]

end Views

/-! ### Induction -/

namespace TypeDecl

section Induct

variable {P : TypeDecl → Prop} (h : ∀ d : Declaration TypeDecl, (∀ t ∈ d.inner, P t) → P (.of d))

include h

-- The companions follow the data that a layer is made of, as those of the fold do.
set_option linter.unusedSectionVars false in
mutual

/-- **Induction over type declarations.** -/
theorem induct : ∀ t, P t
  | .of d => h d (induct_layer d)

theorem induct_layer : ∀ d : Declaration TypeDecl, ∀ t ∈ d.inner, P t
  | ⟨identity, doc, attributes, _, _, _, _, constants, fields, staticBlock, initializerBlock,
      methods, properties, extras, types, _⟩ => by
    have hidentity := induct_identity identity
    have hdoc := induct_code doc
    have hstatic := induct_code staticBlock
    have hinitializer := induct_code initializerBlock
    have hattributes := induct_attributes attributes
    have hfields := induct_fields fields
    have hmethods := induct_methods methods
    have hproperties := induct_properties properties
    have hextras := induct_codes extras
    have hconstants := induct_constants constants
    have htypes := induct_types types
    intro t ht
    simp only [Declaration.inner, Declaration.codes, List.mem_append, List.mem_flatMap,
      List.mem_cons] at ht
    grind

theorem induct_identity : ∀ i : Identity TypeDecl, ∀ c ∈ i.arguments?.toList,
    ∀ t ∈ c.declarations, P t
  | .named _ _ => by simp [Identity.arguments?]
  | .anonymous arguments => by simpa [Identity.arguments?] using induct_code arguments

theorem induct_code : ∀ c : Code TypeDecl, ∀ t ∈ c.declarations, P t
  | ⟨parts, _⟩ => by simpa [Code.declarations] using induct_parts parts

theorem induct_parts : ∀ ps : List (Part TypeDecl), ∀ t ∈ Part.declarationsAll ps, P t
  | [] => by simp [Part.declarationsAll]
  | p :: ps => by
    have hp := induct_part p
    have hps := induct_parts ps
    simp only [Part.declarationsAll, List.mem_append]
    rintro t (ht | ht)
    · exact hp t ht
    · exact hps t ht

theorem induct_part : ∀ p : Part TypeDecl, ∀ t ∈ p.declarations, P t
  | .declaration d => by simpa [Part.declarations] using induct d
  | .block c => by simpa [Part.declarations] using induct_code c
  | .text _ | .name _ | .quoted _ | .type _ | .indent | .unindent | .openStatement
  | .closeStatement | .wrapSpace | .wrapPoint => by simp [Part.declarations]

theorem induct_codes : ∀ cs : List (Code TypeDecl), ∀ c ∈ cs, ∀ t ∈ c.declarations, P t
  | [] => by simp
  | c :: cs => List.forall_mem_cons.mpr ⟨induct_code c, induct_codes cs⟩

theorem induct_optional : ∀ o : Option (Code TypeDecl), ∀ c ∈ o.toList, ∀ t ∈ c.declarations, P t
  | none => by simp
  | some c => by simpa using induct_code c

theorem induct_named : ∀ cs : List (String × Code TypeDecl), ∀ c ∈ cs.map Prod.snd,
    ∀ t ∈ c.declarations, P t
  | [] => by simp
  | (_, c) :: cs => List.forall_mem_cons.mpr ⟨induct_code c, induct_named cs⟩

theorem induct_attributes : ∀ as : List (Attribute TypeDecl), ∀ c ∈ as.flatMap Attribute.codes,
    ∀ t ∈ c.declarations, P t
  | [] => by simp
  | ⟨_, arguments, named⟩ :: as => by
    have harguments := induct_codes arguments
    have hnamed := induct_named named
    have hrest := induct_attributes as
    simp only [List.flatMap_cons, List.mem_append, Attribute.codes]
    grind

theorem induct_parameters : ∀ ps : List (Parameter TypeDecl),
    ∀ c ∈ ps.flatMap Parameter.codes, ∀ t ∈ c.declarations, P t
  | [] => by simp
  | ⟨_, _, _, attributes, defaultValue⟩ :: ps => by
    have hattributes := induct_attributes attributes
    have hdefault := induct_optional defaultValue
    have hrest := induct_parameters ps
    simp only [List.flatMap_cons, List.mem_append, Parameter.codes]
    grind

theorem induct_fields : ∀ xs : List (Field TypeDecl),
    ∀ c ∈ xs.flatMap Field.codes, ∀ t ∈ c.declarations, P t
  | [] => by simp
  | ⟨_, _, doc, attributes, _, initializer⟩ :: xs => by
    have hdoc := induct_code doc
    have hattributes := induct_attributes attributes
    have hinitializer := induct_optional initializer
    have hrest := induct_fields xs
    simp only [List.flatMap_cons, List.mem_append, List.mem_cons, Field.codes]
    grind

theorem induct_methods : ∀ ms : List (Method TypeDecl),
    ∀ c ∈ ms.flatMap Method.codes, ∀ t ∈ c.declarations, P t
  | [] => by simp
  | ⟨_, doc, attributes, _, _, _, parameters, body, chained⟩ :: ms => by
    have hdoc := induct_code doc
    have hattributes := induct_attributes attributes
    have hparameters := induct_parameters parameters
    have hbody := induct_code body
    have hchained := induct_optional chained
    have hrest := induct_methods ms
    simp only [List.flatMap_cons, List.mem_append, List.mem_cons, Method.codes]
    grind

theorem induct_properties : ∀ ps : List (Property TypeDecl),
    ∀ c ∈ ps.flatMap Property.codes, ∀ t ∈ c.declarations, P t
  | [] => by simp
  | ⟨_, _, doc, attributes, _, parameters, getter, setter, initializer⟩ :: ps => by
    have hdoc := induct_code doc
    have hattributes := induct_attributes attributes
    have hparameters := induct_parameters parameters
    have hgetter := induct_optional getter
    have hsetter := induct_optional setter
    have hinitializer := induct_optional initializer
    have hrest := induct_properties ps
    simp only [List.flatMap_cons, List.mem_append, List.mem_cons, Property.codes]
    grind

theorem induct_constants : ∀ cs : List (String × TypeDecl), ∀ t ∈ cs.map Prod.snd, P t
  | [] => by simp
  | (_, value) :: cs => List.forall_mem_cons.mpr ⟨induct value, induct_constants cs⟩

theorem induct_types : ∀ ts : List TypeDecl, ∀ t ∈ ts, P t
  | [] => by simp
  | t :: ts => List.forall_mem_cons.mpr ⟨induct t, induct_types ts⟩

end

end Induct

end TypeDecl

end CSharpGen
