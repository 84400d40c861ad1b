/-
  CSharpGen/Proofs/Tallies.lean
  =============================
  **What the blocks of a declaration add up to.**  Each instruction adds to two
  counts: the level of indentation, and the number of marks around comments.
  What a declaration puts around its blocks adds nothing, since every level that
  it opens it closes again.  So the tally of whatever is written is the sum of
  the net indentation of the blocks written on the way (`TypeDecl.tally_emission`
  and the `tally_stream` lemmas before it).

  Not all blocks of a declaration are written: an abstract method has no body,
  a property with accessors of its own no initializer, an anonymous type no
  documentation.  Which ones are is said by `emitted` for each kind of member,
  and by `TypeDecl.written` for all depths.
-/
import CSharpGen.Proofs.Rearrangement
import Mathlib.Algebra.BigOperators.Group.List.Basic
import Mathlib.Algebra.Group.Prod
import Mathlib.Algebra.GroupWithZero.Nat
import Mathlib.Algebra.Ring.Int.Defs

namespace CSharpGen

/-! ### Tallies -/

/-- What an instruction adds to the level of indentation and to the marks of comments. -/
@[simp] def Instruction.tally : Instruction → Int × Nat
  | .indent => (1, 0)
  | .unindent => (-1, 0)
  | .openComment | .closeComment => (0, 1)
  | _ => 0

namespace Stream

def tally (s : Stream) : Int × Nat := (s.map Instruction.tally).sum

@[simp] theorem tally_nil : tally [] = 0 := rfl

@[simp] theorem tally_cons (i : Instruction) (s : Stream) :
    tally (i :: s) = i.tally + tally s := by simp [tally]

@[simp] theorem tally_append (s t : Stream) : tally (s ++ t) = tally s + tally t := by
  simp [tally]

theorem tally_flatMap {α : Type} (f : α → Stream) (as : List α) :
    tally (as.flatMap f) = (as.map fun a => tally (f a)).sum := by
  induction as with
  | nil => rfl
  | cons a rest ih => simp [ih]

theorem tally_commaSeparated (ss : List Stream) :
    tally (commaSeparated ss) = (ss.map tally).sum := by
  fun_induction commaSeparated ss with
  | case1 => rfl
  | case2 s => simp
  | case3 s t rest ih => simp [ih]

theorem tally_separated (ss : List Stream) : tally (separated ss) = (ss.map tally).sum := by
  fun_induction separated ss with
  | case1 => rfl
  | case2 s => simp
  | case3 s t rest ih => simp [ih]

@[simp] theorem tally_withScope (name : Option String) (nested : List String) (s : Stream) :
    tally (withScope name nested s) = tally s := by simp [withScope]

@[simp] theorem tally_withVariables (vs : List TypeVariable) (s : Stream) :
    tally (withVariables vs s) = tally s := by simp [withVariables]

end Stream

open CSharpGen.Stream

mutual

@[simp] theorem TypeRef.tally_stream : ∀ t : TypeRef, tally t.stream = 0
  | .builtIn _ | .named _ | .typeVariable _ => by simp [TypeRef.stream]
  | .generic _ args => by simp [TypeRef.stream, TypeRef.tally_streamAll args]
  | .array t | .nullable t => by simp [TypeRef.stream, TypeRef.tally_stream t]

@[simp] theorem TypeRef.tally_streamAll : ∀ ts : List TypeRef, tally (TypeRef.streamAll ts) = 0
  | [] => by simp [TypeRef.streamAll]
  | [t] => by simp [TypeRef.streamAll, TypeRef.tally_stream t]
  | t :: u :: rest => by
    simp [TypeRef.streamAll, TypeRef.tally_stream t, TypeRef.tally_streamAll (u :: rest)]

end

@[simp] theorem ModifierSet.tally_stream (s : ModifierSet) (implied : List Modifier) :
    tally (s.stream implied) = 0 := by
  simp [ModifierSet.stream, tally_flatMap]

@[simp] theorem TypeVariable.tally_streamList (vs : List TypeVariable) :
    tally (TypeVariable.streamList vs) = 0 := by
  have hnames : tally (TypeVariable.streamNames vs) = 0 := by
    fun_induction TypeVariable.streamNames vs with
    | case1 => rfl
    | case2 v => rfl
    | case3 v u rest ih => simp [ih]
  unfold TypeVariable.streamList
  split
  · rfl
  · simp [hnames]

@[simp] theorem TypeVariable.tally_constraints (vs : List TypeVariable) :
    tally (vs.flatMap TypeVariable.constraint) = 0 := by
  have hone : ∀ v : TypeVariable, tally v.constraint = 0 := by
    intro v
    unfold TypeVariable.constraint
    split
    · rfl
    · simp
  simp [tally_flatMap, hone]

@[simp] theorem tally_supertypesStream (ts : List TypeRef) : tally (supertypesStream ts) = 0 := by
  rcases ts with _ | ⟨t, rest⟩
  · rfl
  · simp [supertypesStream]

@[simp] theorem Method.tally_headStream {δ : Type} (m : Method δ) (enclosing : Option String)
    (implied : List Modifier) : tally (m.headStream enclosing implied) = 0 := by
  unfold Method.headStream
  split
  · simp
  · split
    · simp
    · simp
  · simp
  · simp

/-! ### Blocks -/

section Blocks

variable {δ : Type}

/-- Levels of indentation opened minus levels closed, nested blocks included. -/
def Code.net (c : Code δ) : Int := Part.level c.flat

variable (statics : List ClassName) (emit : δ → Stream)

mutual

theorem Part.tally_stream : ∀ p : Part δ, tally (p.stream statics emit)
    = (Part.level p.flat, 0) + (p.declarations.map fun d => tally (emit d)).sum
  | .text _ | .name _ | .quoted none | .quoted (some _) | .type _ | .indent | .unindent
  | .openStatement | .closeStatement | .wrapSpace | .wrapPoint => by
    simp [Part.stream, Part.flat, Part.declarations, Part.level, Part.isIndent, Part.isUnindent,
      Prod.mk_zero_zero]
  | .declaration d => by
    simp [Part.stream, Part.flat, Part.declarations, Part.level, Part.isIndent, Part.isUnindent]
  | .block c => by
    rw [Part.stream, Code.tally_stream c, Part.flat, Part.declarations]
    rfl

/-- **The tally of a block** is its net indentation and what the declarations in it add. -/
theorem Code.tally_stream : ∀ c : Code δ, tally (c.stream statics emit)
    = (c.net, 0) + (c.declarations.map fun d => tally (emit d)).sum
  | ⟨parts, _⟩ => by
    rw [Code.stream, Part.tally_streamAll parts, Code.net, Code.flat, Code.declarations]

theorem Part.tally_streamAll : ∀ ps : List (Part δ), tally (Part.streamAll statics emit ps)
    = (Part.level (Part.flatAll ps), 0)
      + ((Part.declarationsAll ps).map fun d => tally (emit d)).sum
  | [] => rfl
  | p :: ps => by
    have hrest := Part.tally_streamAll ps
    rw [Part.streamAll_eq]
    rcases helided : Part.elided? statics p ps with _ | ⟨member, more⟩
    · simp only [tally_append, Part.tally_stream p, hrest, Part.flatAll, Part.declarationsAll,
        Part.level_append, List.map_append, List.sum_append]
      ext
      · simp
        omega
      · simp
    · obtain ⟨c, rest, rfl, rfl⟩ := Part.elided?_eq_some statics helided
      -- What is left out and what stands in its place add nothing.
      rw [Part.streamAll_text] at hrest
      simpa [Part.flatAll, Part.flat, Part.declarationsAll, Part.declarations, Part.level,
        Part.isIndent, Part.isUnindent] using hrest

end

/-- What some blocks add. -/
def Code.tallies (cs : List (Code δ)) : Int × Nat :=
  (cs.map fun c => tally (c.stream statics emit)).sum

@[simp] theorem Code.tallies_nil : Code.tallies statics emit [] = 0 := rfl

@[simp] theorem Code.tallies_cons (c : Code δ) (cs : List (Code δ)) :
    Code.tallies statics emit (c :: cs)
      = tally (c.stream statics emit) + Code.tallies statics emit cs := by simp [Code.tallies]

@[simp] theorem Code.tallies_append (cs ds : List (Code δ)) :
    Code.tallies statics emit (cs ++ ds)
      = Code.tallies statics emit cs + Code.tallies statics emit ds := by simp [Code.tallies]

theorem Code.tallies_flatMap {α : Type} (f : α → List (Code δ)) (as : List α) :
    Code.tallies statics emit (as.flatMap f)
      = (as.map fun a => Code.tallies statics emit (f a)).sum := by
  induction as with
  | nil => rfl
  | cons a rest ih => simp [ih]

theorem Code.stream_of_isEmpty {c : Code δ} (h : c.isEmpty = true) :
    c.stream statics emit = [] := by
  obtain ⟨parts, _⟩ := c
  rcases parts with _ | ⟨p, ps⟩
  · simp [Code.stream, Part.streamAll]
  · cases h

@[simp] theorem Code.tally_docStream (c : Code δ) :
    tally (c.docStream statics emit) = tally (c.stream statics emit) := by
  unfold Code.docStream
  split
  · next h => rw [Code.stream_of_isEmpty statics emit h]
  · simp

@[simp] theorem Code.tally_bodyStream (c : Code δ) :
    tally (c.bodyStream statics emit) = tally (c.stream statics emit) := by
  rw [Code.bodyStream]
  ext <;> simp

@[simp] theorem Code.tally_arrowStream (c : Code δ) :
    tally (c.arrowStream statics emit) = tally (c.stream statics emit) := by
  simp [Code.arrowStream]

/-! ### Attributes, parameters and fields -/

@[simp] theorem Attribute.tally_stream (a : Attribute δ) :
    tally (a.stream statics emit) = Code.tallies statics emit a.codes := by
  simp only [Attribute.stream, tally_cons, tally_append, Instruction.tally, TypeRef.tally_stream]
  split
  · next hnone =>
    simp only [List.isEmpty_iff, List.append_eq_nil_iff, List.map_eq_nil_iff] at hnone
    simp [Attribute.codes, hnone.1, hnone.2]
  · simp [tally_commaSeparated, Attribute.codes, Code.tallies, Function.comp_def]

@[simp] theorem Attribute.tally_streamAll (sep : String) (as : List (Attribute δ)) :
    tally (Attribute.streamAll statics emit sep as)
      = Code.tallies statics emit (as.flatMap Attribute.codes) := by
  simp [Attribute.streamAll, tally_flatMap, Code.tallies_flatMap]

@[simp] theorem Parameter.tally_stream (p : Parameter δ) :
    tally (p.stream statics emit) = Code.tallies statics emit p.codes := by
  rcases hvalue : p.defaultValue with _ | value
  · simp [Parameter.stream, Parameter.codes, hvalue]
  · simp [Parameter.stream, Parameter.codes, hvalue]

@[simp] theorem Parameter.tally_streamAll (ps : List (Parameter δ)) :
    tally (Parameter.streamAll statics emit ps)
      = Code.tallies statics emit (ps.flatMap Parameter.codes) := by
  simp [Parameter.streamAll, tally_commaSeparated, Code.tallies_flatMap, Function.comp_def]

/-- The blocks that are written for a field: an initial value that opens a statement is
    refused. -/
def Field.emitted (x : Field δ) : List (Code δ) :=
  x.doc :: (x.attributes.flatMap Attribute.codes
    ++ if x.opensStatement then [] else x.initializer.toList)

@[simp] theorem Field.tally_stream (x : Field δ) (implied : List Modifier) :
    tally (x.stream statics emit implied) = Code.tallies statics emit x.emitted := by
  have hstatement : tally (x.statementStream statics emit) = Code.tallies statics emit
      (if x.opensStatement then [] else x.initializer.toList) := by
    rcases hvalue : x.initializer with _ | value
    · simp [Field.statementStream, Field.opensStatement, hvalue]
    · by_cases hopens : value.opensStatement = true
      · simp [Field.statementStream, Field.opensStatement, hvalue, hopens]
      · simp [Field.statementStream, Field.opensStatement, hvalue, hopens]
  simp [Field.stream, Field.emitted, hstatement]

/-! ### Methods and properties -/

/-- The blocks that are written for a method. -/
def Method.emitted (m : Method δ) (implied : List Modifier) : List (Code δ) :=
  m.doc :: (m.attributes.flatMap Attribute.codes ++ m.parameters.flatMap Parameter.codes
    ++ m.chained.toList ++ if m.isBodiless implied then [] else [m.body])

@[simp] theorem Method.tally_stream (m : Method δ) (enclosing : Option String)
    (implied : List Modifier) :
    tally (m.stream statics emit enclosing implied)
      = Code.tallies statics emit (m.emitted implied) := by
  have hbody : tally (if m.isBodiless implied then [.text ";\n"]
      else .text " \x7b\n" :: m.body.bodyStream statics emit)
        = Code.tallies statics emit (if m.isBodiless implied then [] else [m.body]) := by
    split
    · simp
    · simp
  rcases hchained : m.chained with _ | value
  · simp [Method.stream, Method.emitted, hchained, hbody]
  · simp [Method.stream, Method.emitted, hchained, hbody]

/-- The block that is written for an accessor: its expression, if it is one. -/
def Code.accessorBlock (c : Code δ) : Code δ := c.singleExpression?.getD c

/-- The blocks that are written for a property. -/
def Property.emitted (p : Property δ) (implied : List Modifier) : List (Code δ) :=
  p.doc :: (p.attributes.flatMap Attribute.codes
    ++ (if p.isIndexer then p.parameters.flatMap Parameter.codes else [])
    ++ match p.form implied with
      | .auto => p.initializer.toList
      | .terse expression => [expression]
      | .listed => p.accessors.map fun a => a.2.accessorBlock)

theorem tally_accessorStream (keyword : String) (body : Code δ) :
    tally (accessorStream statics emit keyword body)
      = tally (body.accessorBlock.stream statics emit) := by
  simp only [accessorStream, Code.accessorBlock]
  by_cases hempty : body.isEmpty = true
  · have hnone : body.singleExpression? = none := by
      obtain ⟨parts, n⟩ := body
      rcases parts with _ | ⟨p, ps⟩
      · rfl
      · cases hempty
    simp [hempty, hnone, Code.stream_of_isEmpty statics emit hempty]
  · rcases body.singleExpression? with _ | expression
    · simp [hempty]
    · simp [hempty]

@[simp] theorem Property.tally_stream (p : Property δ) (implied : List Modifier) :
    tally (p.stream statics emit implied) = Code.tallies statics emit (p.emitted implied) := by
  have hparameters : tally (if p.isIndexer then
      .text "[" :: (Parameter.streamAll statics emit p.parameters ++ [.text "]"]) else [])
        = Code.tallies statics emit
          (if p.isIndexer then p.parameters.flatMap Parameter.codes else []) := by
    split
    · simp
    · simp
  have haccessors : tally (p.accessorsStream statics emit implied) = Code.tallies statics emit
      (match p.form implied with
        | .auto => p.initializer.toList
        | .terse expression => [expression]
        | .listed => p.accessors.map fun a => a.2.accessorBlock) := by
    unfold Property.accessorsStream
    rcases p.form implied with _ | expression | _
    · rcases p.initializer with _ | value
      · simp [tally_flatMap]
      · simp [tally_flatMap]
    · simp
    · ext <;> simp [tally_flatMap, tally_accessorStream, Code.tallies, Function.comp_def]
  simp [Property.stream, Property.emitted, hparameters, haccessors]

end Blocks

/-! ### Declarations -/

namespace Declaration

variable {δ : Type}

/-- The blocks that are written for an enum constant. -/
def valued (d : Declaration δ) : List (Code δ) :=
  d.doc :: (d.attributes.flatMap Attribute.codes ++ d.identity.arguments?.toList)

/-- The blocks that are written before the members: an anonymous type has arguments, any
    other type documentation and attributes. -/
def introduced (d : Declaration δ) : List (Code δ) :=
  match d.identity with
  | .anonymous arguments => [arguments]
  | .named .. => d.doc :: d.attributes.flatMap Attribute.codes

/-- The blocks that are written for a layer, except for its constants and nested types. -/
def emitted (d : Declaration δ) : List (Code δ) :=
  d.introduced ++ d.fields.flatMap Field.emitted ++ [d.staticBlock, d.initializerBlock]
    ++ d.methods.flatMap (fun m => m.emitted d.kind.impliedOnMethods)
    ++ d.properties.flatMap (fun p => p.emitted d.kind.impliedOnMethods) ++ d.extras

variable (statics : List ClassName) (d : Declaration Emission)

theorem tally_constantStream (name : String) : tally (d.constantStream statics name)
    = Code.tallies statics Emission.embedded d.valued := by
  rcases hidentity : d.identity with _ | value
  · simp [constantStream, valued, hidentity, Identity.arguments?]
  · by_cases hempty : value.isEmpty = true
    · simp [constantStream, valued, hidentity, Identity.arguments?, hempty,
        Code.stream_of_isEmpty statics Emission.embedded hempty]
    · simp [constantStream, valued, hidentity, Identity.arguments?, hempty]

theorem tally_headStream (implied : List Modifier) : tally (d.headStream statics implied)
    = Code.tallies statics Emission.embedded d.introduced := by
  rcases hidentity : d.identity with ⟨kind, name⟩ | arguments
  · simp [headStream, introduced, hidentity]
  · simp [headStream, introduced, hidentity]

theorem tally_constantsStream (cs : Table Emission) : tally (constantsStream cs)
    = (cs.map fun e => tally (e.2.constant e.1)).sum := by
  fun_induction constantsStream cs with
  | case1 => rfl
  | case2 name value => simp
  | case3 name value next rest ih => simp [ih]

/-- What the members add. -/
theorem sum_tally_members : ((d.members statics).map tally).sum
    = Code.tallies statics Emission.embedded (d.fields.flatMap Field.emitted
        ++ [d.staticBlock, d.initializerBlock]
        ++ d.methods.flatMap (fun m => m.emitted d.kind.impliedOnMethods)
        ++ d.properties.flatMap (fun p => p.emitted d.kind.impliedOnMethods) ++ d.extras)
      + (d.constants.map fun e => tally (e.2.constant e.1)).sum
      + (d.types.map fun t => tally (t.member d.kind.impliedOnTypes)).sum := by
  -- Static fields are written before the others.
  have hfields : (((d.fields.filter Field.isStatic).map fun x =>
        Code.tallies statics Emission.embedded x.emitted).sum
      + ((d.fields.filter fun x => !x.isStatic).map fun x =>
        Code.tallies statics Emission.embedded x.emitted).sum)
        = Code.tallies statics Emission.embedded (d.fields.flatMap Field.emitted) := by
    rw [← List.sum_append, ← List.map_append, Code.tallies_flatMap]
    exact ((List.filter_append_perm Field.isStatic d.fields).map _).sum_eq
  have hconstants : (((if d.constants.isEmpty then []
        else [constantsStream d.constants ++ [.text "\n"]]) : List Stream).map tally).sum
      = (d.constants.map fun e => tally (e.2.constant e.1)).sum := by
    rcases hnone : d.constants with _ | ⟨e, rest⟩
    · rfl
    · simp [tally_constantsStream]
  have hblock : ∀ (lead : Stream) (c : Code Emission), tally lead = 0 →
      (((if c.isEmpty then [] else [lead ++ c.bodyStream statics Emission.embedded]) :
        List Stream).map tally).sum = tally (c.stream statics Emission.embedded) := by
    intro lead c hlead
    split
    · next hempty => simp [Code.stream_of_isEmpty statics Emission.embedded hempty]
    · simp [hlead]
  have hstatic := hblock [.text "static ", .text (d.name?.getD ""), .text "() \x7b\n"]
    d.staticBlock (by simp)
  have hinitializer := hblock [.text "\x7b\n"] d.initializerBlock (by simp)
  simp only [List.cons_append, List.nil_append] at hstatic hinitializer
  simp only [members, List.map_append, List.sum_append, hconstants, hstatic, hinitializer,
    List.map_map, Function.comp_def, Field.tally_stream, Method.tally_stream,
    Property.tally_stream, Code.tallies_append, ← hfields, Code.tallies_cons, Code.tallies_nil,
    Code.tallies_flatMap]
  rw [Code.tallies]
  ext
  · simp
    omega
  · simp
    omega

theorem tally_stream (implied : List Modifier) : tally (d.stream statics implied)
    = Code.tallies statics Emission.embedded d.emitted
      + (d.constants.map fun e => tally (e.2.constant e.1)).sum
      + (d.types.map fun t => tally (t.member d.kind.impliedOnTypes)).sum := by
  have hend : tally (if d.isAnonymous then [] else [.text "\n"]) = 0 := by
    split
    · rfl
    · rfl
  have hmembers := d.sum_tally_members statics
  simp only [stream, tally_append, tally_headStream, tally_withScope, tally_cons, tally_separated,
    hmembers, hend, emitted, Code.tallies_append]
  ext
  · simp
    omega
  · simp
    omega

theorem tally_framed (s : Stream) : tally (d.framed s) = tally s := by simp [framed]

end Declaration

/-! ### Replacing the declarations of blocks that are written -/

section Map

variable {α β : Type} (f : α → β)

theorem Field.emitted_map (x : Field α) : (x.map f).emitted = x.emitted.map (Code.map f) := by
  have hopens : (x.map f).opensStatement = x.opensStatement := by
    rcases hvalue : x.initializer with _ | value
    · simp [Field.opensStatement, Field.map, hvalue]
    · simp [Field.opensStatement, Field.map, hvalue]
  simp only [Field.emitted, hopens]
  split
  · simp [Field.map, Attribute.flatMap_codes_map]
  · simp [Field.map, Attribute.flatMap_codes_map, Option.toList_map]

theorem Method.emitted_map (m : Method α) (implied : List Modifier) :
    (m.map f).emitted implied = (m.emitted implied).map (Code.map f) := by
  have hbodiless : (m.map f).isBodiless implied = m.isBodiless implied := rfl
  simp only [Method.emitted, hbodiless]
  split
  · simp [Method.map, Attribute.flatMap_codes_map, Parameter.flatMap_codes_map,
      Option.toList_map]
  · simp [Method.map, Attribute.flatMap_codes_map, Parameter.flatMap_codes_map,
      Option.toList_map]

theorem Code.accessorBlock_map (c : Code α) :
    (c.map f).accessorBlock = c.accessorBlock.map f := by
  rw [Code.accessorBlock, Code.accessorBlock, Code.singleExpression?_map]
  rcases c.singleExpression? with _ | expression
  · rfl
  · rfl

theorem Property.emitted_map (p : Property α) (implied : List Modifier) :
    (p.map f).emitted implied = (p.emitted implied).map (Code.map f) := by
  have hindexer : (p.map f).isIndexer = p.isIndexer := rfl
  simp only [Property.emitted, Property.form_map, Property.accessors_map, hindexer]
  rcases p.form implied with _ | expression | _
  · split
    · simp [AccessorForm.map, Property.map, Attribute.flatMap_codes_map,
        Parameter.flatMap_codes_map, Option.toList_map]
    · simp [AccessorForm.map, Property.map, Attribute.flatMap_codes_map, Option.toList_map]
  · split
    · simp [AccessorForm.map, Property.map, Attribute.flatMap_codes_map,
        Parameter.flatMap_codes_map]
    · simp [AccessorForm.map, Property.map, Attribute.flatMap_codes_map]
  · split
    · simp [AccessorForm.map, Property.map, Attribute.flatMap_codes_map,
        Parameter.flatMap_codes_map, Code.accessorBlock_map]
    · simp [AccessorForm.map, Property.map, Attribute.flatMap_codes_map, Code.accessorBlock_map]

namespace Declaration

theorem valued_map (d : Declaration α) : (d.map f).valued = d.valued.map (Code.map f) := by
  rcases hidentity : d.identity with ⟨kind, name⟩ | arguments
  · simp [valued, Declaration.map, hidentity, Identity.map, Identity.arguments?,
      Attribute.flatMap_codes_map]
  · simp [valued, Declaration.map, hidentity, Identity.map, Identity.arguments?,
      Attribute.flatMap_codes_map]

theorem emitted_map (d : Declaration α) : (d.map f).emitted = d.emitted.map (Code.map f) := by
  have hintroduced : (d.map f).introduced = d.introduced.map (Code.map f) := by
    rcases hidentity : d.identity with ⟨kind, name⟩ | arguments
    · simp [introduced, Declaration.map, hidentity, Identity.map, Attribute.flatMap_codes_map]
    · simp [introduced, Declaration.map, hidentity, Identity.map]
  simp only [emitted, hintroduced, kind_map]
  simp [Declaration.map, List.flatMap_map, List.map_flatMap, Field.emitted_map,
    Method.emitted_map, Property.emitted_map]

end Declaration

end Map

section Inner

variable {δ : Type}

/-- The expression of a property without a list of accessors is that of its getter. -/
theorem Code.declarations_accessorBlock (c : Code δ) :
    ∀ u ∈ c.accessorBlock.declarations, u ∈ c.declarations := by
  rw [Code.accessorBlock]
  rcases hsingle : c.singleExpression? with _ | expression
  · exact fun _ hu => hu
  · exact Code.declarations_singleExpression? hsingle

/-- The declarations embedded in the block are embedded in one of the others. -/
def Code.Among (bs : List (Code δ)) (c : Code δ) : Prop :=
  ∃ b ∈ bs, ∀ u ∈ c.declarations, u ∈ b.declarations

theorem Code.Among.of_mem {bs : List (Code δ)} {c : Code δ} (h : c ∈ bs) : c.Among bs :=
  ⟨c, h, fun _ hu => hu⟩

theorem Code.Among.mono {as bs : List (Code δ)} {c : Code δ} (h : c.Among as)
    (hsub : ∀ b ∈ as, b ∈ bs) : c.Among bs := by
  obtain ⟨b, hb, hdeclarations⟩ := h
  exact ⟨b, hsub b hb, hdeclarations⟩

theorem Field.among_codes {x : Field δ} {c : Code δ} (h : c ∈ x.emitted) : c.Among x.codes := by
  refine .of_mem ?_
  simp only [Field.emitted, Field.codes, List.mem_cons, List.mem_append] at h ⊢
  split at h
  · simp only [List.not_mem_nil, or_false] at h
    exact h.imp_right .inl
  · exact h

theorem Method.among_codes {m : Method δ} {implied : List Modifier} {c : Code δ}
    (h : c ∈ m.emitted implied) : c.Among m.codes := by
  refine .of_mem ?_
  simp only [Method.emitted, Method.codes, List.mem_cons, List.mem_append] at h ⊢
  split at h
  · simp only [List.not_mem_nil, or_false] at h
    tauto
  · simp only [List.mem_singleton] at h
    tauto

theorem Property.among_codes {p : Property δ} {implied : List Modifier} {c : Code δ}
    (h : c ∈ p.emitted implied) : c.Among p.codes := by
  simp only [Property.emitted, List.mem_cons, List.mem_append] at h
  rcases h with rfl | (hattribute | hparameter) | haccessor
  · exact .of_mem (by simp [Property.codes])
  · exact .of_mem (by simp only [Property.codes, List.mem_cons, List.mem_append]; tauto)
  · split at hparameter
    · exact .of_mem (by simp only [Property.codes, List.mem_cons, List.mem_append]; tauto)
    · cases hparameter
  · rcases hform : p.form implied with _ | expression | _
    · rw [hform] at haccessor
      exact .of_mem (by simp only [Property.codes, List.mem_cons, List.mem_append]; tauto)
    · rw [hform] at haccessor
      cases List.mem_singleton.mp haccessor
      obtain ⟨body, hbody, hsingle⟩ := Option.bind_eq_some_iff.mp (p.getter_of_terse hform)
      exact ⟨body, by simp [Property.codes, hbody], Code.declarations_singleExpression? hsingle⟩
    · rw [hform] at haccessor
      obtain ⟨a, ha, rfl⟩ := List.mem_map.mp haccessor
      exact ⟨a.2, Property.mem_codes_of_mem_accessors ha, a.2.declarations_accessorBlock⟩

/-- What is written of a layer is among its blocks. -/
theorem Declaration.inner_of_emitted {d : Declaration δ} {c : Code δ}
    (hc : c ∈ d.valued ∨ c ∈ d.emitted) : ∀ u ∈ c.declarations, u ∈ d.inner := by
  have hamong : c.Among d.codes := by
    rcases hc with hc | hc
    · refine .of_mem ?_
      simp only [valued, codes, List.mem_cons, List.mem_append] at hc ⊢
      tauto
    · simp only [emitted, List.mem_append, List.mem_flatMap] at hc
      rcases hc with ((((hc | ⟨x, hx, hc⟩) | hc) | ⟨m, hm, hc⟩) | ⟨p, hp, hc⟩) | hc
      · refine .of_mem ?_
        rcases hidentity : d.identity with ⟨kind, name⟩ | arguments
        · simp only [introduced, hidentity, codes, List.mem_cons, List.mem_append] at hc ⊢
          tauto
        · simp only [introduced, hidentity, List.mem_singleton] at hc
          simp [codes, hidentity, Identity.arguments?, hc]
      · exact (Field.among_codes hc).mono fun b hb => codes_of_field hx hb
      · refine .of_mem ?_
        simp only [List.mem_cons, List.not_mem_nil, or_false] at hc
        simp only [codes, List.mem_cons, List.mem_append]
        tauto
      · exact (Method.among_codes hc).mono fun b hb => codes_of_method hm hb
      · exact (Property.among_codes hc).mono fun b hb => codes_of_property hp hb
      · exact .of_mem (codes_of_extras hc)
  obtain ⟨b, hb, hdeclarations⟩ := hamong
  intro u hu
  exact List.mem_append_left _ (List.mem_append_left _
    (List.mem_flatMap.mpr ⟨b, hb, hdeclarations u hu⟩))

end Inner

/-! ### The blocks of all depths -/

/-- The blocks that are written for a declaration, by where it stands.  Declarations in
    them are left out. -/
structure Emitted where
  constant : List (Code Unit)
  member : List (Code Unit)

/-- A block, and the blocks of the declarations embedded in it. -/
def Code.written {δ : Type} (inner : δ → List (Code Unit)) (c : Code δ) : List (Code Unit) :=
  c.map (fun _ => ()) :: c.declarations.flatMap inner

/-- The blocks of one layer. -/
def Declaration.written (d : Declaration Emitted) : Emitted where
  constant := d.valued.flatMap (Code.written Emitted.member)
  member := d.emitted.flatMap (Code.written Emitted.member)
    ++ d.constants.flatMap (fun e => e.2.constant) ++ d.types.flatMap Emitted.member

/-- The blocks that are written for a type declaration. -/
def TypeDecl.written : TypeDecl → Emitted := TypeDecl.fold Declaration.written

/-- The net indentation of some blocks. -/
def Code.total (bs : List (Code Unit)) : Int := (bs.map Code.net).sum

section Total

variable {α β : Type} (f : α → β)

theorem Code.net_map (c : Code α) : (c.map f).net = c.net := by
  have hindent : ∀ p : Part α, (p.map f).isIndent = p.isIndent := by
    intro p
    cases p <;> simp [Part.map, Part.isIndent]
  have hunindent : ∀ p : Part α, (p.map f).isUnindent = p.isUnindent := by
    intro p
    cases p <;> simp [Part.map, Part.isUnindent]
  simp only [Code.net, Code.flat_map, Part.level, List.countP_map, Function.comp_def, hindent,
    hunindent]

end Total

namespace Code

theorem total_append (as bs : List (Code Unit)) : total (as ++ bs) = total as + total bs := by
  simp [total]

theorem total_flatMap {α : Type} (f : α → List (Code Unit)) (as : List α) :
    total (as.flatMap f) = (as.map fun a => total (f a)).sum := by
  induction as with
  | nil => rfl
  | cons a rest ih => simp [total_append, ih]

theorem total_written {δ : Type} (inner : δ → List (Code Unit)) (c : Code δ) :
    total (c.written inner) = c.net + (c.declarations.map fun u => total (inner u)).sum := by
  rw [← total_flatMap]
  simp [written, total, net_map]

theorem total_written_map {α β : Type} (f : α → β) (inner : β → List (Code Unit)) (c : Code α) :
    total ((c.map f).written inner) = total (c.written fun u => inner (f u)) := by
  rw [total_written, total_written, net_map, declarations_map, List.map_map]
  rfl

theorem sum_tally {α : Type} (s : α → Stream) (blocks : α → List (Code Unit)) {as : List α}
    (h : ∀ a ∈ as, tally (s a) = (total (blocks a), 0)) :
    (as.map fun a => tally (s a)).sum = (total (as.flatMap blocks), 0) := by
  induction as with
  | nil => rfl
  | cons a rest ih =>
    rw [List.map_cons, List.sum_cons, h a (by simp),
      ih fun b hb => h b (List.mem_cons_of_mem _ hb), List.flatMap_cons, total_append]
    simp

/-- A block adds the net indentation of the blocks written for it. -/
theorem tally_written {δ : Type} (statics : List ClassName) {emit : δ → Stream}
    {inner : δ → List (Code Unit)} {c : Code δ}
    (h : ∀ u ∈ c.declarations, tally (emit u) = (total (inner u), 0)) :
    tally (c.stream statics emit) = (total (c.written inner), 0) := by
  rw [tally_stream, sum_tally emit inner h, total_written, total_flatMap]
  simp

end Code

namespace TypeDecl

variable (statics : List ClassName)

/-- **The tally of a declaration** is the net indentation of the blocks written for it. -/
theorem tally_emission (t : TypeDecl) :
    (∀ name, tally ((t.emission statics).constant name) = (Code.total t.written.constant, 0))
    ∧ ∀ implied, tally ((t.emission statics).member implied)
      = (Code.total t.written.member, 0) := by
  induction t using TypeDecl.induct with
  | h d ih =>
  have hcodes : ∀ cs : List (Code TypeDecl), (∀ c ∈ cs, c ∈ d.valued ∨ c ∈ d.emitted) →
      Code.tallies statics Emission.embedded (cs.map (Code.map (TypeDecl.emission statics)))
        = (Code.total ((cs.map (Code.map TypeDecl.written)).flatMap
            (Code.written Emitted.member)), 0) := by
    intro cs hcs
    have hmapped := Code.sum_tally
      (fun c => c.stream statics fun u => (u.emission statics).member [])
      (Code.written fun u => u.written.member) fun c (hc : c ∈ cs) =>
        Code.tally_written statics fun u hu =>
          (ih u (Declaration.inner_of_emitted (hcs c hc) u hu)).2 []
    simpa [Code.tallies, Function.comp_def, Code.stream_map, Emission.embedded, List.flatMap_map,
      Code.total_flatMap, Code.total_written_map] using hmapped
  have hemission : (TypeDecl.of d).emission statics
      = (d.map (TypeDecl.emission statics)).emission statics := by
    rw [emission, fold_of]
  have hwritten : (TypeDecl.of d).written = (d.map TypeDecl.written).written := by
    rw [written, fold_of]
  rw [hemission, hwritten]
  refine ⟨fun name => ?_, fun implied => ?_⟩
  · rw [Declaration.emission, Declaration.tally_framed, Declaration.tally_constantStream,
      Declaration.valued_map, hcodes _ fun c hc => .inl hc]
    simp [Declaration.written, Declaration.valued_map]
  · have hconstants := Code.sum_tally (fun e => (e.2.emission statics).constant e.1)
      (fun e => e.2.written.constant) fun e (he : e ∈ d.constants) =>
        (ih e.2 (List.mem_append_left _ (List.mem_append_right _
          (List.mem_map_of_mem he)))).1 e.1
    have htypes := Code.sum_tally (fun u => (u.emission statics).member d.kind.impliedOnTypes)
      (fun u => u.written.member) fun u (hu : u ∈ d.types) =>
        (ih u (List.mem_append_right _ hu)).2 _
    have hblocks := hcodes d.emitted fun c hc => .inr hc
    simp only [Declaration.emission, Declaration.tally_framed, Declaration.tally_stream,
      Declaration.emitted_map, hblocks, Declaration.kind_map, Declaration.written,
      Code.total_append]
    simp only [Declaration.map, List.map_map, Function.comp_def, List.flatMap_map]
    rw [hconstants, htypes]
    simp

end TypeDecl

end CSharpGen
