/-
  CSharpGen/Proofs/Legality.lean
  ==============================
  **Every type that can be built is well formed**, at every level of its nested
  types, in whatever order it was put together and however often it was taken
  up again (`TypeDecl.wellFormed_of_obtainable`).

  The rules are checked in two places.  What a member has to obey is checked
  when it is attached, and a member that breaks a rule is left out
  (`Declaration.Attached`); what concerns the declaration as a whole is checked
  when it is built (`Declaration.Legal`).  Taking up a declaration skips the
  first kind of check.  So the first kind is an invariant of drafts: it is
  stated of the declaration that the draft stands for (`TypeDecl.Draft.standing`),
  which building returns and taking up restores, and every edit keeps it.
-/
import CSharpGen.Proofs.Reopening

namespace CSharpGen

variable {δ : Type}

/-! ### The rules -/

/-- Arguments are named by identifiers. -/
def Attribute.Legal (a : Attribute δ) : Prop := ∀ e ∈ a.named, Identifier.isValid e.1 = true

structure Parameter.Legal (p : Parameter δ) : Prop where
  name : Identifier.isValid p.name = true
  modifiers : ∀ m, p.modifiers.has m = true → m.onParameter = true
  attributes : ∀ a ∈ p.attributes, a.Legal

structure Field.Legal (x : Field δ) : Prop where
  name : Identifier.isValid x.name = true
  attributes : ∀ a ∈ x.attributes, a.Legal

structure Method.Legal (m : Method δ) : Prop where
  /-- An operator may be named by its token. -/
  name : ∀ n ∈ m.name, Identifier.isValid n = true
    ∨ m.modifiers.has .operatorKw = true ∧ Identifier.isOperatorToken n = true
  constructorReturns : m.isConstructor = true → m.returns = .void
  chained : m.chained ≠ none → m.isConstructor = true
  abstractBody : m.modifiers.has .abstractKw = true → m.body.isEmpty = true
  /-- A `params` parameter is the last one, and an array. -/
  params : ∀ before p behind, m.parameters = before ++ p :: behind →
    p.modifiers.has .paramsKw = true → behind = [] ∧ p.type.isArray = true
  attributes : ∀ a ∈ m.attributes, a.Legal
  parameters : ∀ p ∈ m.parameters, p.Legal

structure Property.Legal (p : Property δ) : Prop where
  name : ∀ n ∈ p.name, Identifier.isValid n = true
  accessor : p.getter ≠ none ∨ p.setter ≠ none
  auto : p.modifiers.has .abstractKw = true ∨ p.initializer ≠ none → p.isAuto = true
  indexer : p.isIndexer = true ↔ p.parameters ≠ []
  attributes : ∀ a ∈ p.attributes, a.Legal
  parameters : ∀ q ∈ p.parameters, q.Legal

/-- The rules that are checked as members are attached. -/
structure Declaration.Attached (d : Declaration TypeDecl) : Prop where
  attributes : ∀ a ∈ d.attributes, a.Legal
  superclass : ∀ t ∈ d.superclass,
    d.kind ∈ [.classKind, .attributeKind] ∧ t.isBuiltIn = false
  constants : ∀ e ∈ d.constants, d.kind = .enumKind ∧ Identifier.isValid e.1 = true
    ∧ e.2.layer.isAnonymous = true ∧ e.2.layer.fields = [] ∧ e.2.layer.methods = []
    ∧ e.2.layer.properties = [] ∧ e.2.layer.types = []
  fields : ∀ x ∈ d.fields, x.Legal ∧ d.kind.checkMember .field x.modifiers = .ok ()
  methods : ∀ m ∈ d.methods, m.Legal ∧ d.kind.checkMember .method m.modifiers = .ok ()
    ∧ (m.isConstructor = true → d.kind ∈ [.classKind, .structKind])
  properties : ∀ p ∈ d.properties, p.Legal ∧ d.kind.checkMember .property p.modifiers = .ok ()
  types : ∀ t ∈ d.types, t.layer.isAnonymous = false
    ∧ d.kind.checkMember .type t.layer.modifiers = .ok ()
  staticBlock : d.staticBlock.parts ≠ [] →
    d.kind ∈ [.classKind, .structKind] ∧ d.isAnonymous = false
  initializerBlock : d.initializerBlock.parts ≠ [] →
    d.kind ∈ [.classKind, .structKind, .enumKind]
  anonymous : d.isAnonymous = true → d.modifiers = .empty ∧ d.typeVariables = []

/-- The rules for one level of a declaration. -/
structure Declaration.Legal (d : Declaration TypeDecl) : Prop extends d.Attached where
  name : ∀ n ∈ d.name?, Identifier.isValid n = true
  enum : d.kind = .enumKind → d.constants ≠ []
  concrete : d.kind ∈ [.classKind, .structKind, .attributeKind] →
    d.modifiers.has .abstractKw = false →
    (∀ m ∈ d.methods, m.modifiers.has .abstractKw = false)
      ∧ ∀ p ∈ d.properties, p.modifiers.has .abstractKw = false
  supertypes : d.isAnonymous = true → d.superclass.toList.length + d.interfaces.length ≤ 1

/-- The rules hold at every level of nested types and of values of enum constants. -/
inductive TypeDecl.WellFormed : TypeDecl → Prop
  | of {d : Declaration TypeDecl} (legal : d.Legal) (types : ∀ t ∈ d.types, WellFormed t)
      (constants : ∀ e ∈ d.constants, WellFormed e.2) : WellFormed (.of d)

/-- The rules for whatever can be handed to an edit. -/
def Item.Legal : Item → Prop
  | .code _ => True
  | .built .attr a => Attribute.Legal a
  | .built .parameter p => Parameter.Legal p
  | .built .field x => Field.Legal x
  | .built .method m => Method.Legal m
  | .built .property p => Property.Legal p
  | .built .type t => TypeDecl.WellFormed t
  | .built .file f => TypeDecl.WellFormed (SourceFile.type f)

/-! ### Kinds and checks -/

namespace TypeKind

theorem isClassLike_iff (k : TypeKind) :
    k.isClassLike = true ↔ k ∈ [classKind, structKind] := by
  cases k <;> decide

theorem isConcreteByDefault_iff (k : TypeKind) :
    k.isConcreteByDefault = true ↔ k ∈ [classKind, structKind, attributeKind] := by
  cases k <;> decide

theorem allowsSuperclass_iff (k : TypeKind) :
    k.allowsSuperclass = true ↔ k ∈ [classKind, attributeKind] := by
  cases k <;> decide

theorem allowsInitializerBlock_iff (k : TypeKind) :
    k.allowsInitializerBlock = true ↔ k ∈ [classKind, structKind, enumKind] := by
  cases k <;> decide

end TypeKind

/-- A rule that is checked before others. -/
theorem Except.of_guard {ε α : Type} {broken : Bool} {e : ε} {next : Unit → Except ε α} {a : α}
    (h : (if broken = true then Except.error e >>= next else next ()) = .ok a) :
    broken = false ∧ next () = .ok a := by
  cases broken with
  | true => cases h
  | false => exact ⟨rfl, h⟩

theorem Except.of_last_guard {ε : Type} {broken : Bool} {e : ε}
    (h : (if broken = true then Except.error e else pure ()) = .ok ()) : broken = false := by
  cases broken with
  | true => cases h
  | false => rfl

/-! ### Attributes and parameters -/

namespace Attribute.Draft

def Legal (d : Draft TypeDecl) : Prop := ∀ e ∈ d.named, Identifier.isValid e.1 = true

theorem Legal.apply {d : Draft TypeDecl} (h : d.Legal) (e : Edit TypeDecl) : (d.apply e).Legal := by
  cases e with
  | argument format args =>
    simp only [Draft.apply]
    split
    · exact h
    · exact h
  | namedArgument name format args =>
    simp only [Draft.apply]
    split
    next hname =>
      split
      · intro entry hentry
        rcases Table.mem_put hentry with rfl | hold
        · exact hname
        · exact h entry hold
      · exact h
    next => exact h

theorem Legal.build {d : Draft TypeDecl} (h : d.Legal) {a : Attribute TypeDecl}
    (ha : d.build = .ok a) : a.Legal := by
  obtain ⟨-, rfl⟩ := of_build ha
  exact h

end Attribute.Draft

namespace Parameter.Draft

/-- A modifier that is refused is kept, and so is the error. -/
structure Legal (d : Draft TypeDecl) : Prop where
  modifiers : d.error = none → ∀ m, d.modifiers.has m = true → m.onParameter = true
  attributes : ∀ a ∈ d.attributes, a.Legal

theorem Legal.addModifier {d : Draft TypeDecl} (h : d.Legal) (m : Modifier) :
    (d.addModifier m).Legal := by
  simp only [Draft.addModifier]
  split
  next hm =>
    refine ⟨?_, h.attributes⟩
    intro herror n hn
    simp only [ModifierSet.has_insert, Bool.or_eq_true, beq_iff_eq] at hn
    rcases hn with rfl | hn
    · exact hm
    · exact h.modifiers herror n hn
  next =>
    refine ⟨?_, h.attributes⟩
    intro herror
    simp [fail] at herror

theorem Legal.apply {d : Draft TypeDecl} (h : d.Legal) {e : Edit TypeDecl}
    (he : ∀ i ∈ Construct.handed .parameter e, i.Legal) : (d.apply e).Legal := by
  cases e with
  | addModifiers ms =>
    simp only [Draft.apply]
    clear he
    induction ms generalizing d with
    | nil => exact h
    | cons m rest ih => exact ih (h.addModifier m)
  | addAttribute a =>
    have ha : a.Legal := he (.built .attr a) (by simp [Construct.handed])
    exact ⟨h.modifiers, List.forall_mem_append.mpr ⟨h.attributes, List.forall_mem_singleton.mpr ha⟩⟩
  | defaultValue format args =>
    simp only [Draft.apply]
    split
    · exact ⟨h.modifiers, h.attributes⟩
    · refine ⟨?_, h.attributes⟩
      intro herror
      simp [fail] at herror

theorem Legal.build {d : Draft TypeDecl} (h : d.Legal) {p : Parameter TypeDecl}
    (hp : d.build = .ok p) : p.Legal := by
  obtain ⟨herror, hname, rfl⟩ := of_build hp
  exact ⟨hname, h.modifiers herror, h.attributes⟩

end Parameter.Draft

/-! ### Fields, methods and properties -/

namespace Field.Draft

def Legal (d : Draft TypeDecl) : Prop := ∀ a ∈ d.attributes, a.Legal

theorem Legal.apply {d : Draft TypeDecl} (h : d.Legal) {e : Edit TypeDecl}
    (he : ∀ i ∈ Construct.handed .field e, i.Legal) : (d.apply e).Legal := by
  cases e with
  | addAttribute a =>
    have ha : a.Legal := he (.built .attr a) (by simp [Construct.handed])
    exact List.forall_mem_append.mpr ⟨h, List.forall_mem_singleton.mpr ha⟩
  | initializer format args =>
    simp only [Draft.apply]
    split
    · exact h
    · exact h
  | addDoc | addModifiers => exact h

theorem Legal.build {d : Draft TypeDecl} (h : d.Legal) {x : Field TypeDecl}
    (hx : d.build = .ok x) : x.Legal := by
  obtain ⟨doc, -, hname, -, rfl⟩ := of_build hx
  exact ⟨hname, h⟩

end Field.Draft

namespace Method.Draft

structure Legal (d : Draft TypeDecl) : Prop where
  attributes : ∀ a ∈ d.attributes, a.Legal
  parameters : ∀ p ∈ d.parameters, p.Legal

theorem Legal.addParameter {d : Draft TypeDecl} (h : d.Legal) {p : Parameter TypeDecl}
    (hp : p.Legal) : ({ d with parameters := d.parameters ++ [p] } : Draft TypeDecl).Legal :=
  ⟨h.attributes, List.forall_mem_append.mpr ⟨h.parameters, List.forall_mem_singleton.mpr hp⟩⟩

theorem Legal.apply {d : Draft TypeDecl} (h : d.Legal) {e : Edit TypeDecl}
    (he : ∀ i ∈ Construct.handed .method e, i.Legal) : (d.apply e).Legal := by
  cases e with
  | addAttribute a =>
    have ha : a.Legal := he (.built .attr a) (by simp [Construct.handed])
    exact ⟨List.forall_mem_append.mpr ⟨h.attributes, List.forall_mem_singleton.mpr ha⟩,
      h.parameters⟩
  | addParameter p => exact h.addParameter (he (.built .parameter p) (by simp [Construct.handed]))
  | parameter type name =>
    simp only [Draft.apply]
    split
    next p hplain =>
      have hopened : ({ name := name, type := type } : Parameter.Draft TypeDecl).Legal :=
        ⟨by simp [ModifierSet.empty], by simp⟩
      exact h.addParameter (hopened.build hplain)
    next => exact ⟨h.attributes, h.parameters⟩
  | chain format args =>
    simp only [Draft.apply]
    split
    · exact ⟨h.attributes, h.parameters⟩
    · exact ⟨h.attributes, h.parameters⟩
  | addDoc | addModifiers | addTypeVariable | returns | body =>
    exact ⟨h.attributes, h.parameters⟩

theorem params_of_checkParameters {ps : List (Parameter δ)} (h : checkParameters ps = .ok ()) :
    ∀ before p behind, ps = before ++ p :: behind → p.modifiers.has .paramsKw = true →
      behind = [] ∧ p.type.isArray = true := by
  induction ps with
  | nil => simp
  | cons q rest ih =>
    intro before p behind hsplit hparams
    simp only [checkParameters] at h
    cases before with
    | nil =>
      obtain ⟨rfl, rfl⟩ := List.cons.inj hsplit
      rw [if_pos hparams] at h
      split at h
      next => cases h
      next hlast =>
        split at h
        next harray => exact ⟨by simpa using hlast, harray⟩
        next => cases h
    | cons r before =>
      obtain ⟨rfl, hrest⟩ := List.cons.inj hsplit
      split at h
      next =>
        -- a `params` parameter in front leaves no room for another
        split at h
        next => cases h
        next hlast => simp [hrest] at hlast
      next => exact ih h before p behind hrest hparams

theorem name_of_checkName {d : Draft δ} (h : d.checkName = .ok ()) {n : String}
    (hn : d.name = some n) : Identifier.isValid n = true
      ∨ d.modifiers.has .operatorKw = true ∧ Identifier.isOperatorToken n = true := by
  rw [checkName, hn] at h
  simp only at h
  split at h
  next hname => simpa using hname
  next => cases h

theorem Legal.build {d : Draft TypeDecl} (h : d.Legal) {m : Method TypeDecl}
    (hm : d.build = .ok m) : m.Legal := by
  obtain ⟨body, doc, -, -, -, hcheck, rfl⟩ := of_build hm
  obtain ⟨_, hname, hrest⟩ := Except.bind_eq_ok hcheck
  obtain ⟨hchained, hrest⟩ := Except.of_guard hrest
  obtain ⟨hbody, hparameters⟩ := Except.of_guard hrest
  refine ⟨fun n hn => name_of_checkName hname hn, ?_, ?_, ?_,
    params_of_checkParameters hparameters, h.attributes, h.parameters⟩
  · intro hconstructor
    have hreturns := returns_of_check hcheck (Option.isNone_iff_eq_none.mp hconstructor)
    simp [hreturns]
  · intro hsome
    rw [Option.isSome_iff_ne_none.mpr hsome, Bool.true_and] at hchained
    simpa [Method.isConstructor] using hchained
  · intro habstract
    have hflag : d.modifiers.has .abstractKw = true := habstract
    simpa [hflag] using hbody

end Method.Draft

namespace Property.Draft

structure Legal (d : Draft TypeDecl) : Prop where
  attributes : ∀ a ∈ d.attributes, a.Legal
  parameters : ∀ p ∈ d.parameters, p.Legal

theorem Legal.apply {d : Draft TypeDecl} (h : d.Legal) {e : Edit TypeDecl}
    (he : ∀ i ∈ Construct.handed .property e, i.Legal) : (d.apply e).Legal := by
  cases e with
  | addAttribute a =>
    have ha : a.Legal := he (.built .attr a) (by simp [Construct.handed])
    exact ⟨List.forall_mem_append.mpr ⟨h.attributes, List.forall_mem_singleton.mpr ha⟩,
      h.parameters⟩
  | addParameter p =>
    have hp : p.Legal := he (.built .parameter p) (by simp [Construct.handed])
    exact ⟨h.attributes,
      List.forall_mem_append.mpr ⟨h.parameters, List.forall_mem_singleton.mpr hp⟩⟩
  | initializer format args =>
    simp only [Draft.apply]
    split
    · exact ⟨h.attributes, h.parameters⟩
    · exact ⟨h.attributes, h.parameters⟩
  | addDoc | addModifiers | getter | setter => exact ⟨h.attributes, h.parameters⟩

theorem hasBody_eq (d : Draft δ) (doc : Code δ) : d.hasBody = !(⟨d.name, d.type, doc, d.attributes,
    d.modifiers, d.parameters, d.getter, d.setter, d.initializer⟩ : Property δ).isAuto := by
  unfold hasBody Property.isAuto Property.accessors
  cases d.getter <;> cases d.setter <;> simp

theorem of_check {d : Draft δ} (h : d.check = .ok ()) :
    (∀ n ∈ d.name, Identifier.isValid n = true) ∧ (d.getter ≠ none ∨ d.setter ≠ none)
      ∧ (d.modifiers.has .abstractKw = true ∨ d.initializer ≠ none → d.hasBody = false)
      ∧ (d.name.isNone = true ↔ d.parameters ≠ []) := by
  unfold check at h
  obtain ⟨hname, h⟩ := Except.of_guard h
  obtain ⟨haccessor, h⟩ := Except.of_guard h
  obtain ⟨habstract, h⟩ := Except.of_guard h
  obtain ⟨hinitializer, h⟩ := Except.of_guard h
  obtain ⟨hproperty, h⟩ := Except.of_guard h
  have hindexer := Except.of_last_guard h
  refine ⟨?_, ?_, ?_, ?_⟩
  · intro n hn
    simpa [Option.mem_def.mp hn] using hname
  · rw [← not_and_or]
    rintro ⟨hgetter, hsetter⟩
    simp [hgetter, hsetter] at haccessor
  · rintro (hflag | hsome)
    · simpa [hflag] using habstract
    · rw [Option.isSome_iff_ne_none.mpr hsome, Bool.true_and] at hinitializer
      exact hinitializer
  · cases hcase : d.name with
    | none => simpa [hcase] using hindexer
    | some n => simpa [hcase] using hproperty

theorem Legal.build {d : Draft TypeDecl} (h : d.Legal) {p : Property TypeDecl}
    (hp : d.build = .ok p) : p.Legal := by
  obtain ⟨doc, -, hcheck, -, rfl⟩ := of_build hp
  obtain ⟨hname, haccessor, hbodies, hindexer⟩ := of_check hcheck
  refine ⟨hname, haccessor, ?_, hindexer, h.attributes, h.parameters⟩
  intro hcase
  simpa [hasBody_eq d doc] using hbodies hcase

end Property.Draft

/-! ### Types -/

namespace TypeDecl.Draft

/-- The declaration as it stands. -/
def standing (d : Draft) : Declaration TypeDecl where
  identity := d.identity
  doc := ⟨d.doc.parts, d.doc.statements⟩
  attributes := d.attributes
  modifiers := d.modifiers
  typeVariables := d.typeVariables
  superclass := d.superclass
  interfaces := d.interfaces
  constants := d.constants
  fields := d.fields
  staticBlock := ⟨d.staticBlock.parts, d.staticBlock.statements⟩
  initializerBlock := ⟨d.initializerBlock.parts, d.initializerBlock.statements⟩
  methods := d.methods
  properties := d.properties
  extras := d.extras
  types := d.types
  origins := d.origins

theorem standing_toDraft (t : TypeDecl) : t.toDraft.standing = t.layer := by
  have heta : ∀ c : Code TypeDecl, (⟨c.parts, c.statements⟩ : Code TypeDecl) = c := by
    rintro ⟨parts, statements⟩
    rfl
  simp only [standing, toDraft, Code.toDraft, heta]

theorem standing_of_build {d : Draft} {t : TypeDecl} (h : d.build = .ok t) :
    t = .of d.standing := by
  obtain ⟨doc, staticBlock, initializerBlock, -, -, hdoc, hstatic, hinitializer, rfl⟩ := of_build h
  obtain ⟨-, -, -, rfl⟩ := Code.Draft.of_build hdoc
  obtain ⟨-, -, -, rfl⟩ := Code.Draft.of_build hstatic
  obtain ⟨-, -, -, rfl⟩ := Code.Draft.of_build hinitializer
  rfl

/-- What stands obeys the rules that members are attached by. -/
structure Legal (d : Draft) : Prop where
  attached : d.standing.Attached
  types : ∀ t ∈ d.types, t.WellFormed
  constants : ∀ e ∈ d.constants, e.2.WellFormed

theorem legal_opened (identity : Identity TypeDecl) (error : Option Error) :
    ({ identity := identity, error := error } : Draft).Legal where
  attached := by
    constructor
    case anonymous => exact fun _ => ⟨rfl, rfl⟩
    all_goals simp [standing]
  types := by simp
  constants := by simp

theorem legal_toDraft {t : TypeDecl} (h : t.WellFormed) : t.toDraft.Legal := by
  cases h with
  | of legal types constants =>
    refine ⟨?_, types, constants⟩
    rw [standing_toDraft]
    exact legal.toAttached

theorem abstractMember?_eq_none {d : Draft} (h : d.abstractMember? = none) :
    (∀ m ∈ d.methods, m.modifiers.has .abstractKw = false)
      ∧ ∀ p ∈ d.properties, p.modifiers.has .abstractKw = false := by
  unfold abstractMember? at h
  split at h
  next => cases h
  next hmethods =>
    simp only [Option.map_eq_none_iff] at h
    refine ⟨?_, ?_⟩
    · intro m hm
      simpa using List.find?_eq_none.mp hmethods m hm
    · intro p hp
      simpa using List.find?_eq_none.mp h p hp

theorem check_eq (d : Draft) : d.check = (do
    if d.identity.name?.any fun name => !Identifier.isValid name then
      .error (.badIdentifier (d.identity.name?.getD ""))
    if d.identity.kind = .enumKind && d.constants.isEmpty then .error .emptyEnum
    if d.identity.kind.isConcreteByDefault && !d.modifiers.has .abstractKw
        && d.abstractMember?.isSome then
      .error (.abstractMember (d.abstractMember?.getD ""))
    if d.identity.isAnonymous && 1 < d.superclass.toList.length + d.interfaces.length then
      .error .manySupertypes : Except DeclFault Unit) := by
  unfold check
  cases d.identity.name? <;> cases d.abstractMember? <;>
    cases d.identity.kind.isConcreteByDefault && !d.modifiers.has .abstractKw <;> rfl

/-- Together with the checks for the whole, the rules are complete. -/
theorem legal_of_check {d : Draft} (h : d.standing.Attached) (hcheck : d.check = .ok ()) :
    d.standing.Legal := by
  rw [check_eq] at hcheck
  obtain ⟨hname, hcheck⟩ := Except.of_guard hcheck
  obtain ⟨hconstants, hcheck⟩ := Except.of_guard hcheck
  obtain ⟨hmember, hcheck⟩ := Except.of_guard hcheck
  have hsupertypes := Except.of_last_guard hcheck
  refine { h with name := ?_, enum := ?_, concrete := ?_, supertypes := ?_ }
  · intro n hn
    have hsome : d.identity.name? = some n := hn
    simpa [hsome] using hname
  · intro hkind hempty
    have hkind' : d.identity.kind = .enumKind := hkind
    have hempty' : d.constants = [] := hempty
    simp [hkind', hempty'] at hconstants
  · intro hkind habstract
    have hconcrete : d.identity.kind.isConcreteByDefault = true :=
      (TypeKind.isConcreteByDefault_iff _).mpr hkind
    have hflag : d.modifiers.has .abstractKw = false := habstract
    refine abstractMember?_eq_none ?_
    simpa [hconcrete, hflag] using hmember
  · intro hanonymous
    have hflag : d.identity.isAnonymous = true := hanonymous
    have hfew : d.superclass.toList.length + d.interfaces.length ≤ 1 := by
      simpa [hflag] using hsupertypes
    exact hfew

theorem Legal.build {d : Draft} (h : d.Legal) {t : TypeDecl} (ht : d.build = .ok t) :
    t.WellFormed := by
  obtain ⟨-, -, -, -, hcheck, -⟩ := of_build ht
  rw [standing_of_build ht]
  exact .of (legal_of_check h.attached hcheck) h.types h.constants

theorem wellFormed_blank : blank.WellFormed := (legal_opened (.anonymous .empty) none).build rfl

theorem Legal.fail {d : Draft} (h : d.Legal) (fault : DeclFault) : (d.fail fault).Legal :=
  ⟨h.attached, h.types, h.constants⟩

/-- A value that passes the check gives an enum its constant. -/
theorem of_constantFault? {d : Draft} {name : String} {value : TypeDecl}
    (h : d.constantFault? name value = none) :
    d.identity.kind = .enumKind ∧ Identifier.isValid name = true
      ∧ value.layer.isAnonymous = true ∧ value.layer.fields = [] ∧ value.layer.methods = []
      ∧ value.layer.properties = [] ∧ value.layer.types = [] := by
  unfold constantFault? at h
  split at h
  next => cases h
  next hkind =>
    split at h
    next => cases h
    next hname =>
      split at h
      next => cases h
      next hanonymous =>
        split at h
        next => cases h
        next hmembers =>
          refine ⟨not_not.mp hkind, by simpa using hname, by simpa using hanonymous, ?_⟩
          simpa [hasMembers, and_assoc] using hmembers

theorem Legal.putConstant {d : Draft} (h : d.Legal) (name : String) {value : TypeDecl}
    (hvalue : value.WellFormed) : (d.putConstant name value).Legal := by
  unfold Draft.putConstant
  split
  next => exact h.fail _
  next hfault =>
    have hput : ∀ e ∈ d.constants.put name value, e = (name, value) ∨ e ∈ d.constants :=
      fun e he => Table.mem_put he
    refine ⟨{ h.attached with constants := ?_ }, h.types, ?_⟩
    · intro e he
      rcases hput e he with rfl | hold
      · exact of_constantFault? hfault
      · exact h.attached.constants e hold
    · intro e he
      rcases hput e he with rfl | hold
      · exact hvalue
      · exact h.constants e hold

/-- **An edit keeps the rules**: what breaks one is left out. -/
theorem Legal.apply {d : Draft} (h : d.Legal) {e : Edit}
    (he : ∀ i ∈ Construct.handed .type e, i.Legal) : (d.apply e).Legal := by
  cases e with
  | addDoc | addInterface | addCode | addOrigin =>
    exact ⟨{ h.attached with }, h.types, h.constants⟩
  | addAttribute a =>
    have ha : a.Legal := he (.built .attr a) (by simp [Construct.handed])
    exact ⟨{ h.attached with
      attributes := List.forall_mem_append.mpr
        ⟨h.attached.attributes, List.forall_mem_singleton.mpr ha⟩ }, h.types, h.constants⟩
  | addModifiers ms =>
    simp only [Draft.apply]
    split
    next => exact h.fail _
    next hnamed =>
      exact ⟨{ h.attached with anonymous := fun hanonymous => absurd hanonymous hnamed }, h.types,
        h.constants⟩
  | addTypeVariable v =>
    simp only [Draft.apply]
    split
    next => exact h.fail _
    next hnamed =>
      exact ⟨{ h.attached with anonymous := fun hanonymous => absurd hanonymous hnamed }, h.types,
        h.constants⟩
  | superclass type =>
    simp only [Draft.apply, setSuperclass]
    split
    next => exact h.fail _
    next hkind =>
      split
      next => exact h.fail _
      next =>
        split
        next => exact h.fail _
        next hbuiltIn =>
          refine ⟨{ h.attached with superclass := ?_ }, h.types, h.constants⟩
          have hallowed : d.identity.kind.allowsSuperclass = true := by simpa using hkind
          rintro t ⟨⟩
          exact ⟨(TypeKind.allowsSuperclass_iff _).mp hallowed, Bool.eq_false_iff.mpr hbuiltIn⟩
  | addConstant name => exact h.putConstant name wellFormed_blank
  | addConstantWith name value =>
    exact h.putConstant name (he (.built .type value) (by simp [Construct.handed]))
  | addField x =>
    have hx : x.Legal := he (.built .field x) (by simp [Construct.handed])
    simp only [Draft.apply]
    split
    next => exact h.fail _
    next hcheck =>
      exact ⟨{ h.attached with
        fields := List.forall_mem_append.mpr
          ⟨h.attached.fields, List.forall_mem_singleton.mpr ⟨hx, hcheck⟩⟩ }, h.types, h.constants⟩
  | addStaticBlock code =>
    simp only [Draft.apply]
    split
    next => exact h.fail _
    next hallowed =>
      simp only [Bool.or_eq_true, not_or, Bool.not_eq_true', Bool.not_eq_false,
        Bool.not_eq_true] at hallowed
      exact ⟨{ h.attached with
        staticBlock := fun _ => ⟨(TypeKind.isClassLike_iff _).mp hallowed.1, hallowed.2⟩ },
        h.types, h.constants⟩
  | addInitializerBlock code =>
    simp only [Draft.apply]
    split
    next hallowed =>
      exact ⟨{ h.attached with
        initializerBlock := fun _ => (TypeKind.allowsInitializerBlock_iff _).mp hallowed },
        h.types, h.constants⟩
    next => exact h.fail _
  | addMethod m =>
    have hm : m.Legal := he (.built .method m) (by simp [Construct.handed])
    simp only [Draft.apply, attachMethod]
    split
    next => exact h.fail _
    next hcheck =>
      split
      next => exact h.fail _
      next hconstructor =>
        refine ⟨{ h.attached with
          methods := List.forall_mem_append.mpr
            ⟨h.attached.methods, List.forall_mem_singleton.mpr ⟨hm, hcheck, ?_⟩⟩ }, h.types,
          h.constants⟩
        intro hisConstructor
        have hallowed : d.identity.kind.isClassLike = true := by
          simpa [hisConstructor] using hconstructor
        exact (TypeKind.isClassLike_iff _).mp hallowed
  | addProperty p =>
    have hp : p.Legal := he (.built .property p) (by simp [Construct.handed])
    simp only [Draft.apply]
    split
    next => exact h.fail _
    next hcheck =>
      exact ⟨{ h.attached with
        properties := List.forall_mem_append.mpr
          ⟨h.attached.properties, List.forall_mem_singleton.mpr ⟨hp, hcheck⟩⟩ }, h.types,
        h.constants⟩
  | addType t =>
    have ht : t.WellFormed := he (.built .type t) (by simp [Construct.handed])
    simp only [Draft.apply, attachType]
    split
    next => exact h.fail _
    next hnamed =>
      split
      next => exact h.fail _
      next hcheck =>
        have hnew : t.layer.isAnonymous = false := Bool.eq_false_iff.mpr hnamed
        exact ⟨{ h.attached with
          types := List.forall_mem_append.mpr
            ⟨h.attached.types, List.forall_mem_singleton.mpr ⟨hnew, hcheck⟩⟩ },
          List.forall_mem_append.mpr ⟨h.types, List.forall_mem_singleton.mpr ht⟩, h.constants⟩

end TypeDecl.Draft

/-! ### Whatever is obtainable is legal -/

namespace Construct

def DraftLegal : (k : Construct) → k.Draft → Prop
  | attr => Attribute.Draft.Legal
  | parameter => Parameter.Draft.Legal
  | field => Field.Draft.Legal
  | method => Method.Draft.Legal
  | property => Property.Draft.Legal
  | type => TypeDecl.Draft.Legal
  | file => fun d => TypeDecl.WellFormed (SourceFile.Draft.type d)

theorem Opens.legal {k : Construct} {d : k.Draft} {items : List Item} (h : k.Opens d items)
    (hitems : ∀ i ∈ items, i.Legal) : k.DraftLegal d := by
  cases h with
  | attr t => simp [DraftLegal, Attribute.Draft.Legal]
  | parameter t name => exact Parameter.Draft.Legal.mk (by simp [ModifierSet.empty]) (by simp)
  | field t name => simp [DraftLegal, Field.Draft.Legal]
  | method name => exact Method.Draft.Legal.mk (by simp) (by simp)
  | property t name => exact Property.Draft.Legal.mk (by simp) (by simp)
  | named kind name => exact TypeDecl.Draft.legal_opened _ _
  | anonymous format args =>
    unfold TypeDecl.Draft.anonymous
    split
    · exact TypeDecl.Draft.legal_opened _ _
    · exact TypeDecl.Draft.legal_opened _ _
  | file space t => exact hitems (.built .type t) (by simp)

theorem legal_reopen {k : Construct} {x : k.Value} (h : (Item.built k x).Legal) :
    k.DraftLegal (k.reopen x) := by
  cases k with
  | attr => exact h
  | parameter =>
    have hparameter : Parameter.Legal x := h
    exact Parameter.Draft.Legal.mk (fun _ => hparameter.modifiers) hparameter.attributes
  | field => exact Field.Legal.attributes h
  | method => exact Method.Draft.Legal.mk (Method.Legal.attributes h) (Method.Legal.parameters h)
  | property =>
    exact Property.Draft.Legal.mk (Property.Legal.attributes h) (Property.Legal.parameters h)
  | type => exact TypeDecl.Draft.legal_toDraft h
  | file => exact h

theorem legal_apply {k : Construct} {d : k.Draft} (h : k.DraftLegal d) {e : k.Edit}
    (he : ∀ i ∈ k.handed e, i.Legal) : k.DraftLegal (k.apply d e) := by
  cases k with
  | attr => exact Attribute.Draft.Legal.apply h e
  | parameter => exact Parameter.Draft.Legal.apply h he
  | field => exact Field.Draft.Legal.apply h he
  | method => exact Method.Draft.Legal.apply h he
  | property => exact Property.Draft.Legal.apply h he
  | type => exact TypeDecl.Draft.Legal.apply h he
  | file => cases e <;> exact h

theorem legal_build {k : Construct} {d : k.Draft} (h : k.DraftLegal d) {x : k.Value}
    (hx : k.build d = .ok x) : (Item.built k x).Legal := by
  cases k with
  | attr => exact Attribute.Draft.Legal.build h hx
  | parameter => exact Parameter.Draft.Legal.build h hx
  | field => exact Field.Draft.Legal.build h hx
  | method => exact Method.Draft.Legal.build h hx
  | property => exact Property.Draft.Legal.build h hx
  | type => exact TypeDecl.Draft.Legal.build h hx
  | file =>
    obtain ⟨comment, -, rfl⟩ := SourceFile.Draft.of_build hx
    exact h

end Construct

mutual

theorem Reachable.legal : ∀ {k : Construct} {d : k.Draft}, Reachable k d → k.DraftLegal d
  | _, _, .opened h hitems => h.legal fun i hi => Obtainable.legal (hitems i hi)
  | _, _, .reopened h => Construct.legal_reopen (Obtainable.legal h)
  | _, _, .edited h hitems =>
    Construct.legal_apply (Reachable.legal h) fun i hi => Obtainable.legal (hitems i hi)

theorem Obtainable.legal : ∀ {i : Item}, Obtainable i → i.Legal
  | _, .code _ _ => trivial
  | _, .built h hx => Construct.legal_build (Reachable.legal h) hx

end

namespace TypeDecl

/-- **Every type that can be built is well formed at every level.** -/
theorem wellFormed_of_obtainable {t : TypeDecl} (h : Obtainable (.built .type t)) : t.WellFormed :=
  h.legal

/-- An enum with one constant. -/
def paint : TypeDecl :=
  .of ⟨.named .enumKind "Paint", .empty, [], .empty, [], none, [], [("Red", blank)], [], .empty,
    .empty, [], [], [], [], []⟩

/-- A class around the enum. -/
def shape : TypeDecl :=
  .of ⟨.named .classKind "Shape", .empty, [], .empty, [], none, [], [], [], .empty, .empty, [], [],
    [], [paint], []⟩

theorem wellFormed_shape : Obtainable (.built .type shape) ∧ shape.WellFormed := by
  have hpaint : Obtainable (.built .type paint) :=
    .built (.edited (k := .type) (e := Edit.addConstant "Red")
      (.opened (.named .enumKind "Paint") (by simp)) (by simp [Construct.handed])) rfl
  have hshape : Obtainable (.built .type shape) :=
    .built (.edited (k := .type) (e := Edit.addType paint)
      (.opened (.named .classKind "Shape") (by simp)) (by simpa [Construct.handed] using hpaint)) rfl
  exact ⟨hshape, wellFormed_of_obtainable hshape⟩

end TypeDecl

end CSharpGen
