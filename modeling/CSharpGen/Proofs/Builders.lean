/-
  CSharpGen/Proofs/Builders.lean
  ==============================
  **What can be built.**  Attributes, parameters, fields, methods, properties,
  types and files are drafted and finished alike: a draft is opened, or taken
  up from a finished value, changed by edits, and built (`Construct`).  What an
  edit is handed, blocks and finished values, has been built before.
  `Obtainable` is the closure under all of this, and it contains every value
  that a caller can ever hold.

  Whatever is obtainable is fit (`Obtainable.fit`): all the code in it is sound,
  at every depth of its declarations.
-/
import CSharpGen.Decl.Attribute
import CSharpGen.Decl.Field
import CSharpGen.Decl.Method
import CSharpGen.Decl.Parameter
import CSharpGen.Decl.Property
import CSharpGen.Decl.Type
import CSharpGen.Proofs.Blocks
import CSharpGen.Proofs.Members
import CSharpGen.SourceFile

namespace CSharpGen

/-! ### The constructs -/

/-- What is drafted and built. -/
inductive Construct where
  | attr | parameter | field | method | property | type | file
  deriving DecidableEq

namespace Construct

def Value : Construct → Type
  | attr => Attribute TypeDecl
  | parameter => Parameter TypeDecl
  | field => Field TypeDecl
  | method => Method TypeDecl
  | property => Property TypeDecl
  | type => TypeDecl
  | file => SourceFile

def Draft : Construct → Type
  | attr => Attribute.Draft TypeDecl
  | parameter => Parameter.Draft TypeDecl
  | field => Field.Draft TypeDecl
  | method => Method.Draft TypeDecl
  | property => Property.Draft TypeDecl
  | type => TypeDecl.Draft
  | file => SourceFile.Draft

def Edit : Construct → Type
  | attr => Attribute.Edit TypeDecl
  | parameter => Parameter.Edit TypeDecl
  | field => Field.Edit TypeDecl
  | method => Method.Edit TypeDecl
  | property => Property.Edit TypeDecl
  | type => TypeDecl.Edit
  | file => SourceFile.Edit

/-- The draft after an edit. -/
def apply : (k : Construct) → k.Draft → k.Edit → k.Draft
  | attr => Attribute.Draft.apply
  | parameter => Parameter.Draft.apply
  | field => Field.Draft.apply
  | method => Method.Draft.apply
  | property => Property.Draft.apply
  | type => TypeDecl.Draft.apply
  | file => SourceFile.Draft.apply

/-- The finished value. -/
def build : (k : Construct) → k.Draft → Except Error k.Value
  | attr => Attribute.Draft.build
  | parameter => Parameter.Draft.build
  | field => Field.Draft.build
  | method => Method.Draft.build
  | property => Property.Draft.build
  | type => TypeDecl.Draft.build
  | file => SourceFile.Draft.build

/-- The draft that goes on from a value. -/
def reopen : (k : Construct) → k.Value → k.Draft
  | attr => Attribute.toDraft
  | parameter => Parameter.toDraft
  | field => Field.toDraft
  | method => Method.toDraft
  | property => Property.toDraft
  | type => TypeDecl.toDraft
  | file => SourceFile.toDraft

end Construct

/-- Something that can be handed to an edit. -/
inductive Item where
  | code (c : Code TypeDecl)
  | built (k : Construct) (x : k.Value)

/-- What an argument of a format brings in. -/
def Argument.handed : Argument TypeDecl → List Item
  | .code c => [.code c]
  | .declaration t => [.built .type t]
  | .text _ | .null | .type _ => []

def Code.Edit.handed : Code.Edit TypeDecl → List Item
  | .add _ args | .addStatement _ args | .beginFlow _ args | .nextFlow _ args
  | .endFlowWith _ args => args.flatMap Argument.handed
  | .addCode c => [.code c]
  | .endFlow | .indent | .unindent => []

namespace Construct

/-- What an edit is handed. -/
def handed : (k : Construct) → k.Edit → List Item
  | attr, .argument _ args | attr, .namedArgument _ _ args =>
    args.flatMap Argument.handed
  | parameter, .addModifiers _ => []
  | parameter, .addAttribute a => [.built .attr a]
  | parameter, .defaultValue _ args => args.flatMap Argument.handed
  | field, .addDoc _ args | field, .initializer _ args => args.flatMap Argument.handed
  | field, .addAttribute a => [.built .attr a]
  | field, .addModifiers _ => []
  | method, .addDoc _ args | method, .chain _ args => args.flatMap Argument.handed
  | method, .addAttribute a => [.built .attr a]
  | method, .addParameter p => [.built .parameter p]
  | method, .body edit => edit.handed
  | method, .addModifiers _ | method, .addTypeVariable _ | method, .returns _
  | method, .parameter _ _ => []
  | property, .addDoc _ args | property, .initializer _ args => args.flatMap Argument.handed
  | property, .addAttribute a => [.built .attr a]
  | property, .addParameter p => [.built .parameter p]
  | property, .getter body | property, .setter body => [.code body]
  | property, .addModifiers _ => []
  | type, .addDoc _ args => args.flatMap Argument.handed
  | type, .addAttribute a => [.built .attr a]
  | type, .addConstantWith _ value => [.built .type value]
  | type, .addField x => [.built .field x]
  | type, .addStaticBlock c | type, .addInitializerBlock c | type, .addCode c => [.code c]
  | type, .addMethod m => [.built .method m]
  | type, .addProperty p => [.built .property p]
  | type, .addType t => [.built .type t]
  | type, .addModifiers _ | type, .addTypeVariable _ | type, .superclass _
  | type, .addInterface _ | type, .addConstant _ | type, .addOrigin _ => []
  | file, .addComment _ args => args.flatMap Argument.handed
  | file, .addUsing _ | file, .addStaticUsing _ | file, .skipSystemImports _
  | file, .indent _ | file, .columnLimit _ | file, .fileScopedNamespace _ | file, .style _ => []

/-- How a draft is opened, with what is handed over for it. -/
inductive Opens : (k : Construct) → k.Draft → List Item → Prop
  | attr (t : TypeRef) : Opens .attr ({ type := t } : Attribute.Draft TypeDecl) []
  | parameter (t : TypeRef) (name : String) :
      Opens .parameter ({ name := name, type := t } : Parameter.Draft TypeDecl) []
  | field (t : TypeRef) (name : String) :
      Opens .field ({ name := name, type := t } : Field.Draft TypeDecl) []
  | method (name : Option String) : Opens .method ({ name := name } : Method.Draft TypeDecl) []
  | property (t : TypeRef) (name : Option String) :
      Opens .property ({ name := name, type := t } : Property.Draft TypeDecl) []
  | named (kind : TypeKind) (name : String) : Opens .type (TypeDecl.Draft.named kind name) []
  | anonymous (format : String) (args : List (Argument TypeDecl)) :
      Opens .type (TypeDecl.Draft.anonymous format args) (args.flatMap Argument.handed)
  | file (space : String) (t : TypeDecl) :
      Opens .file ({ space := space, type := t } : SourceFile.Draft) [.built .type t]

end Construct

mutual

/-- The drafts that can be reached. -/
inductive Reachable : (k : Construct) → k.Draft → Prop
  | opened {k : Construct} {d : k.Draft} {items : List Item} (h : k.Opens d items)
      (hitems : ∀ i ∈ items, Obtainable i) : Reachable k d
  | reopened {k : Construct} {x : k.Value} (h : Obtainable (.built k x)) :
      Reachable k (k.reopen x)
  | edited {k : Construct} {d : k.Draft} {e : k.Edit} (h : Reachable k d)
      (hitems : ∀ i ∈ k.handed e, Obtainable i) : Reachable k (k.apply d e)

/-- What a caller can hold. -/
inductive Obtainable : Item → Prop
  | code {c : Code TypeDecl} (h : c.Built fun _ => True)
      (hinner : ∀ t ∈ c.declarations, Obtainable (.built .type t)) : Obtainable (.code c)
  | built {k : Construct} {d : k.Draft} {x : k.Value} (h : Reachable k d)
      (hx : k.build d = .ok x) : Obtainable (.built k x)

end

/-! ### Fit code -/

/-- The block is sound, and so are the declarations in it. -/
structure Code.Fit (c : Code TypeDecl) : Prop where
  sound : c.Sound False
  inner : ∀ t ∈ c.declarations, t.Sound

def Attribute.Fit (a : Attribute TypeDecl) : Prop := ∀ c ∈ a.codes, c.Fit

def Parameter.Fit (p : Parameter TypeDecl) : Prop := ∀ c ∈ p.codes, c.Fit

def Field.Fit (x : Field TypeDecl) : Prop := ∀ c ∈ x.codes, c.Fit

def Method.Fit (m : Method TypeDecl) : Prop := ∀ c ∈ m.codes, c.Fit

def Property.Fit (p : Property TypeDecl) : Prop := ∀ c ∈ p.codes, c.Fit

structure SourceFile.Fit (f : SourceFile) : Prop where
  comment : f.comment.Fit
  type : f.type.Sound
  usings : ∀ space ∈ f.usings, Identifier.isValidNamespace space = true

/-- All the code in the item is sound, at every depth, and the namespaces that a file asks
    for are well formed. -/
def Item.Fit : Item → Prop
  | .code c => c.Fit
  | .built .attr a => Attribute.Fit a
  | .built .parameter p => Parameter.Fit p
  | .built .field x => Field.Fit x
  | .built .method m => Method.Fit m
  | .built .property p => Property.Fit p
  | .built .type t => TypeDecl.Sound t
  | .built .file f => SourceFile.Fit f

theorem TypeDecl.Sound.fit {d : Declaration TypeDecl} (h : (TypeDecl.of d).Sound) :
    (∀ c ∈ d.codes, c.Fit) ∧ (∀ e ∈ d.constants, e.2.Sound) ∧ ∀ t ∈ d.types, t.Sound := by
  obtain ⟨hcodes, hinner⟩ := h
  refine ⟨?_, ?_, ?_⟩
  · intro c hc
    refine ⟨hcodes c hc, ?_⟩
    intro t ht
    exact hinner t (List.mem_append_left _ (List.mem_append_left _
      (List.mem_flatMap.mpr ⟨c, hc, ht⟩)))
  · intro e he
    exact hinner e.2 (List.mem_append_left _ (List.mem_append_right _ (List.mem_map_of_mem he)))
  · intro t ht
    exact hinner t (List.mem_append_right _ ht)

theorem TypeDecl.sound_of_fit {d : Declaration TypeDecl} (hcodes : ∀ c ∈ d.codes, c.Fit)
    (hconstants : ∀ e ∈ d.constants, e.2.Sound) (htypes : ∀ t ∈ d.types, t.Sound) :
    (TypeDecl.of d).Sound := by
  refine .of (fun c hc => (hcodes c hc).sound) ?_
  intro t ht
  rcases List.mem_append.mp ht with ht | ht
  · rcases List.mem_append.mp ht with ht | ht
    · obtain ⟨c, hc, htc⟩ := List.mem_flatMap.mp ht
      exact (hcodes c hc).inner t htc
    · obtain ⟨e, he, rfl⟩ := List.mem_map.mp ht
      exact hconstants e he
  · exact htypes t ht

/-! ### Drafts of code -/

theorem Code.textParts_declarations {δ : Type} (s : String) :
    (Code.textParts s : List (Part δ)).flatMap Part.declarations = [] := by
  unfold Code.textParts
  split <;> simp [Part.declarations]

namespace Code.Draft

/-- The counters of the draft agree with its parts, and the declarations in it are
    sound. -/
structure Fit (d : Draft TypeDecl) : Prop where
  sound : d.Sound False
  inner : ∀ t ∈ d.parts.flatMap Part.declarations, t.Sound

variable {d : Draft TypeDecl} {args : List (Argument TypeDecl)}

theorem sound_of_handed (h : ∀ i ∈ args.flatMap Argument.handed, i.Fit) :
    ∀ c ∈ args.flatMap Argument.blocks, c.Sound False := by
  intro c hc
  obtain ⟨arg, harg, hblock⟩ := List.mem_flatMap.mp hc
  cases arg with
  | code b =>
    cases List.mem_singleton.mp hblock
    have hfit := h (.code c) (List.mem_flatMap.mpr ⟨_, harg, by simp [Argument.handed]⟩)
    exact hfit.sound
  | text s | null | type t | declaration t => cases hblock

theorem argumentPart_inner {e : Draft TypeDecl} {placeholder : Placeholder}
    {arg : Argument TypeDecl} {p : Part TypeDecl}
    (h : d.argumentPart placeholder arg = .ok (p, e)) (harg : ∀ i ∈ arg.handed, i.Fit) :
    ∀ t ∈ p.declarations, t.Sound := by
  unfold argumentPart at h
  split at h
  case h_4 c =>
    obtain ⟨-, rfl⟩ := argumentPart_code_eq_ok h
    have hfit : (Item.code c).Fit := harg _ (by simp [Argument.handed])
    rw [Part.declarations]
    exact hfit.inner
  case h_5 t =>
    cases h
    have hfit : t.Sound := harg (.built .type t) (by simp [Argument.handed])
    simpa [Part.declarations] using hfit
  all_goals
    cases h
    try simp [Part.declarations]

theorem directive_inner {e : Draft TypeDecl} {format : String} {cursor moved : Cursor}
    {dir : Directive} {p : Part TypeDecl}
    (h : d.directive format args cursor dir = .ok (p, e, moved))
    (hargs : ∀ i ∈ args.flatMap Argument.handed, i.Fit) : ∀ t ∈ p.declarations, t.Sound := by
  cases dir with
  | argument placeholder position =>
    obtain ⟨arg, htake, hpart⟩ := directive_argument_eq_ok h
    refine argumentPart_inner hpart ?_
    intro i hi
    exact hargs i (List.mem_flatMap.mpr ⟨arg, take_mem htake, hi⟩)
  | indent | wrapSpace | wrapPoint =>
    cases h
    simp [Part.declarations]
  | unindent | openStatement | closeStatement =>
    simp only [directive] at h
    split at h
    all_goals
      cases h
      try simp [Part.declarations]

theorem Fit.empty : ({} : Draft TypeDecl).Fit := ⟨.empty, by simp⟩

theorem Fit.add (h : d.Fit) (format : String)
    (hargs : ∀ i ∈ args.flatMap Argument.handed, i.Fit) : (d.add format args).Fit := by
  have hblocks := sound_of_handed hargs
  refine ⟨h.sound.add format hblocks, ?_⟩
  -- The parts that a format adds come one by one with its directives.
  have hinterpret : ∀ (segments : List (String × Directive)) (e : Draft TypeDecl)
      (cursor : Cursor) (ending : Except CodeFault String),
      (∀ t ∈ e.parts.flatMap Part.declarations, t.Sound) →
      ∀ t ∈ (e.interpret format args ending cursor segments).parts.flatMap Part.declarations,
        t.Sound := by
    intro segments
    induction segments with
    | nil =>
      intro e cursor ending he
      simp only [Draft.interpret, finish]
      split
      · exact he
      · split
        · simpa [push, fail, textParts_declarations] using he
        · simpa [push, textParts_declarations] using he
    | cons segment rest ih =>
      intro e cursor ending he
      simp only [Draft.interpret]
      split
      · exact he
      · next p moved next hdirective =>
        refine ih _ _ _ ?_
        have hparts := (directive_takes hdirective hblocks).parts
        have hpart := directive_inner hdirective hargs
        intro t ht
        simp only [push, hparts, List.flatMap_append, textParts_declarations, List.nil_append,
          List.flatMap_cons, List.flatMap_nil, List.append_nil, List.mem_append] at ht
        rcases ht with ht | ht
        · exact he t ht
        · exact hpart t ht
  unfold Draft.add
  split
  · exact h.inner
  · exact hinterpret _ _ _ _ h.inner

theorem Fit.addCode (h : d.Fit) {c : Code TypeDecl} (hc : c.Fit) : (d.addCode c).Fit := by
  refine ⟨h.sound.addCode hc.sound, ?_⟩
  unfold Draft.addCode
  split
  · exact h.inner
  · split
    · exact h.inner
    · next moved habsorb =>
      have hparts : moved.parts = d.parts :=
        (absorb_takes habsorb hc.sound c.flat_eq.symm c.profile_eq.symm fun b hb =>
          hc.sound.nested hb).parts
      intro t ht
      simp only [push, hparts, List.flatMap_append, List.mem_append] at ht
      rcases ht with ht | ht
      · exact h.inner t ht
      · exact hc.inner t (by rw [Code.declarations_eq]; exact ht)

theorem Fit.fail (h : d.Fit) (fault : CodeFault) : (d.fail fault).Fit :=
  ⟨h.sound.fail fault, h.inner⟩

theorem Fit.setFlows (h : d.Fit) (flows : Nat) : ({ d with flows := flows } : Draft TypeDecl).Fit :=
  ⟨h.sound.setFlows id flows, h.inner⟩

/-- **An edit of a block keeps it fit.** -/
theorem Fit.apply (h : d.Fit) {e : Code.Edit TypeDecl} (he : ∀ i ∈ e.handed, i.Fit) :
    (d.apply e).Fit := by
  cases e with
  | add format args => exact h.add format he
  | addStatement format args => exact h.add _ he
  | addCode c =>
    have hc : (Item.code c).Fit := he _ (by simp [Code.Edit.handed])
    exact h.addCode hc
  | beginFlow header args => exact (h.add _ he).setFlows _
  | nextFlow header args =>
    simp only [Draft.apply, Draft.nextFlow]
    split
    · exact h.fail _
    · exact h.add _ he
  | endFlow =>
    simp only [Draft.apply, Draft.endFlow]
    split
    · exact h.fail _
    · exact (h.setFlows _).add _ (by simp)
  | endFlowWith clause args =>
    simp only [Draft.apply, Draft.endFlowWith]
    split
    · exact h.fail _
    · exact (h.setFlows _).add _ he
  | indent | unindent => exact h.add _ (by simp)

theorem Fit.build (h : d.Fit) {c : Code TypeDecl} (hc : d.build = .ok c) : c.Fit := by
  refine ⟨h.sound.build hc, ?_⟩
  unfold Draft.build at hc
  split at hc
  · cases hc
  · split at hc
    · cases hc
    · split at hc
      · cases hc
      · cases hc
        rw [Code.declarations_eq]
        exact h.inner

end Code.Draft

theorem Code.Fit.toDraft {c : Code TypeDecl} (h : c.Fit) : c.toDraft.Fit := by
  refine ⟨h.sound.toDraft, ?_⟩
  have hinner := h.inner
  rw [Code.declarations_eq] at hinner
  exact hinner

theorem Code.fit_ofFormat {format : String} {args : List (Argument TypeDecl)} {c : Code TypeDecl}
    (h : Code.ofFormat format args = .ok c) (hargs : ∀ i ∈ args.flatMap Argument.handed, i.Fit) :
    c.Fit :=
  (Code.Draft.Fit.empty.add format hargs).build h

/-! ### Drafts of attributes and members -/

namespace Attribute.Draft

structure Fit (d : Draft TypeDecl) : Prop where
  arguments : ∀ c ∈ d.arguments, c.Fit
  named : ∀ e ∈ d.named, e.2.Fit

theorem Fit.apply {d : Draft TypeDecl} (h : d.Fit) {e : Edit TypeDecl}
    (he : ∀ i ∈ Construct.handed .attr e, i.Fit) : (d.apply e).Fit := by
  cases e with
  | argument format args =>
    simp only [Draft.apply]
    split
    · next value hvalue =>
      exact ⟨List.forall_mem_append.mpr ⟨h.arguments,
        List.forall_mem_singleton.mpr (Code.fit_ofFormat hvalue he)⟩, h.named⟩
    · exact ⟨h.arguments, h.named⟩
  | namedArgument name format args =>
    simp only [Draft.apply]
    split
    · split
      · next value hvalue =>
        refine ⟨h.arguments, ?_⟩
        intro entry hentry
        rcases Table.mem_put hentry with rfl | hold
        · exact Code.fit_ofFormat hvalue he
        · exact h.named entry hold
      · exact ⟨h.arguments, h.named⟩
    · exact ⟨h.arguments, h.named⟩

theorem Fit.build {d : Draft TypeDecl} (h : d.Fit) {a : Attribute TypeDecl}
    (ha : d.build = .ok a) : a.Fit := by
  unfold Draft.build at ha
  split at ha
  · cases ha
  · cases ha
    intro c hc
    rcases List.mem_append.mp hc with hc | hc
    · exact h.arguments c hc
    · obtain ⟨entry, hentry, rfl⟩ := List.mem_map.mp hc
      exact h.named entry hentry

theorem fit_toDraft {a : Attribute TypeDecl} (h : a.Fit) : a.toDraft.Fit where
  arguments := fun c hc => h c (List.mem_append_left _ hc)
  named := fun e he => h e.2 (List.mem_append_right _ (List.mem_map_of_mem he))

end Attribute.Draft

namespace Parameter.Draft

structure Fit (d : Draft TypeDecl) : Prop where
  attributes : ∀ a ∈ d.attributes, a.Fit
  defaultValue : ∀ c ∈ d.defaultValue, c.Fit

theorem Fit.addModifiers {d : Draft TypeDecl} (h : d.Fit) (ms : List Modifier) :
    (ms.foldl addModifier d).Fit := by
  induction ms generalizing d with
  | nil => exact h
  | cons m rest ih =>
    refine ih ?_
    simp only [addModifier]
    split
    · exact ⟨h.attributes, h.defaultValue⟩
    · exact ⟨h.attributes, h.defaultValue⟩

theorem Fit.apply {d : Draft TypeDecl} (h : d.Fit) {e : Edit TypeDecl}
    (he : ∀ i ∈ Construct.handed .parameter e, i.Fit) : (d.apply e).Fit := by
  cases e with
  | addModifiers ms => exact h.addModifiers ms
  | addAttribute a =>
    have ha : a.Fit := he (.built .attr a) (by simp [Construct.handed])
    exact ⟨List.forall_mem_append.mpr ⟨h.attributes, List.forall_mem_singleton.mpr ha⟩,
      h.defaultValue⟩
  | defaultValue format args =>
    simp only [Draft.apply]
    split
    · next value hvalue =>
      refine ⟨h.attributes, ?_⟩
      rintro c ⟨⟩
      exact Code.fit_ofFormat hvalue he
    · exact ⟨h.attributes, h.defaultValue⟩

theorem Fit.build {d : Draft TypeDecl} (h : d.Fit) {p : Parameter TypeDecl}
    (hp : d.build = .ok p) : p.Fit := by
  unfold Draft.build at hp
  split at hp
  · cases hp
  · split at hp
    · cases hp
      intro c hc
      rcases List.mem_append.mp hc with hc | hc
      · obtain ⟨a, ha, hac⟩ := List.mem_flatMap.mp hc
        exact h.attributes a ha c hac
      · exact h.defaultValue c (Option.mem_toList.mp hc)
    · cases hp

theorem fit_toDraft {p : Parameter TypeDecl} (h : p.Fit) : p.toDraft.Fit where
  attributes := fun a ha c hc =>
    h c (List.mem_append_left _ (List.mem_flatMap.mpr ⟨a, ha, hc⟩))
  defaultValue := fun c hc => h c (List.mem_append_right _ (Option.mem_toList.mpr hc))

end Parameter.Draft

namespace Field.Draft

structure Fit (d : Draft TypeDecl) : Prop where
  doc : d.doc.Fit
  attributes : ∀ a ∈ d.attributes, a.Fit
  initializer : ∀ c ∈ d.initializer, c.Fit

theorem Fit.apply {d : Draft TypeDecl} (h : d.Fit) {e : Edit TypeDecl}
    (he : ∀ i ∈ Construct.handed .field e, i.Fit) : (d.apply e).Fit := by
  cases e with
  | addDoc format args => exact ⟨h.doc.add format he, h.attributes, h.initializer⟩
  | addAttribute a =>
    have ha : a.Fit := he (.built .attr a) (by simp [Construct.handed])
    exact ⟨h.doc, List.forall_mem_append.mpr ⟨h.attributes, List.forall_mem_singleton.mpr ha⟩,
      h.initializer⟩
  | addModifiers ms => exact ⟨h.doc, h.attributes, h.initializer⟩
  | initializer format args =>
    simp only [Draft.apply]
    split
    · next value hvalue =>
      refine ⟨h.doc, h.attributes, ?_⟩
      rintro c ⟨⟩
      exact Code.fit_ofFormat hvalue he
    · exact ⟨h.doc, h.attributes, h.initializer⟩

theorem Fit.build {d : Draft TypeDecl} (h : d.Fit) {x : Field TypeDecl}
    (hx : d.build = .ok x) : x.Fit := by
  unfold Draft.build at hx
  split at hx
  · cases hx
  · split at hx
    · obtain ⟨doc, hdoc, hx⟩ := Except.bind_eq_ok hx
      cases hx
      intro c hc
      simp only [Field.codes, List.mem_cons, List.mem_append, List.mem_flatMap,
        Option.mem_toList] at hc
      rcases hc with rfl | ⟨a, ha, hc⟩ | hc
      · exact h.doc.build hdoc
      · exact h.attributes a ha c hc
      · exact h.initializer c hc
    · cases hx

theorem fit_toDraft {x : Field TypeDecl} (h : x.Fit) : x.toDraft.Fit := by
  have hcodes : ∀ c ∈ x.codes, c.Fit := h
  simp only [Field.codes, List.mem_cons, List.mem_append, List.mem_flatMap,
    Option.mem_toList] at hcodes
  refine ⟨(hcodes x.doc (.inl rfl)).toDraft, ?_, ?_⟩
  · intro a ha c hc
    exact hcodes c (.inr (.inl ⟨a, ha, hc⟩))
  · intro c hc
    exact hcodes c (.inr (.inr hc))

end Field.Draft

namespace Method.Draft

structure Fit (d : Draft TypeDecl) : Prop where
  doc : d.doc.Fit
  attributes : ∀ a ∈ d.attributes, a.Fit
  parameters : ∀ p ∈ d.parameters, p.Fit
  body : d.body.Fit
  chained : ∀ c ∈ d.chained, c.Fit

theorem Fit.apply {d : Draft TypeDecl} (h : d.Fit) {e : Edit TypeDecl}
    (he : ∀ i ∈ Construct.handed .method e, i.Fit) : (d.apply e).Fit := by
  obtain ⟨hdoc, hattributes, hparameters, hbody, hchained⟩ := h
  cases e with
  | addDoc format args => exact ⟨hdoc.add format he, hattributes, hparameters, hbody, hchained⟩
  | addAttribute a =>
    have ha : a.Fit := he (.built .attr a) (by simp [Construct.handed])
    exact ⟨hdoc, List.forall_mem_append.mpr ⟨hattributes, List.forall_mem_singleton.mpr ha⟩,
      hparameters, hbody, hchained⟩
  | addParameter p =>
    have hp : p.Fit := he (.built .parameter p) (by simp [Construct.handed])
    exact ⟨hdoc, hattributes,
      List.forall_mem_append.mpr ⟨hparameters, List.forall_mem_singleton.mpr hp⟩, hbody, hchained⟩
  | parameter type name =>
    simp only [Draft.apply]
    split
    · next p hplain =>
      have hp : p.Fit := Parameter.Draft.Fit.build ⟨by simp, by simp⟩ hplain
      exact ⟨hdoc, hattributes,
        List.forall_mem_append.mpr ⟨hparameters, List.forall_mem_singleton.mpr hp⟩, hbody,
        hchained⟩
    · exact ⟨hdoc, hattributes, hparameters, hbody, hchained⟩
  | chain format args =>
    simp only [Draft.apply]
    split
    · next value hvalue =>
      refine ⟨hdoc, hattributes, hparameters, hbody, ?_⟩
      rintro c ⟨⟩
      exact Code.fit_ofFormat hvalue he
    · exact ⟨hdoc, hattributes, hparameters, hbody, hchained⟩
  | body edit => exact ⟨hdoc, hattributes, hparameters, hbody.apply he, hchained⟩
  | addModifiers ms | addTypeVariable v | returns type =>
    exact ⟨hdoc, hattributes, hparameters, hbody, hchained⟩

theorem Fit.build {d : Draft TypeDecl} (h : d.Fit) {m : Method TypeDecl}
    (hm : d.build = .ok m) : m.Fit := by
  unfold Draft.build at hm
  split at hm
  · cases hm
  · obtain ⟨body, hbody, hm⟩ := Except.bind_eq_ok hm
    obtain ⟨doc, hdoc, hm⟩ := Except.bind_eq_ok hm
    split at hm
    · cases hm
    · cases hm
      intro c hc
      simp only [Method.codes, List.mem_cons, List.mem_append, List.mem_flatMap,
        Option.mem_toList] at hc
      rcases hc with rfl | (⟨a, ha, hc⟩ | ⟨p, hp, hc⟩) | rfl | hc
      · exact h.doc.build hdoc
      · exact h.attributes a ha c hc
      · exact h.parameters p hp c hc
      · exact h.body.build hbody
      · exact h.chained c hc

theorem fit_toDraft {m : Method TypeDecl} (h : m.Fit) : m.toDraft.Fit := by
  have hcodes : ∀ c ∈ m.codes, c.Fit := h
  simp only [Method.codes, List.mem_cons, List.mem_append, List.mem_flatMap,
    Option.mem_toList] at hcodes
  refine ⟨(hcodes m.doc (.inl rfl)).toDraft, ?_, ?_,
    (hcodes m.body (.inr (.inr (.inl rfl)))).toDraft, ?_⟩
  · intro a ha c hc
    exact hcodes c (.inr (.inl (.inl ⟨a, ha, hc⟩)))
  · intro p hp c hc
    exact hcodes c (.inr (.inl (.inr ⟨p, hp, hc⟩)))
  · intro c hc
    exact hcodes c (.inr (.inr (.inr hc)))

end Method.Draft

namespace Property.Draft

structure Fit (d : Draft TypeDecl) : Prop where
  doc : d.doc.Fit
  attributes : ∀ a ∈ d.attributes, a.Fit
  parameters : ∀ p ∈ d.parameters, p.Fit
  getter : ∀ c ∈ d.getter, c.Fit
  setter : ∀ c ∈ d.setter, c.Fit
  initializer : ∀ c ∈ d.initializer, c.Fit

theorem Fit.apply {d : Draft TypeDecl} (h : d.Fit) {e : Edit TypeDecl}
    (he : ∀ i ∈ Construct.handed .property e, i.Fit) : (d.apply e).Fit := by
  obtain ⟨hdoc, hattributes, hparameters, hgetter, hsetter, hinitializer⟩ := h
  cases e with
  | addDoc format args =>
    exact ⟨hdoc.add format he, hattributes, hparameters, hgetter, hsetter, hinitializer⟩
  | addAttribute a =>
    have ha : a.Fit := he (.built .attr a) (by simp [Construct.handed])
    exact ⟨hdoc, List.forall_mem_append.mpr ⟨hattributes, List.forall_mem_singleton.mpr ha⟩,
      hparameters, hgetter, hsetter, hinitializer⟩
  | addParameter p =>
    have hp : p.Fit := he (.built .parameter p) (by simp [Construct.handed])
    exact ⟨hdoc, hattributes,
      List.forall_mem_append.mpr ⟨hparameters, List.forall_mem_singleton.mpr hp⟩, hgetter,
      hsetter, hinitializer⟩
  | getter body =>
    have hbody : body.Fit := he (.code body) (by simp [Construct.handed])
    refine ⟨hdoc, hattributes, hparameters, ?_, hsetter, hinitializer⟩
    rintro c ⟨⟩
    exact hbody
  | setter body =>
    have hbody : body.Fit := he (.code body) (by simp [Construct.handed])
    refine ⟨hdoc, hattributes, hparameters, hgetter, ?_, hinitializer⟩
    rintro c ⟨⟩
    exact hbody
  | initializer format args =>
    simp only [Draft.apply]
    split
    · next value hvalue =>
      refine ⟨hdoc, hattributes, hparameters, hgetter, hsetter, ?_⟩
      rintro c ⟨⟩
      exact Code.fit_ofFormat hvalue he
    · exact ⟨hdoc, hattributes, hparameters, hgetter, hsetter, hinitializer⟩
  | addModifiers ms => exact ⟨hdoc, hattributes, hparameters, hgetter, hsetter, hinitializer⟩

theorem Fit.build {d : Draft TypeDecl} (h : d.Fit) {p : Property TypeDecl}
    (hp : d.build = .ok p) : p.Fit := by
  unfold Draft.build at hp
  split at hp
  · cases hp
  · split at hp
    · cases hp
    · obtain ⟨doc, hdoc, hp⟩ := Except.bind_eq_ok hp
      cases hp
      intro c hc
      simp only [Property.codes, List.mem_cons, List.mem_append, List.mem_flatMap,
        Option.mem_toList] at hc
      rcases hc with rfl | (((⟨a, ha, hc⟩ | ⟨q, hq, hc⟩) | hc) | hc) | hc
      · exact h.doc.build hdoc
      · exact h.attributes a ha c hc
      · exact h.parameters q hq c hc
      · exact h.getter c hc
      · exact h.setter c hc
      · exact h.initializer c hc

theorem fit_toDraft {p : Property TypeDecl} (h : p.Fit) : p.toDraft.Fit := by
  have hcodes : ∀ c ∈ p.codes, c.Fit := h
  simp only [Property.codes, List.mem_cons, List.mem_append, List.mem_flatMap,
    Option.mem_toList] at hcodes
  refine ⟨(hcodes p.doc (.inl rfl)).toDraft, ?_, ?_, ?_, ?_, ?_⟩
  · intro a ha c hc
    exact hcodes c (.inr (.inl (.inl (.inl (.inl ⟨a, ha, hc⟩)))))
  · intro q hq c hc
    exact hcodes c (.inr (.inl (.inl (.inl (.inr ⟨q, hq, hc⟩)))))
  · intro c hc
    exact hcodes c (.inr (.inl (.inl (.inr hc))))
  · intro c hc
    exact hcodes c (.inr (.inl (.inr hc)))
  · intro c hc
    exact hcodes c (.inr (.inr hc))

end Property.Draft

/-! ### Drafts of types and files -/

namespace TypeDecl

theorem sound_blank : blank.Sound := by
  refine .of ?_ ?_
  · simp [Declaration.codes, Identity.arguments?, Code.Sound.empty]
  · simp [Declaration.inner, Declaration.codes, Identity.arguments?, Code.declarations_eq,
      Code.empty]

namespace Draft

structure Fit (d : Draft) : Prop where
  identity : ∀ c ∈ d.identity.arguments?, c.Fit
  doc : d.doc.Fit
  attributes : ∀ a ∈ d.attributes, a.Fit
  constants : ∀ e ∈ d.constants, e.2.Sound
  fields : ∀ x ∈ d.fields, x.Fit
  staticBlock : d.staticBlock.Fit
  initializerBlock : d.initializerBlock.Fit
  methods : ∀ m ∈ d.methods, m.Fit
  properties : ∀ p ∈ d.properties, p.Fit
  extras : ∀ c ∈ d.extras, c.Fit
  types : ∀ t ∈ d.types, t.Sound

variable {d : Draft}

theorem Fit.fail (h : d.Fit) (fault : DeclFault) : (d.fail fault).Fit := by
  obtain ⟨h₁, h₂, h₃, h₄, h₅, h₆, h₇, h₈, h₉, h₁₀, h₁₁⟩ := h
  exact ⟨h₁, h₂, h₃, h₄, h₅, h₆, h₇, h₈, h₉, h₁₀, h₁₁⟩

theorem fit_anonymous {format : String} {args : List (Argument TypeDecl)}
    (hargs : ∀ i ∈ args.flatMap Argument.handed, i.Fit) : (anonymous format args).Fit := by
  have hempty : Code.Fit .empty := ⟨.empty, by simp [Code.declarations_eq, Code.empty]⟩
  have hplain : ∀ c : Code TypeDecl, c.Fit →
      ∀ e : Option Error, ({ identity := .anonymous c, error := e } : Draft).Fit := by
    intro c hc e
    refine ⟨?_, .empty, ?_, ?_, ?_, .empty, .empty, ?_, ?_, ?_, ?_⟩
    · rintro b ⟨⟩
      exact hc
    all_goals simp
  unfold anonymous
  split
  · next arguments harguments => exact hplain _ (Code.fit_ofFormat harguments hargs) _
  · exact hplain _ hempty _

theorem Fit.putConstant (h : d.Fit) (name : String) {value : TypeDecl} (hvalue : value.Sound) :
    (d.putConstant name value).Fit := by
  unfold Draft.putConstant
  split
  · exact h.fail _
  · refine { h with constants := ?_ }
    intro e he
    rcases Table.mem_put he with rfl | hold
    · exact hvalue
    · exact h.constants e hold

/-- **An edit of a type keeps it fit**, also where it is refused. -/
theorem Fit.apply (h : d.Fit) {e : Edit} (he : ∀ i ∈ Construct.handed .type e, i.Fit) :
    (d.apply e).Fit := by
  cases e with
  | addDoc format args => exact { h with doc := h.doc.add format he }
  | addAttribute a =>
    have ha : a.Fit := he (.built .attr a) (by simp [Construct.handed])
    exact { h with
      attributes := List.forall_mem_append.mpr ⟨h.attributes, List.forall_mem_singleton.mpr ha⟩ }
  | addModifiers ms =>
    simp only [Draft.apply]
    split
    · exact h.fail _
    · exact { h with }
  | addTypeVariable v =>
    simp only [Draft.apply]
    split
    · exact h.fail _
    · exact { h with }
  | superclass type =>
    simp only [Draft.apply, setSuperclass]
    split
    · exact h.fail _
    · split
      · exact h.fail _
      · split
        · exact h.fail _
        · exact { h with }
  | addInterface type => exact { h with }
  | addConstant name => exact h.putConstant name sound_blank
  | addConstantWith name value =>
    have hvalue : value.Sound := he (.built .type value) (by simp [Construct.handed])
    exact h.putConstant name hvalue
  | addField x =>
    have hx : x.Fit := he (.built .field x) (by simp [Construct.handed])
    simp only [Draft.apply]
    split
    · exact h.fail _
    · exact { h with
        fields := List.forall_mem_append.mpr ⟨h.fields, List.forall_mem_singleton.mpr hx⟩ }
  | addStaticBlock code =>
    have hcode : code.Fit := he (.code code) (by simp [Construct.handed])
    simp only [Draft.apply]
    split
    · exact h.fail _
    · exact { h with staticBlock := h.staticBlock.addCode hcode }
  | addInitializerBlock code =>
    have hcode : code.Fit := he (.code code) (by simp [Construct.handed])
    simp only [Draft.apply]
    split
    · exact { h with initializerBlock := h.initializerBlock.addCode hcode }
    · exact h.fail _
  | addMethod m =>
    have hm : m.Fit := he (.built .method m) (by simp [Construct.handed])
    simp only [Draft.apply, attachMethod]
    split
    · exact h.fail _
    · split
      · exact h.fail _
      · exact { h with
          methods := List.forall_mem_append.mpr ⟨h.methods, List.forall_mem_singleton.mpr hm⟩ }
  | addProperty p =>
    have hp : p.Fit := he (.built .property p) (by simp [Construct.handed])
    simp only [Draft.apply]
    split
    · exact h.fail _
    · exact { h with
        properties := List.forall_mem_append.mpr ⟨h.properties, List.forall_mem_singleton.mpr hp⟩ }
  | addCode code =>
    have hcode : code.Fit := he (.code code) (by simp [Construct.handed])
    exact { h with
      extras := List.forall_mem_append.mpr ⟨h.extras, List.forall_mem_singleton.mpr hcode⟩ }
  | addType t =>
    have ht : t.Sound := he (.built .type t) (by simp [Construct.handed])
    simp only [Draft.apply, attachType]
    split
    · exact h.fail _
    · split
      · exact h.fail _
      · exact { h with
          types := List.forall_mem_append.mpr ⟨h.types, List.forall_mem_singleton.mpr ht⟩ }
  | addOrigin handle => exact { h with }

theorem Fit.build (h : d.Fit) {t : TypeDecl} (ht : d.build = .ok t) : t.Sound := by
  unfold Draft.build at ht
  split at ht
  · cases ht
  · split at ht
    · cases ht
    · obtain ⟨doc, hdoc, ht⟩ := Except.bind_eq_ok ht
      obtain ⟨staticBlock, hstatic, ht⟩ := Except.bind_eq_ok ht
      obtain ⟨initializerBlock, hinitializer, ht⟩ := Except.bind_eq_ok ht
      cases ht
      refine sound_of_fit ?_ h.constants h.types
      intro c hc
      simp only [Declaration.codes, List.mem_cons, List.mem_append, List.mem_flatMap,
        Option.mem_toList] at hc
      rcases hc with hc | rfl | rfl | rfl | (((⟨a, ha, hc⟩ | ⟨x, hx, hc⟩) | ⟨m, hm, hc⟩)
        | ⟨p, hp, hc⟩) | hc
      · exact h.identity c hc
      · exact h.doc.build hdoc
      · exact h.staticBlock.build hstatic
      · exact h.initializerBlock.build hinitializer
      · exact h.attributes a ha c hc
      · exact h.fields x hx c hc
      · exact h.methods m hm c hc
      · exact h.properties p hp c hc
      · exact h.extras c hc

theorem fit_toDraft {t : TypeDecl} (h : t.Sound) : t.toDraft.Fit := by
  obtain ⟨d⟩ := t
  obtain ⟨hcodes, hconstants, htypes⟩ := h.fit
  simp only [Declaration.codes, List.mem_cons, List.mem_append, List.mem_flatMap,
    Option.mem_toList] at hcodes
  refine ⟨?_, (hcodes d.doc (by simp)).toDraft, ?_, hconstants, ?_,
    (hcodes d.staticBlock (by simp)).toDraft, (hcodes d.initializerBlock (by simp)).toDraft, ?_, ?_,
    ?_, htypes⟩
  · intro c hc
    exact hcodes c (.inl hc)
  · intro a ha c hc
    exact hcodes c (.inr (.inr (.inr (.inr (.inl (.inl (.inl (.inl ⟨a, ha, hc⟩))))))))
  · intro x hx c hc
    exact hcodes c (.inr (.inr (.inr (.inr (.inl (.inl (.inl (.inr ⟨x, hx, hc⟩))))))))
  · intro m hm c hc
    exact hcodes c (.inr (.inr (.inr (.inr (.inl (.inl (.inr ⟨m, hm, hc⟩)))))))
  · intro p hp c hc
    exact hcodes c (.inr (.inr (.inr (.inr (.inl (.inr ⟨p, hp, hc⟩))))))
  · intro c hc
    exact hcodes c (.inr (.inr (.inr (.inr (.inr hc)))))

end Draft

end TypeDecl

namespace SourceFile.Draft

structure Fit (d : Draft) : Prop where
  comment : d.comment.Fit
  type : d.type.Sound

theorem Fit.apply {d : Draft} (h : d.Fit) {e : Edit}
    (he : ∀ i ∈ Construct.handed .file e, i.Fit) : (d.apply e).Fit := by
  cases e with
  | addComment format args => exact ⟨h.comment.add format he, h.type⟩
  | addUsing | addStaticUsing | skipSystemImports | indent | columnLimit | fileScopedNamespace
  | style => exact ⟨h.comment, h.type⟩

theorem isValid_of_mem_usings {d : Draft} (h : d.checkNames = .ok ()) :
    ∀ space ∈ d.usings, Identifier.isValidNamespace space = true := by
  have hnone : (d.usings.find? fun space => !Identifier.isValidNamespace space) = none := by
    simp only [checkNames, bind, Except.bind] at h
    split at h
    · cases h
    · split at h
      · cases h
      · cases hfind : d.usings.find? fun space => !Identifier.isValidNamespace space with
        | none => rfl
        | some space => rw [hfind] at h; cases h
  intro space hspace
  simpa using List.find?_eq_none.mp hnone space hspace

theorem Fit.build {d : Draft} (h : d.Fit) {f : SourceFile} (hf : d.build = .ok f) : f.Fit := by
  unfold Draft.build at hf
  split at hf
  · cases hf
  · next hnames =>
    obtain ⟨_, -, hf⟩ := Except.bind_eq_ok hf
    simp only at hf
    split at hf
    · cases hf
    · obtain ⟨comment, hcomment, hf⟩ := Except.bind_eq_ok hf
      cases hf
      exact ⟨h.comment.build hcomment, h.type, isValid_of_mem_usings hnames⟩

end SourceFile.Draft

/-! ### Whatever is obtainable is fit -/

namespace Construct

def DraftFit : (k : Construct) → k.Draft → Prop
  | attr => Attribute.Draft.Fit
  | parameter => Parameter.Draft.Fit
  | field => Field.Draft.Fit
  | method => Method.Draft.Fit
  | property => Property.Draft.Fit
  | type => TypeDecl.Draft.Fit
  | file => SourceFile.Draft.Fit

theorem Opens.fit {k : Construct} {d : k.Draft} {items : List Item} (h : k.Opens d items)
    (hitems : ∀ i ∈ items, i.Fit) : k.DraftFit d := by
  cases h with
  | attr t => exact Attribute.Draft.Fit.mk (by simp) (by simp)
  | parameter t name => exact Parameter.Draft.Fit.mk (by simp) (by simp)
  | field t name => exact Field.Draft.Fit.mk .empty (by simp) (by simp)
  | method name => exact Method.Draft.Fit.mk .empty (by simp) (by simp) .empty (by simp)
  | property t name =>
    exact Property.Draft.Fit.mk .empty (by simp) (by simp) (by simp) (by simp) (by simp)
  | named kind name =>
    exact TypeDecl.Draft.Fit.mk (by simp [TypeDecl.Draft.named, Identity.arguments?]) .empty
      (by simp [TypeDecl.Draft.named]) (by simp [TypeDecl.Draft.named])
      (by simp [TypeDecl.Draft.named]) .empty .empty (by simp [TypeDecl.Draft.named])
      (by simp [TypeDecl.Draft.named]) (by simp [TypeDecl.Draft.named])
      (by simp [TypeDecl.Draft.named])
  | anonymous format args => exact TypeDecl.Draft.fit_anonymous hitems
  | file space t =>
    have ht : t.Sound := hitems (.built .type t) (by simp)
    exact SourceFile.Draft.Fit.mk .empty ht

theorem fit_reopen {k : Construct} {x : k.Value} (h : (Item.built k x).Fit) :
    k.DraftFit (k.reopen x) := by
  cases k with
  | attr => exact Attribute.Draft.fit_toDraft h
  | parameter => exact Parameter.Draft.fit_toDraft h
  | field => exact Field.Draft.fit_toDraft h
  | method => exact Method.Draft.fit_toDraft h
  | property => exact Property.Draft.fit_toDraft h
  | type => exact TypeDecl.Draft.fit_toDraft h
  | file =>
    have hfile : SourceFile.Fit x := h
    exact SourceFile.Draft.Fit.mk hfile.comment.toDraft hfile.type

theorem fit_apply {k : Construct} {d : k.Draft} (h : k.DraftFit d) {e : k.Edit}
    (he : ∀ i ∈ k.handed e, i.Fit) : k.DraftFit (k.apply d e) := by
  cases k with
  | attr => exact Attribute.Draft.Fit.apply h he
  | parameter => exact Parameter.Draft.Fit.apply h he
  | field => exact Field.Draft.Fit.apply h he
  | method => exact Method.Draft.Fit.apply h he
  | property => exact Property.Draft.Fit.apply h he
  | type => exact TypeDecl.Draft.Fit.apply h he
  | file => exact SourceFile.Draft.Fit.apply h he

theorem fit_build {k : Construct} {d : k.Draft} (h : k.DraftFit d) {x : k.Value}
    (hx : k.build d = .ok x) : (Item.built k x).Fit := by
  cases k with
  | attr => exact Attribute.Draft.Fit.build h hx
  | parameter => exact Parameter.Draft.Fit.build h hx
  | field => exact Field.Draft.Fit.build h hx
  | method => exact Method.Draft.Fit.build h hx
  | property => exact Property.Draft.Fit.build h hx
  | type => exact TypeDecl.Draft.Fit.build h hx
  | file => exact SourceFile.Draft.Fit.build h hx

end Construct

mutual

theorem Reachable.fit : ∀ {k : Construct} {d : k.Draft}, Reachable k d → k.DraftFit d
  | _, _, .opened h hitems => h.fit fun i hi => Obtainable.fit (hitems i hi)
  | _, _, .reopened h => Construct.fit_reopen (Obtainable.fit h)
  | _, _, .edited h hitems =>
    Construct.fit_apply (Reachable.fit h) fun i hi => Obtainable.fit (hitems i hi)

/-- **Whatever is obtainable is fit.** -/
theorem Obtainable.fit : ∀ {i : Item}, Obtainable i → i.Fit
  | _, .code h hinner => ⟨h.sound False.elim, fun t ht => Obtainable.fit (hinner t ht)⟩
  | _, .built h hx => Construct.fit_build (Reachable.fit h) hx

end

end CSharpGen
