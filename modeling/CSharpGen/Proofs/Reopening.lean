/-
  CSharpGen/Proofs/Reopening.lean
  ===============================
  **Building and taking up again cannot be seen.**  A draft taken up from a
  finished value goes on as the draft that was finished would have gone on
  (`build_reopen`).

  A finished value does not keep what its draft counted.  For code the counters
  come back from the parts, since the draft kept the two in agreement
  (`Code.Draft.Sound`); flows and statements are closed when a block is built.
  All other drafts come back as they were but one: a method that never named a
  return type comes back with `void` spelled out (`Method.Draft.settle`), and
  no edit and no check can tell.
-/
import CSharpGen.Proofs.Builders

namespace CSharpGen

variable {δ : Type}

/-! ### What has been checked when a draft is built -/

theorem Code.Draft.of_build {d : Code.Draft δ} {c : Code δ} (h : d.build = .ok c) :
    d.fault = none ∧ d.flows = 0 ∧ d.inStatement = false ∧ c = ⟨d.parts, d.statements⟩ := by
  unfold Draft.build at h
  split at h
  next => cases h
  next hfault =>
    split at h
    next => cases h
    next hflows =>
      split at h
      next => cases h
      next hstatement =>
        cases h
        exact ⟨hfault, Nat.eq_zero_of_not_pos hflows, Bool.eq_false_iff.mpr hstatement, rfl⟩

theorem Attribute.Draft.of_build {d : Draft δ} {a : Attribute δ} (h : d.build = .ok a) :
    d.error = none ∧ a = ⟨d.type, d.arguments, d.named⟩ := by
  unfold Draft.build at h
  split at h
  next => cases h
  next herror =>
    cases h
    exact ⟨herror, rfl⟩

theorem Parameter.Draft.of_build {d : Draft δ} {p : Parameter δ} (h : d.build = .ok p) :
    d.error = none ∧ Identifier.isValid d.name = true
      ∧ p = ⟨d.name, d.type, d.modifiers, d.attributes, d.defaultValue⟩ := by
  unfold Draft.build at h
  split at h
  next => cases h
  next herror =>
    split at h
    next hname =>
      cases h
      exact ⟨herror, hname, rfl⟩
    next => cases h

theorem Field.Draft.of_build {d : Draft δ} {x : Field δ} (h : d.build = .ok x) :
    ∃ doc, d.error = none ∧ Identifier.isValid d.name = true ∧ d.doc.build = .ok doc
      ∧ x = ⟨d.name, d.type, doc, d.attributes, d.modifiers, d.initializer⟩ := by
  unfold Draft.build at h
  split at h
  next => cases h
  next herror =>
    split at h
    next hname =>
      obtain ⟨doc, hdoc, h⟩ := Except.bind_eq_ok h
      cases h
      exact ⟨doc, herror, hname, hdoc, rfl⟩
    next => cases h

theorem Method.Draft.of_build {d : Draft δ} {m : Method δ} (h : d.build = .ok m) :
    ∃ body doc, d.error = none ∧ d.body.build = .ok body ∧ d.doc.build = .ok doc
      ∧ d.check body = .ok ()
      ∧ m = ⟨d.name, doc, d.attributes, d.modifiers, d.typeVariables, d.returns.getD .void,
        d.parameters, body, d.chained⟩ := by
  unfold Draft.build at h
  split at h
  next => cases h
  next herror =>
    obtain ⟨body, hbody, h⟩ := Except.bind_eq_ok h
    obtain ⟨doc, hdoc, h⟩ := Except.bind_eq_ok h
    split at h
    next => cases h
    next hcheck =>
      cases h
      exact ⟨body, doc, herror, hbody, hdoc, hcheck, rfl⟩

theorem Property.Draft.of_build {d : Draft δ} {p : Property δ} (h : d.build = .ok p) :
    ∃ doc, d.error = none ∧ d.check = .ok () ∧ d.doc.build = .ok doc
      ∧ p = ⟨d.name, d.type, doc, d.attributes, d.modifiers, d.parameters, d.getter, d.setter,
        d.initializer⟩ := by
  unfold Draft.build at h
  split at h
  next => cases h
  next herror =>
    split at h
    next => cases h
    next hcheck =>
      obtain ⟨doc, hdoc, h⟩ := Except.bind_eq_ok h
      cases h
      exact ⟨doc, herror, hcheck, hdoc, rfl⟩

theorem TypeDecl.Draft.of_build {d : Draft} {t : TypeDecl} (h : d.build = .ok t) :
    ∃ doc staticBlock initializerBlock, d.error = none ∧ d.check = .ok ()
      ∧ d.doc.build = .ok doc ∧ d.staticBlock.build = .ok staticBlock
      ∧ d.initializerBlock.build = .ok initializerBlock
      ∧ t = .of ⟨d.identity, doc, d.attributes, d.modifiers, d.typeVariables, d.superclass,
        d.interfaces, d.constants, d.fields, staticBlock, initializerBlock, d.methods,
        d.properties, d.extras, d.types, d.origins⟩ := by
  unfold Draft.build at h
  split at h
  next => cases h
  next herror =>
    split at h
    next => cases h
    next hcheck =>
      obtain ⟨doc, hdoc, h⟩ := Except.bind_eq_ok h
      obtain ⟨staticBlock, hstatic, h⟩ := Except.bind_eq_ok h
      obtain ⟨initializerBlock, hinitializer, h⟩ := Except.bind_eq_ok h
      cases h
      exact ⟨doc, staticBlock, initializerBlock, herror, hcheck, hdoc, hstatic, hinitializer, rfl⟩

theorem SourceFile.Draft.of_build {d : Draft} {f : SourceFile} (h : d.build = .ok f) :
    ∃ comment, d.comment.build = .ok comment
      ∧ f = ⟨d.space, comment, d.type, d.usings, d.statics, d.style⟩ := by
  unfold Draft.build at h
  split at h
  next => cases h
  next =>
    obtain ⟨_, -, h⟩ := Except.bind_eq_ok h
    simp only at h
    split at h
    next => cases h
    next =>
      obtain ⟨comment, hcomment, h⟩ := Except.bind_eq_ok h
      cases h
      exact ⟨comment, hcomment, rfl⟩

/-! ### Taking up what was built -/

/-- **A finished block is taken up as the draft it comes from.** -/
theorem Code.Draft.Sound.toDraft_of_build {tight : Prop} {d : Code.Draft δ} (h : d.Sound tight)
    {c : Code δ} (hc : d.build = .ok c) : c.toDraft = d := by
  obtain ⟨hfault, hflows, hstatement, rfl⟩ := of_build hc
  have hdepth : (Part.profileAll d.parts).net.toNat = d.depth := by
    rw [← h.depth]
    rfl
  rw [toDraft, Code.profile, hdepth, ← hfault, ← hflows, ← hstatement]

theorem Attribute.Draft.toDraft_of_build {d : Draft δ} {a : Attribute δ} (ha : d.build = .ok a) :
    a.toDraft = d := by
  obtain ⟨herror, rfl⟩ := of_build ha
  rw [Attribute.toDraft, ← herror]

theorem Parameter.Draft.toDraft_of_build {d : Draft δ} {p : Parameter δ} (hp : d.build = .ok p) :
    p.toDraft = d := by
  obtain ⟨herror, -, rfl⟩ := of_build hp
  rw [Parameter.toDraft, ← herror]

theorem Field.Draft.Fit.toDraft_of_build {d : Draft TypeDecl} (h : d.Fit) {x : Field TypeDecl}
    (hx : d.build = .ok x) : x.toDraft = d := by
  obtain ⟨doc, herror, -, hdoc, rfl⟩ := of_build hx
  rw [Field.toDraft, h.doc.sound.toDraft_of_build hdoc, ← herror]

theorem Property.Draft.Fit.toDraft_of_build {d : Draft TypeDecl} (h : d.Fit)
    {p : Property TypeDecl} (hp : d.build = .ok p) : p.toDraft = d := by
  obtain ⟨doc, herror, -, hdoc, rfl⟩ := of_build hp
  rw [Property.toDraft, h.doc.sound.toDraft_of_build hdoc, ← herror]

theorem TypeDecl.Draft.Fit.toDraft_of_build {d : Draft} (h : d.Fit) {t : TypeDecl}
    (ht : d.build = .ok t) : t.toDraft = d := by
  obtain ⟨doc, staticBlock, initializerBlock, herror, -, hdoc, hstatic, hinitializer, rfl⟩ :=
    of_build ht
  rw [TypeDecl.toDraft, layer, h.doc.sound.toDraft_of_build hdoc,
    h.staticBlock.sound.toDraft_of_build hstatic,
    h.initializerBlock.sound.toDraft_of_build hinitializer, ← herror]

theorem SourceFile.Draft.Fit.toDraft_of_build {d : Draft} (h : d.Fit) {f : SourceFile}
    (hf : d.build = .ok f) : f.toDraft = d := by
  obtain ⟨comment, hcomment, rfl⟩ := of_build hf
  rw [SourceFile.toDraft, h.comment.sound.toDraft_of_build hcomment]

namespace Method.Draft

/-- The draft with the return type spelled out, unless it is a constructor. -/
def settle (d : Draft δ) : Draft δ :=
  { d with returns := if d.name.isNone then d.returns else some (d.returns.getD .void) }

theorem settle_apply (d : Draft δ) (e : Edit δ) : (d.apply e).settle = d.settle.apply e := by
  cases e with
  | parameter type name =>
    simp only [Draft.apply]
    split <;> rfl
  | chain format args =>
    simp only [Draft.apply]
    split <;> rfl
  | returns type => simp [Draft.apply, settle]
  | addDoc | addAttribute | addModifiers | addTypeVariable | addParameter | body => rfl

theorem check_settle (d : Draft δ) (body : Code δ) : d.settle.check body = d.check body := by
  have hname : d.settle.checkName = d.checkName := by
    unfold checkName settle
    cases d.name with
    | some name => rfl
    | none => rfl
  simp only [check, hname]
  rfl

theorem build_settle (d : Draft δ) : d.settle.build = d.build := by
  have hreturns : d.settle.returns.getD .void = d.returns.getD .void := by
    simp only [settle]
    split <;> rfl
  unfold Draft.build
  simp only [check_settle, hreturns]
  rfl

theorem returns_of_check {d : Draft δ} {body : Code δ} (h : d.check body = .ok ())
    (hname : d.name = none) : d.returns = none := by
  obtain ⟨_, hchecked, -⟩ := Except.bind_eq_ok h
  rw [checkName, hname] at hchecked
  by_contra hsome
  rw [if_pos (Option.isSome_iff_ne_none.mpr hsome)] at hchecked
  cases hchecked

theorem Fit.toDraft_of_build {d : Draft TypeDecl} (h : d.Fit) {m : Method TypeDecl}
    (hm : d.build = .ok m) : m.toDraft = d.settle := by
  obtain ⟨body, doc, herror, hbody, hdoc, hcheck, rfl⟩ := of_build hm
  rw [Method.toDraft, h.doc.sound.toDraft_of_build hdoc, h.body.sound.toDraft_of_build hbody,
    settle, herror]
  cases hname : d.name with
  | some name => rfl
  | none => simp [Method.isConstructor, returns_of_check hcheck hname]

end Method.Draft

/-! ### Any construct -/

namespace Construct

/-- The draft as it is after building and taking up again. -/
def settle : (k : Construct) → k.Draft → k.Draft
  | method => Method.Draft.settle
  | attr | parameter | field | property | type | file => id

theorem settle_apply (k : Construct) (d : k.Draft) (e : k.Edit) :
    k.settle (k.apply d e) = k.apply (k.settle d) e := by
  cases k with
  | method => exact Method.Draft.settle_apply d e
  | attr | parameter | field | property | type | file => rfl

theorem settle_foldl (k : Construct) (d : k.Draft) (edits : List k.Edit) :
    k.settle (edits.foldl k.apply d) = edits.foldl k.apply (k.settle d) :=
  (List.foldl_hom k.settle fun d e => (settle_apply k d e).symm).symm

theorem build_settle (k : Construct) (d : k.Draft) : k.build (k.settle d) = k.build d := by
  cases k with
  | method => exact Method.Draft.build_settle d
  | attr | parameter | field | property | type | file => rfl

theorem reopen_of_build {k : Construct} {d : k.Draft} (h : k.DraftFit d) {x : k.Value}
    (hx : k.build d = .ok x) : k.reopen x = k.settle d := by
  cases k with
  | attr => exact Attribute.Draft.toDraft_of_build hx
  | parameter => exact Parameter.Draft.toDraft_of_build hx
  | field => exact Field.Draft.Fit.toDraft_of_build h hx
  | method => exact Method.Draft.Fit.toDraft_of_build h hx
  | property => exact Property.Draft.Fit.toDraft_of_build h hx
  | type => exact TypeDecl.Draft.Fit.toDraft_of_build h hx
  | file => exact SourceFile.Draft.Fit.toDraft_of_build h hx

theorem reachable_foldl {k : Construct} {d : k.Draft} (h : Reachable k d) {edits : List k.Edit}
    (hedits : ∀ e ∈ edits, ∀ i ∈ k.handed e, Obtainable i) :
    Reachable k (edits.foldl k.apply d) :=
  List.foldlRecOn (motive := Reachable k) _ _ h fun _ hd e he => .edited hd (hedits e he)

end Construct

/-- **Building and taking up again cannot be seen**, for code and for every construct: what
    is taken up after `first` and changed by `second` is built to the same value, or fails
    with the same error, as the draft changed by both, and taken up unchanged it is built to
    itself. -/
theorem build_reopen :
    (∀ (d : Code.Draft TypeDecl) (first second : List (Code.Edit TypeDecl)) (c : Code TypeDecl),
      d.Reached (fun _ => True) → (∀ e ∈ first, ∀ b ∈ e.blocks, b.Built fun _ => True) →
      (d.applyAll first).build = .ok c →
      (c.toDraft.applyAll second).build = (d.applyAll (first ++ second)).build
        ∧ c.toDraft.build = .ok c)
    ∧ ∀ (k : Construct) (d : k.Draft) (first second : List k.Edit) (x : k.Value),
      Reachable k d → (∀ e ∈ first, ∀ i ∈ k.handed e, Obtainable i) →
      k.build (first.foldl k.apply d) = .ok x →
      k.build (second.foldl k.apply (k.reopen x)) = k.build ((first ++ second).foldl k.apply d)
        ∧ k.build (k.reopen x) = .ok x := by
  refine ⟨?_, ?_⟩
  · intro d first second c hd hfirst hc
    have hreached : (d.applyAll first).Reached fun _ => True :=
      hd.applyAll fun e he => ⟨trivial, hfirst e he⟩
    have hsound : (d.applyAll first).Sound False := hreached.sound False.elim
    have hback := hsound.toDraft_of_build hc
    rw [hback, Code.Draft.applyAll_append]
    exact ⟨rfl, hc⟩
  · intro k d first second x hd hfirst hx
    have hback := Construct.reopen_of_build (Construct.reachable_foldl hd hfirst).fit hx
    rw [hback, List.foldl_append, ← Construct.settle_foldl, Construct.build_settle,
      Construct.build_settle]
    exact ⟨rfl, hx⟩

/-- A method that names no return type. -/
def bareRun : Method TypeDecl := ⟨some "Run", .empty, [], .empty, [], .void, [], .empty, none⟩

/-- A block that leaves a level of indentation open, unindented twice, and a method whose
    return type is named after it has been built. -/
theorem build_reopen_run :
    ((⟨[.indent], 0⟩ : Code TypeDecl).toDraft.applyAll [.unindent, .unindent]).build
        = (({} : Code.Draft TypeDecl).applyAll [.indent, .unindent, .unindent]).build
    ∧ (bareRun.toDraft.apply (.returns (.builtIn .intKw))).build
        = (({ name := some "Run" } : Method.Draft TypeDecl).apply
          (.returns (.builtIn .intKw))).build
    ∧ bareRun.toDraft.build = .ok bareRun := by
  obtain ⟨hcode, hconstruct⟩ := build_reopen
  have hrun : ({ name := some "Run" } : Method.Draft TypeDecl).build = .ok bareRun := rfl
  refine ⟨?_, ?_⟩
  · exact (hcode {} [.indent] [.unindent, .unindent] ⟨[.indent], 0⟩ .empty
      (by simp [Code.Edit.blocks]) rfl).1
  · exact hconstruct .method _ [] [.returns (.builtIn .intKw)] bareRun
      (.opened (.method (some "Run")) (by simp)) (by simp) hrun

end CSharpGen
