/-
  CSharpGen/Proofs/Failures.lean
  ==============================
  **When rendering fails.**  A well-arranged stream runs to its end from every
  shape that has the levels it needs, unless it refers to a malformed type or
  refuses a field whose initial value is a statement (`Arranged.runs`).  The
  levels are counted without those that a continued statement adds, for the
  open statement and for every one that has been put aside (`Shape.At`).

  Whatever is obtainable is written as a well-arranged stream
  (`Item.Fit.arranged`), so nothing else can make it fail
  (`render_fails_only_for`).
-/
import CSharpGen.Proofs.Builders
import CSharpGen.Proofs.Passes

namespace CSharpGen

/-! ### What a shape must have -/

namespace Shape

/-- The levels that a statement has added. -/
def weight : Option Bool → Nat
  | some true => 2
  | some false | none => 0

@[simp] theorem weight_none : weight none = 0 := rfl

@[simp] theorem weight_continued : weight (some true) = 2 := rfl

/-- The levels that some statements have added together. -/
def weights : List (Option Bool) → Nat
  | [] => 0
  | s :: rest => weight s + weights rest

@[simp] theorem weights_cons (s : Option Bool) (rest : List (Option Bool)) :
    weights (s :: rest) = weight s + weights rest := rfl

/-- The shape has the levels and the statement that a frame asks for, and the given
    statements have been put aside. -/
structure At (f : Frame) (aside : List (Option Bool)) (sh : Shape) : Prop where
  level : f.depth + weight sh.statement + weights aside ≤ sh.level
  statement : sh.statement.isSome = f.inStatement
  suspended : sh.suspended = aside

variable {f : Frame} {aside : List (Option Bool)} {sh : Shape}

theorem At.newline (h : sh.At f aside) : sh.newline.At f aside := by
  obtain ⟨hlevel, hstatement, hsuspended⟩ := h
  refine ⟨?_, ?_, hsuspended⟩
  · unfold Shape.newline
    rcases hs : sh.statement with _ | _ | _
    · simpa [weight, hs] using hlevel
    · simp only [hs, weight] at hlevel
      simp only [Option.map, weight, if_true]
      omega
    · simpa [weight, hs] using hlevel
  · simpa [Shape.newline] using hstatement

theorem At.column (h : sh.At f aside) (start : Bool) :
    ({ sh with atLineStart := start } : Shape).At f aside :=
  ⟨h.level, h.statement, h.suspended⟩

theorem At.place (h : sh.At f aside) (p : Position) :
    ({ sh with position := p } : Shape).At f aside :=
  ⟨h.level, h.statement, h.suspended⟩

theorem At.writeLine (h : sh.At f aside) (line : String) : (sh.writeLine line).At f aside := by
  unfold Shape.writeLine
  split
  · exact h
  · exact h.column false

theorem At.write (h : sh.At f aside) (s : String) : (sh.write s).At f aside := by
  refine List.foldlRecOn (motive := fun sh : Shape => sh.At f aside) _ _ (h.writeLine _) ?_
  intro sh hsh line _
  exact hsh.newline.writeLine line

theorem At.endLine (h : sh.At f aside) : sh.endLine.At f aside := by
  unfold Shape.endLine
  split
  · exact h
  · exact h.write "\n"

theorem unindent_of_level {levels : Nat} (h : levels ≤ sh.level) :
    sh.unindent levels = .ok { sh with level := sh.level - levels } := by
  unfold Shape.unindent
  rw [if_neg (Nat.not_lt.mpr h)]

/-- **A statement that is open can be closed**, also one that has been continued. -/
theorem At.closeStatement {d : Nat} (h : sh.At ⟨d, true⟩ aside) :
    ∃ next, sh.closeStatement = .ok next ∧ next.At ⟨d, false⟩ aside := by
  obtain ⟨hlevel, hstatement, hsuspended⟩ := h.write ";"
  unfold Shape.closeStatement
  simp only
  split
  · next hcontinued =>
    simp only [hcontinued, weight_continued] at hlevel
    rw [unindent_of_level (by omega)]
    refine ⟨_, rfl, At.write (f := ⟨d, false⟩) ?_ "\n"⟩
    refine ⟨?_, rfl, hsuspended⟩
    simp only [weight_none]
    omega
  · refine ⟨_, rfl, At.write (f := ⟨d, false⟩) ?_ "\n"⟩
    refine ⟨?_, rfl, hsuspended⟩
    simp only [weight_none]
    simp only at hlevel
    omega

end Shape

/-! ### Well-arranged streams run -/

/-- The error is a malformed type that is referred to, or a field whose initial value is a
    statement. -/
def Blame.Explains (blame : Blame) (e : Error) : Prop :=
  (∃ c, blame.names c ∧ c.validate = .error e)
    ∨ (blame.faults ∧ e = .structural .nestedStatement)

/-- From every shape at the first frame the stream leads to one at the second, or it fails
    for a reason. -/
def Runs (blame : Blame) (f g : Frame) (s : Stream) : Prop :=
  ∀ (sh : Shape) (aside : List (Option Bool)), sh.At f aside →
    (∃ next, sh.run s = .ok next ∧ next.At g aside) ∨ ∃ e, sh.run s = .error e ∧ blame.Explains e

namespace Runs

variable {blame : Blame} {f g h : Frame} {s t : Stream}

theorem step {i : Instruction} (hstep : ∀ (sh : Shape) (aside : List (Option Bool)),
    sh.At f aside → ∃ next, sh.step i = .ok next ∧ next.At g aside) : Runs blame f g [i] := by
  intro sh aside hat
  obtain ⟨next, hnext, hto⟩ := hstep sh aside hat
  refine .inl ⟨next, ?_, hto⟩
  simp only [Shape.run, hnext, bind, Except.bind]

theorem append (hs : Runs blame f g s) (ht : Runs blame g h t) : Runs blame f h (s ++ t) := by
  intro sh aside hat
  rw [Shape.run_append]
  rcases hs sh aside hat with ⟨next, hrun, hto⟩ | ⟨e, hrun, he⟩
  · rw [hrun]
    exact ht next aside hto
  · rw [hrun]
    exact .inr ⟨e, rfl, he⟩

/-- What keeps the shape at its frame may stand around a stream. -/
theorem bracket {i j : Instruction} (hi : Runs blame f f [i]) (hs : Runs blame f g s)
    (hj : Runs blame g g [j]) : Runs blame f g (i :: (s ++ [j])) :=
  hi.append (hs.append hj)

theorem aside {d : Nat} {b : Bool} (hs : Runs blame ⟨d, false⟩ ⟨d, false⟩ s) :
    Runs blame ⟨d, b⟩ ⟨d, b⟩ (.suspendStatement :: (s ++ [.resumeStatement])) := by
  intro sh rest hat
  obtain ⟨hlevel, hstatement, hsuspended⟩ := hat
  -- The levels that the statement has added are counted for it while it is put aside.
  have hin : ({ sh with statement := none, suspended := sh.statement :: sh.suspended } :
      Shape).At ⟨d, false⟩ (sh.statement :: rest) := by
    refine ⟨?_, rfl, by rw [hsuspended]⟩
    simp only [Shape.weight_none, Shape.weights_cons]
    simp only at hlevel
    omega
  have hrun : sh.run (.suspendStatement :: (s ++ [.resumeStatement]))
      = (({ sh with statement := none, suspended := sh.statement :: sh.suspended } : Shape).run
        s).bind fun sh => sh.run [.resumeStatement] := by
    rw [← Shape.run_append]
    rfl
  rw [hrun]
  rcases hs _ _ hin with ⟨next, hnext, hto⟩ | ⟨e, he, hexplains⟩
  · obtain ⟨hlevel', hstatement', hsuspended'⟩ := hto
    rw [hnext]
    refine .inl ⟨_, rfl, ?_⟩
    have hclosed : next.statement = none := by simpa using hstatement'
    simp only [hsuspended', List.headD_cons, List.tail_cons]
    refine ⟨?_, hstatement, rfl⟩
    simp only [hclosed, Shape.weight_none, Shape.weights_cons] at hlevel'
    simp only
    omega
  · rw [he]
    exact .inr ⟨e, rfl, hexplains⟩

end Runs

/-- **A well-arranged stream runs**, unless something may be blamed. -/
theorem Arranged.runs {blame : Blame} {f g : Frame} {s t : Stream} (h : Arranged blame f g s t) :
    Runs blame f g s := by
  -- Whatever moves the place only keeps the shape at its frame.
  have hplace : ∀ {f : Frame} {i : Instruction},
      (∀ sh : Shape, sh.step i = .ok { sh with position := sh.position.after i }) →
      Runs blame f f [i] := fun hstep => .step fun sh aside hat => ⟨_, hstep sh, hat.place _⟩
  have hend : ∀ {f : Frame} {i : Instruction},
      (∀ sh : Shape, sh.step i = .ok { sh.endLine with position := sh.position.after i }) →
      Runs blame f f [i] := fun hstep =>
    .step fun sh aside hat => ⟨_, hstep sh, hat.endLine.place _⟩
  induction h with
  | nil => exact fun sh aside hat => .inl ⟨sh, rfl, hat⟩
  | @plain f i hplain =>
    refine .step fun sh aside hat => ?_
    cases i with
    | text s => exact ⟨_, rfl, hat.write s⟩
    | wrapSpace | wrapPoint => exact ⟨_, rfl, hat⟩
    | _ => cases hplain
  | @reference f c hc =>
    intro sh aside hat
    cases hvalid : c.validate with
    | ok u =>
      refine .inl ⟨_, ?_, hat.column false⟩
      simp only [Shape.run, Shape.step, hvalid, bind, Except.bind, pure, Except.pure]
    | error e =>
      refine .inr ⟨e, ?_, .inl ⟨c, hc, hvalid⟩⟩
      simp only [Shape.run, Shape.step, hvalid, bind, Except.bind]
  | refuse hfault => exact fun sh aside hat => .inr ⟨_, rfl, .inr ⟨hfault, rfl⟩⟩
  | indent =>
    refine .step fun sh aside hat => ⟨_, rfl, ?_, hat.statement, hat.suspended⟩
    have hlevel := hat.level
    simp only at hlevel ⊢
    omega
  | unindent =>
    refine .step fun sh aside hat => ?_
    have hlevel := hat.level
    simp only at hlevel
    refine ⟨_, Shape.unindent_of_level (by omega), ?_, hat.statement, hat.suspended⟩
    simp only
    omega
  | openStatement =>
    refine .step fun sh aside hat => ?_
    have hclosed : sh.statement = none := by simpa using hat.statement
    have hlevel := hat.level
    rw [hclosed] at hlevel
    refine ⟨{ sh with statement := some false }, ?_, hlevel, rfl, hat.suspended⟩
    simp [Shape.step, hclosed]
  | closeStatement => exact .step fun sh aside hat => hat.closeStatement
  | doc _ ih => exact .bracket (hplace fun _ => rfl) ih (hend fun _ => rfl)
  | comment _ ih => exact .bracket (hplace fun _ => rfl) ih (hend fun _ => rfl)
  | scope name hnested _ ih => exact .bracket (hplace fun _ => rfl) ih (hplace fun _ => rfl)
  | typeVars vs _ ih => exact .bracket (hplace fun _ => rfl) ih (hplace fun _ => rfl)
  | aside _ ih => exact .aside ih
  | sink k _ ih =>
    intro sh aside hat
    rcases ih sh aside hat with ⟨next, hrun, hto⟩ | hfail
    · refine .inl ⟨next, hrun, ?_, hto.statement, hto.suspended⟩
      have hlevel := hto.level
      simp only at hlevel ⊢
      omega
    · exact .inr hfail
  | append _ _ ih ih' => exact ih.append ih'
  | swap _ _ ih ih' => exact ih.append ih'
  | trans _ _ ih _ => exact ih

/-! ### What an item refers to -/

namespace Item

/-- The blocks of the item outside of type declarations. -/
def codes : Item → List (Code TypeDecl)
  | .code c => [c]
  | .built .attr a => Attribute.codes a
  | .built .parameter p => Parameter.codes p
  | .built .field x => Field.codes x
  | .built .method m => Method.codes m
  | .built .property p => Property.codes p
  | .built .type _ => []
  | .built .file f => [SourceFile.comment f]

/-- The types that the item is declared with outside of type declarations. -/
def typeRefs : Item → List TypeRef
  | .built .attr a => Attribute.typeRefs a
  | .built .parameter p => Parameter.typeRefs p
  | .built .field x => Field.typeRefs x
  | .built .method m => Method.typeRefs m
  | .built .property p => Property.typeRefs p
  | .code _ | .built .type _ | .built .file _ => []

/-- The outermost type declarations of the item. -/
def roots (i : Item) : List TypeDecl :=
  (match i with
    | .built .type t => [t]
    | .built .file f => [SourceFile.type f]
    | _ => []) ++ i.codes.flatMap Code.declarations

/-- The type is referred to somewhere in the item, nested declarations and blocks
    included. -/
def Refers (i : Item) (c : ClassName) : Prop :=
  c ∈ i.typeRefs.flatMap TypeRef.classNames ∨ c ∈ i.codes.flatMap Code.classNames
    ∨ ∃ t ∈ i.roots, ∃ u : TypeDecl, u.Within t ∧ c ∈ u.layer.classNames

/-- The item is the field, or the field stands somewhere in it, nested declarations and
    blocks included. -/
def HasField (i : Item) (x : Field TypeDecl) : Prop :=
  i = .built .field x ∨ ∃ t ∈ i.roots, ∃ u : TypeDecl, u.Within t ∧ x ∈ u.layer.fields

/-- What a failure of the item may be blamed on. -/
def blame (i : Item) : Blame := ⟨i.Refers, ∃ x, i.HasField x ∧ x.opensStatement = true⟩

/-- What the item is written as; a file without its imports. -/
def stream : Item → Stream
  | .code c => c.fragment
  | .built .attr a => Attribute.fragment a
  | .built .parameter p => Parameter.fragment p
  | .built .field x => Field.fragment x
  | .built .method m => Method.fragment m
  | .built .property p => Property.fragment p
  | .built .type t => TypeDecl.fragment t
  | .built .file f => SourceFile.stream f []

/-- Where an item is written: the types whose static members need no type, the modifiers
    that are implied, the type around it, and the enum constant that it is the value of. -/
structure Context where
  statics : List ClassName := []
  implied : List Modifier := []
  enclosing : Option String := none
  constant : Option String := none

/-- What the item is written as at some place; a file knows its own. -/
def streamIn (ctx : Context) : Item → Stream
  | .code c => c.stream ctx.statics (TypeDecl.stream ctx.statics)
  | .built .attr a => Attribute.stream ctx.statics (TypeDecl.stream ctx.statics) a
  | .built .parameter p => Parameter.stream ctx.statics (TypeDecl.stream ctx.statics) p
  | .built .field x => Field.stream ctx.statics (TypeDecl.stream ctx.statics) x ctx.implied
  | .built .method m =>
    Method.stream ctx.statics (TypeDecl.stream ctx.statics) m ctx.enclosing ctx.implied
  | .built .property p => Property.stream ctx.statics (TypeDecl.stream ctx.statics) p ctx.implied
  | .built .type t =>
    match ctx.constant with
    | some name => (TypeDecl.emission ctx.statics t).constant name
    | none => (TypeDecl.emission ctx.statics t).member ctx.implied
  | .built .file f => SourceFile.stream f []

theorem stream_eq (i : Item) : i.stream = i.streamIn {} := by
  cases i with
  | code c => rfl
  | built k x => cases k <;> rfl

/-- The text of the item. -/
def render : Item → Except Error String
  | .built .file f => SourceFile.render f
  | i => i.stream.render

/-- The types that the item needs imported in a file of the namespace; a file knows its
    own. -/
def requiredImports (space : String) : Item → Except Error (List ClassName)
  | .built .file f => SourceFile.importedTypes f
  | i => i.stream.requiredImports space

/-! ### Items are well arranged -/

variable {i : Item}

theorem named_typeRefs : ∀ t ∈ i.typeRefs, t.Named i.blame := by
  intro t ht c hc
  exact .inl (List.mem_flatMap.mpr ⟨t, ht, hc⟩)

theorem covered_roots : ∀ t ∈ i.roots, t.Covered i.blame := by
  intro t ht
  refine ⟨?_, ?_⟩
  · intro u hu c hc
    exact .inr (.inr ⟨t, ht, u, hu, hc⟩)
  · intro u hu x hx hopens
    exact ⟨x, .inr ⟨t, ht, u, hu, hx⟩, hopens⟩

theorem fits_codes (h : ∀ c ∈ i.codes, c.Fit) (statics : List ClassName) :
    ∀ c ∈ i.codes, c.Fits i.blame (TypeDecl.emission statics) (TypeDecl.emission statics) := by
  intro c hc
  refine ⟨(h c hc).sound, ?_, ?_⟩
  · intro n hn
    exact .inr (.inl (List.mem_flatMap.mpr ⟨c, hc, hn⟩))
  · intro t ht
    have hroot : t ∈ i.roots := List.mem_append_right _ (List.mem_flatMap.mpr ⟨c, hc, ht⟩)
    exact ((h c hc).inner t ht).alike statics (covered_roots t hroot)

end Item

theorem SourceFile.arranged_directives {blame : Blame} {f : Frame} (lead : String)
    (names : List String) : Arranged blame f f (directives lead names) (directives lead names) := by
  unfold directives
  split
  · exact .nil
  · refine Arranged.concat (.of_plain ?_) rfl
    intro i hi
    obtain ⟨name, -, rfl⟩ := List.mem_map.mp hi
    rfl

/-- A file is put together from its comment and its type. -/
theorem SourceFile.arranged_stream {blame : Blame} {f g : SourceFile}
    (hcomment : Arranged blame ⟨0, false⟩ ⟨0, false⟩ f.commentStream g.commentStream)
    (htype : ∀ d, Arranged blame ⟨d, false⟩ ⟨d, false⟩ (f.type.stream f.statics)
      (g.type.stream g.statics))
    (hspace : f.space = g.space) (husings : f.usings = g.usings) (hstatics : f.statics = g.statics)
    (hstyle : f.style = g.style) (imports : Table ClassName) :
    Arranged blame ⟨0, false⟩ ⟨0, false⟩ (f.stream imports) (g.stream imports) := by
  have hbody : Arranged blame ⟨0, false⟩ ⟨0, false⟩ f.bodyStream g.bodyStream := by
    simp only [bodyStream, hspace, hstyle]
    split
    · exact htype 0
    · split
      · exact .cons rfl (htype 0)
      · exact .cons rfl (.braces (htype 1) (.plain rfl))
  have hnamespaces : f.usingNamespaces imports = g.usingNamespaces imports := by
    simp only [usingNamespaces, hstyle, husings]
  unfold stream
  rw [hnamespaces, hstatics]
  exact ((hcomment.append (arranged_directives _ _)).append (arranged_directives _ _)).append hbody

theorem SourceFile.Fit.arranged_comment {f : SourceFile} (h : f.Fit) :
    Arranged (Item.built .file f).blame ⟨0, false⟩ ⟨0, false⟩ f.commentStream f.commentStream := by
  have hfits := Item.fits_codes (i := .built .file f) (by simpa [Item.codes] using h.comment)
    f.statics f.comment (by simp [Item.codes])
  unfold SourceFile.commentStream
  split
  · exact .nil
  · next hempty =>
    unfold Code.commentStream
    rw [if_neg hempty]
    have harranged := hfits.stream f.statics (d := 0)
    rw [Code.stream_map] at harranged
    exact (Arranged.comment harranged).concat rfl

/-- **Whatever is fit is written as a well-arranged stream**, wherever it stands. -/
theorem Item.Fit.arranged_in {i : Item} (h : i.Fit) (ctx : Item.Context) :
    Arranged i.blame ⟨0, false⟩ ⟨0, false⟩ (i.streamIn ctx) (i.streamIn ctx) := by
  have htypes := Item.named_typeRefs (i := i)
  have hroots := Item.covered_roots (i := i)
  cases i with
  | code c =>
    have hcode : c.Fit := h
    have hfits := Item.fits_codes (i := .code c) (by simpa [Item.codes] using hcode) ctx.statics c
      (by simp [Item.codes])
    have harranged := hfits.stream ctx.statics (d := 0)
    rw [Code.stream_map] at harranged
    exact harranged
  | built k x =>
    cases k with
    | attr =>
      change Attribute TypeDecl at x
      have harranged := Attribute.arranged ctx.statics (d := 0)
        (htypes _ (List.mem_singleton.mpr rfl))
        (Item.fits_codes (i := .built .attr x) h ctx.statics)
      rw [Attribute.stream_map] at harranged
      exact harranged
    | parameter =>
      change Parameter TypeDecl at x
      have harranged := Parameter.arranged ctx.statics (d := 0) htypes
        (Item.fits_codes (i := .built .parameter x) h ctx.statics)
      rw [Parameter.stream_map] at harranged
      exact harranged
    | field =>
      change Field TypeDecl at x
      have harranged := Field.arranged ctx.statics (d := 0) htypes
        (Item.fits_codes (i := .built .field x) h ctx.statics)
        (fun hopens => ⟨x, .inl rfl, hopens⟩) ctx.implied
      rw [Field.stream_map] at harranged
      exact harranged
    | method =>
      change Method TypeDecl at x
      have harranged := Method.arranged ctx.statics (d := 0) htypes
        (Item.fits_codes (i := .built .method x) h ctx.statics) ctx.enclosing ctx.implied
      rw [Method.stream_map] at harranged
      exact harranged
    | property =>
      change Property TypeDecl at x
      have harranged := Property.arranged ctx.statics (d := 0) htypes
        (Item.fits_codes (i := .built .property x) h ctx.statics) ctx.implied
      rw [Property.stream_map] at harranged
      exact harranged
    | type =>
      change TypeDecl at x
      have hsound : x.Sound := h
      have halike := hsound.alike ctx.statics (hroots x (by simp [Item.roots]))
      simp only [Item.streamIn]
      split
      · exact halike.constant _ _
      · exact halike.member _ _
    | file =>
      change SourceFile at x
      have hfile : x.Fit := h
      refine SourceFile.arranged_stream hfile.arranged_comment ?_ rfl rfl rfl rfl []
      intro d
      exact (hfile.type.alike _ (hroots _ (by simp [Item.roots]))).member [] _

theorem Item.Fit.arranged {i : Item} (h : i.Fit) :
    Arranged i.blame ⟨0, false⟩ ⟨0, false⟩ i.stream i.stream := by
  rw [i.stream_eq]
  exact h.arranged_in {}

/-! ### Runs from the beginning -/

theorem Shape.at_start : ({} : Shape).At ⟨0, false⟩ [] := ⟨Nat.zero_le _, rfl, rfl⟩

theorem Arranged.run {blame : Blame} {g : Frame} {s t : Stream}
    (h : Arranged blame ⟨0, false⟩ g s t) (session : Session) :
    (∃ w, s.run session = .ok w) ∨ ∃ e, s.run session = .error e ∧ blame.Explains e := by
  have hshape : (s.run session).map Writer.shape = ({} : Shape).run s :=
    Writer.shape_run session {} s
  rcases h.runs {} [] Shape.at_start with ⟨next, hrun, -⟩ | ⟨e, hrun, he⟩
  · rw [hrun] at hshape
    cases hwriter : s.run session with
    | ok w => exact .inl ⟨w, rfl⟩
    | error e => rw [hwriter] at hshape; cases hshape
  · rw [hrun] at hshape
    cases hwriter : s.run session with
    | ok w => rw [hwriter] at hshape; cases hshape
    | error e' =>
      rw [hwriter] at hshape
      cases hshape
      exact .inr ⟨e, rfl, he⟩

/-- The outcome is a value, or an error with a reason. -/
def Blame.Settles {α : Type} (blame : Blame) (outcome : Except Error α) : Prop :=
  (∃ a, outcome = .ok a) ∨ ∃ e, outcome = .error e ∧ blame.Explains e

theorem Blame.Settles.map {α β : Type} {blame : Blame} {x : Except Error α}
    (h : blame.Settles x) (f : α → β) : blame.Settles (x >>= fun a => pure (f a)) := by
  rcases h with ⟨a, rfl⟩ | ⟨e, rfl, he⟩
  · exact .inl ⟨f a, rfl⟩
  · exact .inr ⟨e, rfl, he⟩

/-- A fragment fails for a reason, whatever the namespace is. -/
theorem Arranged.settles {blame : Blame} {g : Frame} {s t : Stream}
    (h : Arranged blame ⟨0, false⟩ g s t) :
    blame.Settles s.render ∧ ∀ space, blame.Settles (s.requiredImports space) := by
  refine ⟨?_, fun space => ?_⟩
  · exact Blame.Settles.map (h.run _) _
  · exact Blame.Settles.map (h.run _) _

/-- A file fails in its first pass or not at all. -/
theorem SourceFile.settles {f : SourceFile} {blame : Blame} {t : Stream}
    (h : Arranged blame ⟨0, false⟩ ⟨0, false⟩ (f.stream []) t) :
    blame.Settles f.render ∧ blame.Settles f.importedTypes := by
  have hcollect : blame.Settles f.collect := Blame.Settles.map (h.run (f.session [])) _
  refine ⟨?_, Blame.Settles.map hcollect _⟩
  rcases hcollect with ⟨found, hfound⟩ | ⟨e, hfound, he⟩
  · obtain ⟨w, hw⟩ := emit_of_collect hfound
    refine .inl ⟨w.text f.style.layout, ?_⟩
    simp only [SourceFile.render, hfound, hw, bind, Except.bind, pure, Except.pure]
  · exact .inr ⟨e, by simp only [SourceFile.render, hfound]; rfl, he⟩

theorem Item.Fit.settles {i : Item} (h : i.Fit) :
    i.blame.Settles i.render ∧ ∀ space, i.blame.Settles (i.requiredImports space) := by
  have harranged := h.arranged
  match i with
  | .code _ | .built .attr _ | .built .parameter _ | .built .field _ | .built .method _
  | .built .property _ | .built .type _ => exact harranged.settles
  | .built .file f =>
    obtain ⟨hrender, himports⟩ := SourceFile.settles (f := f) harranged
    exact ⟨hrender, fun _ => himports⟩

/-- **Rendering fails only for a malformed type or a statement as the initial value of a
    field.**  Without these it gives a text, and the required imports for every
    namespace; with them the error names one of them.  The levels of indentation never
    run out. -/
theorem render_fails_only_for {i : Item} (h : Obtainable i) :
    ((∀ c, i.Refers c → c.validate = .ok ()) → (∀ x, i.HasField x → x.opensStatement = false) →
      (∃ text, i.render = .ok text) ∧ ∀ space, ∃ types, i.requiredImports space = .ok types)
    ∧ ∀ e, (i.render = .error e ∨ ∃ space, i.requiredImports space = .error e) →
      ((∃ c fault, i.Refers c ∧ c.check = .error fault
          ∧ e = .invalidReference c.canonical fault)
        ∨ (e = .structural .nestedStatement
          ∧ e.message = "malformed code block: statement '$[' opened inside another statement"
          ∧ ∃ x, i.HasField x ∧ x.opensStatement = true))
      ∧ ∀ levels level, e ≠ .structural (.cannotUnindent levels level) := by
  obtain ⟨hrender, himports⟩ := h.fit.settles
  refine ⟨?_, ?_⟩
  · intro hvalid hfields
    have hnothing : ∀ e, ¬ i.blame.Explains e := by
      rintro e (⟨c, hc, he⟩ | ⟨⟨x, hx, hopens⟩, -⟩)
      · rw [hvalid c hc] at he
        cases he
      · rw [hfields x hx] at hopens
        cases hopens
    have hsucceeds : ∀ {α : Type} {outcome : Except Error α}, i.blame.Settles outcome →
        ∃ a, outcome = .ok a := by
      rintro α outcome (hok | ⟨e, -, he⟩)
      · exact hok
      · exact absurd he (hnothing e)
    exact ⟨hsucceeds hrender, fun space => hsucceeds (himports space)⟩
  · intro e he
    have hexplains : i.blame.Explains e := by
      rcases he with he | ⟨space, he⟩
      · rcases hrender with ⟨text, htext⟩ | ⟨e', herror, hexplains⟩
        · rw [htext] at he; cases he
        · rw [herror] at he; cases he; exact hexplains
      · rcases himports space with ⟨types, htypes⟩ | ⟨e', herror, hexplains⟩
        · rw [htypes] at he; cases he
        · rw [herror] at he; cases he; exact hexplains
    rcases hexplains with ⟨c, hc, hvalidate⟩ | ⟨hfault, rfl⟩
    · unfold ClassName.validate at hvalidate
      split at hvalidate
      · cases hvalidate
      · next fault hcheck =>
        cases hvalidate
        exact ⟨.inl ⟨c, fault, hc, hcheck, rfl⟩, by simp⟩
    · exact ⟨.inr ⟨rfl, rfl, hfault⟩, by simp⟩

/-- A field with a statement for its initial value. -/
def Field.reset : Field TypeDecl :=
  ⟨"count", .builtIn .intKw, .empty, [], .empty,
    some ⟨[.openStatement, .text "Reset()", .closeStatement], 1⟩⟩

/-- A class with that field. -/
def TypeDecl.counter : TypeDecl := .bareClass "Counter" [.reset] []

/-- A field of a type of another namespace. -/
def Field.total : Field TypeDecl := .bare ⟨"Money", "Amount", []⟩ "total"

theorem render_fails_only_for_counter :
    Obtainable (.built .type .counter) ∧ Obtainable (.built .field .total)
      ∧ (Item.built .type .counter).render = .error (.structural .nestedStatement)
      ∧ (∃ x, (Item.built .type .counter).HasField x ∧ x.opensStatement = true)
      ∧ ∃ text, (Item.built .field .total).render = .ok text := by
  have hreset : Obtainable (.built .field .reset) :=
    .built (.edited (k := .field) (e := Field.Edit.initializer "$[Reset()$]" [])
      (.opened (.field (.builtIn .intKw) "count") (by simp)) (by simp [Construct.handed])) rfl
  have hcounter : Obtainable (.built .type .counter) := by
    refine .built (.edited (k := .type) (e := TypeDecl.Edit.addField .reset)
      (.opened (.named .classKind "Counter") (by simp)) ?_) rfl
    simpa [Construct.handed] using hreset
  have htotal : Obtainable (.built .field .total) :=
    .built (.opened (.field (.named ⟨"Money", "Amount", []⟩) "total") (by simp)) rfl
  have hfails : (Item.built .type .counter).render = .error (.structural .nestedStatement) := by
    rfl
  obtain ⟨hblamed, -⟩ := (render_fails_only_for hcounter).2 _ (.inl hfails)
  refine ⟨hcounter, htotal, hfails, ?_, ?_⟩
  · rcases hblamed with ⟨c, fault, -, -, heq⟩ | ⟨-, -, hfield⟩
    · cases heq
    · exact hfield
  · refine ((render_fails_only_for htotal).1 ?_ ?_).1
    · rintro c (hc | hc | ⟨t, ht, -⟩)
      · cases List.mem_singleton.mp hc
        rfl
      · cases hc
      · cases ht
    · rintro x (heq | ⟨t, ht, -⟩)
      · cases heq
        rfl
      · cases ht

end CSharpGen
