/-
  CSharpGen/Proofs/Restoration.lean
  =================================
  **Writing leaves the context as it was.**  Whatever is written, a block, a
  member or a whole declaration: behind it the scopes, the type variables, the
  statement and the flags of the writer are those before it, and the level of
  indentation has grown by the net indentation of the blocks written on the way
  (`Writer.context_restored`).

  The level is not a plain count of instructions, since a statement adds two
  levels at its first line end and takes them back where it ends.  What is
  followed along a run is therefore the level without these (`Arranged.moved`).
  A declaration puts the statement around it aside, and since it is well arranged
  without one, it finds it again (`Writer.restored_aside`).
-/
import CSharpGen.Proofs.Failures
import CSharpGen.Proofs.Tallies
import CSharpGen.Proofs.Tokens
import CSharpGen.Proofs.Usings

namespace CSharpGen

/-! ### Levels and statements -/

namespace Writer

/-- The levels that the open statement has added. -/
def extra (w : Writer) : Int := if w.statement.any (0 < ·) then 2 else 0

/-- Nothing but text has been written between the two. -/
structure Steady (w v : Writer) : Prop where
  statement : v.statement.isSome = w.statement.isSome
  suspended : v.suspended = w.suspended
  level : v.level - v.extra = w.level - w.extra

theorem Steady.refl (w : Writer) : w.Steady w := ⟨rfl, rfl, rfl⟩

theorem Steady.trans {u v w : Writer} (h : u.Steady v) (h' : v.Steady w) : u.Steady w :=
  ⟨h'.statement.trans h.statement, h'.suspended.trans h.suspended, h'.level.trans h.level⟩

variable (layout : Layout) (w : Writer)

theorem steady_writeLine (line : String) : w.Steady (w.writeLine layout line) := by
  obtain ⟨wrapper, hstarted⟩ := startLine_eq layout w
  rw [writeLine]
  split
  · exact .refl w
  · split
    · rw [hstarted]
      exact ⟨rfl, rfl, rfl⟩
    · exact ⟨rfl, rfl, rfl⟩

theorem steady_newline : w.Steady (w.newline layout) := by
  obtain ⟨wrapper, hmarked⟩ := markEmptyLine_eq layout w
  rw [newline, hmarked]
  rcases hstatement : w.statement with _ | lines
  · exact ⟨by simp [continueStatement, append, hstatement],
      by simp [continueStatement, append],
      by simp [continueStatement, append, extra, hstatement]⟩
  · refine ⟨by simp [continueStatement, append, hstatement],
      by simp [continueStatement, append], ?_⟩
    rcases lines with _ | lines
    · simp [continueStatement, append, extra, hstatement]
    · simp [continueStatement, append, extra, hstatement]

theorem steady_write (s : String) : w.Steady (w.write layout s) := by
  refine List.foldlRecOn (motive := w.Steady) _ _ (w.steady_writeLine layout _) ?_
  intro v hv line _
  exact (hv.trans (v.steady_newline layout)).trans (steady_writeLine layout _ line)

theorem steady_endLine : w.Steady (w.endLine layout) := by
  rw [endLine]
  split
  · exact .refl w
  · exact w.steady_write layout "\n"

/-- The end of a statement takes back what it has added to the level. -/
theorem closeStatement_restores {v : Writer} (h : w.closeStatement layout = .ok v) :
    v.statement = none ∧ v.suspended = w.suspended ∧ (v.level : Int) = w.level - w.extra := by
  obtain ⟨-, hsuspended, hlevel⟩ := w.steady_write layout ";"
  obtain ⟨level, hback, rfl⟩ := closeStatement_eq_ok h
  obtain ⟨hstatement, haside, hkept⟩ := steady_write layout
    { w.write layout ";" with level := level, statement := none } "\n"
  have hnone : ({ w.write layout ";" with level := level, statement := none }.write layout
      "\n").statement = none := by
    simpa using hstatement
  refine ⟨hnone, haside.trans hsuspended, ?_⟩
  have hlevel' : (level : Int) = w.level - w.extra := by
    rw [← hlevel, hback, extra]
    split <;> simp
  simpa [extra, hnone, hlevel'] using hkept

/-- The level has moved by some steps, not counting those of statements. -/
structure Moved (n : Int) (inside : Bool) (w v : Writer) : Prop where
  statement : v.statement.isSome = inside
  suspended : v.suspended = w.suspended
  level : v.level - v.extra = w.level - w.extra + n

theorem Steady.moved {w v : Writer} (h : w.Steady v) : w.Moved 0 w.statement.isSome v :=
  ⟨h.statement, h.suspended, by rw [h.level, Int.add_zero]⟩

theorem Moved.trans {u v w : Writer} {m n : Int} {b c : Bool} (h : u.Moved m b v)
    (h' : v.Moved n c w) : u.Moved (m + n) c w :=
  ⟨h'.statement, h'.suspended.trans h.suspended, by rw [h'.level, h.level]; omega⟩

/-- The context is the same again, and the level has moved by some steps. -/
structure Restored (n : Int) (w v : Writer) : Prop where
  statement : v.statement = w.statement
  suspended : v.suspended = w.suspended
  level : (v.level : Int) = w.level + n

theorem Moved.restored {n : Int} {w v : Writer} (h : w.Moved n false v)
    (hw : w.statement = none) : w.Restored n v := by
  obtain ⟨hstatement, hsuspended, hlevel⟩ := h
  have hnone : v.statement = none := by simpa using hstatement
  refine ⟨hnone.trans hw.symm, hsuspended, ?_⟩
  simpa [extra, hnone, hw] using hlevel

theorem Restored.moved {n : Int} {w v : Writer} (h : w.Restored n v) :
    w.Moved n w.statement.isSome v := by
  obtain ⟨hstatement, hsuspended, hlevel⟩ := h
  refine ⟨by rw [hstatement], hsuspended, ?_⟩
  simp only [extra, hstatement]
  omega

variable {session : Session} {v : Writer} {s : Stream}

theorem run_singleton {i : Instruction} (h : w.run session [i] = .ok v) :
    w.step session i = .ok v := by
  obtain ⟨mid, hi, hmid⟩ := Except.bind_eq_ok h
  cases hmid
  exact hi

theorem run_append_eq_ok {t : Stream} (h : w.run session (s ++ t) = .ok v) :
    ∃ mid, w.run session s = .ok mid ∧ mid.run session t = .ok v := by
  rw [run_append] at h
  exact Except.bind_eq_ok h

theorem run_bracket {i j : Instruction} (h : w.run session (i :: (s ++ [j])) = .ok v) :
    ∃ first last, w.step session i = .ok first ∧ first.run session s = .ok last
      ∧ last.step session j = .ok v := by
  obtain ⟨first, hfirst, h⟩ := Except.bind_eq_ok h
  obtain ⟨last, hlast, h⟩ := run_append_eq_ok first h
  exact ⟨first, last, hfirst, hlast, run_singleton last h⟩

variable {w}

/-- **A statement that has been put aside is found again.** -/
theorem restored_aside {n : Int}
    (hinner : ∀ u v : Writer, u.statement = none → u.run session s = .ok v → u.Restored n v)
    (h : w.run session (.suspendStatement :: (s ++ [.resumeStatement])) = .ok v) :
    w.Restored n v := by
  obtain ⟨first, last, hfirst, hrun, hlast⟩ := w.run_bracket h
  cases hfirst
  obtain ⟨-, hsuspended, hlevel⟩ := hinner _ _ rfl hrun
  cases hlast
  exact ⟨by simp [hsuspended], by simp [hsuspended], hlevel⟩

/-- What changes no level and no statement may stand around a stream. -/
theorem moved_bracket {i j : Instruction} {m n : Int} {b : Bool}
    (hi : ∀ v, w.step session i = .ok v → w.Steady v)
    (hs : ∀ u v : Writer, u.statement.isSome = w.statement.isSome → u.run session s = .ok v →
      u.Moved n b v)
    (hj : ∀ u v : Writer, u.step session j = .ok v → u.Steady v)
    (hmn : m = n) (h : w.run session (i :: (s ++ [j])) = .ok v) : w.Moved m b v := by
  obtain ⟨first, last, hfirst, hrun, hlast⟩ := w.run_bracket h
  have hopened := hi _ hfirst
  have hmoved := hs _ _ hopened.statement hrun
  have hclosed := (hj _ _ hlast).moved
  rw [hmoved.statement] at hclosed
  have hall := (hopened.moved.trans hmoved).trans hclosed
  rw [hmn]
  simpa using hall

end Writer

/-! ### Streams that are put together well -/

namespace Arranged

open CSharpGen.Stream

variable {blame : Blame} {f g : Frame} {s t : Stream} {session : Session}

/-- **A well-arranged stream moves the level by its tally.** -/
theorem moved (h : Arranged blame f g s t) : ∀ {w v : Writer},
    w.statement.isSome = f.inStatement → w.run session s = .ok v →
    w.Moved (tally s).1 g.inStatement v := by
  induction h with
  | nil =>
    intro w v hw hrun
    cases hrun
    simpa [hw] using (Writer.Steady.refl w).moved
  | @plain f i hplain =>
    intro w v hw hrun
    have hstep := w.run_singleton hrun
    cases i with
    | text s =>
      cases hstep
      simpa [hw] using (w.steady_write session.layout s).moved
    | wrapSpace | wrapPoint =>
      cases hstep
      exact ⟨hw, rfl, by simp [Writer.extra]⟩
    | _ => cases hplain
  | @reference f c _ =>
    intro w v hw hrun
    obtain ⟨-, rfl⟩ := Writer.reference_eq_ok (w.run_singleton hrun)
    obtain ⟨hstatement, hsuspended, hlevel⟩ := Writer.steady_write session.layout
      { w with names := (w.names.spell session.setting (w.inDoc || w.inComment) c).2 }
      (w.names.spell session.setting (w.inDoc || w.inComment) c).1
    exact ⟨hstatement.trans hw, hsuspended, by simpa [Writer.extra] using hlevel⟩
  | refuse =>
    intro w v _ hrun
    cases hrun
  | indent =>
    intro w v hw hrun
    cases hrun
    have hextra : ({ w with level := w.level + 1 } : Writer).extra = w.extra := rfl
    refine ⟨hw, rfl, ?_⟩
    simp only [hextra, tally_cons, tally_nil, Instruction.tally, add_zero]
    omega
  | unindent =>
    intro w v hw hrun
    obtain ⟨hroom, rfl⟩ := Writer.unindent_eq_ok (w.run_singleton hrun)
    have hextra : ({ w with level := w.level - 1 } : Writer).extra = w.extra := rfl
    refine ⟨hw, rfl, ?_⟩
    simp only [hextra, tally_cons, tally_nil, Instruction.tally, add_zero]
    omega
  | openStatement =>
    intro w v hw hrun
    have hnone : w.statement = none := by simpa using hw
    have hstep := w.run_singleton hrun
    simp only [Writer.step, hnone, Option.isSome_none, Bool.false_eq_true, if_false] at hstep
    cases hstep
    exact ⟨rfl, rfl, by simp [Writer.extra, hnone]⟩
  | closeStatement =>
    intro w v _ hrun
    obtain ⟨hnone, hsuspended, hlevel⟩ :=
      w.closeStatement_restores session.layout (w.run_singleton hrun)
    refine ⟨by simp [hnone], hsuspended, ?_⟩
    simpa [Writer.extra, hnone] using hlevel
  | doc _ ih | comment _ ih =>
    intro w v hw
    refine Writer.moved_bracket ?_ (fun u v hu => ih (hu.trans hw)) ?_ (by simp)
    · rintro v ⟨⟩
      exact ⟨rfl, rfl, rfl⟩
    · rintro u v ⟨⟩
      obtain ⟨hstatement, hsuspended, hlevel⟩ := u.steady_endLine session.layout
      exact ⟨hstatement, hsuspended, hlevel⟩
  | scope _ _ _ ih | typeVars _ _ ih =>
    intro w v hw
    refine Writer.moved_bracket ?_ (fun u v hu => ih (hu.trans hw)) ?_ (by simp)
    · rintro v ⟨⟩
      exact ⟨rfl, rfl, rfl⟩
    · rintro u v ⟨⟩
      exact ⟨rfl, rfl, rfl⟩
  | aside _ ih =>
    intro w v hw hrun
    have hrestored := Writer.restored_aside
      (fun u v hu hinner => (ih (by simp [hu]) hinner).restored hu) hrun
    simpa [hw] using hrestored.moved
  | sink _ _ ih => exact ih
  | append _ _ ih ih' | swap _ _ ih ih' =>
    intro w v hw hrun
    obtain ⟨mid, hfirst, hrest⟩ := w.run_append_eq_ok hrun
    have hmid := ih hw hfirst
    simpa using hmid.trans (ih' hmid.statement hrest)
  | trans _ _ ih _ => exact ih

/-- The level does not fall below what the frames say. -/
theorem depth_le (h : Arranged blame f g s t) : (g.depth : Int) ≤ f.depth + (tally s).1 := by
  induction h with
  | @plain f i hplain =>
    cases i with
    | text | wrapSpace | wrapPoint => simp
    | _ => cases hplain
  | nil | reference | refuse | indent | unindent | openStatement | closeStatement => simp
  | doc _ ih | comment _ ih | scope _ _ _ ih | typeVars _ _ ih | aside _ ih => simpa using ih
  | sink k _ ih =>
    simp only at ih ⊢
    omega
  | append _ _ ih ih' | swap _ _ ih ih' =>
    simp only [tally_append, Prod.fst_add]
    omega
  | trans _ _ ih _ => exact ih

/-- Scopes and type variables are left again, and nothing but comments changes the mark of
    comments. -/
theorem position_after (h : Arranged blame f g s t) (hcomments : (tally s).2 = 0) :
    ∀ p : Position, (s.foldl Position.after p).scopes = p.scopes
      ∧ (s.foldl Position.after p).typeVars = p.typeVars
      ∧ (s.foldl Position.after p).inComment = p.inComment := by
  induction h with
  | @plain f i hplain =>
    intro p
    cases i with
    | text | wrapSpace | wrapPoint => exact ⟨rfl, rfl, rfl⟩
    | _ => cases hplain
  | nil | reference | refuse | indent | unindent | openStatement | closeStatement =>
    exact fun _ => ⟨rfl, rfl, rfl⟩
  | comment => simp at hcomments
  | doc _ ih | aside _ ih =>
    intro p
    simp only [List.foldl_cons, List.foldl_append, List.foldl_nil]
    exact ih (by simpa using hcomments) _
  | scope _ _ _ ih | typeVars _ _ ih =>
    intro p
    simp only [withScope, withVariables, List.foldl_cons, List.foldl_append, List.foldl_nil]
    simp [Position.after, ih (by simpa using hcomments)]
  | sink _ _ ih => exact ih hcomments
  | append _ _ ih ih' | swap _ _ ih ih' =>
    intro p
    rw [tally_append, Prod.snd_add, Nat.add_eq_zero_iff] at hcomments
    obtain ⟨hscopes, hvars, hcomment⟩ := ih hcomments.1 p
    obtain ⟨hscopes', hvars', hcomment'⟩ := ih' hcomments.2 _
    rw [List.foldl_append]
    exact ⟨hscopes'.trans hscopes, hvars'.trans hvars, hcomment'.trans hcomment⟩
  | trans _ _ ih _ => exact ih hcomments

end Arranged

/-! ### Declarations -/

/-- **A sound declaration stands aside from the statement around it**: what it is written
    as is well arranged outside of statements. -/
theorem TypeDecl.Sound.aside (statics : List ClassName) {blame : Blame} {t : TypeDecl}
    (h : t.Sound) (hcovered : t.Covered blame) {d : Nat} :
    (∀ name, ∃ s,
      (t.emission statics).constant name = .suspendStatement :: (s ++ [.resumeStatement])
        ∧ Arranged blame ⟨d, false⟩ ⟨d, false⟩ s s)
    ∧ ∀ implied, ∃ s,
      (t.emission statics).member implied = .suspendStatement :: (s ++ [.resumeStatement])
        ∧ Arranged blame ⟨d, false⟩ ⟨d, false⟩ s s := by
  obtain @⟨layer, hcodes, hinner⟩ := h
  have hfits := hcovered.fits (w := TypeDecl.emission statics) hcodes fun u hu =>
    (hinner u hu).alike statics (hcovered.inner hu)
  rw [emission, fold_of]
  refine ⟨fun name => ⟨_, rfl, ?_⟩, fun implied => ⟨_, rfl, ?_⟩⟩
  · exact .typeVars _ (Declaration.arranged_constantStream statics (.refl layer) hfits name)
  · exact .typeVars _ (Declaration.Shuffled.arranged_stream statics (.refl layer) hfits implied)

namespace Item

open CSharpGen.Stream

/-- The blocks that are written for the item outside of type declarations. -/
def emittedIn (ctx : Context) : Item → List (Code TypeDecl)
  | .built .field x => Field.emitted x
  | .built .method m => Method.emitted m ctx.implied
  | .built .property p => Property.emitted p ctx.implied
  | i => i.codes

/-- The blocks that are written for the item, those of declarations included. -/
def blocksIn (ctx : Context) : Item → List (Code Unit)
  | .built .type t =>
    match ctx.constant with
    | some _ => (TypeDecl.written t).constant
    | none => (TypeDecl.written t).member
  | .built .file f =>
    f.comment.written (fun t => t.written.member) ++ (TypeDecl.written f.type).member
  | i => (i.emittedIn ctx).flatMap (Code.written fun t => t.written.member)

theorem tally_streamIn {i : Item} (hfile : ∀ f, i ≠ .built .file f) (ctx : Context) :
    tally (i.streamIn ctx) = (Code.total (i.blocksIn ctx), 0) := by
  have hcodes : ∀ cs : List (Code TypeDecl),
      Code.tallies ctx.statics (TypeDecl.stream ctx.statics) cs
        = (Code.total (cs.flatMap (Code.written fun t => t.written.member)), 0) := fun cs =>
    Code.sum_tally _ _ fun c _ => Code.tally_written ctx.statics fun u _ =>
      (u.tally_emission ctx.statics).2 []
  match i with
  | .code c =>
    have hone := hcodes [c]
    simpa [streamIn, blocksIn, emittedIn, codes] using hone
  | .built .attr a => exact (Attribute.tally_stream _ _ _).trans (hcodes _)
  | .built .parameter p => exact (Parameter.tally_stream _ _ _).trans (hcodes _)
  | .built .field x => exact (Field.tally_stream _ _ _ _).trans (hcodes _)
  | .built .method m => exact (Method.tally_stream _ _ _ _ _).trans (hcodes _)
  | .built .property p => exact (Property.tally_stream _ _ _ _).trans (hcodes _)
  | .built .type t =>
    rcases hconstant : ctx.constant with _ | name
    · simpa only [streamIn, blocksIn, hconstant] using (TypeDecl.tally_emission _ t).2 _
    · simpa only [streamIn, blocksIn, hconstant] using (TypeDecl.tally_emission _ t).1 name
  | .built .file f => exact absurd rfl (hfile f)

end Item

/-- **Writing leaves the context as it was.**  Behind whatever is written the scopes, the
    type variables, the statement and the marks of comments are those before it, and the
    level has grown by the net indentation of the blocks written.  A type may be written
    inside of a statement, and finds it again. -/
theorem Writer.context_restored {i : Item} (h : Obtainable i) (hfile : ∀ f, i ≠ .built .file f)
    (ctx : Item.Context) (session : Session) {w v : Writer} (hdoc : w.inDoc = false)
    (hstatement : w.statement = none ∨ ∃ t, i = .built .type t)
    (hrun : w.run session (i.streamIn ctx) = .ok v) :
    (v.names.scopes = w.names.scopes ∧ v.names.typeVariables = w.names.typeVariables
      ∧ v.statement = w.statement ∧ v.suspended = w.suspended
      ∧ v.inDoc = w.inDoc ∧ v.inComment = w.inComment)
    ∧ (v.level : Int) = w.level + ((i.blocksIn ctx).map Code.net).sum
    ∧ ((∀ c ∈ i.blocksIn ctx, c.net = 0) → v.level = w.level)
    ∧ w.level ≤ v.level := by
  have harranged := h.fit.arranged_in ctx
  have htally := Item.tally_streamIn hfile ctx
  have hposition := Writer.position_run hrun
  obtain ⟨hscopes, hvariables, hcomment⟩ := harranged.position_after (by rw [htally]) w.position
  have hdocs := harranged.inDoc_after w.position hdoc
  rw [← hposition] at hscopes hvariables hcomment hdocs
  have hrestored : w.Restored (Code.total (i.blocksIn ctx)) v := by
    rcases hstatement with hnone | ⟨t, rfl⟩
    · have hmoved := harranged.moved (by simp [hnone]) hrun
      rw [htally] at hmoved
      exact hmoved.restored hnone
    · have hsound : t.Sound := h.fit
      have hroot : t ∈ (Item.built .type t).roots :=
        List.mem_append_left _ (List.mem_singleton.mpr rfl)
      have haside := hsound.aside ctx.statics (d := 0) (Item.covered_roots t hroot)
      obtain ⟨s, hs, hinner⟩ : ∃ s, (Item.built .type t).streamIn ctx
          = .suspendStatement :: (s ++ [.resumeStatement])
            ∧ Arranged (Item.built .type t).blame ⟨0, false⟩ ⟨0, false⟩ s s := by
        simp only [Item.streamIn]
        split
        · exact haside.1 _
        · exact haside.2 _
      rw [hs] at hrun htally
      refine Writer.restored_aside (fun u v hu hrun => ?_) hrun
      have hmoved := hinner.moved (by simp [hu]) hrun
      have htotal : (Stream.tally s).1 = Code.total ((Item.built .type t).blocksIn ctx) := by
        simpa using congrArg Prod.fst htally
      rw [htotal] at hmoved
      exact hmoved.restored hu
  have hgrown : 0 ≤ Code.total (i.blocksIn ctx) := by
    have hdepth := harranged.depth_le
    rw [htally] at hdepth
    simpa using hdepth
  obtain ⟨hsame, hsuspended, hlevel⟩ := hrestored
  refine ⟨⟨hscopes, hvariables, hsame, hsuspended, hdocs.trans hdoc.symm, hcomment⟩, hlevel, ?_,
    by omega⟩
  intro hbalanced
  have hzero : Code.total (i.blocksIn ctx) = 0 := by
    rw [Code.total, List.map_congr_left (g := fun _ => 0) hbalanced]
    simp
  omega

/-- A field whose initial value leaves a level open. -/
def Field.sunken : Field TypeDecl :=
  ⟨"depth", .builtIn .intKw, .empty, [], .empty, some ⟨[.indent, .text "1"], 0⟩⟩

/-- The class of that field. -/
def TypeDecl.pool : TypeDecl := .bareClass "Pool" [.sunken] []

/-- The class is written behind the first line of a statement. -/
theorem Writer.context_restored_pool :
    Obtainable (.built .type .pool)
      ∧ ∃ v, ({ level := 2, statement := some 1 } : Writer).run ⟨({} : Style).layout, ⟨"", []⟩⟩
          ((Item.built .type .pool).streamIn {}) = .ok v
        ∧ v.statement = some 1 ∧ v.suspended = [] ∧ v.level = 3 := by
  have hfield : Obtainable (.built .field .sunken) :=
    .built (.edited (k := .field) (e := Field.Edit.initializer "$>1" [])
      (.opened (.field (.builtIn .intKw) "depth") (by simp)) (by simp [Construct.handed])) rfl
  have hclass : Obtainable (.built .type .pool) := by
    refine .built (.edited (k := .type) (e := TypeDecl.Edit.addField .sunken)
      (.opened (.named .classKind "Pool") (by simp)) ?_) rfl
    simpa [Construct.handed] using hfield
  have hruns : (({ level := 2, statement := some 1 } : Writer).run ⟨({} : Style).layout, ⟨"", []⟩⟩
      ((Item.built .type .pool).streamIn {})).toOption.isSome = true := by decide +kernel
  obtain ⟨v, hrun⟩ := Except.exists_ok_of_isSome hruns
  obtain ⟨⟨-, -, hstatement, hsuspended, -, -⟩, hlevel, -, -⟩ :=
    Writer.context_restored hclass (by rintro _ ⟨⟩) {} _ rfl (.inr ⟨_, rfl⟩) hrun
  have htotal : (((Item.built .type .pool).blocksIn {}).map Code.net).sum = 1 := by
    decide +kernel
  refine ⟨hclass, v, hrun, hstatement, hsuspended, ?_⟩
  rw [htotal] at hlevel
  simp only at hlevel
  omega

end CSharpGen
