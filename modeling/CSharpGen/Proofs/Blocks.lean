/-
  CSharpGen/Proofs/Blocks.lean
  ============================
  **Every block is balanced.**  A block can be put together in many ways: by
  edits of a draft, by going on from a finished block, by joining blocks, and by
  taking the expression of a statement (`Code.Built`).  Whatever the way, the
  result is balanced (`Code.balanced_of_built`).

  The draft keeps counters beside its parts, and a nested block is checked by
  its profile alone.  `Code.Draft.Sound` says that the counters agree with the
  parts; an edit that adds parts keeps it when the counters move as these parts
  do (`Code.Draft.Takes`), whether or not the draft already has a fault.
-/
import CSharpGen.Code.Draft
import CSharpGen.Proofs.Balance

namespace CSharpGen

variable {δ : Type}

namespace Code

/-! ### Drafts -/

namespace Draft

/-- The counters of the draft agree with its parts. -/
structure Sound (tight : Prop) (d : Draft δ) : Prop where
  statement : Part.track false (Part.flatAll d.parts) = some d.inStatement
  level : 0 ≤ (Part.profileAll d.parts).lowest
  depth : (d.depth : Int) = (Part.profileAll d.parts).net
  count : d.statements ≤ (Part.flatAll d.parts).countP Part.isClose
  equal : tight → d.flows = 0 ∧ d.statements = (Part.flatAll d.parts).countP Part.isClose
  nested : ∀ c, .block c ∈ d.parts → c.Sound tight

/-- The counters go from those of `d` to those of `e` when the parts are added. -/
structure Takes (tight : Prop) (d : Draft δ) (ps : List (Part δ)) (e : Draft δ) : Prop where
  parts : e.parts = d.parts
  statement : Part.track d.inStatement (Part.flatAll ps) = some e.inStatement
  level : 0 ≤ (d.depth : Int) + (Part.profileAll ps).lowest
  depth : (e.depth : Int) = d.depth + (Part.profileAll ps).net
  count : e.statements ≤ d.statements + (Part.flatAll ps).countP Part.isClose
  equal : d.flows = 0 →
    e.flows = 0 ∧ (tight → e.statements = d.statements + (Part.flatAll ps).countP Part.isClose)
  nested : ∀ c, .block c ∈ ps → c.Sound tight

theorem Sound.empty {tight : Prop} : ({} : Draft δ).Sound tight where
  statement := rfl
  level := Int.le_refl 0
  depth := rfl
  count := Nat.le_refl 0
  equal := fun _ => ⟨rfl, rfl⟩
  nested := by simp

theorem Sound.push {tight : Prop} {d e : Draft δ} {ps : List (Part δ)} (h : d.Sound tight)
    (htakes : d.Takes tight ps e) : (e.push ps).Sound tight where
  statement := by
    simp only [Draft.push, htakes.parts]
    rw [Part.flatAll_append, Part.track_append, h.statement]
    exact htakes.statement
  level := by
    have hlow := h.level
    have hstep := htakes.level
    have hdepth := h.depth
    simp only [Draft.push, htakes.parts, Part.profileAll_append, IndentProfile.andThen]
    omega
  depth := by
    simp only [Draft.push, htakes.parts, Part.profileAll_append, IndentProfile.andThen]
    rw [← h.depth]
    exact htakes.depth
  count := by
    have hcount := h.count
    have hstep := htakes.count
    simp only [Draft.push, htakes.parts, Part.flatAll_append, List.countP_append]
    omega
  equal := by
    intro htight
    obtain ⟨hflows, hequal⟩ := h.equal htight
    obtain ⟨hflows', hstep⟩ := htakes.equal hflows
    simp only [Draft.push, htakes.parts, Part.flatAll_append, List.countP_append]
    exact ⟨hflows', by rw [hstep htight, hequal]⟩
  nested := by
    intro c hc
    simp only [Draft.push, htakes.parts, List.mem_append] at hc
    rcases hc with hc | hc
    · exact h.nested c hc
    · exact htakes.nested c hc

theorem Sound.fail {tight : Prop} {d : Draft δ} (h : d.Sound tight) (fault : CodeFault) :
    (d.fail fault).Sound tight :=
  ⟨h.statement, h.level, h.depth, h.count, h.equal, h.nested⟩

theorem Sound.setFlows {tight : Prop} {d : Draft δ} (h : d.Sound tight) (hloose : ¬ tight)
    (flows : Nat) : ({ d with flows := flows } : Draft δ).Sound tight :=
  ⟨h.statement, h.level, h.depth, h.count, fun htight => absurd htight hloose, h.nested⟩

theorem Takes.text {tight : Prop} (d : Draft δ) (s : String) : d.Takes tight (textParts s) d := by
  have hcount : (Part.flatAll (textParts s : List (Part δ))).countP Part.isClose = 0 := by
    unfold textParts
    split <;> rfl
  have hprofile : Part.profileAll (textParts s : List (Part δ)) = .flat := by
    unfold textParts
    split <;> rfl
  refine ⟨rfl, ?_, ?_, ?_, ?_, ?_, ?_⟩
  · unfold textParts
    split <;> rfl
  · rw [hprofile]
    exact Int.le_add_of_nonneg_left (Int.natCast_nonneg d.depth)
  · rw [hprofile]
    exact (Int.add_zero _).symm
  · rw [hcount]
    exact Nat.le_refl _
  · rw [hcount]
    exact fun hflows => ⟨hflows, fun _ => rfl⟩
  · intro c hc
    unfold textParts at hc
    split at hc <;> simp at hc

/-- Text before a part changes nothing. -/
theorem Takes.lead {tight : Prop} {d e : Draft δ} {ps : List (Part δ)} (h : d.Takes tight ps e)
    (s : String) : d.Takes tight (textParts s ++ ps) e := by
  unfold textParts
  split
  · exact h
  · refine ⟨h.parts, h.statement, ?_, ?_, h.count, h.equal, ?_⟩
    · have hlow := h.level
      simp only [List.singleton_append, Part.profileAll, Part.profile, IndentProfile.andThen,
        IndentProfile.flat]
      omega
    · have hdepth := h.depth
      simp only [List.singleton_append, Part.profileAll, Part.profile, IndentProfile.andThen,
        IndentProfile.flat]
      omega
    · intro c hc
      simp only [List.singleton_append, List.mem_cons, reduceCtorEq, false_or] at hc
      exact h.nested c hc

/-- A part that is neither a mark nor a block changes nothing. -/
theorem Takes.plain {tight : Prop} (d : Draft δ) {p : Part δ} (hmark : p.isMark = false)
    (hblock : ∀ c, p ≠ .block c) : d.Takes tight [p] d := by
  have hflat : p.flat = [p] ∧ p.profile = .flat ∧ p.isStatementMark = false := by
    cases p with
    | block c => exact absurd rfl (hblock c)
    | openStatement | closeStatement | indent | unindent => cases hmark
    | _ => simp [Part.flat, Part.profile, Part.isStatementMark]
  have hall : ∀ q ∈ Part.flatAll [p], q.isStatementMark = false := by
    intro q hq
    simp only [Part.flatAll, hflat.1, List.append_nil, List.mem_singleton] at hq
    exact hq ▸ hflat.2.2
  have hcount := Part.countP_isClose_of_no_mark hall
  have hprofile : Part.profileAll [p] = .flat := by
    rw [Part.profileAll, hflat.2.1]
    rfl
  refine ⟨rfl, Part.track_of_no_mark hall _, ?_, ?_, ?_, ?_, ?_⟩
  · rw [hprofile]
    exact Int.le_add_of_nonneg_left (Int.natCast_nonneg d.depth)
  · rw [hprofile]
    exact (Int.add_zero _).symm
  · rw [hcount]
    exact Nat.le_refl _
  · rw [hcount]
    exact fun hflows => ⟨hflows, fun _ => rfl⟩
  · intro c hc
    exact absurd (List.mem_singleton.mp hc).symm (hblock c)

theorem count_parts (d : Draft δ) (n : Nat) : (d.count n).parts = d.parts := by
  unfold Draft.count
  split <;> rfl

theorem count_inStatement (d : Draft δ) (n : Nat) : (d.count n).inStatement = d.inStatement := by
  unfold Draft.count
  split <;> rfl

theorem count_depth (d : Draft δ) (n : Nat) : (d.count n).depth = d.depth := by
  unfold Draft.count
  split <;> rfl

theorem count_statements_le (d : Draft δ) (n : Nat) :
    (d.count n).statements ≤ d.statements + n := by
  unfold Draft.count
  split
  · exact Nat.le_refl _
  · exact Nat.le_add_right _ _

theorem count_of_no_flow {d : Draft δ} (h : d.flows = 0) (n : Nat) :
    d.count n = { d with statements := d.statements + n } := if_pos h

/-- **The check of a block keeps the counters right**, whether the block is nested or its
    parts are added one by one. -/
theorem absorb_takes {tight : Prop} {d e : Draft δ} {c : Code δ} (h : d.absorb c = .ok e)
    (hc : c.Sound tight) {ps : List (Part δ)} (hflat : Part.flatAll ps = c.flat)
    (hprofile : Part.profileAll ps = c.profile)
    (hnested : ∀ b, .block b ∈ ps → b.Sound tight) : d.Takes tight ps e := by
  obtain ⟨-, -, hcount, hequal⟩ := hc.flat
  have hnet := c.follows_profile.lowest_le_net
  unfold absorb at h
  split at h
  · cases h
  · next hopens =>
    split at h
    · cases h
    · next hlevel =>
      cases h
      refine ⟨count_parts d _, ?_, ?_, ?_, ?_, ?_, hnested⟩
      · rw [hflat, count_inStatement]
        exact hc.track_flat (by simpa using hopens)
      · rw [hprofile]
        omega
      · rw [hprofile]
        show (((d.depth : Int) + c.profile.net).toNat : Int) = _
        omega
      · rw [hflat]
        exact Nat.le_trans (count_statements_le d _) (Nat.add_le_add_left hcount _)
      · intro hflows
        rw [hflat, count_of_no_flow hflows]
        refine ⟨hflows, ?_⟩
        intro htight
        rw [← hequal htight]

end Draft

/-! ### Edits -/

end Code

/-- The block that an argument brings in. -/
def Argument.blocks : Argument δ → List (Code δ)
  | .code c => [c]
  | _ => []

namespace Code

/-- The blocks that an edit brings in. -/
def Edit.blocks : Edit δ → List (Code δ)
  | .add _ args | .addStatement _ args | .beginFlow _ args | .nextFlow _ args
  | .endFlowWith _ args => args.flatMap Argument.blocks
  | .addCode c => [c]
  | .endFlow | .indent | .unindent => []

/-- Whether an edit opens, goes on with or closes a control flow. -/
def Edit.isFlow : Edit δ → Bool
  | .beginFlow .. | .nextFlow .. | .endFlow | .endFlowWith .. => true
  | .add .. | .addStatement .. | .addCode _ | .indent | .unindent => false

namespace Draft

variable {tight : Prop} {d : Draft δ}

theorem argumentPart_takes {e : Draft δ} {placeholder : Placeholder} {arg : Argument δ}
    {p : Part δ} (h : d.argumentPart placeholder arg = .ok (p, e))
    (hblocks : ∀ c ∈ arg.blocks, c.Sound tight) : d.Takes tight [p] e := by
  unfold argumentPart at h
  split at h
  case h_4 c =>
    have hc : c.Sound tight := hblocks c (by simp [Argument.blocks])
    obtain ⟨habsorb, rfl⟩ := argumentPart_code_eq_ok h
    refine absorb_takes habsorb hc ?_ ?_ ?_
    · rw [Part.flatAll_singleton, Part.flat]
    · rw [Part.profileAll_singleton, Part.profile]
    · intro b hb
      cases List.mem_singleton.mp hb
      exact hc
  all_goals
    cases h
    try exact .plain d rfl (by simp)

theorem take_mem {format : String} {args : List (Argument δ)} {cursor moved : Cursor}
    {position : Option Nat} {arg : Argument δ}
    (h : cursor.take format args position = .ok (arg, moved)) : arg ∈ args := by
  simp only [Cursor.take] at h
  split at h
  · cases h
  · split at h
    · cases h
    · next heq =>
      cases h
      exact List.mem_of_getElem? heq

theorem directive_takes {e : Draft δ} {format : String} {args : List (Argument δ)}
    {cursor moved : Cursor} {dir : Directive} {p : Part δ}
    (h : d.directive format args cursor dir = .ok (p, e, moved))
    (hblocks : ∀ c ∈ args.flatMap Argument.blocks, c.Sound tight) : d.Takes tight [p] e := by
  cases dir with
  | indent =>
    cases h
    exact ⟨rfl, rfl, Int.natCast_nonneg _, rfl, Nat.le_refl _, fun hflows => ⟨hflows, fun _ => rfl⟩,
      by simp⟩
  | unindent =>
    simp only [directive] at h
    split at h
    · cases h
    · next hdepth =>
      cases h
      refine ⟨rfl, rfl, ?_, ?_, Nat.le_refl _, fun hflows => ⟨hflows, fun _ => rfl⟩, by simp⟩
      · show 0 ≤ (d.depth : Int) + min (-1) (-1 + 0)
        omega
      · show ((d.depth - 1 : Nat) : Int) = d.depth + (-1 + 0)
        omega
  | openStatement =>
    simp only [directive] at h
    split at h
    · cases h
    · next hopen =>
      cases h
      refine ⟨rfl, ?_, Int.natCast_nonneg _, rfl, Nat.le_refl _,
        fun hflows => ⟨hflows, fun _ => rfl⟩, by simp⟩
      rw [Bool.not_eq_true] at hopen
      rw [hopen]
      rfl
  | closeStatement =>
    simp only [directive] at h
    split at h
    · next hopen =>
      cases h
      refine ⟨count_parts d 1, ?_, Int.natCast_nonneg _, ?_, count_statements_le d 1, ?_, by simp⟩
      · rw [hopen]
        rfl
      · show ((d.count 1).depth : Int) = _
        rw [count_depth]
        rfl
      · intro hflows
        rw [count_of_no_flow hflows]
        exact ⟨hflows, fun _ => rfl⟩
    · cases h
  | wrapSpace | wrapPoint =>
    cases h
    exact .plain d rfl (by simp)
  | argument placeholder position =>
    obtain ⟨arg, htake, hpart⟩ := directive_argument_eq_ok h
    refine argumentPart_takes hpart ?_
    intro c hc
    exact hblocks c (List.mem_flatMap.mpr ⟨arg, take_mem htake, hc⟩)

theorem Sound.interpret (h : d.Sound tight) (format : String) {args : List (Argument δ)}
    (hblocks : ∀ c ∈ args.flatMap Argument.blocks, c.Sound tight)
    (ending : Except CodeFault String) (cursor : Cursor) (segments : List (String × Directive)) :
    (d.interpret format args ending cursor segments).Sound tight := by
  induction segments generalizing d cursor with
  | nil =>
    simp only [Draft.interpret, finish]
    split
    · exact h.fail _
    · split
      · exact (h.push (.text d _)).fail _
      · exact h.push (.text d _)
  | cons segment rest ih =>
    simp only [Draft.interpret]
    split
    · exact h.fail _
    · next hdirective =>
      exact ih (h.push ((directive_takes hdirective hblocks).lead _)) _

theorem Sound.add (h : d.Sound tight) (format : String) {args : List (Argument δ)}
    (hblocks : ∀ c ∈ args.flatMap Argument.blocks, c.Sound tight) :
    (d.add format args).Sound tight := by
  unfold Draft.add
  split
  · exact h
  · exact h.interpret format hblocks _ _ _

theorem Sound.addCode (h : d.Sound tight) {c : Code δ} (hc : c.Sound tight) :
    (d.addCode c).Sound tight := by
  unfold Draft.addCode
  split
  · exact h
  · split
    · exact h.fail _
    · next habsorb =>
      refine h.push (absorb_takes habsorb hc ?_ ?_ ?_)
      · rw [c.flat_eq]
      · rw [c.profile_eq]
      · intro b hb
        exact hc.nested hb

/-- **An edit keeps the counters right.** -/
theorem Sound.apply (h : d.Sound tight) {e : Edit δ} (hflow : tight → e.isFlow = false)
    (hblocks : ∀ c ∈ e.blocks, c.Sound tight) : (d.apply e).Sound tight := by
  have hloose : e.isFlow = true → ¬ tight := by
    intro hisFlow htight
    rw [hflow htight] at hisFlow
    cases hisFlow
  cases e with
  | add format args => exact h.add format hblocks
  | addStatement format args => exact h.add _ hblocks
  | addCode c => exact h.addCode (hblocks c (by simp [Edit.blocks]))
  | beginFlow header args => exact (h.add _ hblocks).setFlows (hloose rfl) _
  | nextFlow header args =>
    simp only [Draft.apply, Draft.nextFlow]
    split
    · exact h.fail _
    · exact h.add _ hblocks
  | endFlow =>
    simp only [Draft.apply, Draft.endFlow]
    split
    · exact h.fail _
    · exact (h.setFlows (hloose rfl) _).add _ (by simp)
  | endFlowWith clause args =>
    simp only [Draft.apply, Draft.endFlowWith]
    split
    · exact h.fail _
    · exact (h.setFlows (hloose rfl) _).add _ hblocks
  | indent | unindent => exact h.add _ (by simp)

theorem Sound.build (h : d.Sound tight) {c : Code δ} (hc : d.build = .ok c) : c.Sound tight := by
  unfold Draft.build at hc
  split at hc
  · cases hc
  · split at hc
    · cases hc
    · split at hc
      · cases hc
      · next hstatement =>
        cases hc
        rw [Bool.not_eq_true] at hstatement
        refine .of ?_ h.level h.count (fun htight => (h.equal htight).2) h.nested
        rw [h.statement, hstatement]

end Draft

theorem Sound.toDraft {tight : Prop} {c : Code δ} (h : c.Sound tight) :
    c.toDraft.Sound tight := by
  obtain ⟨alternate, level, count, equal, nested⟩ := h
  refine ⟨alternate, level, ?_, count, fun htight => ⟨rfl, equal htight⟩, nested⟩
  have hnet := (Part.follows_profileAll ‹List (Part δ)›).lowest_le_net
  simp only [Code.toDraft, Code.profile]
  omega

/-! ### Every way to make a block -/

mutual

/-- The drafts that can be reached by edits among `calls`. -/
inductive Draft.Reached (calls : Edit δ → Prop) : Draft δ → Prop
  | empty : Draft.Reached calls {}
  | reopened {c : Code δ} (h : Built calls c) : Draft.Reached calls c.toDraft
  | edited {d : Draft δ} {e : Edit δ} (h : Draft.Reached calls d) (hcall : calls e)
      (hblocks : ∀ c ∈ e.blocks, Built calls c) : Draft.Reached calls (d.apply e)

/-- The blocks that can be made, where all drafts on the way are edited by `calls`
    only. -/
inductive Built (calls : Edit δ → Prop) : Code δ → Prop
  | finished {d : Draft δ} {c : Code δ} (h : Draft.Reached calls d) (hc : d.build = .ok c) :
      Built calls c
  | joined (sep : String) {cs : List (Code δ)} (h : ∀ c ∈ cs, Built calls c) :
      Built calls (join sep cs)
  | expression {c e : Code δ} (h : Built calls c) (he : c.singleExpression? = some e) :
      Built calls e

end

theorem Draft.Reached.applyAll {calls : Edit δ → Prop} {d : Draft δ}
    (h : Draft.Reached calls d) {edits : List (Edit δ)}
    (hedits : ∀ e ∈ edits, calls e ∧ ∀ c ∈ e.blocks, Built calls c) :
    Draft.Reached calls (d.applyAll edits) := by
  induction edits generalizing d with
  | nil => exact h
  | cons e rest ih =>
    obtain ⟨hcall, hblocks⟩ := hedits e (by simp)
    exact ih (.edited h hcall hblocks) fun f hf => hedits f (List.mem_cons_of_mem _ hf)

section Built

variable {calls : Edit δ → Prop} {tight : Prop}

mutual

theorem Draft.Reached.sound (htight : tight → ∀ e, calls e → e.isFlow = false) :
    ∀ {d : Draft δ}, Draft.Reached calls d → d.Sound tight
  | _, .empty => .empty
  | _, .reopened h => (Built.sound htight h).toDraft
  | _, .edited h hcall hblocks =>
    (Draft.Reached.sound htight h).apply (fun ht => htight ht _ hcall)
      fun c hc => Built.sound htight (hblocks c hc)

/-- **Every block that can be made is balanced at every depth.** -/
theorem Built.sound (htight : tight → ∀ e, calls e → e.isFlow = false) :
    ∀ {c : Code δ}, Built calls c → c.Sound tight
  | _, .finished h hc => (Draft.Reached.sound htight h).build hc
  | _, .joined sep h => .join sep fun c hc => Built.sound htight (h c hc)
  | _, .expression h he => (Built.sound htight h).singleExpression he

end

end Built

/-- **Every block is balanced.**  With all nested blocks written out, statements open and
    end in turn, and no stretch from the beginning undoes more indentation than it opens.
    The count of statements is at most the number of those that end; it is that number
    if no control flow was used. -/
theorem balanced_of_built {calls : Edit δ → Prop} {c : Code δ} (h : c.Built calls) :
    (∃ n, c.flat.filter Part.isStatementMark
        = (List.replicate n [.openStatement, .closeStatement]).flatten)
      ∧ (∀ n, (c.flat.take n).countP Part.isUnindent ≤ (c.flat.take n).countP Part.isIndent)
      ∧ c.statements ≤ c.flat.countP Part.isClose
      ∧ ((∀ e, calls e → e.isFlow = false) → c.statements = c.flat.countP Part.isClose) := by
  have hsound : c.Sound (∀ e, calls e → e.isFlow = false) := h.sound id
  obtain ⟨halternate, hlevel, hcount, hequal⟩ := hsound.flat
  refine ⟨?_, ?_, hcount, hequal⟩
  · obtain ⟨n, hn⟩ := Part.filter_of_track halternate
    exact ⟨n, by simpa using hn⟩
  · intro n
    have hlow := (Code.follows_profile c).lowest n
    rw [Part.level] at hlow
    omega

/-- A loop around one statement. -/
def loop : Code Empty :=
  ⟨[.text "while (true) \x7b\n", .indent, .openStatement, .text "Tick()", .closeStatement,
    .unindent, .text "\x7d\n"], 0⟩

/-- The loop as an argument, and a statement behind it. -/
def loopThenStop : Code Empty :=
  ⟨[.block loop, .openStatement, .text "Stop()", .closeStatement], 1⟩

theorem balanced_of_built_loop : loop.Built (fun _ => True) ∧ loopThenStop.Built (fun _ => True)
    ∧ (∃ n, loopThenStop.flat.filter Part.isStatementMark
        = (List.replicate n [.openStatement, .closeStatement]).flatten)
    ∧ loopThenStop.statements ≤ loopThenStop.flat.countP Part.isClose := by
  have hloop : loop.Built fun _ => True := by
    refine .finished (d := ({} : Draft Empty).applyAll
      [.beginFlow "while (true)" [], .addStatement "Tick()" [], .endFlow])
      (Draft.Reached.empty.applyAll ?_) rfl
    simp [Edit.blocks]
  have hwhole : loopThenStop.Built fun _ => True := by
    refine .finished (d := ({} : Draft Empty).applyAll
      [.add "$L" [.code loop], .addStatement "Stop()" []]) (Draft.Reached.empty.applyAll ?_) rfl
    simpa [Edit.blocks, Argument.blocks] using hloop
  obtain ⟨hmarks, -, hcount, -⟩ := balanced_of_built hwhole
  exact ⟨hloop, hwhole, hmarks, hcount⟩

end Code

end CSharpGen
