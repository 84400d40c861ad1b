/-
  CSharpGen/Proofs/Faults.lean
  ============================
  **The first fault of a block sticks.**  An edit that is malformed leaves its
  fault in the draft.  From then on the draft is stalled: whatever edits follow,
  the fault, the parts and the count of statements stay as they are, and building
  reports that fault (`Code.Draft.first_fault_sticks`).

  Not everything stands still.  The edits of control flows go on counting what is
  open, and report a fault of their own when nothing is; what makes the law hold
  is that a fault is recorded only where there is none (`Draft.fail`).

  A draft without a fault can still be unfinished.  Its counters are then told by
  the edits and the parts: the control flows that are open are those begun and not
  ended (`Code.Draft.flows_applyAll`), and a statement is open behind the parts if
  the draft says so (`Code.Draft.Sound`).
-/
import CSharpGen.Proofs.Blocks

namespace CSharpGen

variable {δ : Type}

/-! ### Where faults come from -/

/-- What a fault of a block is about. -/
inductive CodeFault.Cause where
  /-- A placeholder is malformed. -/
  | format
  /-- Placeholders and arguments do not go together. -/
  | argument
  /-- `$[`, `$]` or `$<` stands where it must not. -/
  | mark
  /-- A control flow is continued or closed that is not open. -/
  | flow
  /-- The block is not finished. -/
  | unfinished
  /-- The writer runs out of levels. -/
  | writer
  deriving DecidableEq, Repr

def CodeFault.cause : CodeFault → Cause
  | dangling _ | notIndexable .. | badIndex _ | unknownPlaceholder _ => .format
  | mixedPlaceholders | missingArgument .. | unusedArgument .. | wrongArgument .. => .argument
  | unindentPastStart | nestedStatement | strayStatementEnd => .mark
  | continuesNoFlow _ | closesNoFlow | closesNoFlowWith _ => .flow
  | unclosedStatement | openFlows _ => .unfinished
  | cannotUnindent .. => .writer

/-- The fault lies in a format, its arguments or its marks. -/
def CodeFault.InText (fault : CodeFault) : Prop :=
  fault.cause ∈ [.format, .argument, .mark]

namespace Format

theorem inText_of_directive? {digits : List Char} {kind : Char} {fault : CodeFault}
    (h : directive? digits kind = .error fault) : fault.InText := by
  unfold directive? at h
  split at h
  · unfold position? at h
    split at h
    · cases h
    · split at h
      · cases h
      · cases h
        simp [CodeFault.InText, CodeFault.cause]
  · split at h
    · cases h
      simp [CodeFault.InText, CodeFault.cause]
    · split at h
      · cases h
      · split at h
        · cases h
        · cases h
          simp [CodeFault.InText, CodeFault.cause]

theorem inText_of_scan {format : String} {lead : List Char} {digits : Option (List Char)}
    {cs : List Char} {fault : CodeFault} (h : (scan format lead digits cs).ending = .error fault) :
    fault.InText := by
  fun_induction scan format lead digits cs with
  | case1 => cases h
  | case2 =>
    cases h
    simp [CodeFault.InText, CodeFault.cause]
  | case3 _ _ ih => exact ih h
  | case4 _ _ _ _ ih => exact ih h
  | case5 _ _ _ _ _ ih => exact ih h
  | case6 _ _ _ _ _ _ hdirective =>
    cases h
    exact inText_of_directive? hdirective
  | case7 _ _ _ _ _ _ ih => exact ih h
  | case8 _ _ _ _ _ _ _ _ ih => exact ih h

end Format

namespace Code

theorem Cursor.inText_of_take {format : String} {args : List (Argument δ)} {cursor : Cursor}
    {position : Option Nat} {fault : CodeFault}
    (h : cursor.take format args position = .error fault) : fault.InText := by
  simp only [Cursor.take] at h
  split at h
  · cases h
    simp [CodeFault.InText, CodeFault.cause]
  · split at h
    · cases h
      simp [CodeFault.InText, CodeFault.cause]
    · cases h

namespace Edit

def opensFlow : Edit δ → Bool
  | .beginFlow .. => true
  | _ => false

def closesFlow : Edit δ → Bool
  | .endFlow | .endFlowWith .. => true
  | _ => false

/-- Whether the edit goes on from a control flow that must be open. -/
def needsFlow : Edit δ → Bool
  | .nextFlow .. | .endFlow | .endFlowWith .. => true
  | _ => false

/-- Why an edit of a draft is at fault: it needs a control flow and none is open, or else
    something is wrong with what it adds. -/
def Breaks (d : Draft δ) (e : Edit δ) (fault : CodeFault) : Prop :=
  if e.needsFlow = true ∧ d.flows = 0 then fault.cause = .flow else fault.InText

end Edit

namespace Draft

variable {d : Draft δ}

theorem inText_of_absorb {c : Code δ} {fault : CodeFault} (h : d.absorb c = .error fault) :
    fault.InText := by
  unfold absorb at h
  split at h
  · cases h
    simp [CodeFault.InText, CodeFault.cause]
  · split at h
    · cases h
      simp [CodeFault.InText, CodeFault.cause]
    · cases h

theorem inText_of_argumentPart {placeholder : Placeholder} {arg : Argument δ} {fault : CodeFault}
    (h : d.argumentPart placeholder arg = .error fault) : fault.InText := by
  unfold argumentPart at h
  split at h
  case h_4 c =>
    cases habsorb : d.absorb c with
    | error found =>
      rw [habsorb] at h
      cases h
      exact inText_of_absorb habsorb
    | ok moved =>
      rw [habsorb] at h
      cases h
  case h_10 =>
    cases h
    simp [CodeFault.InText, CodeFault.cause]
  all_goals cases h

theorem inText_of_directive {format : String} {args : List (Argument δ)} {cursor : Cursor}
    {dir : Directive} {fault : CodeFault} (h : d.directive format args cursor dir = .error fault) :
    fault.InText := by
  cases dir with
  | indent | wrapSpace | wrapPoint => cases h
  | unindent | openStatement =>
    simp only [directive] at h
    split at h
    · cases h
      simp [CodeFault.InText, CodeFault.cause]
    · cases h
  | closeStatement =>
    simp only [directive] at h
    split at h
    · cases h
    · cases h
      simp [CodeFault.InText, CodeFault.cause]
  | argument placeholder position =>
    simp only [directive, bind, Except.bind] at h
    split at h
    · next htake =>
      cases h
      exact Cursor.inText_of_take htake
    · next pair _ =>
      cases hpart : d.argumentPart placeholder pair.1 with
      | error found =>
        simp only [hpart, Except.error.injEq] at h
        exact h ▸ inText_of_argumentPart hpart
      | ok made => simp [hpart, pure, Except.pure] at h

/-! ### What a format leaves alone -/

/-- The fault and the open control flows are the same. -/
structure Alongside (d e : Draft δ) : Prop where
  fault : e.fault = d.fault
  flows : e.flows = d.flows

theorem Alongside.refl (d : Draft δ) : d.Alongside d := ⟨rfl, rfl⟩

theorem alongside_count (d : Draft δ) (n : Nat) : d.Alongside (d.count n) := by
  unfold count
  split
  · exact ⟨rfl, rfl⟩
  · exact .refl d

theorem alongside_absorb {e : Draft δ} {c : Code δ} (h : d.absorb c = .ok e) : d.Alongside e := by
  unfold absorb at h
  split at h
  · cases h
  · split at h
    · cases h
    · cases h
      obtain ⟨hfault, hflows⟩ := d.alongside_count c.statements
      exact ⟨hfault, hflows⟩

theorem alongside_argumentPart {e : Draft δ} {placeholder : Placeholder} {arg : Argument δ}
    {p : Part δ} (h : d.argumentPart placeholder arg = .ok (p, e)) : d.Alongside e := by
  unfold argumentPart at h
  split at h
  case h_4 c =>
    obtain ⟨habsorb, -⟩ := argumentPart_code_eq_ok h
    exact alongside_absorb habsorb
  all_goals
    cases h
    try exact .refl d

theorem alongside_directive {e : Draft δ} {format : String} {args : List (Argument δ)}
    {cursor moved : Cursor} {dir : Directive} {p : Part δ}
    (h : d.directive format args cursor dir = .ok (p, e, moved)) : d.Alongside e := by
  cases dir with
  | indent | wrapSpace | wrapPoint =>
    cases h
    exact ⟨rfl, rfl⟩
  | unindent | openStatement =>
    simp only [directive] at h
    split at h
    · cases h
    · cases h
      exact ⟨rfl, rfl⟩
  | closeStatement =>
    simp only [directive] at h
    split at h
    · cases h
      obtain ⟨hfault, hflows⟩ := d.alongside_count 1
      exact ⟨hfault, hflows⟩
    · cases h
  | argument placeholder position =>
    obtain ⟨arg, -, hpart⟩ := directive_argument_eq_ok h
    exact alongside_argumentPart hpart

/-- **A format opens and closes no control flow**, and what may be wrong with it lies in its
    text. -/
theorem interpret_spec {format : String} {args : List (Argument δ)}
    {ending : Except CodeFault String} (hending : ∀ fault, ending = .error fault → fault.InText)
    (cursor : Cursor) (segments : List (String × Directive)) :
    (d.interpret format args ending cursor segments).flows = d.flows
      ∧ (d.fault = none → ∀ fault,
        (d.interpret format args ending cursor segments).fault = some fault → fault.InText) := by
  induction segments generalizing d cursor with
  | nil =>
    simp only [interpret, finish]
    split
    · next found =>
      refine ⟨rfl, fun hnone fault hfault => ?_⟩
      simp only [fail, hnone, Option.getD_none, Option.some.injEq] at hfault
      exact hfault ▸ hending found rfl
    · split
      · refine ⟨rfl, fun hnone fault hfault => ?_⟩
        simp only [fail, push, hnone, Option.getD_none, Option.some.injEq] at hfault
        simp [← hfault, CodeFault.InText, CodeFault.cause]
      · refine ⟨rfl, fun hnone fault hfault => ?_⟩
        simp [push, hnone] at hfault
  | cons segment rest ih =>
    simp only [interpret]
    split
    · next found hdirective =>
      refine ⟨rfl, fun hnone fault hfault => ?_⟩
      simp only [fail, hnone, Option.getD_none, Option.some.injEq] at hfault
      exact hfault ▸ inText_of_directive hdirective
    · next part moved next hdirective =>
      obtain ⟨hfault, hflows⟩ := alongside_directive hdirective
      obtain ⟨hflows', hfaults⟩ :=
        ih (d := moved.push (textParts segment.1 ++ [part])) next
      exact ⟨hflows'.trans hflows, fun hnone => hfaults (hfault.trans hnone)⟩

theorem flows_add (d : Draft δ) (format : String) (args : List (Argument δ)) :
    (d.add format args).flows = d.flows := by
  unfold add
  split
  · rfl
  · exact (interpret_spec (fun _ => Format.inText_of_scan) _ _).1

theorem inText_of_add (hnone : d.fault = none) {format : String} {args : List (Argument δ)}
    {fault : CodeFault} (h : (d.add format args).fault = some fault) : fault.InText := by
  simp only [add, hnone, Option.isSome_none, Bool.false_eq_true, if_false] at h
  exact (interpret_spec (fun _ => Format.inText_of_scan) _ _).2 hnone fault h

/-! ### What an edit does -/

/-- **The cases of an edit**: it finds no control flow to go on from, it takes in a block, or
    it adds a format, before which it may close a control flow and behind which it may open
    one. -/
theorem apply_cases (d : Draft δ) (e : Edit δ) :
    (e.needsFlow = true ∧ d.flows = 0
      ∧ ∃ found : CodeFault, found.cause = .flow ∧ d.apply e = d.fail found)
    ∨ ¬ (e.needsFlow = true ∧ d.flows = 0)
      ∧ ((∃ c, e = .addCode c)
        ∨ ∃ format args added, [e].countP Edit.closesFlow ≤ d.flows
          ∧ add { d with flows := d.flows - [e].countP Edit.closesFlow } format args = added
          ∧ d.apply e = { added with flows := added.flows + [e].countP Edit.opensFlow }) := by
  have hformat : e.needsFlow = false → ¬ (e.needsFlow = true ∧ d.flows = 0) := by
    rintro hneeds ⟨hflow, -⟩
    rw [hneeds] at hflow
    cases hflow
  cases e with
  | add format args | addStatement format args | indent | unindent | beginFlow header args =>
    exact .inr ⟨hformat rfl, .inr ⟨_, _, _, Nat.zero_le _, rfl, rfl⟩⟩
  | addCode c => exact .inr ⟨hformat rfl, .inl ⟨c, rfl⟩⟩
  | nextFlow header args =>
    by_cases hclosed : d.flows = 0
    · exact .inl ⟨rfl, hclosed, _, rfl, if_pos hclosed⟩
    · exact .inr ⟨by simp [hclosed], .inr ⟨_, _, _, Nat.zero_le _, rfl, if_neg hclosed⟩⟩
  | endFlow | endFlowWith clause args =>
    by_cases hclosed : d.flows = 0
    · exact .inl ⟨rfl, hclosed, _, rfl, if_pos hclosed⟩
    · exact .inr ⟨by simp [hclosed],
        .inr ⟨_, _, _, Nat.pos_of_ne_zero hclosed, rfl, if_neg hclosed⟩⟩

/-! ### Drafts with a fault -/

/-- The second draft is the first one, except for its count of control flows. -/
def Stalled (d e : Draft δ) : Prop := ∃ flows, e = { d with flows := flows }

theorem Stalled.refl (d : Draft δ) : d.Stalled d := ⟨d.flows, rfl⟩

theorem Stalled.trans {d e f : Draft δ} (h : d.Stalled e) (h' : e.Stalled f) : d.Stalled f := by
  obtain ⟨_, rfl⟩ := h
  obtain ⟨flows, rfl⟩ := h'
  exact ⟨flows, rfl⟩

theorem Stalled.fault_eq {e : Draft δ} (h : d.Stalled e) : e.fault = d.fault := by
  obtain ⟨_, rfl⟩ := h
  rfl

variable {edits : List (Edit δ)} {e : Edit δ} {fault : CodeFault}

theorem stalled_add (h : d.fault = some fault) (format : String) (args : List (Argument δ)) :
    d.Stalled (d.add format args) := by
  have hsame : d.add format args = d := by simp [add, h]
  rw [hsame]
  exact .refl d

theorem stalled_addCode (h : d.fault = some fault) (c : Code δ) : d.Stalled (d.addCode c) := by
  have hsame : d.addCode c = d := by simp [addCode, h]
  rw [hsame]
  exact .refl d

theorem stalled_fail (h : d.fault = some fault) (later : CodeFault) :
    d.Stalled (d.fail later) :=
  ⟨d.flows, by simp [fail, h]⟩

/-- **An edit of a draft with a fault changes nothing but the count of control flows.** -/
theorem stalled_apply (h : d.fault = some fault) (e : Edit δ) : d.Stalled (d.apply e) := by
  rcases d.apply_cases e with ⟨-, -, found, -, hfail⟩
    | ⟨-, ⟨c, rfl⟩ | ⟨format, args, added, -, rfl, hadd⟩⟩
  · rw [hfail]
    exact stalled_fail h found
  · exact stalled_addCode h c
  · have hclosed : d.Stalled { d with flows := d.flows - [e].countP Edit.closesFlow } := ⟨_, rfl⟩
    rw [hadd]
    exact (hclosed.trans (stalled_add (hclosed.fault_eq.trans h) format args)).trans ⟨_, rfl⟩

/-- **A fault lasts through all further edits.** -/
theorem stalled_applyAll (h : d.fault = some fault) (edits : List (Edit δ)) :
    d.Stalled (d.applyAll edits) := by
  induction edits generalizing d with
  | nil => exact .refl d
  | cons e rest ih =>
    have hstep := stalled_apply h e
    exact hstep.trans (ih (hstep.fault_eq.trans h))

/-! ### Drafts without a fault -/

theorem breaks_of_apply (hnone : d.fault = none) (h : (d.apply e).fault = some fault) :
    e.Breaks d fault := by
  have hfirst : ∀ found : CodeFault, (d.fail found).fault = some fault → found = fault := by
    intro found hfound
    simpa [fail, hnone] using hfound
  rcases d.apply_cases e with ⟨hneeds, hclosed, found, hcause, hfail⟩ | ⟨hopen, hcases⟩
  · rw [hfail] at h
    rw [Edit.Breaks, if_pos ⟨hneeds, hclosed⟩, ← hfirst found h]
    exact hcause
  · rw [Edit.Breaks, if_neg hopen]
    obtain ⟨c, rfl⟩ | ⟨format, args, added, -, rfl, hadd⟩ := hcases
    · simp only [Draft.apply, addCode, hnone, Option.isSome_none, Bool.false_eq_true,
        if_false] at h
      split at h
      · next found habsorb =>
        rw [← hfirst found h]
        exact inText_of_absorb habsorb
      · next moved habsorb =>
        have hkept := (alongside_absorb habsorb).fault
        simp [push, hkept, hnone] at h
    · rw [hadd] at h
      exact inText_of_add (d := { d with flows := d.flows - [e].countP Edit.closesFlow }) hnone h

/-- **An edit without a fault counts the control flow it opens or closes.** -/
theorem flows_apply (h : (d.apply e).fault = none) :
    (d.apply e).flows + [e].countP Edit.closesFlow = d.flows + [e].countP Edit.opensFlow := by
  rcases d.apply_cases e with ⟨-, -, found, -, hfail⟩
    | ⟨-, ⟨c, rfl⟩ | ⟨format, args, added, hroom, rfl, hadd⟩⟩
  · simp [hfail, fail] at h
  · simp only [Draft.apply, addCode, Edit.opensFlow, Edit.closesFlow, List.countP_singleton]
    split
    · rfl
    · split
      · rfl
      · next moved habsorb => simp [push, (alongside_absorb habsorb).flows]
  · have hkept := flows_add { d with flows := d.flows - [e].countP Edit.closesFlow } format args
    rw [hadd]
    simp only at hkept ⊢
    omega

theorem fault_of_applyAll (h : (d.applyAll edits).fault = none) : d.fault = none := by
  cases hfault : d.fault with
  | none => rfl
  | some fault =>
    have hsame := (stalled_applyAll hfault edits).fault_eq
    rw [h, hfault] at hsame
    cases hsame

/-- **The control flows that are open are those begun and not ended.** -/
theorem flows_applyAll (h : (d.applyAll edits).fault = none) :
    (d.applyAll edits).flows + edits.countP Edit.closesFlow
      = d.flows + edits.countP Edit.opensFlow := by
  induction edits generalizing d with
  | nil => rfl
  | cons e rest ih =>
    have hstep := flows_apply (fault_of_applyAll (d := d.apply e) h)
    have hrest := ih (d := d.apply e) h
    rw [← List.singleton_append, List.countP_append, List.countP_append]
    show ((d.apply e).applyAll rest).flows + _ = _
    omega

/-- **A fault has been left by one edit**, the first that was malformed. -/
theorem exists_first_fault (hnone : d.fault = none) (h : (d.applyAll edits).fault = some fault) :
    ∃ before e after, edits = before ++ e :: after ∧ (d.applyAll before).fault = none
      ∧ ((d.applyAll before).apply e).fault = some fault := by
  induction edits generalizing d with
  | nil => simp [applyAll, hnone] at h
  | cons e rest ih =>
    cases hstep : (d.apply e).fault with
    | some found =>
      have hsame := (stalled_applyAll hstep rest).fault_eq
      refine ⟨[], e, rest, rfl, hnone, ?_⟩
      show (d.apply e).fault = some fault
      rw [← hsame]
      exact h
    | none =>
      obtain ⟨before, e', after, rfl, hbefore, hfault⟩ := ih hstep h
      exact ⟨e :: before, e', after, rfl, hbefore, hfault⟩

theorem build_of_fault (h : d.fault = some fault) : d.build = .error (.structural fault) := by
  simp [build, h]

theorem build_error_iff (h : d.fault = none) (error : Error) :
    d.build = .error error ↔
      0 < d.flows ∧ error = .structural (.openFlows d.flows)
        ∨ d.flows = 0 ∧ d.inStatement = true ∧ error = .structural .unclosedStatement := by
  simp only [build, h]
  by_cases hflows : 0 < d.flows
  · simp only [hflows, if_true, Nat.ne_of_gt hflows, true_and, false_and, or_false,
      Except.error.injEq]
    exact eq_comm
  · have hzero : d.flows = 0 := Nat.eq_zero_of_not_pos hflows
    cases hstatement : d.inStatement with
    | true =>
      simp only [hzero, Nat.lt_irrefl, if_false, if_true, false_and, true_and, false_or,
        Except.error.injEq]
      exact eq_comm
    | false => simp [hzero]

/-- **The first fault of a block sticks.**  Whatever edits follow the one that was
    malformed, building reports its fault, and the parts and the count of statements stay as
    they are.  Without a fault building fails exactly if control flows are left open, and
    reports how many, or else if a statement is. -/
theorem first_fault_sticks {start : Draft δ} (edits : List (Edit δ))
    (hstart : start = {} ∨ ∃ c : Code δ, c.Built (fun _ => True) ∧ start = c.toDraft)
    (hblocks : ∀ e ∈ edits, ∀ c ∈ e.blocks, c.Built fun _ => True) :
    (∀ fault, (start.applyAll edits).fault = some fault →
      (∃ before e after, edits = before ++ e :: after ∧ (start.applyAll before).fault = none
        ∧ ((start.applyAll before).apply e).fault = some fault
        ∧ e.Breaks (start.applyAll before) fault)
      ∧ ∀ more, (start.applyAll (edits ++ more)).build = .error (.structural fault)
        ∧ (start.applyAll (edits ++ more)).parts = (start.applyAll edits).parts
        ∧ (start.applyAll (edits ++ more)).statements = (start.applyAll edits).statements)
    ∧ ((start.applyAll edits).fault = none → ∀ error,
      (start.applyAll edits).build = .error error ↔
        (∃ n, 0 < n ∧ edits.countP Edit.opensFlow = edits.countP Edit.closesFlow + n
          ∧ error = .structural (.openFlows n))
        ∨ edits.countP Edit.opensFlow = edits.countP Edit.closesFlow
          ∧ Part.track false (Part.flatAll (start.applyAll edits).parts) = some true
          ∧ error = .structural .unclosedStatement) := by
  obtain ⟨hreached, hnone, hflat⟩ : Draft.Reached (fun _ => True) start ∧ start.fault = none
      ∧ start.flows = 0 := by
    rcases hstart with rfl | ⟨c, hc, rfl⟩
    · exact ⟨.empty, rfl, rfl⟩
    · exact ⟨.reopened hc, rfl, rfl⟩
  refine ⟨fun fault hfault => ⟨?_, fun more => ?_⟩, fun hclean error => ?_⟩
  · obtain ⟨before, e, after, hedits, hbefore, hfirst⟩ := exists_first_fault hnone hfault
    exact ⟨before, e, after, hedits, hbefore, hfirst, breaks_of_apply hbefore hfirst⟩
  · rw [applyAll_append]
    have hstalled := stalled_applyAll hfault more
    refine ⟨build_of_fault (hstalled.fault_eq.trans hfault), ?_⟩
    obtain ⟨flows, hsame⟩ := hstalled
    rw [hsame]
    exact ⟨rfl, rfl⟩
  · have hsound : (start.applyAll edits).Sound False :=
      (hreached.applyAll fun e he => ⟨trivial, hblocks e he⟩).sound (by simp)
    have hcount := flows_applyAll hclean
    rw [hflat, Nat.zero_add] at hcount
    rw [build_error_iff hclean, hsound.statement, Option.some.injEq]
    constructor
    · rintro (⟨hopen, rfl⟩ | ⟨hclosed, hstatement, rfl⟩)
      · exact .inl ⟨_, hopen, by omega, rfl⟩
      · exact .inr ⟨by omega, hstatement, rfl⟩
    · rintro (⟨n, hopen, hn, rfl⟩ | ⟨hclosed, hstatement, rfl⟩)
      · have hflows : (start.applyAll edits).flows = n := by omega
        exact .inl ⟨by omega, by rw [hflows]⟩
      · exact .inr ⟨by omega, hstatement, rfl⟩

/-- A loop that is closed twice, and edits behind it. -/
def closedTwice : List (Edit Empty) :=
  [.beginFlow "while (true)" [], .addStatement "Tick()" [], .endFlow, .endFlow]

/-- Two control flows, one of which is closed. -/
def leftOpen : List (Edit Empty) :=
  [.beginFlow "if (x)" [], .beginFlow "if (y)" [], .endFlow]

theorem first_fault_sticks_loop :
    (∃ before e after, closedTwice = before ++ e :: after
      ∧ e.Breaks (({} : Draft Empty).applyAll before) .closesNoFlow)
    ∧ (({} : Draft Empty).applyAll
        (closedTwice ++ [.add "$Q" [], .beginFlow "do" [], .addStatement "Late()" []])).build
      = .error (.structural .closesNoFlow)
    ∧ (({} : Draft Empty).applyAll leftOpen).build = .error (.structural (.openFlows 1)) := by
  have hfault : (({} : Draft Empty).applyAll closedTwice).fault = some .closesNoFlow := by
    decide +kernel
  have hclean : (({} : Draft Empty).applyAll leftOpen).fault = none := by decide +kernel
  obtain ⟨hsticks, -⟩ := first_fault_sticks closedTwice (.inl rfl)
    (by simp [closedTwice, Edit.blocks])
  obtain ⟨-, hends⟩ := first_fault_sticks leftOpen (.inl rfl)
    (by simp [leftOpen, Edit.blocks])
  obtain ⟨⟨before, e, after, hsplit, -, -, hbreaks⟩, hmore⟩ := hsticks _ hfault
  exact ⟨⟨before, e, after, hsplit, hbreaks⟩, (hmore _).1,
    (hends hclean _).mpr (.inl ⟨1, by decide, by decide, rfl⟩)⟩

end Draft

end Code

end CSharpGen
