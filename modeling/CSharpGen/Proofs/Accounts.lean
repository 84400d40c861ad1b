/-
  CSharpGen/Proofs/Accounts.lean
  ==============================
  **Finding parts and counting them.**  Reading a format does two things at once.
  Each directive finds a part, for which a placeholder needs an argument
  (`Code.Cursor.select`), and the draft counts what the part does to the
  statements and to the indentation (`Code.Draft.account`).  Neither looks at
  the other: a run over segments finds all its parts, and then counts them
  (`Code.Draft.walk_eq_some_iff`).

  The counters accept some parts exactly when the parts fit (`Part.Fit`): no
  stretch from the beginning undoes more indentation than it opens, statements
  begin and end in turn, and no block with a statement of its own stands inside
  a statement.  So a draft that builds is known by its parts
  (`Code.Draft.build_enterAll_iff`).
-/
import CSharpGen.Proofs.Blocks
import CSharpGen.Proofs.Formats

namespace CSharpGen

variable {δ : Type}

/-! ### Parts that fit -/

/-- Statements begin and end in turn, and none is left open. -/
def Part.Paired (ps : List (Part δ)) : Prop :=
  ∃ n, ps.filter isStatementMark = (List.replicate n [.openStatement, .closeStatement]).flatten

/-- The statements that end in a part. -/
def Part.ended : Part δ → Nat
  | .closeStatement => 1
  | .block c => c.statements
  | _ => 0

/-- The statements that end in some parts. -/
def Part.endedAll (ps : List (Part δ)) : Nat := ps.foldr (fun p count => p.ended + count) 0

namespace Part

theorem track_filter (inside : Bool) (ps : List (Part δ)) :
    track inside (ps.filter isStatementMark) = track inside ps := by
  induction ps generalizing inside with
  | nil => rfl
  | cons p ps ih =>
    by_cases hmark : p.isStatementMark = true
    · rw [List.filter_cons_of_pos hmark]
      cases p with
      | openStatement | closeStatement => simp only [track, ih]
      | _ => cases hmark
    · rw [List.filter_cons_of_neg hmark, ih, track_cons_of_not_mark (by simpa using hmark)]

theorem paired_iff_track {ps : List (Part δ)} : Paired ps ↔ track false ps = some false := by
  constructor
  · rintro ⟨n, hn⟩
    rw [← track_filter, hn]
    clear hn
    induction n with
    | zero => rfl
    | succ n ih => simpa [List.replicate_succ, track] using ih
  · intro h
    simpa [Paired] using filter_of_track h

/-- The parts can follow at a level of indentation, inside a statement or not, up to the end
    of a block. -/
structure Fit (level : Int) (inside : Bool) (ps : List (Part δ)) : Prop where
  levels : ∀ before, before <+: ps → 0 ≤ level + (profileAll before).net
  closed : track inside ps = some false
  apart : ∀ before c after, ps = before ++ .block c :: after → c.opensStatement = true →
    track inside before = some false

theorem net_nil : (profileAll ([] : List (Part δ))).net = 0 := rfl

theorem net_cons (p : Part δ) (ps : List (Part δ)) :
    (profileAll (p :: ps)).net = p.profile.net + (profileAll ps).net := by
  rw [profileAll, IndentProfile.andThen]

theorem fit_nil {level : Int} {inside : Bool} :
    Fit level inside ([] : List (Part δ)) ↔ 0 ≤ level ∧ inside = false := by
  constructor
  · intro h
    have hlevel : 0 ≤ level + 0 := h.levels [] (List.prefix_refl [])
    exact ⟨by omega, by simpa [track] using h.closed⟩
  · rintro ⟨hlevel, rfl⟩
    refine ⟨?_, rfl, by simp⟩
    intro before hbefore
    obtain rfl := List.prefix_nil.mp hbefore
    rw [net_nil]
    omega

theorem track_cons (inside : Bool) (p : Part δ) (ps : List (Part δ)) :
    track inside (p :: ps) = (track inside [p]).bind fun next => track next ps :=
  track_append inside [p] ps

/-- **One part more**: it is in place there, and the others are behind it. -/
theorem fit_cons {level : Int} (hlevel : 0 ≤ level) {inside : Bool} {p : Part δ}
    {ps : List (Part δ)} :
    Fit level inside (p :: ps) ↔ ∃ next, track inside [p] = some next
      ∧ (∀ c, p = .block c → c.opensStatement = true → inside = false)
      ∧ Fit (level + p.profile.net) next ps := by
  constructor
  · intro h
    have hclosed := h.closed
    rw [track_cons] at hclosed
    obtain ⟨next, hnext, hrest⟩ := Option.bind_eq_some_iff.mp hclosed
    refine ⟨next, hnext, ?_, ?_, hrest, ?_⟩
    · rintro c rfl hopens
      simpa [track] using h.apart [] c ps rfl hopens
    · intro before hbefore
      have hsum := h.levels (p :: before) (List.cons_prefix_cons.mpr ⟨rfl, hbefore⟩)
      rw [net_cons] at hsum
      omega
    · rintro before c after rfl hopens
      have htrack := h.apart (p :: before) c after rfl hopens
      rwa [track_cons, hnext] at htrack
  · rintro ⟨next, hnext, hblock, hrest⟩
    refine ⟨?_, by rw [track_cons, hnext]; exact hrest.closed, ?_⟩
    · intro before hbefore
      rcases List.prefix_cons_iff.mp hbefore with rfl | ⟨tail, rfl, htail⟩
      · rw [net_nil]
        omega
      · have hsum := hrest.levels tail htail
        rw [net_cons]
        omega
    · intro before c after heq hopens
      cases before with
      | nil =>
        obtain ⟨rfl, rfl⟩ := List.cons.inj heq
        rw [hblock c rfl hopens]
        rfl
      | cons q before =>
        obtain ⟨rfl, htail⟩ := List.cons.inj heq
        rw [track_cons, hnext]
        exact hrest.apart before c after htail hopens

end Part

/-! ### Counting parts -/

namespace Code.Draft

variable {d e : Draft δ}

/-- The counters behind one more part, none if the part is at fault there. -/
def account (d : Draft δ) : Part δ → Option (Draft δ)
  | .indent => some { d with depth := d.depth + 1 }
  | .unindent => if d.depth = 0 then none else some { d with depth := d.depth - 1 }
  | .openStatement => if d.inStatement then none else some { d with inStatement := true }
  | .closeStatement =>
    if d.inStatement then some { d.count 1 with inStatement := false } else none
  | .block c => (d.absorb c).toOption
  | _ => some d

/-- The counters behind a part that leaves a statement open or not. -/
def after (d : Draft δ) (p : Part δ) (inside : Bool) : Draft δ :=
  { d.count p.ended with
    depth := ((d.depth : Int) + p.profile.net).toNat
    inStatement := inside }

theorem absorb_of_level {c : Code δ} (hc : 0 ≤ c.profile.lowest) :
    d.absorb c = if d.inStatement && c.opensStatement then .error .nestedStatement
      else .ok (d.after (.block c) d.inStatement) := by
  have hlevel : ¬ (d.depth : Int) + c.profile.lowest < 0 := by omega
  simp only [absorb, if_neg hlevel, after, Part.ended, Part.profile, count_inStatement]

theorem after_of_not_ended {p : Part δ} (h : p.ended = 0) (inside : Bool) :
    d.after p inside = { d with
      depth := ((d.depth : Int) + p.profile.net).toNat, inStatement := inside } := by
  have hcount : d.count 0 = d := by unfold count; split <;> rfl
  rw [after, h, hcount]

/-- The part may come next, and leaves a statement open or not. -/
structure Admits (d : Draft δ) (p : Part δ) (inside : Bool) : Prop where
  level : 0 ≤ (d.depth : Int) + p.profile.net
  turn : Part.track d.inStatement [p] = some inside
  apart : ∀ c, p = .block c → c.opensStatement = true → d.inStatement = false

theorem account_iff_of_admits {p : Part δ} (inside : Bool) (h : d.Admits p inside)
    (haccount : d.account p = some (d.after p inside)) :
    d.account p = some e ↔ ∃ inside, d.Admits p inside ∧ e = d.after p inside := by
  rw [haccount]
  constructor
  · rintro ⟨⟩
    exact ⟨inside, h, rfl⟩
  · rintro ⟨other, hother, rfl⟩
    cases h.turn.symm.trans hother.turn
    rfl

/-- **What a part does to the counters.**  A block that has been made never falls below the
    level at its start, so that the lowest level it reaches need not be looked at. -/
theorem account_eq_some_iff {p : Part δ} (hp : ∀ c, p = .block c → 0 ≤ c.profile.lowest) :
    d.account p = some e ↔ ∃ inside, d.Admits p inside ∧ e = d.after p inside := by
  have hflat : 0 ≤ (d.depth : Int) + IndentProfile.flat.net := by
    have hnet : IndentProfile.flat.net = 0 := rfl
    omega
  cases p with
  | block c =>
    have hlowest := hp c rfl
    by_cases hinside : (d.inStatement && c.opensStatement) = true
    · rw [account, absorb_of_level hlowest, if_pos hinside]
      rw [Bool.and_eq_true] at hinside
      constructor
      · rintro ⟨⟩
      · rintro ⟨_, hadmits, -⟩
        rw [hadmits.apart c rfl hinside.2] at hinside
        cases hinside.1
    · refine account_iff_of_admits d.inStatement ⟨?_, rfl, ?_⟩ ?_
      · have hnet := c.follows_profile.lowest_le_net
        rw [Part.profile]
        omega
      · rintro _ ⟨⟩ hopens
        simpa [hopens] using hinside
      · rw [account, absorb_of_level hlowest, if_neg hinside]
        rfl
  | indent =>
    refine account_iff_of_admits _ ⟨by simp only [Part.profile]; omega, rfl, by simp⟩ ?_
    rw [after_of_not_ended rfl]
    rfl
  | unindent =>
    by_cases hzero : d.depth = 0
    · rw [account, if_pos hzero]
      constructor
      · rintro ⟨⟩
      · rintro ⟨_, hadmits, -⟩
        have hlevel := hadmits.level
        simp only [Part.profile] at hlevel
        omega
    · have hdepth : ((d.depth : Int) + -1).toNat = d.depth - 1 := by omega
      refine account_iff_of_admits _ ⟨by simp only [Part.profile]; omega, rfl, by simp⟩ ?_
      rw [after_of_not_ended rfl, account, if_neg hzero, Part.profile, hdepth]
  | openStatement =>
    by_cases hinside : d.inStatement = true
    · rw [account, if_pos hinside]
      constructor
      · rintro ⟨⟩
      · rintro ⟨_, hadmits, -⟩
        have hturn := hadmits.turn
        simp [Part.track, hinside] at hturn
    · refine account_iff_of_admits true ⟨hflat, by simp [Part.track, hinside], by simp⟩ ?_
      rw [after_of_not_ended rfl, account, if_neg hinside]
      rfl
  | closeStatement =>
    by_cases hinside : d.inStatement = true
    · refine account_iff_of_admits false ⟨hflat, by simp [Part.track, hinside], by simp⟩ ?_
      simp [account, hinside, after, Part.ended, Part.profile, IndentProfile.flat, count_depth]
    · rw [account, if_neg hinside]
      constructor
      · rintro ⟨⟩
      · rintro ⟨_, hadmits, -⟩
        have hturn := hadmits.turn
        simp [Part.track, hinside] at hturn
  | _ =>
    refine account_iff_of_admits _ ⟨hflat, rfl, by simp⟩ ?_
    rw [after_of_not_ended rfl]
    rfl

/-- The draft behind one more part. -/
def enter (d : Draft δ) (p : Part δ) : Option (Draft δ) := (d.account p).map (·.push [p])

/-- The draft behind some more parts. -/
def enterAll (d : Draft δ) (ps : List (Part δ)) : Option (Draft δ) := ps.foldlM enter d

theorem enterAll_cons (p : Part δ) (ps : List (Part δ)) :
    d.enterAll (p :: ps) = (d.enter p).bind fun next => next.enterAll ps := List.foldlM_cons

theorem enterAll_append (ps qs : List (Part δ)) :
    d.enterAll (ps ++ qs) = (d.enterAll ps).bind fun next => next.enterAll qs :=
  List.foldlM_append

theorem enterAll_textParts (s : String) :
    d.enterAll (textParts s) = some (d.push (textParts s)) := by
  unfold textParts
  split
  · simp [enterAll, push]
  · rfl

/-- **Which parts make a block**, and the block that they make. -/
theorem build_enterAll_iff {ps : List (Part δ)}
    (hps : ∀ c, .block c ∈ ps → 0 ≤ c.profile.lowest) (hflows : d.flows = 0)
    (hfault : d.fault = none) {c : Code δ} :
    (∃ e, d.enterAll ps = some e ∧ e.build = .ok c)
      ↔ Part.Fit d.depth d.inStatement ps
        ∧ c = ⟨d.parts ++ ps, d.statements + Part.endedAll ps⟩ := by
  induction ps generalizing d with
  | nil =>
    rw [Part.fit_nil]
    have hbuild : d.build = if d.inStatement then .error (.structural .unclosedStatement)
        else .ok ⟨d.parts, d.statements⟩ := by
      simp [build, hfault, hflows]
    cases hinside : d.inStatement with
    | true => simp [enterAll, hbuild, hinside]
    | false => simp [enterAll, hbuild, hinside, Part.endedAll, eq_comm (a := c)]
  | cons p ps ih =>
    have hp : ∀ b, p = .block b → 0 ≤ b.profile.lowest := by
      rintro b rfl
      exact hps b (by simp)
    have hrest : ∀ b, .block b ∈ ps → 0 ≤ b.profile.lowest := fun b hb =>
      hps b (List.mem_cons_of_mem _ hb)
    rw [Part.fit_cons (Int.natCast_nonneg _), enterAll_cons]
    -- Behind the part the draft is as the induction needs it.
    have hnext : ∀ inside, 0 ≤ (d.depth : Int) + p.profile.net →
        ((∃ e, ((d.after p inside).push [p]).enterAll ps = some e ∧ e.build = .ok c)
          ↔ Part.Fit (d.depth + p.profile.net) inside ps
            ∧ c = ⟨d.parts ++ p :: ps, d.statements + Part.endedAll (p :: ps)⟩) := by
      intro inside hlevel
      have hcounted := count_of_no_flow hflows p.ended
      have hdepth : ((((d.depth : Int) + p.profile.net).toNat : Nat) : Int)
          = d.depth + p.profile.net := Int.toNat_of_nonneg hlevel
      rw [ih hrest (by simp [push, after, hcounted, hflows])
        (by simp [push, after, hcounted, hfault])]
      simp [push, after, hcounted, hdepth, Part.endedAll, Nat.add_assoc]
    constructor
    · rintro ⟨e, he, hbuild⟩
      obtain ⟨moved, hmoved, hrun⟩ := Option.bind_eq_some_iff.mp he
      obtain ⟨counted, hcounted, rfl⟩ := Option.map_eq_some_iff.mp hmoved
      obtain ⟨inside, hadmits, rfl⟩ := (account_eq_some_iff hp).mp hcounted
      obtain ⟨hfit, hc⟩ := (hnext inside hadmits.level).mp ⟨e, hrun, hbuild⟩
      exact ⟨⟨inside, hadmits.turn, hadmits.apart, hfit⟩, hc⟩
    · rintro ⟨⟨inside, htrack, hblock, hfit⟩, hc⟩
      have hlevel : 0 ≤ (d.depth : Int) + p.profile.net := by
        have hstart : 0 ≤ (d.depth : Int) + p.profile.net + 0 := hfit.levels [] List.nil_prefix
        omega
      obtain ⟨e, hrun, hbuild⟩ := (hnext inside hlevel).mpr ⟨hfit, hc⟩
      have haccount := (account_eq_some_iff hp).mpr ⟨inside, ⟨hlevel, htrack, hblock⟩, rfl⟩
      exact ⟨e, by rw [enter, haccount]; exact hrun, hbuild⟩

end Code.Draft

/-! ### Finding parts -/

/-- The part that an argument becomes, if the placeholder takes it. -/
def Placeholder.fill? : Placeholder → Argument δ → Option (Part δ)
  | literal, .text s => some (.text s)
  | literal, .null => some (.text "null")
  | literal, .type t => some (.text t.text)
  | literal, .code c => some (.block c)
  | literal, .declaration d => some (.declaration d)
  | string, .text s => some (.quoted (some s))
  | string, .null => some (.quoted none)
  | type, .type t => some (.type t)
  | name, .text s => some (.name s)
  | _, _ => none

theorem Except.toOption_bind {ε α β : Type} (x : Except ε α) (f : α → Except ε β) :
    (x >>= f).toOption = x.toOption.bind fun a => (f a).toOption := by
  cases x <;> rfl

namespace Code

/-- The part that a directive stands for, and the cursor behind it; none if the directive
    finds no argument for it. -/
def Cursor.select (args : List (Argument δ)) (cursor : Cursor) :
    Directive → Option (Part δ × Cursor)
  | .indent => some (.indent, cursor)
  | .unindent => some (.unindent, cursor)
  | .openStatement => some (.openStatement, cursor)
  | .closeStatement => some (.closeStatement, cursor)
  | .wrapSpace => some (.wrapSpace, cursor)
  | .wrapPoint => some (.wrapPoint, cursor)
  | .argument p position =>
    (cursor.take "" args position).toOption.bind fun found =>
      (p.fill? found.1).map (·, found.2)

/-- The parts that the segments of a format stand for. -/
def Cursor.selectAll (args : List (Argument δ)) (cursor : Cursor) :
    List (String × Directive) → Option (List (Part δ) × Cursor)
  | [] => some ([], cursor)
  | (lead, dir) :: rest =>
    (cursor.select args dir).bind fun found =>
      (found.2.selectAll args rest).map fun others =>
        (textParts lead ++ found.1 :: others.1, others.2)

namespace Draft

variable {d e : Draft δ}

theorem take_toOption (format : String) (args : List (Argument δ)) (cursor : Cursor)
    (position : Option Nat) :
    (cursor.take format args position).toOption = (cursor.take "" args position).toOption := by
  simp only [Cursor.take]
  split
  · rfl
  · split <;> rfl

theorem argumentPart_toOption (p : Placeholder) (arg : Argument δ) :
    (d.argumentPart p arg).toOption
      = (p.fill? arg).bind fun part => (d.account part).map (part, ·) := by
  cases p <;> cases arg <;> try rfl
  next c =>
    simp only [argumentPart, Placeholder.fill?, Option.bind_some, account, bind, Except.bind]
    cases d.absorb c <;> rfl

/-- **A directive finds a part, and the part is counted.** -/
theorem directive_toOption (format : String) (args : List (Argument δ)) (cursor : Cursor)
    (dir : Directive) :
    (d.directive format args cursor dir).toOption
      = (cursor.select args dir).bind fun found =>
          (d.account found.1).map fun moved => (found.1, moved, found.2) := by
  cases dir with
  | argument p position =>
    simp only [directive, Cursor.select, Except.toOption_bind, take_toOption format,
      argumentPart_toOption, Option.bind_assoc, Option.map_eq_bind]
    rfl
  | unindent | openStatement | closeStatement =>
    simp only [directive, Cursor.select, Option.bind_some, account]
    split <;> rfl
  | _ => rfl

theorem account_push (p : Part δ) (qs : List (Part δ)) :
    (d.push qs).account p = (d.account p).map (·.push qs) := by
  cases p with
  | block c =>
    unfold account absorb push count
    dsimp only
    split
    · rfl
    · split
      · rfl
      · split <;> rfl
  | unindent | openStatement =>
    unfold account push
    dsimp only
    split <;> rfl
  | closeStatement =>
    unfold account push count
    dsimp only
    split
    · split <;> rfl
    · rfl
  | _ => rfl

theorem enterAll_lead (lead : String) (p : Part δ) (ps : List (Part δ)) :
    d.enterAll (textParts lead ++ p :: ps)
      = (d.account p).bind fun moved => (moved.push (textParts lead ++ [p])).enterAll ps := by
  rw [enterAll_append, enterAll_textParts, Option.bind_some, enterAll_cons, enter, account_push]
  cases d.account p with
  | none => rfl
  | some moved => simp [push]

/-- **A run over segments finds the parts, and then counts them.** -/
theorem walk_eq_some_iff {format : String} {args : List (Argument δ)} {cursor last : Cursor}
    {segments : List (String × Directive)} :
    d.walk format args cursor segments = some (e, last)
      ↔ ∃ ps, cursor.selectAll args segments = some (ps, last) ∧ d.enterAll ps = some e := by
  induction segments generalizing d cursor with
  | nil =>
    constructor
    · rintro ⟨⟩
      exact ⟨[], rfl, rfl⟩
    · rintro ⟨_, ⟨⟩, ⟨⟩⟩
      rfl
  | cons segment rest ih =>
    obtain ⟨lead, dir⟩ := segment
    have hwalk : d.walk format args cursor ((lead, dir) :: rest)
        = (d.directive format args cursor dir).toOption.bind fun found =>
          (found.2.1.push (textParts lead ++ [found.1])).walk format args found.2.2 rest := by
      rw [walk]
      cases d.directive format args cursor dir <;> rfl
    rw [hwalk, directive_toOption, Cursor.selectAll]
    cases cursor.select args dir with
    | none => simp
    | some found =>
      simp only [Option.bind_some, Option.bind_map, Option.bind_eq_some_iff, Function.comp, ih,
        Option.map_eq_some_iff]
      constructor
      · rintro ⟨moved, hmoved, ps, hselect, henter⟩
        refine ⟨_, ⟨(ps, last), hselect, rfl⟩, ?_⟩
        rw [enterAll_lead, hmoved]
        exact henter
      · rintro ⟨_, ⟨⟨ps, _⟩, hselect, ⟨⟩⟩, henter⟩
        rw [enterAll_lead] at henter
        obtain ⟨moved, hmoved, hrest⟩ := Option.bind_eq_some_iff.mp henter
        exact ⟨moved, hmoved, ps, hselect, hrest⟩

theorem fault_of_build {c : Code δ} (h : d.build = .ok c) : d.fault = none := by
  cases hfault : d.fault with
  | none => rfl
  | some fault => simp [build, hfault] at h

/-- **When a format makes a block**: it can be read, every placeholder finds an argument and
    no argument is left over, and the parts fit together. -/
theorem ofFormat_eq_ok_iff_selected {format : String} {args : List (Argument δ)} {c : Code δ} :
    ofFormat format args = .ok c ↔ ∃ tail ps last, (Format.parse format).ending = .ok tail
      ∧ ({} : Cursor).selectAll args (Format.parse format).segments = some (ps, last)
      ∧ last.unused? args.length = none
      ∧ ∃ e, ({} : Draft δ).enterAll (ps ++ textParts tail) = some e ∧ e.build = .ok c := by
  have hadd : ({} : Draft δ).add format args = ({} : Draft δ).interpret format args
      (Format.parse format).ending {} (Format.parse format).segments := rfl
  rw [ofFormat, hadd]
  constructor
  · intro h
    obtain ⟨moved, last, tail, hwalk, hending, hunused, heq⟩ :=
      walk_of_interpret (fault_of_build h)
    obtain ⟨ps, hselect, henter⟩ := walk_eq_some_iff.mp hwalk
    refine ⟨tail, ps, last, hending, hselect, hunused, moved.push (textParts tail), ?_, heq ▸ h⟩
    rw [enterAll_append, henter, Option.bind_some, enterAll_textParts]
  · rintro ⟨tail, ps, last, hending, hselect, hunused, e, henter, hbuild⟩
    rw [enterAll_append] at henter
    obtain ⟨moved, hmoved, htail⟩ := Option.bind_eq_some_iff.mp henter
    rw [enterAll_textParts] at htail
    cases htail
    have hwalk : ({} : Draft δ).walk format args {} (Format.parse format).segments
        = some (moved, last) := walk_eq_some_iff.mpr ⟨ps, hselect, hmoved⟩
    have hrun := interpret_of_walk hwalk (Format.parse format).ending []
    rw [List.append_nil] at hrun
    rw [hrun, hending]
    simpa only [interpret, finish, hunused] using hbuild

end Draft

end Code

end CSharpGen
