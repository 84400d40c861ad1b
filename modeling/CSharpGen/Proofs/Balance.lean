/-
  CSharpGen/Proofs/Balance.lean
  =============================
  **Balanced blocks.**  A block may hold other blocks, to any depth; what is
  written is its parts with all nested blocks in their place (`Code.flat`).  A
  block is balanced when in these parts statements open and end in turn
  (`Part.track`) and indentation is never undone before it was opened, which is
  what its profile tells (`Code.follows_profile`).

  `Code.Sound` asks this of a block together with all blocks nested in it: the
  expression of a statement is cut out of a block, so that what is nested in it
  has to stand on its own (`Code.Sound.singleExpression`).
-/
import CSharpGen.Proofs.Layers

namespace CSharpGen

variable {δ : Type}

/-! ### Parts with all nested blocks written out -/

mutual

def Part.flat : Part δ → List (Part δ)
  | .block c => Code.flat c
  | p => [p]

/-- The parts of a block, with the parts of nested blocks in their place. -/
def Code.flat : Code δ → List (Part δ)
  | ⟨parts, _⟩ => Part.flatAll parts

def Part.flatAll : List (Part δ) → List (Part δ)
  | [] => []
  | p :: ps => Part.flat p ++ Part.flatAll ps

end

theorem Part.flatAll_append (ps qs : List (Part δ)) :
    flatAll (ps ++ qs) = flatAll ps ++ flatAll qs := by
  induction ps with
  | nil => rfl
  | cons p ps ih => simp only [List.cons_append, flatAll, ih, List.append_assoc]

namespace Part

def isIndent : Part δ → Bool
  | .indent => true
  | _ => false

def isUnindent : Part δ → Bool
  | .unindent => true
  | _ => false

def isClose : Part δ → Bool
  | .closeStatement => true
  | _ => false

/-- Whether a part is one of the marks around a statement. -/
def isStatementMark : Part δ → Bool
  | .openStatement | .closeStatement => true
  | _ => false

/-! ### Statements in turn -/

/-- Whether a statement is open behind some parts, given whether one is open before
    them; none if one opens inside another or ends without being open. -/
def track (inside : Bool) : List (Part δ) → Option Bool
  | [] => some inside
  | .openStatement :: ps => if inside then none else track true ps
  | .closeStatement :: ps => if inside then track false ps else none
  | _ :: ps => track inside ps

theorem track_cons_of_not_mark {p : Part δ} (h : p.isStatementMark = false) (inside : Bool)
    (ps : List (Part δ)) : track inside (p :: ps) = track inside ps := by
  cases p with
  | openStatement | closeStatement => cases h
  | _ => rfl

theorem track_append (inside : Bool) (ps qs : List (Part δ)) :
    track inside (ps ++ qs) = (track inside ps).bind fun b => track b qs := by
  induction ps generalizing inside with
  | nil => rfl
  | cons p ps ih =>
    cases p with
    | openStatement => cases inside <;> simp [track, ih]
    | closeStatement => cases inside <;> simp [track, ih]
    | _ => simp [track, ih]

theorem track_of_no_mark {ps : List (Part δ)} (h : ∀ p ∈ ps, p.isStatementMark = false)
    (inside : Bool) : track inside ps = some inside := by
  induction ps with
  | nil => rfl
  | cons p ps ih =>
    rw [track_cons_of_not_mark (h p (by simp))]
    exact ih fun q hq => h q (List.mem_cons_of_mem _ hq)

theorem countP_isClose_of_no_mark {ps : List (Part δ)}
    (h : ∀ p ∈ ps, p.isStatementMark = false) : ps.countP isClose = 0 := by
  rw [List.countP_eq_zero]
  intro p hp
  have hmark := h p hp
  cases p with
  | closeStatement => cases hmark
  | _ => simp [isClose]

/-- Parts in which statements open and end in turn hold no marks at all, or cannot stand
    inside a statement. -/
theorem no_mark_or_of_track {ps : List (Part δ)} (h : track false ps = some false) :
    (∀ p ∈ ps, p.isStatementMark = false) ∨ track true ps = none := by
  induction ps with
  | nil => simp
  | cons p ps ih =>
    by_cases hmark : p.isStatementMark = true
    · cases p with
      | openStatement => exact Or.inr rfl
      | closeStatement => cases h
      | _ => cases hmark
    · rw [Bool.not_eq_true] at hmark
      rw [track_cons_of_not_mark hmark] at h ⊢
      rcases ih h with hnone | htrue
      · refine Or.inl ?_
        intro q hq
        rcases List.mem_cons.mp hq with rfl | hq
        · exact hmark
        · exact hnone q hq
      · exact Or.inr htrue

/-- Following the marks with a flag is the same as seeing them open and end in turn. -/
theorem filter_of_track {ps : List (Part δ)} {inside : Bool} (h : track inside ps = some false) :
    ∃ n, ps.filter isStatementMark = (if inside then [.closeStatement] else [])
      ++ (List.replicate n [.openStatement, .closeStatement]).flatten := by
  induction ps generalizing inside with
  | nil =>
    cases h
    exact ⟨0, rfl⟩
  | cons p ps ih =>
    by_cases hmark : p.isStatementMark = true
    · rw [List.filter_cons_of_pos hmark]
      cases p with
      | openStatement =>
        cases inside with
        | true => cases h
        | false =>
          have htrack : track true ps = some false := h
          obtain ⟨n, hn⟩ := ih htrack
          refine ⟨n + 1, ?_⟩
          rw [hn, List.replicate_succ]
          rfl
      | closeStatement =>
        cases inside with
        | false => cases h
        | true =>
          have htrack : track false ps = some false := h
          obtain ⟨n, hn⟩ := ih htrack
          exact ⟨n, by rw [hn]; rfl⟩
      | _ => cases hmark
    · rw [List.filter_cons_of_neg hmark]
      rw [Bool.not_eq_true] at hmark
      rw [track_cons_of_not_mark hmark] at h
      exact ih h

end Part

mutual

theorem Part.no_open_of_opensStatement : ∀ p : Part δ, p.opensStatement = false →
    Part.openStatement ∉ p.flat
  | .block c, h => by
    rw [Part.opensStatement] at h
    rw [Part.flat]
    exact Code.no_open_of_opensStatement c h
  | .openStatement, h => by simp [Part.opensStatement] at h
  | .text _, _ | .name _, _ | .quoted _, _ | .type _, _ | .declaration _, _ | .indent, _
  | .unindent, _ | .closeStatement, _ | .wrapSpace, _ | .wrapPoint, _ => by simp [Part.flat]

theorem Code.no_open_of_opensStatement : ∀ c : Code δ, c.opensStatement = false →
    Part.openStatement ∉ c.flat
  | ⟨parts, _⟩, h => by
    rw [Code.opensStatement] at h
    rw [Code.flat]
    exact Part.no_open_of_anyOpens parts h

theorem Part.no_open_of_anyOpens : ∀ ps : List (Part δ), Part.anyOpens ps = false →
    Part.openStatement ∉ Part.flatAll ps
  | [], _ => by simp [Part.flatAll]
  | p :: ps, h => by
    simp only [Part.anyOpens, Bool.or_eq_false_iff] at h
    simp only [Part.flatAll, List.mem_append, not_or]
    exact ⟨Part.no_open_of_opensStatement p h.1, Part.no_open_of_anyOpens ps h.2⟩

end

namespace Part

/-- Parts in which statements open and end in turn, and none opens, hold no marks. -/
theorem no_mark_of_no_open {ps : List (Part δ)} (h : track false ps = some false)
    (hopen : Part.openStatement ∉ ps) : ∀ p ∈ ps, p.isStatementMark = false := by
  induction ps with
  | nil => simp
  | cons p ps ih =>
    have hmark : p.isStatementMark = false := by
      cases p with
      | openStatement => simp at hopen
      | closeStatement => cases h
      | _ => rfl
    rw [track_cons_of_not_mark hmark] at h
    intro q hq
    rcases List.mem_cons.mp hq with rfl | hq
    · exact hmark
    · exact ih h (fun hmem => hopen (List.mem_cons_of_mem _ hmem)) q hq

/-! ### Levels of indentation -/

/-- Indentation opened minus indentation undone. -/
def level (ps : List (Part δ)) : Int := ps.countP isIndent - ps.countP isUnindent

theorem level_append (ps qs : List (Part δ)) : level (ps ++ qs) = level ps + level qs := by
  simp only [level, List.countP_append]
  omega

/-- Some parts change the level as the profile says, and stay above its lowest level. -/
structure Follows (profile : IndentProfile) (ps : List (Part δ)) : Prop where
  net : profile.net = level ps
  start : profile.lowest ≤ 0
  lowest : ∀ n, profile.lowest ≤ level (ps.take n)

theorem Follows.nil : Follows .flat ([] : List (Part δ)) where
  net := rfl
  start := Int.le_refl 0
  lowest := by
    intro n
    rw [List.take_nil]
    exact Int.le_refl 0

theorem Follows.append {a b : IndentProfile} {ps qs : List (Part δ)} (ha : Follows a ps)
    (hb : Follows b qs) : Follows (a.andThen b) (ps ++ qs) where
  net := by rw [level_append, ← ha.net, ← hb.net]; rfl
  start := Int.le_trans (Int.min_le_left _ _) ha.start
  lowest := by
    intro n
    rw [List.take_append, level_append]
    by_cases hn : n ≤ ps.length
    · -- The stretch ends inside the first parts.
      rw [Nat.sub_eq_zero_of_le hn, List.take_zero]
      have hlow := ha.lowest n
      have hnil : level ([] : List (Part δ)) = 0 := rfl
      simp only [IndentProfile.andThen]
      omega
    · rw [List.take_of_length_le (Nat.le_of_not_le hn), ← ha.net]
      have hlow := hb.lowest (n - ps.length)
      simp only [IndentProfile.andThen]
      omega

theorem Follows.lowest_le_net {profile : IndentProfile} {ps : List (Part δ)}
    (h : Follows profile ps) : profile.lowest ≤ profile.net := by
  have hlow := h.lowest ps.length
  rwa [List.take_length, ← h.net] at hlow

theorem Follows.single {p : Part δ} (hnet : p.profile.net = level [p])
    (hlow : p.profile.lowest ≤ 0) (hlow' : p.profile.lowest ≤ level [p]) :
    Follows p.profile [p] where
  net := hnet
  start := hlow
  lowest := by
    intro n
    cases n with
    | zero => exact hlow
    | succ n => simpa using hlow'

end Part

mutual

/-- **The profile of code is what its parts do to the indentation.** -/
theorem Part.follows_profile : ∀ p : Part δ, Part.Follows p.profile p.flat
  | .block c => by
    rw [Part.profile, Part.flat]
    exact Code.follows_profile c
  | .indent | .unindent | .text _ | .name _ | .quoted _ | .type _ | .declaration _
  | .openStatement | .closeStatement | .wrapSpace | .wrapPoint => by
    rw [Part.flat]
    · exact .single
        (by simp [Part.profile, IndentProfile.flat, Part.level, Part.isIndent, Part.isUnindent])
        (by simp [Part.profile, IndentProfile.flat])
        (by simp [Part.profile, IndentProfile.flat, Part.level, Part.isIndent, Part.isUnindent])
    · simp

theorem Code.follows_profile : ∀ c : Code δ, Part.Follows c.profile c.flat
  | ⟨parts, _⟩ => by
    rw [Code.profile, Code.flat]
    exact Part.follows_profileAll parts

theorem Part.follows_profileAll :
    ∀ ps : List (Part δ), Part.Follows (Part.profileAll ps) (Part.flatAll ps)
  | [] => Part.Follows.nil
  | p :: ps => (Part.follows_profile p).append (Part.follows_profileAll ps)

end

namespace Part

theorem profileAll_append (ps qs : List (Part δ)) :
    profileAll (ps ++ qs) = (profileAll ps).andThen (profileAll qs) := by
  induction ps with
  | nil =>
    have hstart := (follows_profileAll qs).start
    simp only [List.nil_append, profileAll, IndentProfile.andThen, IndentProfile.flat,
      Int.zero_add, Int.min_eq_right hstart]
  | cons p ps ih =>
    simp only [List.cons_append, profileAll, ih, IndentProfile.andThen, IndentProfile.mk.injEq]
    omega

theorem profileAll_singleton (p : Part δ) : profileAll [p] = p.profile := by
  have hlow := (follows_profile p).lowest_le_net
  simp only [profileAll, IndentProfile.andThen, IndentProfile.flat, Int.add_zero,
    Int.min_eq_left hlow]

theorem flatAll_singleton (p : Part δ) : flatAll [p] = p.flat := by
  rw [flatAll, flatAll, List.append_nil]

end Part

theorem Code.flat_eq (c : Code δ) : c.flat = Part.flatAll c.parts := by
  obtain ⟨parts, _⟩ := c
  rw [Code.flat]

theorem Code.profile_eq (c : Code δ) : c.profile = Part.profileAll c.parts := by
  obtain ⟨parts, _⟩ := c
  rw [Code.profile]

namespace Code

/-! ### Blocks that are balanced at every depth -/

/-- The block is balanced, its count is at most the number of statements that end in it
    (exactly that number if `tight`), and so are the blocks nested in it. -/
inductive Sound (tight : Prop) : Code δ → Prop
  | of {parts : List (Part δ)} {statements : Nat}
      (alternate : Part.track false (Part.flatAll parts) = some false)
      (level : 0 ≤ (Part.profileAll parts).lowest)
      (count : statements ≤ (Part.flatAll parts).countP Part.isClose)
      (equal : tight → statements = (Part.flatAll parts).countP Part.isClose)
      (nested : ∀ c, .block c ∈ parts → Sound tight c) : Sound tight ⟨parts, statements⟩

theorem Sound.flat {c : Code δ} {tight : Prop} (h : c.Sound tight) :
    Part.track false c.flat = some false ∧ 0 ≤ c.profile.lowest
      ∧ c.statements ≤ c.flat.countP Part.isClose
      ∧ (tight → c.statements = c.flat.countP Part.isClose) := by
  obtain ⟨alternate, level, count, equal, -⟩ := h
  rw [Code.flat, Code.profile]
  exact ⟨alternate, level, count, equal⟩

theorem Sound.nested {c d : Code δ} {tight : Prop} (h : c.Sound tight)
    (hd : .block d ∈ c.parts) : d.Sound tight := by
  obtain ⟨-, -, -, -, nested⟩ := h
  exact nested d hd

/-- Where a block may stand, it leaves the statement around it as it is. -/
theorem Sound.track_flat {c : Code δ} {tight : Prop} (h : c.Sound tight) {inside : Bool}
    (hinside : (inside && c.opensStatement) = false) :
    Part.track inside c.flat = some inside := by
  obtain ⟨halternate, -⟩ := h.flat
  cases inside with
  | false => exact halternate
  | true =>
    have hopen := Code.no_open_of_opensStatement c hinside
    exact Part.track_of_no_mark (Part.no_mark_of_no_open halternate hopen) true

theorem Sound.empty {tight : Prop} : (empty : Code δ).Sound tight :=
  .of rfl (Int.le_refl 0) (Nat.le_refl 0) (fun _ => rfl) (by simp)

theorem Sound.append {a b : Code δ} {tight : Prop} (ha : a.Sound tight) (hb : b.Sound tight) :
    (a.append b).Sound tight := by
  obtain ⟨ps, m⟩ := a
  obtain ⟨qs, n⟩ := b
  obtain ⟨halt, hlevel, hcount, hequal, hnested⟩ := ha
  obtain ⟨halt', hlevel', hcount', hequal', hnested'⟩ := hb
  refine .of ?_ ?_ ?_ ?_ ?_
  · rw [Part.flatAll_append, Part.track_append, halt]
    exact halt'
  · have hnet := (Part.follows_profileAll ps).lowest_le_net
    rw [Part.profileAll_append]
    simp only [IndentProfile.andThen]
    omega
  · rw [Part.flatAll_append, List.countP_append]
    exact Nat.add_le_add hcount hcount'
  · intro htight
    rw [Part.flatAll_append, List.countP_append, ← hequal htight, ← hequal' htight]
  · intro c hc
    rcases List.mem_append.mp hc with hc | hc
    · exact hnested c hc
    · exact hnested' c hc

theorem Sound.join {tight : Prop} (sep : String) {cs : List (Code δ)}
    (h : ∀ c ∈ cs, c.Sound tight) : (join sep cs).Sound tight := by
  have hsep : (⟨textParts sep, 0⟩ : Code δ).Sound tight := by
    unfold textParts
    split
    · exact .empty
    · exact .of rfl (Int.le_refl 0) (Nat.le_refl 0) (fun _ => rfl) (by simp)
  fun_induction Code.join sep cs with
  | case1 => exact .empty
  | case2 c => exact h c (by simp)
  | case3 c d rest ih =>
    refine (h c (by simp)).append (hsep.append (ih ?_))
    intro e he
    exact h e (List.mem_cons_of_mem _ he)

/-! ### The expression of a statement -/

theorem dropReturn_eq (ps : List (Part δ)) :
    ∃ lead lead', (∀ p ∈ lead ++ lead', ∃ s, p = Part.text s)
      ∧ ∃ rest, ps = lead ++ rest ∧ dropReturn ps = lead' ++ rest := by
  unfold dropReturn
  split
  · next s rest =>
    refine ⟨[.text s], textParts _, ?_, rest, rfl, rfl⟩
    intro p hp
    unfold textParts at hp
    split at hp
    · exact ⟨s, by simpa using hp⟩
    · rcases List.mem_append.mp hp with hp | hp
      · exact ⟨s, by simpa using hp⟩
      · exact ⟨_, by simpa using hp⟩
  · exact ⟨[], [], by simp, ps, rfl, rfl⟩

/-- Inside a statement no block can open one: parts without marks among themselves hold no
    mark of a statement at any depth. -/
theorem no_mark_of_inside {tight : Prop} {ps : List (Part δ)}
    (hmark : ∀ p ∈ ps, p.isMark = false) (hnested : ∀ c, .block c ∈ ps → c.Sound tight)
    (hinside : Part.track true (Part.flatAll ps) = some true) :
    (∀ p ∈ Part.flatAll ps, p.isStatementMark = false) ∧ 0 ≤ (Part.profileAll ps).lowest := by
  induction ps with
  | nil => exact ⟨by simp [Part.flatAll], Int.le_refl 0⟩
  | cons p ps ih =>
    have hfirst : (∀ q ∈ p.flat, q.isStatementMark = false) ∧ 0 ≤ p.profile.lowest
        ∧ 0 ≤ p.profile.net := by
      have hp := hmark p (by simp)
      cases p with
      | block c =>
        obtain ⟨halternate, hlevel, -⟩ := (hnested c (by simp)).flat
        rw [Part.flat, Part.profile]
        refine ⟨?_, hlevel, Int.le_trans hlevel c.follows_profile.lowest_le_net⟩
        rcases Part.no_mark_or_of_track halternate with hnone | htrue
        · exact hnone
        · rw [Part.flatAll, Part.flat, Part.track_append, htrue] at hinside
          cases hinside
      | openStatement | closeStatement | indent | unindent => cases hp
      | _ => simp [Part.flat, Part.profile, IndentProfile.flat, Part.isStatementMark]
    have hrest : Part.track true (Part.flatAll ps) = some true := by
      rw [Part.flatAll, Part.track_append, Part.track_of_no_mark hfirst.1] at hinside
      exact hinside
    obtain ⟨hmarks, hlow⟩ := ih (fun q hq => hmark q (List.mem_cons_of_mem _ hq))
      (fun c hc => hnested c (List.mem_cons_of_mem _ hc)) hrest
    constructor
    · intro q hq
      rcases List.mem_append.mp hq with hq | hq
      · exact hfirst.1 q hq
      · exact hmarks q hq
    · simp only [Part.profileAll, IndentProfile.andThen]
      omega

/-- Parts of a statement, without marks among themselves. -/
theorem sound_of_no_mark {tight : Prop} {ps : List (Part δ)}
    (hmark : ∀ p ∈ ps, p.isMark = false) (hnested : ∀ c, .block c ∈ ps → c.Sound tight)
    (hinside : Part.track true (Part.flatAll ps) = some true) :
    (⟨ps, 0⟩ : Code δ).Sound tight := by
  obtain ⟨hmarks, hlow⟩ := no_mark_of_inside hmark hnested hinside
  have hcount := Part.countP_isClose_of_no_mark hmarks
  exact .of (Part.track_of_no_mark hmarks false) hlow (Nat.zero_le _) (fun _ => hcount.symm)
    hnested

theorem Sound.statementExpression {parts : List (Part δ)} {e : Code δ} {tight : Prop}
    (halternate : Part.track true (Part.flatAll parts) = some false)
    (hnested : ∀ c, .block c ∈ parts → c.Sound tight)
    (he : statementExpression? parts = some e) : e.Sound tight := by
  unfold statementExpression? at he
  split at he
  · next hlast =>
    split at he
    · cases he
    · next hmark =>
      cases he
      obtain ⟨body, rfl⟩ := List.getLast?_eq_some_iff.mp hlast
      rw [List.dropLast_concat] at hmark ⊢
      have hinside : Part.track true (Part.flatAll body) = some true := by
        rw [Part.flatAll_append, Part.track_append] at halternate
        cases htrack : Part.track true (Part.flatAll body) with
        | none => rw [htrack] at halternate; cases halternate
        | some b =>
          cases b with
          | true => rfl
          | false => rw [htrack] at halternate; cases halternate
      obtain ⟨lead, lead', htexts, rest, rfl, hdrop⟩ := dropReturn_eq body
      have hflat : ∀ texts : List (Part δ), (∀ p ∈ texts, ∃ s, p = Part.text s) →
          ∀ p ∈ Part.flatAll texts, p.isStatementMark = false := by
        intro texts
        induction texts with
        | nil => simp [Part.flatAll]
        | cons p texts ih =>
          intro h q hq
          obtain ⟨s, rfl⟩ := h p (by simp)
          rcases List.mem_append.mp hq with hq | hq
          · cases List.mem_singleton.mp hq
            rfl
          · exact ih (fun r hr => h r (List.mem_cons_of_mem _ hr)) q hq
      have hlead := hflat lead fun p hp => htexts p (List.mem_append_left _ hp)
      have hlead' := hflat lead' fun p hp => htexts p (List.mem_append_right _ hp)
      rw [hdrop]
      rw [Part.flatAll_append, Part.track_append, Part.track_of_no_mark hlead] at hinside
      refine sound_of_no_mark ?_ ?_ ?_
      · intro p hp
        rcases List.mem_append.mp hp with hp | hp
        · obtain ⟨s, rfl⟩ := htexts p (List.mem_append_right _ hp)
          rfl
        · simp only [List.any_append, Bool.or_eq_true, not_or, List.any_eq_true, not_exists,
            not_and] at hmark
          simpa using hmark.2 p hp
      · intro c hc
        rcases List.mem_append.mp hc with hc | hc
        · obtain ⟨s, hs⟩ := htexts _ (List.mem_append_right _ hc)
          cases hs
        · exact hnested c (by simp [hc])
      · rw [Part.flatAll_append, Part.track_append, Part.track_of_no_mark hlead']
        exact hinside
  · cases he

/-- **The expression of a statement is balanced.** -/
theorem Sound.singleExpression {c e : Code δ} {tight : Prop} (h : c.Sound tight)
    (he : c.singleExpression? = some e) : e.Sound tight := by
  fun_induction Code.singleExpression? c with
  | case1 inner ih => exact ih (h.nested (by simp)) he
  | case3 rest =>
    obtain ⟨halternate, -, -, -, hnested⟩ := h
    refine Sound.statementExpression halternate ?_ he
    intro d hd
    exact hnested d (List.mem_cons_of_mem _ hd)
  | case2 | case4 | case5 => cases he

end Code

end CSharpGen
