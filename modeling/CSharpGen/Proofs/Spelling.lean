/-
  CSharpGen/Proofs/Spelling.lean
  ==============================
  **What a simple name denotes, and which form a type is written in.**

  `Denotes` says what a simple name means at a place in the words of the
  language: a nested type of the innermost declaration that lists it, else the
  outermost declaration, else the imported type.  `Names.resolve` computes it
  (`Names.resolve_eq_some_iff`).

  `Names.rule` sorts the cases of `Names.spell`: it depends on the declarations
  and type variables around the place and on the imports, but not on the tables
  that change while a file is written.  Its cases exclude one another, so the
  rule is known as soon as one case holds (`Names.rule_eq_iff`).  Two facts are
  used by everything that follows: the text of a type is its simple names from
  some depth of its nesting chain on, or its qualified name (`Names.spell_fst`),
  and the tables change only for types written without any declaration or import
  at hand (`Names.spell_snd`).
-/
import CSharpGen.Emit.Names
import CSharpGen.Proofs.Paths

namespace CSharpGen

/-! ### What a simple name denotes -/

/-- What a simple name denotes inside declarations (innermost first) of a file.
    `outer` is the name of the outermost declaration, if there is one. -/
inductive Denotes (setting : Setting) (outer : Option String) (scopes : List Scope)
    (simple : String) : ClassName → Prop
  /-- A nested type of the innermost declaration that lists the name. -/
  | nested (inside : List Scope) (scope : Scope) (around : List Scope)
      (hscopes : scopes = inside ++ scope :: around)
      (hinside : ∀ s ∈ inside, simple ∉ s.nested) (hscope : simple ∈ scope.nested) :
      Denotes setting outer scopes simple (Names.declaredIn setting.space (scope :: around) simple)
  /-- The outermost declaration itself. -/
  | outermost (hscopes : ∀ s ∈ scopes, simple ∉ s.nested) (houter : outer = some simple) :
      Denotes setting outer scopes simple (.topLevel setting.space simple)
  /-- An imported type. -/
  | imported (type : ClassName) (hscopes : ∀ s ∈ scopes, simple ∉ s.nested)
      (houter : outer ≠ some simple) (htype : setting.imports.get? simple = some type) :
      Denotes setting outer scopes simple type

namespace Names

/-- The name of the outermost declaration around the current place. -/
def outer? (names : Names) : Option String := names.scopes.getLast?.bind Scope.name

theorem resolveNested_eq_none_iff (space simple : String) (scopes : List Scope) :
    resolveNested space simple scopes = none ↔ ∀ s ∈ scopes, simple ∉ s.nested := by
  induction scopes with
  | nil => simp [resolveNested]
  | cons scope outer ih =>
    by_cases h : simple ∈ scope.nested
    · simp [resolveNested, h]
    · simp [resolveNested, h, ih]

theorem resolveNested_eq_some_iff (space simple : String) (scopes : List Scope) (d : ClassName) :
    resolveNested space simple scopes = some d ↔
      ∃ inside scope around, scopes = inside ++ scope :: around
        ∧ (∀ s ∈ inside, simple ∉ s.nested) ∧ simple ∈ scope.nested
        ∧ d = declaredIn space (scope :: around) simple := by
  induction scopes with
  | nil => simp [resolveNested]
  | cons scope outer ih =>
    by_cases h : simple ∈ scope.nested
    · simp only [resolveNested, List.contains_eq_mem, h, decide_true, if_true, Option.some.injEq]
      constructor
      · rintro rfl
        exact ⟨[], scope, outer, rfl, by simp, h, rfl⟩
      · rintro ⟨inside, other, around, heq, hinside, -, rfl⟩
        cases inside with
        | nil =>
          obtain ⟨rfl, rfl⟩ := List.cons.inj heq
          rfl
        | cons first inside =>
          obtain ⟨rfl, -⟩ := List.cons.inj heq
          exact absurd h (hinside scope (by simp))
    · simp only [resolveNested, List.contains_eq_mem, h, decide_false, Bool.false_eq_true,
        if_false]
      rw [ih]
      constructor
      · rintro ⟨inside, other, around, rfl, hinside, hother, rfl⟩
        refine ⟨scope :: inside, other, around, rfl, ?_, hother, rfl⟩
        intro s hs
        rcases List.mem_cons.mp hs with rfl | hs
        · exact h
        · exact hinside s hs
      · rintro ⟨inside, other, around, heq, hinside, hother, rfl⟩
        cases inside with
        | nil =>
          obtain ⟨rfl, -⟩ := List.cons.inj heq
          exact absurd hother h
        | cons first inside =>
          obtain ⟨-, rfl⟩ := List.cons.inj heq
          exact ⟨inside, other, around, rfl,
            fun s hs => hinside s (List.mem_cons_of_mem _ hs), hother, rfl⟩

theorem resolve_of_not_nested (setting : Setting) (names : Names) (simple : String)
    (h : ∀ s ∈ names.scopes, simple ∉ s.nested) :
    names.resolve setting simple =
      if names.outer? = some simple then some (.topLevel setting.space simple)
      else setting.imports.get? simple := by
  unfold resolve outer?
  rw [(resolveNested_eq_none_iff setting.space simple names.scopes).mpr h]
  rcases names.scopes.getLast? with _ | ⟨_ | top, nested⟩
  · simp
  · simp
  · simp

/-- **The look-up of a simple name finds what it denotes.** -/
theorem resolve_eq_some_iff (setting : Setting) (names : Names) (simple : String)
    (d : ClassName) :
    names.resolve setting simple = some d ↔
      Denotes setting names.outer? names.scopes simple d := by
  by_cases hnone : ∀ s ∈ names.scopes, simple ∉ s.nested
  · rw [resolve_of_not_nested setting names simple hnone]
    constructor
    · intro h
      split at h
      · next houter =>
        cases h
        exact .outermost hnone houter
      · next houter => exact .imported d hnone houter h
    · intro h
      cases h with
      | nested inside scope around hscopes hinside hscope =>
        exact absurd hscope (hnone scope (by simp [hscopes]))
      | outermost _ houter => rw [if_pos houter]
      | imported _ _ houter htype => rw [if_neg houter, htype]
  · have hsome : ∃ found, resolveNested setting.space simple names.scopes = some found :=
      Option.ne_none_iff_exists'.mp
        (mt (resolveNested_eq_none_iff setting.space simple names.scopes).mp hnone)
    obtain ⟨found, hfound⟩ := hsome
    have hresolve : names.resolve setting simple = some found := by simp [resolve, hfound]
    obtain ⟨inside, scope, around, hscopes, hinside, hscope, rfl⟩ :=
      (resolveNested_eq_some_iff setting.space simple names.scopes found).mp hfound
    rw [hresolve]
    constructor
    · intro h
      cases h
      exact .nested inside scope around hscopes hinside hscope
    · intro h
      cases h with
      | nested inside' scope' around' hscopes' hinside' hscope' =>
        rw [← hresolve, resolve, (resolveNested_eq_some_iff _ _ _ _).mpr
          ⟨inside', scope', around', hscopes', hinside', hscope', rfl⟩]
      | outermost h _ => exact absurd h hnone
      | imported _ h _ _ => exact absurd h hnone

/-- A type binds itself when its simple name denotes a type of its canonical name. -/
theorem binds_iff (setting : Setting) (names : Names) (c : ClassName) :
    names.binds setting c = true ↔
      ∃ d, Denotes setting names.outer? names.scopes c.simple d ∧ d.canonical = c.canonical := by
  unfold binds
  cases h : names.resolve setting c.simple with
  | none =>
    simp only [Bool.false_eq_true, false_iff]
    rintro ⟨d, hd, -⟩
    rw [← resolve_eq_some_iff, h] at hd
    cases hd
  | some found =>
    have hfound := (resolve_eq_some_iff setting names c.simple found).mp h
    constructor
    · intro hsame
      exact ⟨found, hfound, by simpa [ClassName.same] using hsame⟩
    · rintro ⟨d, hd, hcanonical⟩
      rw [← resolve_eq_some_iff, h] at hd
      cases hd
      simpa [ClassName.same] using hcanonical

end Names

/-! ### The nesting chain of a type -/

namespace ClassName

theorem mem_chain_iff (c d : ClassName) :
    d ∈ c.chain ↔ ∃ depth ≤ c.inner.length, d = c.upTo depth := by
  simp only [chain, List.mem_map, List.mem_reverse, List.mem_range, Nat.lt_succ_iff]
  constructor
  · rintro ⟨depth, hdepth, rfl⟩
    exact ⟨depth, hdepth, rfl⟩
  · rintro ⟨depth, hdepth, rfl⟩
    exact ⟨depth, hdepth, rfl⟩

theorem find?_chain_eq_none_iff (c : ClassName) (p : ClassName → Bool) :
    c.chain.find? p = none ↔ ∀ depth ≤ c.inner.length, p (c.upTo depth) = false := by
  rw [List.find?_eq_none]
  constructor
  · intro h depth hdepth
    simpa using h _ ((c.mem_chain_iff _).mpr ⟨depth, hdepth, rfl⟩)
  · intro h d hd
    obtain ⟨depth, hdepth, rfl⟩ := (c.mem_chain_iff d).mp hd
    simp [h depth hdepth]

theorem find?_chain_eq_some {c d : ClassName} {p : ClassName → Bool}
    (h : c.chain.find? p = some d) :
    ∃ depth ≤ c.inner.length, d = c.upTo depth ∧ p (c.upTo depth) = true
      ∧ ∀ deeper, depth < deeper → deeper ≤ c.inner.length → p (c.upTo deeper) = false := by
  -- Generalise over how much of the chain is searched: the prefix of length `n`.
  have key : ∀ n, ((List.range n).reverse.map c.upTo).find? p = some d →
      ∃ depth < n, d = c.upTo depth ∧ p (c.upTo depth) = true
        ∧ ∀ deeper, depth < deeper → deeper < n → p (c.upTo deeper) = false := by
    intro n
    induction n with
    | zero => intro hn; simp at hn
    | succ n ih =>
      intro hn
      simp only [List.range_succ, List.reverse_append, List.reverse_singleton,
        List.singleton_append, List.map_cons, List.find?_cons] at hn
      cases hp : p (c.upTo n) with
      | true =>
        rw [hp] at hn
        cases hn
        exact ⟨n, Nat.lt_succ_self n, rfl, hp, fun deeper hlt hle => by omega⟩
      | false =>
        rw [hp] at hn
        obtain ⟨depth, hdepth, hd, hpd, hinner⟩ := ih hn
        refine ⟨depth, by omega, hd, hpd, ?_⟩
        intro deeper hlt hle
        rcases Nat.lt_succ_iff_lt_or_eq.mp hle with hle | rfl
        · exact hinner deeper hlt hle
        · exact hp
  obtain ⟨depth, hdepth, hd, hp, hinner⟩ := key _ h
  exact ⟨depth, by omega, hd, hp, fun deeper hlt hle => hinner deeper hlt (by omega)⟩

theorem find?_chain_of_innermost {c : ClassName} {p : ClassName → Bool} {depth : Nat}
    (hdepth : depth ≤ c.inner.length) (hp : p (c.upTo depth) = true)
    (hdeeper : ∀ deeper, depth < deeper → deeper ≤ c.inner.length → p (c.upTo deeper) = false) :
    c.chain.find? p = some (c.upTo depth) := by
  cases hfind : c.chain.find? p with
  | none =>
    rw [(c.find?_chain_eq_none_iff p).mp hfind depth hdepth] at hp
    cases hp
  | some d =>
    obtain ⟨k, hk, rfl, hpk, hinner⟩ := find?_chain_eq_some hfind
    rcases Nat.lt_trichotomy k depth with hlt | rfl | hlt
    · rw [hinner depth hlt hdepth] at hp
      cases hp
    · rfl
    · rw [hdeeper k hlt hk] at hpk
      cases hpk

theorem length_inner_upTo {c : ClassName} {depth : Nat} (h : depth ≤ c.inner.length) :
    (c.upTo depth).inner.length = depth := by
  simp [upTo, h]

end ClassName

/-! ### The forms of a name -/

/-- The case of `Names.spell` that a type falls into. -/
inductive Rule where
  /-- A type variable has the simple name of the top-level type. -/
  | shadowed
  /-- The type of the chain at `depth` is what its simple name denotes. -/
  | known (depth : Nat)
  /-- The simple name of the top-level type denotes another type. -/
  | hidden
  /-- The name is free, and the type is of the current or the global namespace. -/
  | near
  /-- The name is free, and the type is of another namespace. -/
  | far
  deriving DecidableEq, Repr

namespace Names

/-- The case that a type falls into at the current place. -/
def rule (setting : Setting) (names : Names) (c : ClassName) : Rule :=
  if names.typeVariables.any fun vs => vs.contains c.top then .shadowed
  else
    match c.chain.find? (names.binds setting) with
    | some known => .known known.inner.length
    | none =>
      if (names.resolve setting c.top).isSome then .hidden
      else if c.space == setting.space || c.space.isEmpty then .near
      else .far

/-- When each case applies. -/
inductive Applies (setting : Setting) (names : Names) (c : ClassName) : Rule → Prop
  | shadowed (hvar : ∃ vs ∈ names.typeVariables, c.top ∈ vs) : Applies setting names c .shadowed
  | known (depth : Nat) (hfree : ∀ vs ∈ names.typeVariables, c.top ∉ vs)
      (hdepth : depth ≤ c.inner.length) (hbinds : names.binds setting (c.upTo depth) = true)
      (hdeeper : ∀ deeper, depth < deeper → deeper ≤ c.inner.length →
        names.binds setting (c.upTo deeper) = false) : Applies setting names c (.known depth)
  | hidden (hfree : ∀ vs ∈ names.typeVariables, c.top ∉ vs)
      (hunbound : ∀ depth ≤ c.inner.length, names.binds setting (c.upTo depth) = false)
      (hnamed : names.resolve setting c.top ≠ none) : Applies setting names c .hidden
  | near (hfree : ∀ vs ∈ names.typeVariables, c.top ∉ vs)
      (hunbound : ∀ depth ≤ c.inner.length, names.binds setting (c.upTo depth) = false)
      (hnone : names.resolve setting c.top = none)
      (hspace : c.space = setting.space ∨ c.space = "") : Applies setting names c .near
  | far (hfree : ∀ vs ∈ names.typeVariables, c.top ∉ vs)
      (hunbound : ∀ depth ≤ c.inner.length, names.binds setting (c.upTo depth) = false)
      (hnone : names.resolve setting c.top = none)
      (hspace : c.space ≠ setting.space ∧ c.space ≠ "") : Applies setting names c .far

section Applies

variable {setting : Setting} {names : Names} {c : ClassName}

theorem rule_applies (setting : Setting) (names : Names) (c : ClassName) :
    Applies setting names c (names.rule setting c) := by
  unfold rule
  split
  · next hvar => exact .shadowed (by simpa using hvar)
  · next hvar =>
    have hfree : ∀ vs ∈ names.typeVariables, c.top ∉ vs := by simpa using hvar
    cases hfind : c.chain.find? (names.binds setting) with
    | some known =>
      obtain ⟨depth, hdepth, rfl, hbinds, hdeeper⟩ := ClassName.find?_chain_eq_some hfind
      simp only [ClassName.length_inner_upTo hdepth]
      exact .known depth hfree hdepth hbinds hdeeper
    | none =>
      have hunbound := (c.find?_chain_eq_none_iff _).mp hfind
      simp only
      split
      · next hsome =>
        refine .hidden hfree hunbound ?_
        intro hnone
        rw [hnone] at hsome
        cases hsome
      · next hsome =>
        have hnone : names.resolve setting c.top = none := by simpa using hsome
        split
        · next hspace =>
          exact .near hfree hunbound hnone (by simpa [String.isEmpty_iff] using hspace)
        · next hspace =>
          exact .far hfree hunbound hnone (by simpa [String.isEmpty_iff, not_or] using hspace)

theorem rule_of_free (hfree : ∀ vs ∈ names.typeVariables, c.top ∉ vs) :
    names.rule setting c =
      match c.chain.find? (names.binds setting) with
      | some known => .known known.inner.length
      | none =>
        if (names.resolve setting c.top).isSome then .hidden
        else if c.space == setting.space || c.space.isEmpty then .near else .far :=
  if_neg (by simpa using hfree)

theorem Applies.rule_eq {r : Rule} (h : Applies setting names c r) : names.rule setting c = r := by
  cases h with
  | shadowed hvar => exact if_pos (by simpa using hvar)
  | known depth hfree hdepth hbinds hdeeper =>
    rw [rule_of_free hfree, ClassName.find?_chain_of_innermost hdepth hbinds hdeeper]
    simp only [ClassName.length_inner_upTo hdepth]
  | hidden hfree hunbound hnamed =>
    rw [rule_of_free hfree, (c.find?_chain_eq_none_iff _).mpr hunbound]
    exact if_pos (Option.isSome_iff_ne_none.mpr hnamed)
  | near hfree hunbound hnone hspace =>
    have hnear : (c.space == setting.space || c.space.isEmpty) = true := by
      simpa [String.isEmpty_iff] using hspace
    rw [rule_of_free hfree, (c.find?_chain_eq_none_iff _).mpr hunbound, hnone, hnear]
    rfl
  | far hfree hunbound hnone hspace =>
    have hfar : (c.space == setting.space || c.space.isEmpty) = false := by
      simpa [String.isEmpty_iff, not_or] using hspace
    rw [rule_of_free hfree, (c.find?_chain_eq_none_iff _).mpr hunbound, hnone, hfar]
    rfl

/-- **The rule is the case that applies.** -/
theorem rule_eq_iff {r : Rule} : names.rule setting c = r ↔ Applies setting names c r := by
  constructor
  · rintro rfl
    exact rule_applies setting names c
  · exact Applies.rule_eq

theorem rule_free_iff :
    (names.rule setting c = .near ∨ names.rule setting c = .far) ↔
      (∀ vs ∈ names.typeVariables, c.top ∉ vs)
        ∧ (∀ depth ≤ c.inner.length, names.binds setting (c.upTo depth) = false)
        ∧ names.resolve setting c.top = none := by
  constructor
  · rintro (h | h)
    · cases rule_eq_iff.mp h with
      | near hfree hunbound hnone => exact ⟨hfree, hunbound, hnone⟩
    · cases rule_eq_iff.mp h with
      | far hfree hunbound hnone => exact ⟨hfree, hunbound, hnone⟩
  · rintro ⟨hfree, hunbound, hnone⟩
    rw [rule_of_free hfree, (c.find?_chain_eq_none_iff _).mpr hunbound, hnone]
    simp only [Option.isSome_none, Bool.false_eq_true, if_false]
    split
    · exact Or.inl rfl
    · exact Or.inr rfl

theorem binds_of_known {depth : Nat} (h : names.rule setting c = .known depth) :
    depth ≤ c.inner.length ∧ names.binds setting (c.upTo depth) = true := by
  cases rule_eq_iff.mp h with
  | known _ _ hdepth hbinds => exact ⟨hdepth, hbinds⟩

theorem space_of_rule_near (h : names.rule setting c = .near) :
    c.space = setting.space ∨ c.space = "" := by
  cases rule_eq_iff.mp h with
  | near _ _ _ hspace => exact hspace

theorem space_of_rule_far (h : names.rule setting c = .far) :
    c.space ≠ setting.space ∧ c.space ≠ "" := by
  cases rule_eq_iff.mp h with
  | far _ _ _ hspace => exact hspace

end Applies

/-- The depth of the chain from which the simple names of a type are written; none
    when the name is qualified. -/
def depth? (setting : Setting) (names : Names) (c : ClassName) : Option Nat :=
  match names.rule setting c with
  | .known depth => some depth
  | .near => if (names.reserve? c.outermost).isSome then some 0 else none
  | .shadowed | .hidden | .far => none

section Spell

variable (setting : Setting) (quiet : Bool) (names : Names) (c : ClassName)

theorem spell_eq_rule :
    names.spell setting quiet c =
      match names.rule setting c with
      | .shadowed | .hidden => (c.qualified, names)
      | .known depth => (dotted c depth, names)
      | .near =>
        match names.reserve? c.outermost with
        | some names => (dotted c 0, names)
        | none => (c.qualified, names)
      | .far => (c.canonical, if quiet then names else names.claim c.outermost) := by
  unfold spell rule
  split
  · rfl
  · cases c.chain.find? (names.binds setting) with
    | some known => rfl
    | none =>
      simp only
      split
      · rfl
      · split <;> rfl

/-- **The text of a type**: its simple names from some depth on, or its qualified
    name. -/
theorem spell_fst :
    (names.spell setting quiet c).1 =
      match names.depth? setting c with
      | some depth => dotted c depth
      | none => c.qualified := by
  rw [spell_eq_rule, depth?]
  cases h : names.rule setting c with
  | shadowed => rfl
  | hidden => rfl
  | known depth => rfl
  | near => cases names.reserve? c.outermost <;> rfl
  | far =>
    have hspace := (space_of_rule_far h).2
    simp [ClassName.qualified, String.isEmpty_iff, hspace]

/-- **The tables after writing a type**: a near type may take its simple name, a
    far one asks to be imported. -/
theorem spell_snd :
    (names.spell setting quiet c).2 =
      match names.rule setting c with
      | .near => (names.reserve? c.outermost).getD names
      | .far => if quiet then names else names.claim c.outermost
      | .shadowed | .known _ | .hidden => names := by
  rw [spell_eq_rule]
  cases names.rule setting c with
  | shadowed => rfl
  | hidden => rfl
  | known depth => rfl
  | near => cases names.reserve? c.outermost <;> rfl
  | far => rfl

end Spell

/-! ### Writing a type does not move the place -/

theorem claim_position (names : Names) (top : ClassName) :
    (names.claim top).scopes = names.scopes
      ∧ (names.claim top).typeVariables = names.typeVariables := by
  unfold claim
  split
  · exact ⟨rfl, rfl⟩
  · split <;> exact ⟨rfl, rfl⟩

theorem reserve?_position {names next : Names} {top : ClassName}
    (h : names.reserve? top = some next) :
    next.scopes = names.scopes ∧ next.typeVariables = names.typeVariables := by
  unfold reserve? at h
  split at h
  · cases h
    exact ⟨rfl, rfl⟩
  · split at h
    · cases h
      exact ⟨rfl, rfl⟩
    · split at h
      · cases h
        exact ⟨rfl, rfl⟩
      · cases h

theorem spell_position (setting : Setting) (quiet : Bool) (names : Names) (c : ClassName) :
    (names.spell setting quiet c).2.scopes = names.scopes
      ∧ (names.spell setting quiet c).2.typeVariables = names.typeVariables := by
  rw [spell_snd]
  cases names.rule setting c with
  | shadowed | known depth | hidden => exact ⟨rfl, rfl⟩
  | near =>
    cases h : names.reserve? c.outermost with
    | none => exact ⟨rfl, rfl⟩
    | some next => exact reserve?_position h
  | far =>
    cases quiet with
    | true => exact ⟨rfl, rfl⟩
    | false => exact claim_position names c.outermost

/-! ### Writing by simple names -/

section Depth

variable {setting : Setting} {names : Names} {c : ClassName} {depth : Nat}

theorem depth?_eq_some_iff :
    names.depth? setting c = some depth ↔ names.rule setting c = .known depth
      ∨ names.rule setting c = .near ∧ (names.reserve? c.outermost).isSome = true ∧ depth = 0 := by
  unfold depth?
  cases hrule : names.rule setting c with
  | known k => simp
  | near =>
    cases names.reserve? c.outermost with
    | none => simp
    | some next => simp [eq_comm]
  | shadowed | hidden | far => simp

theorem depth_le_of_depth? (h : names.depth? setting c = some depth) :
    depth ≤ c.inner.length := by
  rcases depth?_eq_some_iff.mp h with hrule | ⟨-, -, rfl⟩
  · exact (binds_of_known hrule).1
  · exact Nat.zero_le _

end Depth

end Names

end CSharpGen
