/-
  CSharpGen/Proofs/Tables.lean
  ============================
  **What the tables hold after a run.**  Near types (those of the current or the
  global namespace) take their simple names, far ones claim theirs for import.

  The taken names depend on the order of references only while they are
  collected: a global type may lose its name to a type of the namespace, and
  after that nothing changes it.  `Names.Settled` is what remains true of every
  near type that has been written once, and `Names.Claimed` of every far one
  outside comments; both survive whatever is written later (`Names.Grows`).  The
  fold lemma `Names.foldl_visit_spec` gives them for all sites of a run.

  A second run that starts from settled names changes none of them
  (`Names.taken_visit_of_settled`), and with more imports at hand fewer names
  are free (`Site.rule_near_of_imports`, `Site.rule_far_of_imports`).
-/
import CSharpGen.Proofs.Lookups

namespace CSharpGen

/-! ### Filtering a table by its keys -/

theorem Table.get?_filter {α : Type} (keep : String → Bool) (key : String) (t : Table α) :
    Table.get? key (t.filter fun e => keep e.1) = if keep key then t.get? key else none := by
  induction t with
  | nil => simp [Table.get?]
  | cons e rest ih =>
    by_cases hk : e.1 = key
    · by_cases hkeep : keep key = true
      · simp [Table.get?, hk, hkeep]
      · simp [hk, hkeep, ih]
    · by_cases hkeep : keep e.1 = true
      · simp [Table.get?, hk, hkeep, ih]
      · simp [Table.get?, hk, hkeep, ih]

theorem Table.mem_of_get? {α : Type} {key : String} {value : α} {t : Table α}
    (h : t.get? key = some value) : (key, value) ∈ t := by
  induction t with
  | nil => cases h
  | cons e rest ih =>
    by_cases hk : e.1 = key
    · simp only [Table.get?, hk, if_true, Option.some.injEq] at h
      rw [← hk, ← h]
      exact List.mem_cons_self
    · simp only [Table.get?, hk, if_false] at h
      exact List.mem_cons_of_mem _ (ih h)

theorem Table.mem_put {α : Type} {key : String} {value : α} {e : String × α} {t : Table α}
    (h : e ∈ t.put key value) : e = (key, value) ∨ e ∈ t := by
  induction t with
  | nil => exact Or.inl (List.mem_singleton.mp h)
  | cons first rest ih =>
    by_cases hk : first.1 = key
    · simp only [Table.put, hk, if_true, List.mem_cons] at h
      rcases h with h | h
      · exact Or.inl h
      · exact Or.inr (List.mem_cons_of_mem _ h)
    · simp only [Table.put, hk, if_false, List.mem_cons] at h
      rcases h with rfl | h
      · exact Or.inr List.mem_cons_self
      · rcases ih h with h | h
        · exact Or.inl h
        · exact Or.inr (List.mem_cons_of_mem _ h)

namespace Names

/-- A type is imported exactly when it claimed its simple name first, no other type
    claimed it, and no near type took it. -/
theorem imports_get?_eq_some_iff (names : Names) (simple : String) (k : ClassName) :
    names.imports.get? simple = some k ↔
      names.claims.get? simple = some k ∧ simple ∉ names.ambiguous
        ∧ names.taken.get? simple = none := by
  have hfilter := Table.get?_filter
    (fun s => !names.ambiguous.contains s && !names.taken.has s) simple names.claims
  unfold imports
  rw [hfilter]
  cases htaken : names.taken.get? simple with
  | some e => simp [Table.has, htaken]
  | none =>
    by_cases ha : simple ∈ names.ambiguous
    · simp [ha]
    · simp [Table.has, htaken, ha]

/-! ### Facts that stay true -/

/-- A near type has its simple name, or a type of the namespace keeps a global type
    from it. -/
def Settled (taken : Table ClassName) (top : ClassName) : Prop :=
  ∃ space, taken.get? top.top = some (.topLevel space top.top)
    ∧ (space = top.space ∨ space ≠ "" ∧ top.space = "")

/-- A far type has claimed its simple name, or the name is ambiguous. -/
def Claimed (names : Names) (top : ClassName) : Prop :=
  ∃ first, names.claims.get? top.top = some first
    ∧ (first.same top = true ∨ top.top ∈ names.ambiguous)

/-- The entries of the tables are top-level types under their simple names, of the
    namespaces that the tables are for. -/
structure Sound (space : String) (names : Names) : Prop where
  taken : ∀ simple e, names.taken.get? simple = some e →
    e = .topLevel e.space simple ∧ (e.space = space ∨ e.space = "")
  claims : ∀ simple e, names.claims.get? simple = some e →
    e = .topLevel e.space simple ∧ e.space ≠ space ∧ e.space ≠ ""
  /-- No entry is behind another one of the same key. -/
  keyed : ∀ e ∈ names.claims, names.claims.get? e.1 = some e.2

/-- What a run keeps of earlier facts. -/
structure Grows (before after : Names) : Prop where
  settled : ∀ top, Settled before.taken top → Settled after.taken top
  claimed : ∀ top, Claimed before top → Claimed after top

theorem Sound.empty (space : String) : Sound space {} where
  taken := by intro simple e h; simp [Table.get?] at h
  claims := by intro simple e h; simp [Table.get?] at h
  keyed := by intro e h; cases h

theorem Grows.refl (names : Names) : Grows names names := ⟨fun _ h => h, fun _ h => h⟩

theorem Grows.trans {a b c : Names} (hab : Grows a b) (hbc : Grows b c) : Grows a c :=
  ⟨fun top h => hbc.settled top (hab.settled top h),
    fun top h => hbc.claimed top (hab.claimed top h)⟩

theorem Sound.mem_imports_iff {space : String} {names : Names} (h : names.Sound space)
    (k : ClassName) :
    k ∈ names.imports.map Prod.snd ↔ names.imports.get? k.top = some k := by
  constructor
  · intro hk
    obtain ⟨⟨simple, other⟩, hmem, rfl⟩ := List.mem_map.mp hk
    obtain ⟨hclaimed, hfree⟩ := List.mem_filter.mp hmem
    have hget := h.keyed _ hclaimed
    have hfree : simple ∉ names.ambiguous ∧ names.taken.get? simple = none := by
      simpa [Table.has] using hfree
    obtain ⟨htop, -⟩ := h.claims simple other hget
    have hsimple : other.top = simple := by
      rw [htop]
      rfl
    rw [hsimple]
    exact (imports_get?_eq_some_iff names simple other).mpr ⟨hget, hfree⟩
  · intro hk
    exact List.mem_map.mpr ⟨(k.top, k), Table.mem_of_get? hk, rfl⟩

/-! ### Taking a name -/

theorem reserve?_cases {names next : Names} {top : ClassName}
    (h : names.reserve? top = some next) :
    (next = names ∧ ∃ e, names.taken.get? top.top = some e ∧ e.same top = true)
      ∨ (next = { names with taken := names.taken.put top.top top }
        ∧ ∀ e, names.taken.get? top.top = some e → e.space = "" ∧ top.space ≠ "") := by
  unfold reserve? at h
  cases hget : names.taken.get? top.top with
  | none =>
    rw [hget] at h
    cases h
    exact Or.inr ⟨rfl, by simp⟩
  | some e =>
    rw [hget] at h
    simp only at h
    split at h
    · next hsame =>
      cases h
      exact Or.inl ⟨rfl, e, rfl, hsame⟩
    · split at h
      · next hspaces =>
        cases h
        refine Or.inr ⟨rfl, ?_⟩
        intro e' he'
        cases he'
        simpa [String.isEmpty_iff] using hspaces
      · cases h

/-- A name that cannot be taken belongs to another type, which does not give way. -/
theorem reserve?_eq_none {names : Names} {top : ClassName} (h : names.reserve? top = none) :
    ∃ e, names.taken.get? top.top = some e ∧ e.same top = false
      ∧ (e.space = "" → top.space = "") := by
  unfold reserve? at h
  cases hget : names.taken.get? top.top with
  | none => rw [hget] at h; cases h
  | some e =>
    rw [hget] at h
    simp only at h
    split at h
    · cases h
    · next hsame =>
      split at h
      · cases h
      · next hspaces =>
        refine ⟨e, rfl, by simpa using hsame, ?_⟩
        intro hspace
        simpa [String.isEmpty_iff, hspace] using hspaces

section Reserve

variable {space : String} {names : Names} (top : ClassName)

/-- Putting a near type under its name keeps what is settled: it displaces only a
    global type of the same name. -/
theorem settled_put {top other : ClassName}
    (hold : ∀ e, names.taken.get? top.top = some e → e.space = "" ∧ top.space ≠ "")
    (htop : top = .topLevel top.space top.top)
    (h : Settled names.taken other) : Settled (names.taken.put top.top top) other := by
  obtain ⟨s, hget, hs⟩ := h
  by_cases hkey : top.top = other.top
  · rw [← hkey] at hget
    obtain ⟨hs0, htop0⟩ := hold _ hget
    refine ⟨top.space, ?_, ?_⟩
    · rw [← hkey, Table.get?_put_self]
      exact congrArg some htop
    · have hs0 : s = "" := hs0
      rcases hs with rfl | ⟨hne, -⟩
      · exact Or.inr ⟨htop0, hs0⟩
      · exact absurd hs0 hne
  · refine ⟨s, ?_, hs⟩
    rw [Table.get?_put_of_ne hkey]
    exact hget

/-- **Writing a near type settles its name** and keeps everything else that is known. -/
theorem reserve?_spec (hsound : names.Sound space) (htop : top = .topLevel top.space top.top)
    (hnear : top.space = space ∨ top.space = "") :
    Sound space ((names.reserve? top).getD names)
      ∧ Grows names ((names.reserve? top).getD names)
      ∧ Settled ((names.reserve? top).getD names).taken top := by
  cases hres : names.reserve? top with
  | none =>
    obtain ⟨e, hget, hsame, hspace⟩ := reserve?_eq_none hres
    obtain ⟨he, hespace⟩ := hsound.taken _ _ hget
    refine ⟨hsound, Grows.refl names, e.space, by rw [← he]; exact hget, ?_⟩
    have hne : e.space ≠ top.space := by
      intro heq
      have := (ClassName.same_topLevel_iff e.space top.space top.top).mpr heq
      rw [← he, ← htop, hsame] at this
      cases this
    -- Of the two namespaces a near type can have, the other one is meant.
    have hempty : e.space ≠ "" := fun h0 => hne (h0.trans (hspace h0).symm)
    rcases hnear with hnear | hnear
    · rcases hespace with hespace | hespace
      · exact absurd (hespace.trans hnear.symm) hne
      · exact absurd hespace hempty
    · exact Or.inr ⟨hempty, hnear⟩
  | some next =>
    rcases reserve?_cases hres with ⟨rfl, e, hget, hsame⟩ | ⟨rfl, hold⟩
    · obtain ⟨he, -⟩ := hsound.taken _ _ hget
      refine ⟨hsound, Grows.refl _, e.space, by rw [← he]; exact hget, Or.inl ?_⟩
      rw [he, htop] at hsame
      exact (ClassName.same_topLevel_iff e.space top.space top.top).mp hsame
    · refine ⟨⟨?_, hsound.claims, hsound.keyed⟩, ⟨fun other h => settled_put hold htop h, ?_⟩, ?_⟩
      · intro simple e hget
        simp only [Option.getD_some] at hget
        by_cases hkey : top.top = simple
        · subst hkey
          rw [Table.get?_put_self] at hget
          cases hget
          exact ⟨htop, hnear⟩
        · rw [Table.get?_put_of_ne hkey] at hget
          exact hsound.taken simple e hget
      · intro other h
        exact h
      · refine ⟨top.space, ?_, Or.inl rfl⟩
        simp only [Option.getD_some]
        rw [Table.get?_put_self]
        exact congrArg some htop

/-- **A settled name changes no more.** -/
theorem reserve?_of_settled (htop : top = .topLevel top.space top.top)
    (h : Settled names.taken top) :
    (names.reserve? top).getD names = names
      ∧ ((names.reserve? top).isSome = true ↔ names.taken.get? top.top = some top) := by
  obtain ⟨s, hget, hs⟩ := h
  have hsame : (ClassName.topLevel s top.top).same top = true ↔ s = top.space := by
    rw [htop]
    exact ClassName.same_topLevel_iff s top.space top.top
  have heq : some (ClassName.topLevel s top.top) = some top ↔ s = top.space := by
    constructor
    · intro h
      have h := Option.some.inj h
      rw [← h]
      rfl
    · intro h
      rw [h, ← htop]
  unfold reserve?
  rw [hget]
  simp only
  by_cases hss : s = top.space
  · rw [if_pos (hsame.mpr hss)]
    exact ⟨rfl, by simp [heq.mpr hss]⟩
  · rw [if_neg (mt hsame.mp hss)]
    have hspace :
        ¬ ((ClassName.topLevel s top.top).space.isEmpty && !top.space.isEmpty) = true := by
      rcases hs with hs | ⟨-, hs⟩
      · exact absurd hs hss
      · simp [hs]
    rw [if_neg hspace]
    refine ⟨rfl, ?_⟩
    simp [heq, hss]

end Reserve

/-! ### Claiming a name -/

/-- **Claiming records the type or marks the name ambiguous**, and keeps everything else
    that is known. -/
theorem claim_spec {space : String} {names : Names} (top : ClassName)
    (hsound : names.Sound space) (htop : top = .topLevel top.space top.top)
    (hfar : top.space ≠ space ∧ top.space ≠ "") :
    Sound space (names.claim top) ∧ Grows names (names.claim top)
      ∧ Claimed (names.claim top) top := by
  unfold claim
  cases hget : names.claims.get? top.top with
  | none =>
    refine ⟨⟨hsound.taken, ?_, ?_⟩, ⟨fun _ h => h, ?_⟩, top, Table.get?_put_self _ _ _, ?_⟩
    · intro simple e he
      by_cases hkey : top.top = simple
      · subst hkey
        simp only [Table.get?_put_self, Option.some.injEq] at he
        subst he
        exact ⟨htop, hfar⟩
      · simp only [Table.get?_put_of_ne hkey] at he
        exact hsound.claims simple e he
    · intro e he
      rcases Table.mem_put he with rfl | he
      · exact Table.get?_put_self _ _ _
      · have hold := hsound.keyed e he
        have hkey : top.top ≠ e.1 := by
          intro hkey
          rw [← hkey, hget] at hold
          cases hold
        simpa only [Table.get?_put_of_ne hkey] using hold
    · rintro other ⟨first, hfirst, hor⟩
      have hkey : top.top ≠ other.top := by
        intro hkey
        rw [← hkey, hget] at hfirst
        cases hfirst
      exact ⟨first, by simpa only [Table.get?_put_of_ne hkey] using hfirst, hor⟩
    · exact Or.inl (by simp [ClassName.same])
  | some first =>
    simp only
    split
    · next hor =>
      refine ⟨hsound, Grows.refl names, first, hget, ?_⟩
      rcases Bool.or_eq_true_iff.mp hor with hsame | hmem
      · exact Or.inl hsame
      · exact Or.inr (by simpa using hmem)
    · refine ⟨⟨hsound.taken, hsound.claims, hsound.keyed⟩, ⟨fun _ h => h, ?_⟩, first, hget,
        Or.inr (by simp)⟩
      rintro other ⟨e, he, hor⟩
      refine ⟨e, he, ?_⟩
      rcases hor with hsame | hmem
      · exact Or.inl hsame
      · exact Or.inr (List.mem_append_left _ hmem)

end Names

/-! ### The rule at a site -/

namespace Site

/-- The case that the reference falls into.  It does not depend on the tables. -/
def rule (setting : Setting) (r : Site) : Rule :=
  (({} : Names).moveTo r.scopes r.typeVars).rule setting r.type

section Imports

variable {space : String} {imports : Table ClassName} {r : Site}

theorem resolve_of_imports (imports : Table ClassName) {names : Names} {simple : String}
    {d : ClassName} (h : names.resolve ⟨space, []⟩ simple = some d) :
    names.resolve ⟨space, imports⟩ simple = some d := by
  rw [Names.resolve_eq_some_iff] at h ⊢
  cases h with
  | nested inside scope around hscopes hinside hscope =>
    exact .nested inside scope around hscopes hinside hscope
  | outermost hscopes houter => exact .outermost hscopes houter
  | imported type _ _ htype => cases htype

theorem rule_free_of_imports
    (h : r.rule ⟨space, imports⟩ = .near ∨ r.rule ⟨space, imports⟩ = .far) :
    r.rule ⟨space, []⟩ = .near ∨ r.rule ⟨space, []⟩ = .far := by
  obtain ⟨hfree, hunbound, hnone⟩ := Names.rule_free_iff.mp h
  refine Names.rule_free_iff.mpr ⟨hfree, ?_, ?_⟩
  · intro depth hdepth
    rw [← Bool.not_eq_true]
    intro hbinds
    obtain ⟨d, hd, hcanonical⟩ := (Names.binds_iff _ _ _).mp hbinds
    have hd' := (Names.resolve_eq_some_iff _ _ _ _).mp
      (resolve_of_imports imports ((Names.resolve_eq_some_iff _ _ _ _).mpr hd))
    have := (Names.binds_iff _ _ _).mpr ⟨d, hd', hcanonical⟩
    rw [hunbound depth hdepth] at this
    cases this
  · rw [← Option.not_isSome_iff_eq_none]
    intro hsome
    obtain ⟨d, hd⟩ := Option.isSome_iff_exists.mp hsome
    rw [resolve_of_imports imports hd] at hnone
    cases hnone

theorem rule_near_of_imports (h : r.rule ⟨space, imports⟩ = .near) :
    r.rule ⟨space, []⟩ = .near := by
  rcases rule_free_of_imports (Or.inl h) with hnear | hfar
  · exact hnear
  · obtain ⟨hspace, hempty⟩ := Names.space_of_rule_far hfar
    rcases Names.space_of_rule_near h with hs | hs
    · exact absurd hs hspace
    · exact absurd hs hempty

theorem rule_far_of_imports (h : r.rule ⟨space, imports⟩ = .far) :
    r.rule ⟨space, []⟩ = .far := by
  rcases rule_free_of_imports (Or.inr h) with hnear | hfar
  · obtain ⟨hspace, hempty⟩ := Names.space_of_rule_far h
    rcases Names.space_of_rule_near hnear with hs | hs
    · exact absurd hs hspace
    · exact absurd hs hempty
  · exact hfar

end Imports

end Site

/-! ### The tables after a run -/

namespace Names

theorem visit_eq_rule (setting : Setting) (names : Names) (r : Site) :
    names.visit setting r =
      match r.rule setting with
      | .near =>
        ((names.moveTo r.scopes r.typeVars).reserve? r.type.outermost).getD
          (names.moveTo r.scopes r.typeVars)
      | .far =>
        if r.quiet then names.moveTo r.scopes r.typeVars
        else (names.moveTo r.scopes r.typeVars).claim r.type.outermost
      | .shadowed | .known _ | .hidden => names.moveTo r.scopes r.typeVars :=
  spell_snd setting r.quiet (names.moveTo r.scopes r.typeVars) r.type

/-- **What one reference does to the tables.** -/
theorem visit_spec (setting : Setting) {names : Names} (hsound : names.Sound setting.space)
    (r : Site) :
    Sound setting.space (names.visit setting r) ∧ Grows names (names.visit setting r)
      ∧ (r.rule setting = .near → Settled (names.visit setting r).taken r.type.outermost)
      ∧ (r.rule setting = .far → r.quiet = false →
        Claimed (names.visit setting r) r.type.outermost) := by
  have hmoved : (names.moveTo r.scopes r.typeVars).Sound setting.space :=
    ⟨hsound.taken, hsound.claims, hsound.keyed⟩
  have hstay : Grows names (names.moveTo r.scopes r.typeVars) := ⟨fun _ h => h, fun _ h => h⟩
  rw [visit_eq_rule]
  cases hrule : r.rule setting with
  | shadowed | known depth | hidden => exact ⟨hmoved, hstay, by simp, by simp⟩
  | near =>
    have hspace : r.type.space = setting.space ∨ r.type.space = "" :=
      space_of_rule_near hrule
    obtain ⟨hs, hg, hset⟩ := reserve?_spec r.type.outermost hmoved rfl hspace
    exact ⟨hs, hstay.trans hg, fun _ => hset, by simp⟩
  | far =>
    cases hquiet : r.quiet with
    | true => exact ⟨hmoved, hstay, by simp, by simp⟩
    | false =>
      have hspace : r.type.space ≠ setting.space ∧ r.type.space ≠ "" :=
        space_of_rule_far hrule
      obtain ⟨hs, hg, hclaimed⟩ := claim_spec r.type.outermost hmoved rfl hspace
      exact ⟨hs, hstay.trans hg, by simp, fun _ _ => hclaimed⟩

/-- **What a run does to the tables**: every near type it writes is settled at its
    end, and every far one outside comments is claimed. -/
theorem foldl_visit_spec (setting : Setting) {names : Names}
    (hsound : names.Sound setting.space) (rs : List Site) :
    Sound setting.space (rs.foldl (visit setting) names)
      ∧ Grows names (rs.foldl (visit setting) names)
      ∧ ∀ r ∈ rs,
        (r.rule setting = .near →
          Settled (rs.foldl (visit setting) names).taken r.type.outermost)
        ∧ (r.rule setting = .far → r.quiet = false →
          Claimed (rs.foldl (visit setting) names) r.type.outermost) := by
  induction rs generalizing names with
  | nil => exact ⟨hsound, Grows.refl names, by simp⟩
  | cons r rest ih =>
    obtain ⟨hs, hg, hnear, hfar⟩ := visit_spec setting hsound r
    obtain ⟨hs', hg', hrest⟩ := ih hs
    refine ⟨hs', hg.trans hg', ?_⟩
    intro q hq
    rcases List.mem_cons.mp hq with rfl | hq
    · exact ⟨fun h => hg'.settled _ (hnear h), fun h hquiet => hg'.claimed _ (hfar h hquiet)⟩
    · exact hrest q hq

/-! ### A second run -/

theorem taken_visit_of_settled {setting : Setting} {names : Names} {r : Site}
    (h : r.rule setting = .near → Settled names.taken r.type.outermost) :
    (names.visit setting r).taken = names.taken := by
  rw [visit_eq_rule]
  cases hrule : r.rule setting with
  | shadowed | known depth | hidden => rfl
  | near =>
    have hset : Settled (names.moveTo r.scopes r.typeVars).taken r.type.outermost := h hrule
    rw [(reserve?_of_settled r.type.outermost rfl hset).1]
    rfl
  | far =>
    cases r.quiet with
    | true => rfl
    | false =>
      simp only [Bool.false_eq_true, if_false]
      unfold claim
      split
      · rfl
      · split <;> rfl

theorem taken_foldl_of_settled {setting : Setting} {names : Names} {rs : List Site}
    (h : ∀ r ∈ rs, r.rule setting = .near → Settled names.taken r.type.outermost) :
    (rs.foldl (visit setting) names).taken = names.taken := by
  induction rs generalizing names with
  | nil => rfl
  | cons r rest ih =>
    have hfirst : (names.visit setting r).taken = names.taken :=
      taken_visit_of_settled (h r (by simp))
    have hrest : ∀ q ∈ rest, q.rule setting = .near →
        Settled (names.visit setting r).taken q.type.outermost := by
      intro q hq hrule
      rw [hfirst]
      exact h q (List.mem_cons_of_mem _ hq) hrule
    rw [List.foldl_cons, ih hrest, hfirst]

end Names

end CSharpGen
