/-
  CSharpGen/Proofs/Collisions.lean
  ================================
  **When two types get one name.**  At one place of a file, a type is written by
  its simple names from some depth on, by its canonical name, or by its
  canonical name behind `global::`.

    * Two short names that are equal begin with the same simple name, which
      denotes one type only (`Names.resolve`), or is taken by one type only; so
      they belong to the same type (`SourceFile.canonical_eq_of_short`).
    * Two long names that are equal belong to the same type, because the alias
      cannot begin a dotted name (`ClassName.qualified_injective`).
    * A short name is never a name with the alias, but it can be a canonical
      one: `System.Console` is a class of a namespace, or a class nested in a
      nested class `System` (`SourceFile.nested_class_collides`).

  The last case is the only one (`SourceFile.text_eq_iff_collides`).
-/
import CSharpGen.Proofs.ShortNames

namespace CSharpGen

/-! ### Names from some depth on -/

namespace ClassName

theorem canonical_upTo (c : ClassName) (depth : Nat) :
    c.canonical = (c.inner.drop depth).foldl (fun name step => name ++ "." ++ step)
      (c.upTo depth).canonical := by
  have htop : (c.upTo depth).qualifiedTop = c.qualifiedTop := rfl
  have hinner : (c.upTo depth).inner = c.inner.take depth := rfl
  rw [canonical, canonical, htop, hinner, ← List.foldl_append, List.take_append_drop]

theorem simpleNames_drop {c : ClassName} {depth : Nat} (h : depth ≤ c.inner.length) :
    c.simpleNames.drop depth = (c.upTo depth).simple :: c.inner.drop depth := by
  cases depth with
  | zero => simp [simpleNames, upTo, simple]
  | succ k =>
    have hk : k < c.inner.length := h
    have hsimple : (c.upTo (k + 1)).simple = c.inner[k] := by
      have hinner : (c.upTo (k + 1)).inner = c.inner.take k ++ [c.inner[k]] :=
        List.take_succ_eq_append_getElem hk
      rw [simple, hinner, List.getLastD_concat]
    rw [hsimple, simpleNames, List.drop_succ_cons, List.drop_eq_getElem_cons hk]

/-- **Equal long names belong to one type.** -/
theorem qualified_injective {a b : ClassName} (ha : a.Valid) (hb : b.Valid)
    (h : a.qualified = b.qualified) : a.canonical = b.canonical := by
  unfold qualified at h
  split at h
  · split at h
    · exact String.append_right_inj _ |>.mp h
    · rw [b.canonical_eq_join] at h
      exact absurd h (global_ne_join _ hb.isValid_of_mem_path)
  · split at h
    · rw [a.canonical_eq_join] at h
      exact absurd h.symm (global_ne_join _ ha.isValid_of_mem_path)
    · exact h

end ClassName

namespace Names

theorem dotted_injective {a b : ClassName} (ha : a.Valid) (hb : b.Valid) {j k : Nat}
    (hj : j ≤ a.inner.length) (hk : k ≤ b.inner.length) (h : dotted a j = dotted b k) :
    a.simpleNames.drop j = b.simpleNames.drop k :=
  Identifier.join_injective (ClassName.drop_simpleNames_ne_nil hj)
    (ClassName.drop_simpleNames_ne_nil hk) (ha.isValid_of_mem_drop j) (hb.isValid_of_mem_drop k) h

end Names

/-! ### Pairs of names at one place -/

namespace Lookup

/-- Both references stand inside the same declarations and type variables. -/
def SamePlace (l m : Lookup) : Prop :=
  l.names.scopes = m.names.scopes ∧ l.names.typeVariables = m.names.typeVariables

/-- The first type is written by simple names that spell the namespace and the simple
    names of the second, which is written by its canonical name. -/
def Collides (setting : Setting) (l m : Lookup) : Prop :=
  ∃ depth, l.names.depth? setting l.type = some depth ∧ m.names.depth? setting m.type = none
    ∧ m.type.space ≠ "" ∧ m.type.path = l.type.simpleNames.drop depth

variable {setting : Setting} {l m : Lookup}

theorem SamePlace.resolve_eq (h : l.SamePlace m) (simple : String) :
    l.names.resolve setting simple = m.names.resolve setting simple := by
  unfold Names.resolve
  rw [h.1]

theorem text_of_depth {depth : Nat} (h : l.names.depth? setting l.type = some depth) :
    l.text setting = Names.dotted l.type depth := by
  rw [text, Names.spell_fst, h]

theorem text_of_no_depth (h : l.names.depth? setting l.type = none) :
    l.text setting = l.type.qualified := by
  rw [text, Names.spell_fst, h]

theorem short_eq_long_iff (hl : l.type.Valid) (hm : m.type.Valid) {depth : Nat}
    (hdepth : l.names.depth? setting l.type = some depth)
    (hnone : m.names.depth? setting m.type = none) :
    l.text setting = m.text setting ↔ l.Collides setting m := by
  have hle := Names.depth_le_of_depth? hdepth
  have hparts := hl.isValid_of_mem_drop depth
  rw [text_of_depth hdepth, text_of_no_depth hnone]
  constructor
  · intro h
    have hspace : m.type.space ≠ "" := by
      intro hempty
      rw [ClassName.qualified, hempty] at h
      exact ClassName.global_ne_join _ hparts h.symm
    refine ⟨depth, hdepth, hnone, hspace, ?_⟩
    rw [ClassName.qualified, if_neg (by simpa [String.isEmpty_iff] using hspace),
      ClassName.canonical_eq_join] at h
    exact (Identifier.join_injective (ClassName.drop_simpleNames_ne_nil hle) m.type.path_ne_nil
      hparts hm.isValid_of_mem_path h).symm
  · rintro ⟨other, hother, -, hspace, hpath⟩
    cases hdepth.symm.trans hother
    rw [ClassName.qualified, if_neg (by simpa [String.isEmpty_iff] using hspace),
      ClassName.canonical_eq_join, hpath, Names.dotted]

/-- Types of one place that are known by the same simple name, and have the same names
    below it, are the same. -/
theorem canonical_eq_of_known (hplace : l.SamePlace m) {j k : Nat}
    (hl : l.names.rule setting l.type = .known j) (hm : m.names.rule setting m.type = .known k)
    (hnames : l.type.simpleNames.drop j = m.type.simpleNames.drop k) :
    l.type.canonical = m.type.canonical := by
  obtain ⟨hj, hlbinds⟩ := Names.binds_of_known hl
  obtain ⟨hk, hmbinds⟩ := Names.binds_of_known hm
  rw [ClassName.simpleNames_drop hj, ClassName.simpleNames_drop hk] at hnames
  obtain ⟨hsimple, hinner⟩ := List.cons.inj hnames
  -- Both chains pass through what the common simple name denotes.
  obtain ⟨d, hd, hlcanonical⟩ := (Names.binds_iff _ _ _).mp hlbinds
  obtain ⟨e, he, hmcanonical⟩ := (Names.binds_iff _ _ _).mp hmbinds
  rw [← Names.resolve_eq_some_iff] at hd he
  rw [hplace.resolve_eq, hsimple, he] at hd
  cases hd
  rw [l.type.canonical_upTo j, m.type.canonical_upTo k, hinner, ← hlcanonical, ← hmcanonical]

theorem not_near_of_known (hplace : l.SamePlace m) {j : Nat}
    (hl : l.names.rule setting l.type = .known j) (hm : m.names.rule setting m.type = .near) :
    l.type.simpleNames.drop j ≠ m.type.simpleNames := by
  intro hnames
  obtain ⟨hj, hlbinds⟩ := Names.binds_of_known hl
  obtain ⟨-, -, hnone⟩ := Names.rule_free_iff.mp (Or.inl hm)
  rw [ClassName.simpleNames_drop hj] at hnames
  obtain ⟨hsimple, -⟩ := List.cons.inj hnames
  obtain ⟨d, hd, -⟩ := (Names.binds_iff _ _ _).mp hlbinds
  rw [← Names.resolve_eq_some_iff, hplace.resolve_eq, hsimple, hnone] at hd
  cases hd

end Lookup

namespace SourceFile

/-- **Equal short names of one place belong to one type.** -/
theorem canonical_eq_of_short {f : SourceFile} {found : Names} (hcollect : f.collect = .ok found)
    {l m : Lookup} (hl : l ∈ f.emitted) (hm : m ∈ f.emitted) (hplace : l.SamePlace m) {j k : Nat}
    (hj : l.names.depth? f.setting l.type = some j) (hk : m.names.depth? f.setting m.type = some k)
    (h : l.text f.setting = m.text f.setting) : l.type.canonical = m.type.canonical := by
  have hplace' : m.SamePlace l := ⟨hplace.1.symm, hplace.2.symm⟩
  have hnames : l.type.simpleNames.drop j = m.type.simpleNames.drop k := by
    rw [Lookup.text_of_depth hj, Lookup.text_of_depth hk] at h
    exact Names.dotted_injective (valid_of_mem_emitted hcollect hl)
      (valid_of_mem_emitted hcollect hm) (Names.depth_le_of_depth? hj)
      (Names.depth_le_of_depth? hk) h
  rcases Names.depth?_eq_some_iff.mp hj with hlknown | ⟨hlnear, hlreserve, rfl⟩
  · rcases Names.depth?_eq_some_iff.mp hk with hmknown | ⟨hmnear, -, rfl⟩
    · exact Lookup.canonical_eq_of_known hplace hlknown hmknown hnames
    · exact absurd hnames (Lookup.not_near_of_known hplace hlknown hmnear)
  · rcases Names.depth?_eq_some_iff.mp hk with hmknown | ⟨hmnear, hmreserve, rfl⟩
    · exact absurd hnames.symm (Lookup.not_near_of_known hplace' hmknown hlnear)
    · -- Both types have taken the same name.
      obtain ⟨htop, hinner⟩ := List.cons.inj hnames
      have houtermost := taken_of_near hcollect hl hlnear hlreserve
      rw [htop, taken_of_near hcollect hm hmnear hmreserve] at houtermost
      have hspace : l.type.outermost.space = m.type.outermost.space :=
        congrArg ClassName.space (Option.some.inj houtermost).symm
      rw [ClassName.outermost_space, ClassName.outermost_space] at hspace
      rw [ClassName.canonical, ClassName.canonical, ClassName.qualifiedTop,
        ClassName.qualifiedTop, hspace, htop, hinner]

/-- **Two types of one place are written alike exactly when they collide**: one of them
    by its canonical name, and the other one by simple names that spell it. -/
theorem text_eq_iff_collides (f : SourceFile) {l m : Lookup} (hl : l ∈ f.emitted)
    (hm : m ∈ f.emitted) (hplace : l.SamePlace m) (hne : l.type.canonical ≠ m.type.canonical) :
    l.text f.setting = m.text f.setting ↔ l.Collides f.setting m ∨ m.Collides f.setting l := by
  obtain ⟨found, hcollect⟩ := collect_of_mem_emitted hl
  have hlvalid := valid_of_mem_emitted hcollect hl
  have hmvalid := valid_of_mem_emitted hcollect hm
  cases hj : l.names.depth? f.setting l.type with
  | some j =>
    cases hk : m.names.depth? f.setting m.type with
    | some k =>
      constructor
      · intro h
        exact absurd (canonical_eq_of_short hcollect hl hm hplace hj hk h) hne
      · rintro (⟨depth, -, hnone, -⟩ | ⟨depth, -, hnone, -⟩)
        · rw [hk] at hnone; cases hnone
        · rw [hj] at hnone; cases hnone
    | none =>
      rw [Lookup.short_eq_long_iff hlvalid hmvalid hj hk]
      refine ⟨Or.inl, ?_⟩
      rintro (hcollides | ⟨depth, hsome, -⟩)
      · exact hcollides
      · rw [hk] at hsome; cases hsome
  | none =>
    cases hk : m.names.depth? f.setting m.type with
    | some k =>
      rw [eq_comm, Lookup.short_eq_long_iff hmvalid hlvalid hk hj]
      refine ⟨Or.inr, ?_⟩
      rintro (⟨depth, hsome, -⟩ | hcollides)
      · rw [hj] at hsome; cases hsome
      · exact hcollides
    | none =>
      constructor
      · intro h
        rw [Lookup.text_of_no_depth hj, Lookup.text_of_no_depth hk] at h
        exact absurd (ClassName.qualified_injective hlvalid hmvalid h) hne
      · rintro (⟨depth, hsome, -⟩ | ⟨depth, hsome, -⟩)
        · rw [hj] at hsome; cases hsome
        · rw [hk] at hsome; cases hsome

/-- The class `System.Console`, another `Console` that keeps it from being imported, and a
    class nested in a nested class of the name `System`. -/
def consoles : SourceFile :=
  .bare "App" (.bareClass "Main"
    [.bare ⟨"System", "Console", []⟩ "a", .bare ⟨"Other", "Console", []⟩ "b",
      .bare ⟨"App", "Main", ["System", "Console"]⟩ "c"]
    [.bareClass "System" [] [.bareClass "Console" [] []]])

theorem consoles_spellings : ∃ l ∈ consoles.emitted, ∃ m ∈ consoles.emitted, l.SamePlace m
    ∧ l.type = ⟨"App", "Main", ["System", "Console"]⟩ ∧ l.text consoles.setting = "System.Console"
    ∧ m.type = ⟨"System", "Console", []⟩ ∧ m.text consoles.setting = "System.Console" := by
  have hnested : (⟨[⟨some "Main", ["System"]⟩], [[]], false,
      ⟨"App", "Main", ["System", "Console"]⟩⟩, "System.Console") ∈ consoles.spellings := by
    decide +kernel
  have hspace : (⟨[⟨some "Main", ["System"]⟩], [[]], false, ⟨"System", "Console", []⟩⟩,
      "System.Console") ∈ consoles.spellings := by
    decide +kernel
  obtain ⟨l, hl, -, hlscopes, hlvariables, hltype, hltext⟩ := lookup_of_spelling hnested
  obtain ⟨m, hm, -, hmscopes, hmvariables, hmtype, hmtext⟩ := lookup_of_spelling hspace
  have hplace : l.SamePlace m := ⟨hlscopes.trans hmscopes.symm, hlvariables.trans hmvariables.symm⟩
  exact ⟨l, hl, m, hm, hplace, hltype, hltext, hmtype, hmtext⟩

theorem text_eq_iff_collides_consoles : ∃ l ∈ consoles.emitted, ∃ m ∈ consoles.emitted,
    l.SamePlace m ∧ l.type.canonical ≠ m.type.canonical
      ∧ (l.Collides consoles.setting m ∨ m.Collides consoles.setting l) := by
  obtain ⟨l, hl, m, hm, hplace, hltype, hltext, hmtype, hmtext⟩ := consoles_spellings
  have hne : l.type.canonical ≠ m.type.canonical := by
    rw [hltype, hmtype]
    decide
  exact ⟨l, hl, m, hm, hplace, hne,
    (text_eq_iff_collides consoles hl hm hplace hne).mp (hltext.trans hmtext.symm)⟩

/-- **A nested class can be written like a class of a namespace.** -/
theorem nested_class_collides : ∃ l ∈ consoles.emitted, ∃ m ∈ consoles.emitted, l.SamePlace m
    ∧ l.type.Valid ∧ m.type.Valid ∧ l.type.canonical ≠ m.type.canonical
    ∧ l.text consoles.setting = m.text consoles.setting := by
  obtain ⟨l, hl, m, hm, hplace, hltype, hltext, hmtype, hmtext⟩ := consoles_spellings
  refine ⟨l, hl, m, hm, hplace, ?_, ?_, ?_, hltext.trans hmtext.symm⟩
  · rw [hltype]
    decide
  · rw [hmtype]
    decide
  · rw [hltype, hmtype]
    decide

end SourceFile

end CSharpGen
