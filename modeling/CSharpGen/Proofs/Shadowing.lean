/-
  CSharpGen/Proofs/Shadowing.lean
  ===============================
  **Type variables and short names.**  Inside a generic declaration a name that
  begins with a type variable means the variable.  So a type is to be written by
  its canonical name, or behind `global::`, or by a name that begins otherwise
  (`Lookup.Clear`).

  A writer compares the type variables in scope with the top-level type of a
  nesting chain only, but a short name can begin further down the chain.
  `Lookup.Masked` describes the references that slip through: the chain is
  written from a nested type on, and that type has the name of a type variable.
  Every other reference is clear, and none of these is
  (`SourceFile.clear_iff_not_masked`).  A generic method beside a nested class
  shows that they occur (`SourceFile.nested_class_masked`).
-/
import CSharpGen.Proofs.Collisions
import CSharpGen.Proofs.Selection

namespace CSharpGen

/-! ### The first identifier of a text -/

namespace Text

/-- The identifier that a text begins with. -/
def firstIdentifier (s : String) : String :=
  .ofList (s.toList.takeWhile fun c => !Identifier.isForeign c)

theorem firstIdentifier_join {s : String} (h : Identifier.isValid s = true) (rest : List String) :
    firstIdentifier (join "." (s :: rest)) = s := by
  have hword : ∀ c ∈ s.toList, (!Identifier.isForeign c) = true := by
    intro c hc
    by_contra hforeign
    exact Identifier.not_mem_of_isForeign h (by simpa using hforeign) hc
  cases rest with
  | nil =>
    have hall : s.toList.takeWhile (fun c => !Identifier.isForeign c) = s.toList := by
      rw [← List.append_nil s.toList, List.takeWhile_append_of_pos hword, List.takeWhile_nil]
    rw [firstIdentifier, join, hall, String.ofList_toList]
  | cons t rest =>
    -- The dot behind the first name is not part of it.
    have hcut : (join "." (s :: t :: rest)).toList
        = s.toList ++ '.' :: (join "." (t :: rest)).toList := by
      simp
    rw [firstIdentifier, hcut, List.takeWhile_append_of_pos hword,
      List.takeWhile_cons_of_neg (by simp [Identifier.isForeign_dot]), List.append_nil,
      String.ofList_toList]

end Text

/-! ### Clear and masked references -/

namespace Lookup

/-- The text that is written does not begin with a type variable in scope, unless it is
    qualified. -/
def Clear (setting : Setting) (l : Lookup) : Prop :=
  (∀ vs ∈ l.names.typeVariables, Text.firstIdentifier (l.text setting) ∉ vs)
    ∨ (l.text setting = l.type.canonical ∧ l.type.space ≠ "")
    ∨ ∃ rest, l.text setting = "global::" ++ rest

/-- The type is written from the type of its chain at `depth` on, which is not the
    top-level one, and a type variable in scope has that simple name. -/
structure Masked (setting : Setting) (l : Lookup) (depth : Nat) : Prop where
  unshadowed : l.Unshadowed
  below_top : 0 < depth
  depth_le : depth ≤ l.type.inner.length
  bound : l.Bound setting depth
  innermost : ∀ deeper, depth < deeper → deeper ≤ l.type.inner.length → ¬ l.Bound setting deeper
  named : ∃ vs ∈ l.names.typeVariables, (l.type.upTo depth).simple ∈ vs

variable {setting : Setting} {l : Lookup}

theorem clear_of_no_depth (h : l.names.depth? setting l.type = none) : l.Clear setting := by
  rw [Clear, text_of_no_depth h, ClassName.qualified]
  by_cases hspace : l.type.space = ""
  · right; right
    exact ⟨l.type.canonical, by simp [hspace]⟩
  · right; left
    exact ⟨if_neg (by simpa [String.isEmpty_iff] using hspace), hspace⟩

theorem firstIdentifier_of_depth (hvalid : l.type.Valid) {depth : Nat}
    (h : l.names.depth? setting l.type = some depth) :
    Text.firstIdentifier (l.text setting) = (l.type.upTo depth).simple := by
  have hdrop := ClassName.simpleNames_drop (Names.depth_le_of_depth? h)
  rw [text_of_depth h, Names.dotted, hdrop]
  refine Text.firstIdentifier_join (hvalid.isValid_of_mem_simpleNames _ ?_) _
  exact List.mem_of_mem_drop (hdrop ▸ List.mem_cons_self)

/-- A name from some depth on is neither a canonical name with a namespace nor one with
    the alias. -/
theorem clear_iff_of_depth (hvalid : l.type.Valid) {depth : Nat}
    (h : l.names.depth? setting l.type = some depth) :
    l.Clear setting ↔ ∀ vs ∈ l.names.typeVariables, (l.type.upTo depth).simple ∉ vs := by
  have hparts := hvalid.isValid_of_mem_drop depth
  rw [Clear, firstIdentifier_of_depth hvalid h, text_of_depth h]
  refine ⟨?_, Or.inl⟩
  rintro (hfree | ⟨hcanonical, hspace⟩ | ⟨rest, hglobal⟩)
  · exact hfree
  · rw [ClassName.canonical_eq_join] at hcanonical
    have hpath := Identifier.join_injective
      (ClassName.drop_simpleNames_ne_nil (Names.depth_le_of_depth? h)) l.type.path_ne_nil
      hparts hvalid.isValid_of_mem_path hcanonical
    have hlength := congrArg List.length hpath
    simp only [ClassName.path, List.length_append, List.length_drop] at hlength
    have hsegments : 0 < l.type.spacePath.length := by
      rw [ClassName.spacePath, if_neg (by simpa [String.isEmpty_iff] using hspace)]
      simp [Text.pieces]
    omega
  · exact absurd hglobal.symm (ClassName.global_ne_join _ hparts)

theorem masked_iff {depth : Nat} :
    l.Masked setting depth ↔ l.names.depth? setting l.type = some depth
      ∧ ∃ vs ∈ l.names.typeVariables, (l.type.upTo depth).simple ∈ vs := by
  constructor
  · intro h
    refine ⟨Names.depth?_eq_some_iff.mpr (Or.inl (Names.rule_eq_iff.mpr ?_)), h.named⟩
    refine .known depth h.unshadowed h.depth_le ((bound_iff depth).mp h.bound) ?_
    intro deeper hlt hle
    rw [← Bool.not_eq_true, ← bound_iff]
    exact h.innermost deeper hlt hle
  · rintro ⟨hdepth, vs, hvs, hmem⟩
    rcases Names.depth?_eq_some_iff.mp hdepth with hrule | ⟨hrule, -, rfl⟩
    · cases Names.rule_eq_iff.mp hrule with
      | known _ hfree hle hbinds hdeeper =>
        refine ⟨hfree, ?_, hle, (bound_iff depth).mpr hbinds, ?_, vs, hvs, hmem⟩
        · -- At the top of the chain the variable would have shadowed the type.
          rcases Nat.eq_zero_or_pos depth with rfl | hpos
          · exact absurd hmem (hfree vs hvs)
          · exact hpos
        · intro deeper hlt hle hbound
          rw [bound_iff, hdeeper deeper hlt hle] at hbound
          cases hbound
    · cases Names.rule_eq_iff.mp hrule with
      | near hfree _ _ _ => exact absurd hmem (hfree vs hvs)

end Lookup

namespace SourceFile

/-- **A reference is clear of the type variables unless it is masked.** -/
theorem clear_iff_not_masked (f : SourceFile) {l : Lookup} (hl : l ∈ f.emitted) :
    l.Clear f.setting ↔ ¬ ∃ depth, l.Masked f.setting depth := by
  obtain ⟨found, hcollect⟩ := collect_of_mem_emitted hl
  simp only [Lookup.masked_iff]
  cases hdepth : l.names.depth? f.setting l.type with
  | none => simp [Lookup.clear_of_no_depth hdepth]
  | some depth =>
    rw [Lookup.clear_iff_of_depth (valid_of_mem_emitted hcollect hl) hdepth]
    simp

/-- A generic method that returns a class of the name of its type variable. -/
def factoryMethod : Method TypeDecl :=
  ⟨some "Get", .empty, [], .empty, [⟨"T", []⟩], .named ⟨"App", "Main", ["T"]⟩, [], .empty, none⟩

/-- A class with that method, and with the class nested in it. -/
def factory : SourceFile :=
  .bare "App" (.of { (TypeDecl.bareClass "Main" [] [.bareClass "T" [] []]).layer with
    methods := [factoryMethod] })

theorem obtainable_factory : Obtainable (.built .file factory) := by
  have hgeneric : Reachable .method
      ({ name := some "Get", typeVariables := [⟨"T", []⟩] } : Method.Draft TypeDecl) :=
    .edited (k := .method) (e := Method.Edit.addTypeVariable ⟨"T", []⟩)
      (.opened (.method (some "Get")) (by simp)) (by simp [Construct.handed])
  have hget : Obtainable (.built .method factoryMethod) :=
    .built (.edited (k := .method) (e := Method.Edit.returns (.named ⟨"App", "Main", ["T"]⟩))
      hgeneric (by simp [Construct.handed])) rfl
  have hnested : Obtainable (.built .type (.bareClass "T" [] [])) :=
    obtainable_bareClass (by decide) (by simp)
  have hmain : Obtainable (.built .type factory.type) := by
    refine .built (.edited (k := .type) (e := TypeDecl.Edit.addType (.bareClass "T" [] []))
      (.edited (k := .type) (e := TypeDecl.Edit.addMethod factoryMethod)
        (.opened (.named .classKind "Main") (by simp)) ?_) ?_) rfl
    · simpa [Construct.handed] using hget
    · simpa [Construct.handed] using hnested
  exact .built (.opened (.file "App" _) (List.forall_mem_singleton.mpr hmain)) rfl

theorem factory_reference : ∃ l ∈ factory.emitted, l.type = ⟨"App", "Main", ["T"]⟩
    ∧ ["T"] ∈ l.names.typeVariables ∧ l.text factory.setting = "T" := by
  have hspelled : (⟨[⟨some "Main", ["T"]⟩], [["T"], []], false, ⟨"App", "Main", ["T"]⟩⟩, "T")
      ∈ factory.spellings := by
    decide +kernel
  obtain ⟨l, hl, -, -, hvariables, htype, htext⟩ := lookup_of_spelling hspelled
  exact ⟨l, hl, htype, by simp [hvariables], htext⟩

theorem not_clear_factory {l : Lookup} (htype : l.type = ⟨"App", "Main", ["T"]⟩)
    (hvariable : ["T"] ∈ l.names.typeVariables) (htext : l.text factory.setting = "T") :
    ¬ l.Clear factory.setting := by
  rw [Lookup.Clear, htext, htype]
  rintro (hfree | ⟨hcanonical, -⟩ | ⟨rest, hglobal⟩)
  · exact absurd (by decide) (hfree _ hvariable)
  · exact absurd hcanonical (by decide)
  · have hlength := congrArg String.length hglobal
    rw [String.length_append] at hlength
    have halias : "global::".length = 8 := rfl
    have hone : "T".length = 1 := rfl
    omega

theorem clear_iff_not_masked_factory :
    (∃ l ∈ factory.emitted, ∃ depth, l.Masked factory.setting depth)
    ∧ ∃ l ∈ generic.emitted, ["X"] ∈ l.names.typeVariables ∧ l.type.top = "X"
      ∧ ¬ ∃ depth, l.Masked generic.setting depth := by
  refine ⟨?_, ?_⟩
  · obtain ⟨l, hl, htype, hvariable, htext⟩ := factory_reference
    refine ⟨l, hl, ?_⟩
    by_contra hmasked
    exact not_clear_factory htype hvariable htext ((clear_iff_not_masked factory hl).mpr hmasked)
  · obtain ⟨l, hl, -, -, hvariables, htype, htext⟩ := lookup_of_spelling spelling_generic
    refine ⟨l, hl, by simp [hvariables], by rw [htype], (clear_iff_not_masked generic hl).mp ?_⟩
    exact Or.inr (Or.inl (by rw [htext, htype]; decide))

/-- **A type variable can mask a nested class.** -/
theorem nested_class_masked : Obtainable (.built .file factory)
    ∧ (∃ text, factory.render = .ok text)
    ∧ ∃ l ∈ factory.emitted, l.type = ⟨"App", "Main", ["T"]⟩ ∧ ["T"] ∈ l.names.typeVariables
      ∧ l.text factory.setting = "T" ∧ ¬ l.Clear factory.setting := by
  obtain ⟨l, hl, htype, hvariable, htext⟩ := factory_reference
  refine ⟨obtainable_factory, ?_, l, hl, htype, hvariable, htext,
    not_clear_factory htype hvariable htext⟩
  exact Except.exists_ok_of_isSome (by decide +kernel)

end SourceFile

end CSharpGen
