/-
  CSharpGen/Proofs/Captures.lean
  ==============================
  **Imports and the other types of the same simple name.**  A `using` directive
  opens a whole namespace, so a type that is imported by its simple name should
  be the only one of that name in sight.

  A reference is open when neither a type variable nor a declaration around it
  says what its name means (`Site.Open`).  Open references are the ones that the
  first pass decides about, and among them an imported name is safe: another
  type of the same simple name is open in documentation and comments only, and
  there it is never a type of the namespace of the file or of the global one
  (`SourceFile.imported_names_not_captured`).

  References that are not open, or that stand in documentation, do not keep a
  name from being imported (`SourceFile.imported_name_captured`).
-/
import CSharpGen.Proofs.Passes

namespace CSharpGen

namespace Site

def outer? (r : Site) : Option String := r.scopes.getLast?.bind Scope.name

/-- Neither a type variable nor a declaration around the reference says what the simple
    name of its top-level type means, and no type of its chain is bound by a declaration. -/
structure Open (space : String) (r : Site) : Prop where
  unshadowed : ∀ vs ∈ r.typeVars, r.type.top ∉ vs
  unnamed : ∀ d, ¬ Denotes ⟨space, []⟩ r.outer? r.scopes r.type.top d
  unbound : ∀ depth ≤ r.type.inner.length, ∀ d,
    Denotes ⟨space, []⟩ r.outer? r.scopes (r.type.upTo depth).simple d →
      d.canonical ≠ (r.type.upTo depth).canonical

/-- **The open references are those that the first pass takes or claims names for.** -/
theorem open_iff (space : String) (r : Site) :
    r.Open space ↔ r.rule ⟨space, []⟩ = .near ∨ r.rule ⟨space, []⟩ = .far := by
  unfold rule
  rw [Names.rule_free_iff]
  constructor
  · intro h
    refine ⟨h.unshadowed, ?_, ?_⟩
    · intro depth hdepth
      rw [← Bool.not_eq_true, Names.binds_iff]
      rintro ⟨d, hd, hcanonical⟩
      exact h.unbound depth hdepth d hd hcanonical
    · rw [Option.eq_none_iff_forall_ne_some]
      intro d hd
      exact h.unnamed d ((Names.resolve_eq_some_iff _ _ _ _).mp hd)
  · rintro ⟨hfree, hunbound, hnone⟩
    refine ⟨hfree, ?_, ?_⟩
    · intro d hd
      have hsome := (Names.resolve_eq_some_iff ⟨space, []⟩
        (({} : Names).moveTo r.scopes r.typeVars) r.type.top d).mpr hd
      rw [hnone] at hsome
      cases hsome
    · intro depth hdepth d hd hcanonical
      have htrue := (Names.binds_iff ⟨space, []⟩ (({} : Names).moveTo r.scopes r.typeVars)
        (r.type.upTo depth)).mpr ⟨d, hd, hcanonical⟩
      rw [hunbound depth hdepth] at htrue
      cases htrue

end Site

namespace SourceFile

section Imported

variable {f : SourceFile} {found : Names} {k : ClassName} {r : Site}

/-- No type of the namespace or of the global one has the name of an imported type. -/
theorem not_near_of_imported (hcollect : f.collect = .ok found)
    (hk : found.imports.get? k.top = some k) (hr : r ∈ f.references)
    (htop : r.type.top = k.top) : r.rule ⟨f.space, []⟩ ≠ .near := by
  intro hnear
  obtain ⟨-, -, hfree⟩ := (Names.imports_get?_eq_some_iff found k.top k).mp hk
  obtain ⟨space, htaken, -⟩ := ((collect_spec hcollect).2 r hr).1 hnear
  rw [ClassName.outermost_top, htop, hfree] at htaken
  cases htaken

/-- Outside comments, an open reference with the name of an imported type is one to that
    type. -/
theorem outermost_eq_of_imported (hcollect : f.collect = .ok found)
    (hk : found.imports.get? k.top = some k) (hr : r ∈ f.references) (htop : r.type.top = k.top)
    (hfar : r.rule ⟨f.space, []⟩ = .far) (hquiet : r.quiet = false) : r.type.outermost = k := by
  obtain ⟨hsound, hall⟩ := collect_spec hcollect
  obtain ⟨hclaims, hambiguous, -⟩ := (Names.imports_get?_eq_some_iff found k.top k).mp hk
  obtain ⟨first, hfirst, hor⟩ := (hall r hr).2 hfar hquiet
  rw [ClassName.outermost_top, htop] at hfirst hor
  rw [hclaims] at hfirst
  cases hfirst
  rcases hor with hsame | hmem
  · -- Both are top-level types of one simple name, so their namespaces agree.
    obtain ⟨hk', -⟩ := hsound.claims k.top k hclaims
    rw [hk', ClassName.outermost, htop, ClassName.same_topLevel_iff] at hsame
    rw [hk', ClassName.outermost, htop, hsame]
  · exact absurd hmem hambiguous

end Imported

/-- **An imported name is not captured.**  Another type of the same simple name that is
    open somewhere in the file is mentioned in documentation or a comment only, and is of
    neither the namespace of the file nor the global one. -/
theorem imported_names_not_captured (f : SourceFile) {types : List ClassName}
    (h : f.importedTypes = .ok types) {k : ClassName} (hk : k ∈ types) {l : Lookup}
    (hl : l ∈ f.emitted) (htop : l.type.top = k.top) (hne : l.type.outermost ≠ k)
    (hopen : l.site.Open f.space) :
    l.quiet = true ∧ l.type.space ≠ f.space ∧ l.type.space ≠ "" := by
  obtain ⟨found, hcollect⟩ := collect_of_mem_emitted hl
  have himported : found.imports.get? k.top = some k := by
    rw [← imports_of_collect hcollect]
    exact (mem_importedTypes_iff h k).mp hk
  obtain ⟨hsite, -⟩ := taken_of_mem_emitted hcollect hl
  rcases (Site.open_iff f.space l.site).mp hopen with hnear | hfar
  · exact absurd hnear (not_near_of_imported hcollect himported hsite htop)
  · refine ⟨?_, Names.space_of_rule_far hfar⟩
    cases hquiet : l.quiet with
    | true => rfl
    | false =>
      exact absurd (outermost_eq_of_imported hcollect himported hsite htop hfar hquiet) hne

/-- The documentation of a field mentions a type with the name of an imported one, of a
    namespace that is opened for another type. -/
def noted : SourceFile :=
  .bare "App" (.bareClass "Main"
    [{ Field.bare ⟨"A", "X", []⟩ "f" with doc := ⟨[.type (.named ⟨"B", "X", []⟩)], 0⟩ },
      .bare ⟨"B", "Y", []⟩ "g"] [])

theorem importedTypes_noted : noted.importedTypes = .ok [⟨"A", "X", []⟩, ⟨"B", "Y", []⟩] :=
  Except.eq_ok_of_toOption (by decide +kernel)

theorem spelling_noted :
    (⟨[⟨some "Main", []⟩], [[]], true, ⟨"B", "X", []⟩⟩, "B.X") ∈ noted.spellings := by
  decide +kernel

theorem imported_names_not_captured_noted : ∃ types, noted.importedTypes = .ok types
    ∧ ⟨"A", "X", []⟩ ∈ types ∧ ∃ l ∈ noted.emitted, l.type = ⟨"B", "X", []⟩
      ∧ l.site.Open noted.space ∧ l.quiet = true := by
  obtain ⟨l, hl, hsite, -, -, htype, -⟩ := lookup_of_spelling spelling_noted
  have hopen : l.site.Open noted.space := by
    rw [Site.open_iff, hsite]
    decide +kernel
  refine ⟨_, importedTypes_noted, by decide, l, hl, htype, hopen, ?_⟩
  exact (imported_names_not_captured noted importedTypes_noted (k := ⟨"A", "X", []⟩) (by decide) hl
    (by rw [htype]) (by rw [htype]; decide) hopen).1

/-- Some type that is not the imported one has its simple name, and is of the namespace of
    the file or of one that the file opens. -/
def Captures (f : SourceFile) : Prop :=
  ∃ types, f.importedTypes = .ok types ∧ ∃ k ∈ types, ∃ l ∈ f.emitted,
    l.type.top = k.top ∧ l.type.outermost ≠ k
      ∧ (l.type.space = f.space ∨ l.type.space ∈ f.usingNamespaces f.imports)

/-- A method has a type variable with the name of an imported type. -/
def generic : SourceFile :=
  .bare "App" (.of { (TypeDecl.bareClass "Main" [.bare ⟨"A", "X", []⟩ "f"] []).layer with
    methods := [⟨some "Get", .empty, [], .empty, [⟨"X", []⟩], .named ⟨"App", "X", []⟩, [], .empty,
      none⟩] })

theorem spelling_generic : (⟨[⟨some "Main", []⟩], [["X"], []], false, ⟨"App", "X", []⟩⟩, "App.X")
    ∈ generic.spellings := by
  decide +kernel

/-- An attribute of a class has the name of a class nested in it. -/
def marked : SourceFile :=
  .bare "App" (.of { (TypeDecl.bareClass "Main" [.bare ⟨"App", "X", []⟩ "f"]
      [.bareClass "X" [] []]).layer with
    attributes := [⟨.named ⟨"A", "X", []⟩, [], []⟩] })

theorem captures_of_spelling {f : SourceFile} {types : List ClassName} {k : ClassName} {r : Site}
    {s : String} (h : f.importedTypes = .ok types) (hk : k ∈ types)
    (hr : (r, s) ∈ f.spellings) (htop : r.type.top = k.top) (hne : r.type.outermost ≠ k)
    (hspace : r.type.space = f.space ∨ r.type.space ∈ f.usingNamespaces f.imports) :
    f.Captures := by
  obtain ⟨l, hl, -, -, -, htype, -⟩ := lookup_of_spelling hr
  rw [← htype] at htop hne hspace
  exact ⟨types, h, k, hk, l, hl, htop, hne, hspace⟩

/-- **An imported name can be captured** by a type that documentation mentions, or whose
    name a type variable or a nested class gives another meaning. -/
theorem imported_name_captured : noted.Captures ∧ generic.Captures ∧ marked.Captures := by
  have hmarked : (⟨[⟨some "Main", ["X"]⟩], [[]], false, ⟨"App", "X", []⟩⟩, "App.X")
      ∈ marked.spellings := by
    decide +kernel
  refine ⟨?_, ?_, ?_⟩
  · have hopened : "B" ∈ noted.usingNamespaces noted.imports := by decide +kernel
    exact captures_of_spelling importedTypes_noted (k := ⟨"A", "X", []⟩) (by decide)
      spelling_noted rfl (by decide) (Or.inr hopened)
  · have htypes : generic.importedTypes = .ok [⟨"A", "X", []⟩] :=
      Except.eq_ok_of_toOption (by decide +kernel)
    exact captures_of_spelling htypes (k := ⟨"A", "X", []⟩) (by decide) spelling_generic rfl
      (by decide) (Or.inl rfl)
  · have htypes : marked.importedTypes = .ok [⟨"A", "X", []⟩] :=
      Except.eq_ok_of_toOption (by decide +kernel)
    exact captures_of_spelling htypes (k := ⟨"A", "X", []⟩) (by decide) hmarked rfl (by decide)
      (Or.inl rfl)

end SourceFile

end CSharpGen
