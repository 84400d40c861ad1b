/-
  CSharpGen/Proofs/ShortNames.lean
  ================================
  **Short names resolve back.**  A type that is not shadowed by a type variable
  is written from the innermost type of its nesting chain that its own simple
  name denotes (`Lookup.Bound`).  If there is none and the name is short all the
  same, it is the name of a type of the namespace or of the global one, nothing
  else gives it a meaning there, and no other type of the file is written by
  that name (`SourceFile.short_names_resolve`).

  What a simple name denotes is a matter of the declarations around it and of
  the imports.  Below the comment of a file the outermost declaration is the
  type of the file.  A declaration inside the comment counts as a type of the
  namespace as well, and hides an import (`SourceFile.remark_hides_import`).
-/
import CSharpGen.Proofs.Nesting

namespace CSharpGen

namespace Lookup

/-- The type of the chain at `depth` is what its simple name denotes at this place. -/
def Bound (setting : Setting) (l : Lookup) (depth : Nat) : Prop :=
  ∃ d, Denotes setting l.names.outer? l.names.scopes (l.type.upTo depth).simple d
    ∧ d.canonical = (l.type.upTo depth).canonical

/-- No type variable in scope has the simple name of the top-level type. -/
def Unshadowed (l : Lookup) : Prop := ∀ vs ∈ l.names.typeVariables, l.type.top ∉ vs

/-- The name is written with neither a namespace nor the `global::` alias. -/
def Short (setting : Setting) (l : Lookup) : Prop := l.text setting ≠ l.type.qualified

/-- The name is short, though no type of the chain is bound. -/
structure Free (setting : Setting) (l : Lookup) : Prop where
  unshadowed : l.Unshadowed
  unbound : ∀ depth ≤ l.type.inner.length, ¬ l.Bound setting depth
  short : l.Short setting

variable {setting : Setting} {l : Lookup}

theorem bound_iff (depth : Nat) :
    l.Bound setting depth ↔ l.names.binds setting (l.type.upTo depth) = true :=
  (Names.binds_iff setting l.names (l.type.upTo depth)).symm

theorem text_of_bound (h : l.Unshadowed) {depth : Nat} (hdepth : depth ≤ l.type.inner.length)
    (hbound : l.Bound setting depth)
    (hdeeper : ∀ deeper, depth < deeper → deeper ≤ l.type.inner.length →
      ¬ l.Bound setting deeper) :
    l.text setting = Names.dotted l.type depth := by
  have hrule : l.names.rule setting l.type = .known depth := by
    refine Names.rule_eq_iff.mpr (.known depth h hdepth ((bound_iff depth).mp hbound) ?_)
    intro deeper hlt hle
    rw [← Bool.not_eq_true, ← bound_iff]
    exact hdeeper deeper hlt hle
  simp only [text, Names.spell_fst, Names.depth?, hrule]

/-- A free name belongs to a near type that has taken it. -/
theorem Free.near (h : l.Free setting) :
    l.names.rule setting l.type = .near ∧ (l.names.reserve? l.type.outermost).isSome = true := by
  have hshort := h.short
  unfold Short at hshort
  rw [text, Names.spell_fst, Names.depth?] at hshort
  cases hrule : l.names.rule setting l.type with
  | shadowed =>
    cases Names.rule_eq_iff.mp hrule with
    | shadowed hvar =>
      obtain ⟨vs, hvs, hmem⟩ := hvar
      exact absurd hmem (h.unshadowed vs hvs)
  | known depth =>
    obtain ⟨hdepth, hbinds⟩ := Names.binds_of_known hrule
    exact absurd ((bound_iff depth).mpr hbinds) (h.unbound depth hdepth)
  | hidden | far =>
    rw [hrule] at hshort
    exact absurd rfl hshort
  | near =>
    rw [hrule] at hshort
    cases hreserve : l.names.reserve? l.type.outermost with
    | some next => exact ⟨rfl, rfl⟩
    | none =>
      rw [hreserve] at hshort
      exact absurd rfl hshort

theorem Free.text_eq (h : l.Free setting) : l.text setting = Names.dotted l.type 0 := by
  obtain ⟨hrule, hreserve⟩ := h.near
  simp only [text, Names.spell_fst, Names.depth?, hrule, hreserve, if_true]

theorem Free.not_denotes (h : l.Free setting) (d : ClassName) :
    ¬ Denotes setting l.names.outer? l.names.scopes l.type.top d := by
  intro hd
  obtain ⟨-, -, hnone⟩ := Names.rule_free_iff.mp (Or.inl h.near.1)
  rw [← Names.resolve_eq_some_iff, hnone] at hd
  cases hd

end Lookup

namespace SourceFile

/-- The second pass writes the comment of a file first, and then its type. -/
theorem emitted_split {f : SourceFile} {found : Names} (hcollect : f.collect = .ok found)
    {name : String} (hname : f.type.layer.name? = some name) :
    ∃ above inside, f.emitted = above ++ inside
      ∧ above.map Lookup.site = sites {} f.commentStream
      ∧ ∀ l ∈ inside, l.names.outer? = some name := by
  have hmap : f.emitted.map Lookup.site = sites {} f.commentStream
      ++ sites (f.commentStream.foldl Position.after {}) f.bodyStream := by
    rw [emitted_eq_trace hcollect, Names.trace_site, references, sites_stream]
  obtain ⟨above, inside, hsplit, habove, hinside⟩ := List.map_eq_append_iff.mp hmap
  refine ⟨above, inside, hsplit, habove, ?_⟩
  intro l hl
  have hsite : l.site ∈ sites (f.commentStream.foldl Position.after {}) f.bodyStream := by
    rw [← hinside]
    exact List.mem_map_of_mem hl
  obtain ⟨nested, hlast⟩ := f.outermost_scope hname hsite
  have hscopes : l.names.scopes.getLast? = some ⟨some name, nested⟩ := hlast
  simp [Names.outer?, hscopes]

/-- **Short names resolve back, and are the shortest.**  Below the comment, the
    outermost declaration around a reference is the type of the file. -/
theorem short_names_resolve (f : SourceFile) {text : String} (h : f.render = .ok text) :
    (∀ l ∈ f.emitted, l.Unshadowed →
      (∀ depth ≤ l.type.inner.length, l.Bound f.setting depth →
        (∀ deeper, depth < deeper → deeper ≤ l.type.inner.length → ¬ l.Bound f.setting deeper) →
        l.text f.setting = Names.dotted l.type depth)
      ∧ ((∀ depth ≤ l.type.inner.length, ¬ l.Bound f.setting depth) → l.Short f.setting →
        (l.type.space = f.space ∨ l.type.space = "")
        ∧ (∀ d, ¬ Denotes f.setting l.names.outer? l.names.scopes l.type.top d)
        ∧ l.text f.setting = Names.dotted l.type 0
        ∧ ∀ m ∈ f.emitted, m.Free f.setting → m.type.top = l.type.top →
          m.type.outermost = l.type.outermost))
    ∧ ∀ name, f.type.layer.name? = some name →
      ∃ above inside, f.emitted = above ++ inside
        ∧ above.map Lookup.site = sites {} f.commentStream
        ∧ ∀ l ∈ inside, l.names.outer? = some name := by
  obtain ⟨found, hcollect⟩ := collect_of_render h
  refine ⟨?_, fun name hname => emitted_split hcollect hname⟩
  intro l hl hunshadowed
  refine ⟨fun depth hdepth hbound hdeeper =>
    Lookup.text_of_bound hunshadowed hdepth hbound hdeeper, ?_⟩
  intro hunbound hshort
  have hfree : l.Free f.setting := ⟨hunshadowed, hunbound, hshort⟩
  refine ⟨Names.space_of_rule_near hfree.near.1, hfree.not_denotes, hfree.text_eq, ?_⟩
  intro m hm hmfree htop
  have hlm := taken_of_near hcollect hm hmfree.near.1 hmfree.near.2
  rw [htop, taken_of_near hcollect hl hfree.near.1 hfree.near.2] at hlm
  exact (Option.some.inj hlm).symm

theorem short_names_resolve_orders :
    (∃ l ∈ orders.emitted, l.Bound orders.setting 0 ∧ l.text orders.setting = "Amount")
      ∧ ∃ l ∈ orders.emitted, l.Free orders.setting ∧ l.type.space = orders.space := by
  obtain ⟨text, hrender⟩ : ∃ text, orders.render = .ok text :=
    Except.exists_ok_of_isSome (by decide +kernel)
  have hamount : (⟨[⟨some "Order", []⟩], [[]], false, ⟨"Money", "Amount", []⟩⟩, "Amount")
      ∈ orders.spellings := by decide +kernel
  have hcustomer : (⟨[⟨some "Order", []⟩], [[]], false, ⟨"Shop", "Customer", []⟩⟩, "Customer")
      ∈ orders.spellings := by decide +kernel
  obtain ⟨amount, hmem, -, hscopes, hvariables, htype, -⟩ := lookup_of_spelling hamount
  obtain ⟨customer, hmem', -, hscopes', hvariables', htype', htext'⟩ := lookup_of_spelling hcustomer
  refine ⟨⟨amount, hmem, ?_⟩, customer, hmem', ?_⟩
  · have hbound : amount.Bound orders.setting 0 := by
      refine ⟨⟨"Money", "Amount", []⟩, ?_, by rw [htype]; decide⟩
      rw [htype, Names.outer?, hscopes]
      exact .imported _ (by decide) (by decide) (by decide +kernel)
    have hunshadowed : amount.Unshadowed := by
      simp [Lookup.Unshadowed, hvariables]
    refine ⟨hbound, ?_⟩
    rw [((short_names_resolve orders hrender).1 amount hmem hunshadowed).1 0 (Nat.zero_le _) hbound
      (by rw [htype]; intro deeper hlt hle; exact absurd hle (Nat.not_le.mpr hlt)), htype]
    decide
  · have hfree : customer.Free orders.setting := by
      refine ⟨by simp [Lookup.Unshadowed, hvariables'], ?_, ?_⟩
      · intro depth hdepth hbound
        rw [htype'] at hdepth
        cases Nat.le_zero.mp hdepth
        have hbinds : ({ scopes := customer.names.scopes } : Names).binds orders.setting
            (customer.type.upTo 0) = true := (Lookup.bound_iff 0).mp hbound
        rw [hscopes', htype'] at hbinds
        revert hbinds
        decide +kernel
      · rw [Lookup.Short, htext', htype']
        decide
    refine ⟨hfree, ?_⟩
    rcases (((short_names_resolve orders hrender).1 customer hmem' hfree.unshadowed).2
      hfree.unbound hfree.short).1 with hspace | hspace
    · exact hspace
    · rw [htype'] at hspace
      exact absurd hspace (by decide)

/-- A comment that declares a class of the same name as an imported type. -/
def remarked : SourceFile :=
  { bare "App" (.bareClass "Main" [.bare ⟨"Other", "X", []⟩ "f"] []) with
    comment := ⟨[.declaration (.bareClass "X" [.bare ⟨"Other", "X", []⟩ "g"] [])], 0⟩ }

/-- **A declaration in the comment hides an import**, though it is not the type of the
    file: the imported type is the only one that `X` could denote, but the name is
    qualified. -/
theorem remark_hides_import : ∃ l ∈ remarked.emitted, l.site ∈ sites {} remarked.commentStream
    ∧ l.Unshadowed ∧ Denotes remarked.setting none l.names.scopes l.type.top l.type
    ∧ l.text remarked.setting = "Other.X" ∧ Names.dotted l.type 0 = "X" := by
  have hview : (⟨[⟨some "X", []⟩], [[]], true, ⟨"Other", "X", []⟩⟩, "Other.X")
      ∈ remarked.spellings := by decide +kernel
  obtain ⟨l, hl, hsite, hscopes, hvariables, htype, htext⟩ := lookup_of_spelling hview
  have hcomment : l.site ∈ sites {} remarked.commentStream := by
    rw [hsite]
    decide +kernel
  refine ⟨l, hl, hcomment, by simp [Lookup.Unshadowed, hvariables], ?_, htext, ?_⟩
  · rw [hscopes, htype]
    exact .imported _ (by decide) (by decide) (by decide +kernel)
  · rw [htype]
    decide

end SourceFile

end CSharpGen
