/-
  CSharpGen/Proofs/Imports.lean
  =============================
  **What is imported.**  The first pass decides about imports with tables that
  it fills in the order of the references: the first claim of a simple name is
  kept, a second one for another type makes it ambiguous, and a near type takes
  the name away from both.  The outcome is a set that does not depend on the
  order: a type is imported exactly when a far reference outside comments claims
  it, every other such reference with its simple name means it too, and no near
  reference has that name (`SourceFile.mem_importedTypes_iff_references`).

  The set is listed by canonical name, each type once
  (`SourceFile.importedTypes_increasing`).
-/
import CSharpGen.Proofs.Captures
import Mathlib.Data.String.Basic

namespace CSharpGen

/-! ### Where the entries of the tables come from -/

namespace Names

/-- Every claim is one of the given types, and a name is ambiguous only between two of
    them. -/
structure ClaimedFrom (tops : List ClassName) (names : Names) : Prop where
  claims : ∀ simple k, names.claims.get? simple = some k → k ∈ tops ∧ k.top = simple
  ambiguous : ∀ simple ∈ names.ambiguous, ∃ a ∈ tops, ∃ b ∈ tops,
    a.top = simple ∧ b.top = simple ∧ a.same b = false

theorem ClaimedFrom.claim {tops : List ClassName} {names : Names} (h : ClaimedFrom tops names)
    (top : ClassName) : ClaimedFrom (tops ++ [top]) (names.claim top) := by
  obtain ⟨hclaims, hambiguous⟩ := h
  have hold : ∀ simple ∈ names.ambiguous, ∃ a ∈ tops ++ [top], ∃ b ∈ tops ++ [top],
      a.top = simple ∧ b.top = simple ∧ a.same b = false := by
    intro simple hsimple
    obtain ⟨a, ha, b, hb, hab⟩ := hambiguous simple hsimple
    exact ⟨a, List.mem_append_left _ ha, b, List.mem_append_left _ hb, hab⟩
  unfold Names.claim
  cases hget : names.claims.get? top.top with
  | none =>
    refine ⟨?_, hold⟩
    intro simple k hk
    by_cases hkey : top.top = simple
    · subst hkey
      simp only [Table.get?_put_self, Option.some.injEq] at hk
      subst hk
      exact ⟨by simp, rfl⟩
    · simp only [Table.get?_put_of_ne hkey] at hk
      obtain ⟨hmem, htop⟩ := hclaims simple k hk
      exact ⟨List.mem_append_left _ hmem, htop⟩
  | some first =>
    obtain ⟨hfirst, htop⟩ := hclaims _ _ hget
    have hkept : ∀ simple k, names.claims.get? simple = some k →
        k ∈ tops ++ [top] ∧ k.top = simple := by
      intro simple k hk
      obtain ⟨hmem, hktop⟩ := hclaims simple k hk
      exact ⟨List.mem_append_left _ hmem, hktop⟩
    simp only
    split
    · exact ⟨hkept, hold⟩
    · next hother =>
      refine ⟨hkept, ?_⟩
      intro simple hsimple
      rcases List.mem_append.mp hsimple with hsimple | hsimple
      · exact hold simple hsimple
      · cases List.mem_singleton.mp hsimple
        have hdiffers : first.same top = false := by
          rw [Bool.or_eq_true, not_or, Bool.not_eq_true] at hother
          exact hother.1
        exact ⟨first, List.mem_append_left _ hfirst, top, by simp, htop, rfl, hdiffers⟩

theorem claimedFrom_claimAll (tops : List ClassName) :
    ClaimedFrom tops (claimAll {} tops) := by
  have hall : ∀ (rest seen : List ClassName) (names : Names), ClaimedFrom seen names →
      ClaimedFrom (seen ++ rest) (names.claimAll rest) := by
    intro rest
    induction rest with
    | nil => intro seen names h; simpa [claimAll] using h
    | cons top rest ih =>
      intro seen names h
      have hnext := ih (seen ++ [top]) (names.claim top) (h.claim top)
      simpa [claimAll] using hnext
  have hstart : ClaimedFrom [] ({} : Names) := by
    refine ⟨?_, by simp⟩
    intro simple k hk
    cases hk
  simpa using hall tops [] {} hstart

/-- Whatever is taken has been taken by a near reference. -/
theorem near_of_taken (setting : Setting) (rs : List Site) {simple : String} {e : ClassName}
    (h : (rs.foldl (visit setting) {}).taken.get? simple = some e) :
    ∃ r ∈ rs, r.rule setting = .near ∧ r.type.top = simple := by
  have hall : ∀ (rs : List Site) (names : Names),
      (rs.foldl (visit setting) names).taken.get? simple = some e →
      (∃ r ∈ rs, r.rule setting = .near ∧ r.type.top = simple)
        ∨ names.taken.get? simple = some e := by
    intro rs
    induction rs with
    | nil => intro names h; exact Or.inr h
    | cons r rest ih =>
      intro names h
      rcases ih _ h with ⟨q, hq, hnear⟩ | hvisit
      · exact Or.inl ⟨q, List.mem_cons_of_mem _ hq, hnear⟩
      · rw [visit_eq_rule] at hvisit
        cases hrule : r.rule setting with
        | shadowed | known depth | hidden =>
          rw [hrule] at hvisit
          exact Or.inr hvisit
        | near =>
          by_cases htop : r.type.top = simple
          · exact Or.inl ⟨r, by simp, hrule, htop⟩
          · rw [hrule] at hvisit
            cases hres : (names.moveTo r.scopes r.typeVars).reserve? r.type.outermost with
            | none =>
              simp only [hres] at hvisit
              exact Or.inr hvisit
            | some next =>
              simp only [hres, Option.getD_some] at hvisit
              rcases reserve?_cases hres with ⟨rfl, -⟩ | ⟨rfl, -⟩
              · exact Or.inr hvisit
              · simp only [ClassName.outermost_top, Table.get?_put_of_ne htop] at hvisit
                exact Or.inr hvisit
        | far =>
          rw [hrule] at hvisit
          have htaken : ∀ (names : Names) (top : ClassName),
              (names.claim top).taken = names.taken := by
            intro names top
            unfold Names.claim
            split
            · rfl
            · split <;> rfl
          cases hquiet : r.quiet with
          | true =>
            simp only [hquiet, if_true] at hvisit
            exact Or.inr hvisit
          | false =>
            simp only [hquiet, Bool.false_eq_true, if_false, htaken] at hvisit
            exact Or.inr hvisit
  rcases hall rs {} h with hnear | hstart
  · exact hnear
  · cases hstart

end Names

/-! ### The set of imports -/

theorem Site.claimed?_eq_some_iff {setting : Setting} {r : Site} {t : ClassName} :
    r.claimed? setting = some t ↔
      r.rule setting = .far ∧ r.quiet = false ∧ r.type.outermost = t := by
  unfold Site.claimed?
  split
  · next h =>
    obtain ⟨hfar, hquiet⟩ := h
    simp [hfar, hquiet]
  · next h =>
    constructor
    · intro hnone; cases hnone
    · rintro ⟨hfar, hquiet, -⟩
      exact absurd ⟨hfar, hquiet⟩ h

namespace SourceFile

variable {f : SourceFile}

/-- **The imports are a set that the references determine without their order.** -/
theorem mem_importedTypes_iff_references {types : List ClassName}
    (h : f.importedTypes = .ok types) (t : ClassName) :
    t ∈ types ↔
      (∃ r ∈ f.references, r.rule ⟨f.space, []⟩ = .far ∧ r.quiet = false
        ∧ r.type.outermost = t)
      ∧ (∀ r ∈ f.references, r.rule ⟨f.space, []⟩ = .far → r.quiet = false →
        r.type.top = t.top → r.type.outermost = t)
      ∧ ∀ r ∈ f.references, r.type.top = t.top → r.rule ⟨f.space, []⟩ ≠ .near := by
  obtain ⟨found, hcollect, -⟩ := collect_of_importedTypes h
  obtain ⟨hclaims, hambiguous, htaken⟩ := collect_tables hcollect
  -- The claims of the first pass are those of its far references outside comments.
  have hwanted := Names.wanted_foldl_visit ⟨f.space, []⟩ {} f.references
  obtain ⟨hclaims', hambiguous'⟩ := Prod.mk.inj hwanted
  have hfrom := Names.claimedFrom_claimAll (f.references.filterMap (Site.claimed? ⟨f.space, []⟩))
  have hclaimed : ∀ k ∈ f.references.filterMap (Site.claimed? ⟨f.space, []⟩),
      ∃ r ∈ f.references, r.rule ⟨f.space, []⟩ = .far ∧ r.quiet = false
        ∧ r.type.outermost = k := by
    intro k hk
    obtain ⟨r, hr, hsome⟩ := List.mem_filterMap.mp hk
    exact ⟨r, hr, Site.claimed?_eq_some_iff.mp hsome⟩
  rw [mem_importedTypes_iff h, imports_of_collect hcollect]
  constructor
  · intro himported
    obtain ⟨hget, -, -⟩ := (Names.imports_get?_eq_some_iff found t.top t).mp himported
    rw [hclaims, hclaims'] at hget
    refine ⟨hclaimed t (hfrom.claims _ _ hget).1, ?_, ?_⟩
    · intro r hr hfar hquiet htop
      exact outermost_eq_of_imported hcollect himported hr htop hfar hquiet
    · intro r hr htop
      exact not_near_of_imported hcollect himported hr htop
  · rintro ⟨⟨r, hr, hfar, hquiet, rfl⟩, honly, hfree⟩
    obtain ⟨first, hfirst, -⟩ := ((collect_spec hcollect).2 r hr).2 hfar hquiet
    refine (Names.imports_get?_eq_some_iff found _ _).mpr ⟨?_, ?_, ?_⟩
    · rw [hfirst]
      rw [hclaims, hclaims'] at hfirst
      obtain ⟨hmem, htop⟩ := hfrom.claims _ _ hfirst
      obtain ⟨q, hq, hqfar, hqquiet, rfl⟩ := hclaimed first hmem
      exact congrArg some (honly q hq hqfar hqquiet htop)
    · intro hmem
      rw [hambiguous, hambiguous'] at hmem
      obtain ⟨a, ha, b, hb, hatop, hbtop, hdiffer⟩ := hfrom.ambiguous _ hmem
      obtain ⟨p, hp, hpfar, hpquiet, rfl⟩ := hclaimed a ha
      obtain ⟨q, hq, hqfar, hqquiet, rfl⟩ := hclaimed b hb
      rw [honly p hp hpfar hpquiet hatop, honly q hq hqfar hqquiet hbtop] at hdiffer
      simp [ClassName.same] at hdiffer
    · cases hget : found.taken.get? r.type.outermost.top with
      | none => rfl
      | some e =>
        rw [htaken] at hget
        obtain ⟨q, hq, hnear, htop⟩ := Names.near_of_taken _ _ hget
        exact absurd hnear (hfree q hq htop)

end SourceFile

/-! ### Lists in order -/

namespace Ordered

variable {α : Type} (key : α → String)

theorem pairwise_insertLast (a : α) {sorted : List α}
    (h : sorted.Pairwise fun a b => key a ≤ key b) :
    (Ordered.insertLast key a sorted).Pairwise fun a b => key a ≤ key b := by
  induction sorted with
  | nil => simp [Ordered.insertLast]
  | cons b rest ih =>
    obtain ⟨hb, hrest⟩ := List.pairwise_cons.mp h
    unfold Ordered.insertLast
    split
    · next hlt =>
      refine List.pairwise_cons.mpr ⟨?_, h⟩
      intro c hc
      rcases List.mem_cons.mp hc with rfl | hc
      · exact le_of_lt hlt
      · exact (le_of_lt hlt).trans (hb c hc)
    · next hnot =>
      refine List.pairwise_cons.mpr ⟨?_, ih hrest⟩
      intro c hc
      rcases List.mem_cons.mp ((perm_insertLast key a rest).mem_iff.mp hc) with rfl | hc
      · exact not_lt.mp hnot
      · exact hb c hc

theorem pairwise_sort (as : List α) :
    (Ordered.sort key as).Pairwise fun a b => key a ≤ key b :=
  List.foldlRecOn (motive := List.Pairwise fun a b => key a ≤ key b) _ _ List.Pairwise.nil
    fun _ hsorted a _ => pairwise_insertLast key a hsorted

theorem mem_insert {a b : String} {sorted : List String} :
    b ∈ Ordered.insert id a sorted ↔ b = a ∨ b ∈ sorted := by
  induction sorted with
  | nil => simp [Ordered.insert]
  | cons c rest ih =>
    unfold Ordered.insert
    split
    · simp
    · split
      · next heq =>
        have heq : a = c := heq
        simp [heq]
      · simp only [List.mem_cons, ih]
        exact or_left_comm

theorem pairwise_insert (a : String) {sorted : List String} (h : sorted.Pairwise (· < ·)) :
    (Ordered.insert id a sorted).Pairwise (· < ·) := by
  induction sorted with
  | nil => simp [Ordered.insert]
  | cons c rest ih =>
    obtain ⟨hc, hrest⟩ := List.pairwise_cons.mp h
    unfold Ordered.insert
    split
    · next hlt =>
      refine List.pairwise_cons.mpr ⟨?_, h⟩
      intro b hb
      rcases List.mem_cons.mp hb with rfl | hb
      · exact hlt
      · exact lt_trans hlt (hc b hb)
    · next hnot =>
      split
      · exact h
      · next hne =>
        refine List.pairwise_cons.mpr ⟨?_, ih hrest⟩
        intro b hb
        rcases mem_insert.mp hb with rfl | hb
        · exact lt_of_le_of_ne (not_lt.mp hnot) (Ne.symm hne)
        · exact hc b hb

/-- **The members of an ordered list stand in increasing order.** -/
theorem pairwise_ofList (names : List String) : (Ordered.ofList id names).Pairwise (· < ·) :=
  List.foldlRecOn (motive := List.Pairwise (· < ·)) _ _ List.Pairwise.nil
    fun _ hsorted a _ => pairwise_insert a hsorted

theorem mem_ofList {a : String} (names : List String) :
    a ∈ Ordered.ofList id names ↔ a ∈ names := by
  have hfold : ∀ names sorted : List String,
      a ∈ names.foldl (fun sorted b => Ordered.insert id b sorted) sorted
        ↔ a ∈ names ∨ a ∈ sorted := by
    intro names
    induction names with
    | nil => simp
    | cons b rest ih =>
      intro sorted
      rw [List.foldl_cons, ih, mem_insert, List.mem_cons]
      exact or_left_comm.trans or_assoc.symm
  exact (hfold names []).trans (by simp)

end Ordered

/-! ### The order of the imports -/

theorem Table.map_fst_put {α : Type} (key : String) (value : α) (t : Table α) :
    (t.put key value).map Prod.fst
      = if (t.get? key).isSome then t.map Prod.fst else t.map Prod.fst ++ [key] := by
  induction t with
  | nil => simp [Table.put, Table.get?]
  | cons e rest ih =>
    by_cases h : e.1 = key
    · simp [Table.put, Table.get?, h]
    · simp only [Table.put, Table.get?, h, if_false, List.map_cons, ih]
      split <;> simp

theorem Table.get?_isSome_of_mem {α : Type} {key : String} {t : Table α}
    (h : key ∈ t.map Prod.fst) : (t.get? key).isSome = true := by
  induction t with
  | nil => cases h
  | cons e rest ih =>
    by_cases hk : e.1 = key
    · simp [Table.get?, hk]
    · rcases List.mem_cons.mp h with rfl | h
      · exact absurd rfl hk
      · simpa [Table.get?, hk] using ih h

/-- No simple name is claimed under two entries. -/
theorem Names.nodup_claims (tops : List ClassName) :
    ((claimAll {} tops).claims.map Prod.fst).Nodup := by
  have hone : ∀ (names : Names) (top : ClassName), (names.claims.map Prod.fst).Nodup →
      ((names.claim top).claims.map Prod.fst).Nodup := by
    intro names top h
    unfold Names.claim
    cases hget : names.claims.get? top.top with
    | none =>
      simp only [Table.map_fst_put, hget, Option.isSome_none, Bool.false_eq_true, if_false]
      refine List.nodup_append.mpr ⟨h, by simp, ?_⟩
      intro a ha b hb
      cases List.mem_singleton.mp hb
      rintro rfl
      have hsome := Table.get?_isSome_of_mem ha
      rw [hget] at hsome
      cases hsome
    | some first =>
      simp only
      split
      · exact h
      · exact h
  have hall : ∀ (tops : List ClassName) (names : Names), (names.claims.map Prod.fst).Nodup →
      ((names.claimAll tops).claims.map Prod.fst).Nodup := by
    intro tops
    induction tops with
    | nil => intro names h; exact h
    | cons top rest ih => intro names h; exact ih _ (hone names top h)
  exact hall tops {} List.nodup_nil

theorem ClassName.Valid.outermost {c : ClassName} (h : c.Valid) : c.outermost.Valid := by
  have hnames := h.isValid_of_mem_simpleNames
  unfold ClassName.Valid ClassName.check at h ⊢
  split at h
  · next hspace =>
    rw [ClassName.outermost_space, if_pos hspace, ClassName.checkNames_eq_ok_iff]
    intro name hname
    cases List.mem_singleton.mp hname
    exact hnames c.top (by simp [ClassName.simpleNames])
  · cases h

/-- Top-level types of different simple names have different canonical names. -/
theorem ClassName.top_eq_of_canonical {a b : ClassName} (ha : a.Valid) (hb : b.Valid)
    (hatop : a.inner = []) (hbtop : b.inner = []) (h : a.canonical = b.canonical) :
    a.top = b.top := by
  rw [a.canonical_eq_join, b.canonical_eq_join] at h
  have hpath := Identifier.join_injective a.path_ne_nil b.path_ne_nil ha.isValid_of_mem_path
    hb.isValid_of_mem_path h
  simp only [path, simpleNames, hatop, hbtop] at hpath
  exact (List.append_inj' hpath rfl).2 |> List.cons.inj |>.1

namespace SourceFile

variable {f : SourceFile}

theorem valid_of_imported {types : List ClassName} (h : f.importedTypes = .ok types)
    {t : ClassName} (ht : t ∈ types) : t.Valid ∧ t.inner = [] := by
  obtain ⟨⟨r, hr, -, -, rfl⟩, -, -⟩ := (mem_importedTypes_iff_references h t).mp ht
  obtain ⟨found, hcollect, -⟩ := collect_of_importedTypes h
  obtain ⟨w, hrun, -⟩ := run_of_collect hcollect
  have hvalid := Writer.valid_of_mem_sites hrun r hr
  exact ⟨ClassName.Valid.outermost hvalid, rfl⟩

/-- **The imports are listed by canonical name, each type once.** -/
theorem importedTypes_increasing {types : List ClassName} (h : f.importedTypes = .ok types) :
    types.Pairwise fun a b => a.canonical < b.canonical := by
  have hvalid := fun t (ht : t ∈ types) => valid_of_imported h ht
  obtain ⟨found, hcollect, rfl⟩ := collect_of_importedTypes h
  obtain ⟨hclaims, -, -⟩ := collect_tables hcollect
  have hwanted := Names.wanted_foldl_visit ⟨f.space, []⟩ {} f.references
  obtain ⟨hclaims', -⟩ := Prod.mk.inj hwanted
  have hsound := (collect_spec hcollect).1
  -- The keys of the table are the simple names of its entries.
  have hkeys : found.imports.map Prod.fst = (found.imports.map Prod.snd).map ClassName.top := by
    rw [List.map_map]
    refine List.map_congr_left ?_
    intro e he
    obtain ⟨htop, -⟩ := hsound.claims _ _ (hsound.keyed e (List.mem_filter.mp he).1)
    rw [Function.comp_apply, htop]
    rfl
  have hnodup : ((found.imports.map Prod.snd).map ClassName.top).Nodup := by
    rw [← hkeys]
    refine List.Nodup.sublist (List.filter_sublist.map _) ?_
    rw [hclaims, hclaims']
    exact Names.nodup_claims _
  have htops : (Ordered.sort ClassName.canonical (found.imports.map Prod.snd)).Pairwise
      fun a b => a.top ≠ b.top :=
    List.pairwise_map.mp (((Ordered.perm_sort _ _).map _).nodup_iff.mpr hnodup)
  have hle := Ordered.pairwise_sort ClassName.canonical (found.imports.map Prod.snd)
  refine List.Pairwise.imp_of_mem ?_ (hle.and htops)
  rintro a b ha hb ⟨hab, hne⟩
  refine lt_of_le_of_ne hab ?_
  intro heq
  obtain ⟨hav, hatop⟩ := hvalid a ha
  obtain ⟨hbv, hbtop⟩ := hvalid b hb
  exact hne (ClassName.top_eq_of_canonical hav hbv hatop hbtop heq)

end SourceFile

end CSharpGen
