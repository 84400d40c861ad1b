/-
  CSharpGen/Proofs/Selection.lean
  ===============================
  **Which types a file imports.**  The first pass meets references one after
  another and decides about each of them by tables.  What comes out is a set
  that can be said without them: the far types that some open reference asks for
  outside comments, without a rival and without a near type of the same simple
  name (`Selected`).  It is listed by canonical name, and the order of members
  does not matter (`SourceFile.importedTypes_selected`).

  A declaration that the comment of a file embeds gives its own name a meaning,
  as the type of the file does below the comment, so that references to it are
  not open (`SourceFile.remark_hides_near_type`).
-/
import CSharpGen.Proofs.Mentions
import CSharpGen.Proofs.Rearrangement
import Mathlib.Data.List.Sort

namespace CSharpGen

/-! ### The types that references select -/

namespace Site

theorem near_iff (space : String) (r : Site) : r.rule ⟨space, []⟩ = .near ↔
    r.Open space ∧ (r.type.space = space ∨ r.type.space = "") := by
  constructor
  · intro h
    exact ⟨(open_iff space r).mpr (Or.inl h), Names.space_of_rule_near h⟩
  · rintro ⟨hopen, hspace⟩
    rcases (open_iff space r).mp hopen with hnear | hfar
    · exact hnear
    · obtain ⟨hother, hglobal⟩ := Names.space_of_rule_far hfar
      rcases hspace with hspace | hspace
      · exact absurd hspace hother
      · exact absurd hspace hglobal

theorem far_iff (space : String) (r : Site) : r.rule ⟨space, []⟩ = .far ↔
    r.Open space ∧ r.type.space ≠ space ∧ r.type.space ≠ "" := by
  constructor
  · intro h
    exact ⟨(open_iff space r).mpr (Or.inr h), Names.space_of_rule_far h⟩
  · rintro ⟨hopen, hother, hglobal⟩
    rcases (open_iff space r).mp hopen with hnear | hfar
    · rcases Names.space_of_rule_near hnear with hspace | hspace
      · exact absurd hspace hother
      · exact absurd hspace hglobal
    · exact hfar

theorem open_iff_of_content {r q : Site} (h : r.content = q.content) (space : String) :
    r.Open space ↔ q.Open space := by
  rw [open_iff, open_iff, rule_eq_of_content _ h]

end Site

/-- A top-level type that some references select for import into a file of the given
    namespace. -/
structure Selected (space : String) (rs : List Site) (t : ClassName) : Prop where
  /-- Some open reference outside comments asks for it. -/
  wanted : ∃ r ∈ rs, r.Open space ∧ r.quiet = false ∧ r.type.outermost = t
    ∧ t.space ≠ space ∧ t.space ≠ ""
  /-- Every other one with its simple name asks for it too. -/
  unrivalled : ∀ r ∈ rs, r.Open space → r.quiet = false → r.type.space ≠ space →
    r.type.space ≠ "" → r.type.top = t.top → r.type.outermost = t
  /-- No open reference is to a type of the namespace, or of the global one, with its
      simple name. -/
  free : ∀ r ∈ rs, r.Open space → r.type.top = t.top → r.type.space ≠ space ∧ r.type.space ≠ ""

/-- Neither the order of the references matters nor that of the nested types around them. -/
theorem Selected.of_perm {space : String} {rs qs : List Site} {t : ClassName}
    (h : Selected space rs t) (hperm : (rs.map Site.content).Perm (qs.map Site.content)) :
    Selected space qs t := by
  have hback : ∀ q ∈ qs, ∃ r ∈ rs, r.quiet = q.quiet ∧ r.type = q.type
      ∧ (r.Open space ↔ q.Open space) := by
    intro q hq
    have hmem : q.content ∈ rs.map Site.content :=
      hperm.mem_iff.mpr (List.mem_map_of_mem hq)
    obtain ⟨r, hr, hcontent⟩ := List.mem_map.mp hmem
    have hparts := hcontent
    simp only [Site.content, Prod.mk.injEq] at hparts
    exact ⟨r, hr, hparts.2.2.1, hparts.2.2.2, Site.open_iff_of_content hcontent space⟩
  obtain ⟨⟨r, hr, hopen, hquiet, htype, hspace⟩, hunrivalled, hfree⟩ := h
  refine ⟨?_, ?_, ?_⟩
  · have hmem : r.content ∈ qs.map Site.content := hperm.mem_iff.mp (List.mem_map_of_mem hr)
    obtain ⟨q, hq, hcontent⟩ := List.mem_map.mp hmem
    have hparts := hcontent
    simp only [Site.content, Prod.mk.injEq] at hparts
    exact ⟨q, hq, (Site.open_iff_of_content hcontent space).mpr hopen, hparts.2.2.1.trans hquiet,
      by rw [hparts.2.2.2]; exact htype, hspace⟩
  · intro q hq
    obtain ⟨r, hr, hquiet, htype, hopen⟩ := hback q hq
    rw [← hquiet, ← htype, ← hopen]
    exact hunrivalled r hr
  · intro q hq
    obtain ⟨r, hr, -, htype, hopen⟩ := hback q hq
    rw [← htype, ← hopen]
    exact hfree r hr

/-! ### The imports of a file -/

namespace SourceFile

/-- The references of a file, with what really stands around them. -/
def mentions (f : SourceFile) : List Site := CSharpGen.mentions {} (f.stream [])

/-- Whether no documentation stands inside other documentation, but for the comment at the
    top. -/
def docsApart (f : SourceFile) : Bool := CSharpGen.docsApart {} (f.stream [])

theorem references_eq_mentions {f : SourceFile} {blame : Blame} {g : Frame} {t : Stream}
    (harranged : Arranged blame ⟨0, false⟩ g (f.stream []) t) (hapart : f.docsApart = true) :
    f.references = f.mentions := by
  have hstart : ({} : Surroundings).Matches {} := ⟨rfl, rfl, rfl, fun _ => rfl, fun _ => rfl⟩
  exact (harranged.sites_eq {} {} hstart hapart).1

theorem mem_importedTypes_iff_selected {f : SourceFile} (hsame : f.references = f.mentions)
    {types : List ClassName} (h : f.importedTypes = .ok types) (t : ClassName) :
    t ∈ types ↔ Selected f.space f.mentions t := by
  rw [mem_importedTypes_iff_references h, hsame]
  simp only [Site.far_iff, ne_eq, Site.near_iff, not_and, not_or]
  constructor
  · rintro ⟨⟨r, hr, ⟨hopen, hspace⟩, hquiet, htype⟩, hunrivalled, hfree⟩
    refine ⟨⟨r, hr, hopen, hquiet, htype, ?_⟩, ?_, ?_⟩
    · rw [← htype]
      exact hspace
    · intro q hq hqopen hqquiet hother hglobal htop
      exact hunrivalled q hq ⟨hqopen, hother, hglobal⟩ hqquiet htop
    · intro q hq hqopen htop
      exact hfree q hq htop hqopen
  · rintro ⟨⟨r, hr, hopen, hquiet, htype, hspace⟩, hunrivalled, hfree⟩
    refine ⟨⟨r, hr, ⟨hopen, ?_⟩, hquiet, htype⟩, ?_, ?_⟩
    · rw [← htype] at hspace
      exact hspace
    · rintro q hq ⟨hqopen, hother, hglobal⟩ hqquiet htop
      exact hunrivalled q hq hqopen hqquiet hother hglobal htop
    · intro q hq htop hqopen
      exact hfree q hq hqopen htop

theorem importedTypes_of_arranged {f g : SourceFile} {blame : Blame} {k : Frame}
    (harranged : Arranged blame ⟨0, false⟩ k (f.stream []) (g.stream [])) {types : List ClassName}
    (h : f.importedTypes = .ok types) : ∃ types', g.importedTypes = .ok types' := by
  obtain ⟨found, hcollect, -⟩ := collect_of_importedTypes h
  obtain ⟨w, hw, -⟩ := run_of_collect hcollect
  obtain ⟨w', hw'⟩ := harranged.run_of_run hw (g.session [])
  refine ⟨Ordered.sort ClassName.canonical (w'.names.imports.map Prod.snd), ?_⟩
  simp only [importedTypes, collect, hw', bind, Except.bind, pure, Except.pure]

/-- Two lists in strictly increasing order are the same if their members are. -/
theorem eq_of_increasing {as bs : List ClassName}
    (ha : as.Pairwise fun a b => a.canonical < b.canonical)
    (hb : bs.Pairwise fun a b => a.canonical < b.canonical) (h : ∀ c, c ∈ as ↔ c ∈ bs) :
    as = bs := by
  have hnodup : ∀ {cs : List ClassName}, (cs.Pairwise fun a b => a.canonical < b.canonical) →
      cs.Nodup := by
    intro cs hcs
    refine hcs.imp ?_
    rintro a b hab rfl
    exact lt_irrefl _ hab
  have hperm := (List.perm_ext_iff_of_nodup (hnodup ha) (hnodup hb)).mpr h
  refine hperm.eq_of_pairwise ?_ ha hb
  intro a b _ _ hab hba
  exact absurd hab (lt_asymm hba)

/-- **The imports are the selected types by canonical name, and they do not depend on the
    order of members.** -/
theorem importedTypes_selected {f : SourceFile} (hf : Obtainable (.built .file f))
    (hapart : f.docsApart = true) {types : List ClassName} (h : f.importedTypes = .ok types) :
    (types.Pairwise fun a b => a.canonical < b.canonical)
      ∧ (∀ t, t ∈ types ↔ Selected f.space f.mentions t)
      ∧ ∀ g, f.Rearranged g → g.importedTypes = .ok types := by
  have hfit : f.Fit := hf.fit
  have hsame := references_eq_mentions (Item.Fit.arranged (i := .built .file f) hfit) hapart
  have hselected := mem_importedTypes_iff_selected hsame h
  refine ⟨importedTypes_increasing h, hselected, ?_⟩
  intro g hg
  have harranged := hg.arranged hfit
  have hspace : g.space = f.space := by
    obtain ⟨⟩ := hg
    rfl
  obtain ⟨types', h'⟩ := importedTypes_of_arranged harranged h
  have hapart' : g.docsApart = true := (harranged.docsApart_eq {} {} rfl).symm.trans hapart
  have hselected' := mem_importedTypes_iff_selected
    (references_eq_mentions harranged.symm hapart') h'
  have hperm : ((f.mentions).map Site.content).Perm (g.mentions.map Site.content) :=
    harranged.perm_mentions {} {} rfl
  -- Both lists are in strictly increasing order and have the same members.
  have hmem : ∀ t, t ∈ types' ↔ t ∈ types := by
    intro t
    rw [hselected, hselected', hspace]
    exact ⟨fun ht => ht.of_perm hperm.symm, fun ht => ht.of_perm hperm⟩
  rw [h', eq_of_increasing (importedTypes_increasing h') (importedTypes_increasing h) hmem]

/-- The file `orders` with its fields in the other order. -/
def ordersBack : SourceFile :=
  .bare "Shop" (.bareClass "Order"
    [.bare ⟨"Money", "Amount", []⟩ "total", .bare ⟨"Shop", "Customer", []⟩ "buyer"] [])

theorem obtainable_bareField (type : ClassName) {name : String}
    (hname : Identifier.isValid name = true) : Obtainable (.built .field (.bare type name)) := by
  refine .built (.opened (.field (.named type) name) (by simp)) ?_
  simp only [Construct.build, Field.Draft.build, hname]
  rfl

theorem obtainable_bareClass {name : String} (hname : Identifier.isValid name = true)
    {fields : List (Field TypeDecl)}
    (hfields : ∀ x ∈ fields, x.modifiers = .empty ∧ Obtainable (.built .field x)) :
    Obtainable (.built .type (.bareClass name fields [])) := by
  -- The fields are added one by one to those that are there.
  have hadd : ∀ (fields done : List (Field TypeDecl)),
      (∀ x ∈ fields, x.modifiers = .empty ∧ Obtainable (.built .field x)) →
      Reachable .type { TypeDecl.Draft.named .classKind name with fields := done } →
      Reachable .type { TypeDecl.Draft.named .classKind name with fields := done ++ fields } := by
    intro fields
    induction fields with
    | nil =>
      intro done _ h
      simpa using h
    | cons x rest ih =>
      intro done hall h
      obtain ⟨hplain, hx⟩ := hall x (by simp)
      have hmember : TypeKind.classKind.checkMember .field x.modifiers = .ok () := by
        rw [hplain]
        rfl
      have hedited := Reachable.edited (k := .type) (e := TypeDecl.Edit.addField x) h
        (by simpa [Construct.handed] using hx)
      simp only [Construct.apply, TypeDecl.Draft.apply, TypeDecl.Draft.named, Identity.kind,
        hmember] at hedited
      have hrest := ih _ (fun y hy => hall y (List.mem_cons_of_mem _ hy)) hedited
      simpa using hrest
  have hcheck : ({ TypeDecl.Draft.named .classKind name with fields := fields } :
      TypeDecl.Draft).check = .ok () := by
    simp only [TypeDecl.Draft.check, TypeDecl.Draft.named, Identity.name?, hname]
    rfl
  refine .built (hadd fields [] hfields (.opened (.named .classKind name) (by simp))) ?_
  simp only [Construct.build, TypeDecl.Draft.build, List.nil_append, hcheck]
  rfl

theorem obtainable_orders_type : Obtainable (.built .type orders.type) := by
  refine obtainable_bareClass (by decide) (List.forall_mem_cons.mpr ⟨?_, ?_⟩)
  · exact ⟨rfl, obtainable_bareField _ (by decide)⟩
  · exact List.forall_mem_singleton.mpr ⟨rfl, obtainable_bareField _ (by decide)⟩

theorem obtainable_orders : Obtainable (.built .file orders) :=
  .built (.opened (.file "Shop" orders.type)
    (List.forall_mem_singleton.mpr obtainable_orders_type)) rfl

theorem docsApart_orders : orders.docsApart = true := by
  decide +kernel

theorem importedTypes_orders : orders.importedTypes = .ok [⟨"Money", "Amount", []⟩] :=
  Except.eq_ok_of_toOption (by decide +kernel)

theorem rearranged_orders : orders.Rearranged ordersBack := by
  refine @Rearranged.of _ .empty _ _ _ _ _ (by intro p hp; cases hp) ?_
  refine TypeDecl.Rearranged.layer (d := ⟨.named .classKind "Order", .empty, [], .empty, [], none,
    [], [], [⟨"buyer", .named ⟨"Shop", "Customer", []⟩, .empty, [], .empty, none⟩,
      ⟨"total", .named ⟨"Money", "Amount", []⟩, .empty, [], .empty, none⟩], .empty, .empty, [], [],
    [], [], []⟩) (.of [] (.refl _) (.swap _ _ _) (.refl _) (.refl _) (.refl _) (.refl _)) ?_
  intro p hp
  cases hp

theorem importedTypes_selected_orders : Obtainable (.built .file orders)
    ∧ orders.docsApart = true ∧ orders.Rearranged ordersBack
    ∧ ∃ types, orders.importedTypes = .ok types ∧ types = [⟨"Money", "Amount", []⟩]
      ∧ Selected "Shop" orders.mentions ⟨"Money", "Amount", []⟩
      ∧ ordersBack.importedTypes = .ok types := by
  obtain ⟨-, hselected, hrearranged⟩ :=
    importedTypes_selected obtainable_orders docsApart_orders importedTypes_orders
  exact ⟨obtainable_orders, docsApart_orders, rearranged_orders, _, importedTypes_orders, rfl,
    (hselected _).mp (by simp), hrearranged _ rearranged_orders⟩

/-- A comment that declares a class, and a reference to that class in it. -/
def annotated : SourceFile :=
  { bare "App" (.bareClass "Main" [.bare ⟨"Other", "X", []⟩ "f"] []) with
    comment := ⟨[.declaration (.bareClass "X" [.bare ⟨"App", "X", []⟩ "g"] [])], 0⟩ }

/-- **A declaration in the comment hides a near type**: the reference to `App.X` stands in
    no type of that name but the one in the comment, and yet it does not keep `Other.X` from
    being imported. -/
theorem remark_hides_near_type : Obtainable (.built .file annotated)
    ∧ annotated.docsApart = true
    ∧ (∃ types, annotated.importedTypes = .ok types ∧ ⟨"Other", "X", []⟩ ∈ types)
    ∧ annotated.typeName = "Main"
    ∧ ∃ r ∈ annotated.mentions, r.type = ⟨annotated.space, "X", []⟩
      ∧ (∀ vs ∈ r.typeVars, "X" ∉ vs)
      ∧ ∀ outer, outer = none ∨ outer = some annotated.typeName →
        ∀ d, ¬ Denotes ⟨annotated.space, []⟩ outer r.scopes "X" d := by
  have htypes : annotated.importedTypes = .ok [⟨"Other", "X", []⟩] :=
    Except.eq_ok_of_toOption (by decide +kernel)
  have hmention : ⟨[⟨some "X", []⟩], [[]], true, ⟨"App", "X", []⟩⟩ ∈ annotated.mentions := by
    decide +kernel
  refine ⟨?_, by decide +kernel, ⟨_, htypes, by simp⟩, rfl, _, hmention, rfl, by simp, ?_⟩
  · have hclass : ∀ {name field : String} (type : ClassName), Identifier.isValid name = true →
        Identifier.isValid field = true →
        Obtainable (.built .type (.bareClass name [.bare type field] [])) := by
      intro name field type hname hfield
      exact obtainable_bareClass hname
        (List.forall_mem_singleton.mpr ⟨rfl, obtainable_bareField type hfield⟩)
    have hmain : Obtainable (.built .type annotated.type) := hclass _ (by decide) (by decide)
    have hopened : Reachable .file ({ space := "App", type := annotated.type } : Draft) :=
      .opened (.file "App" _) (List.forall_mem_singleton.mpr hmain)
    refine .built (.edited (k := .file) (e := Edit.addComment "$L"
      [.declaration (.bareClass "X" [.bare ⟨"App", "X", []⟩ "g"] [])]) hopened ?_) rfl
    simpa [Construct.handed, Argument.handed] using hclass _ (by decide) (by decide)
  · intro outer houter d hd
    cases hd with
    | nested inside scope around hscopes _ hscope =>
      have hmem : scope ∈ [(⟨some "X", []⟩ : Scope)] := by
        change [(⟨some "X", []⟩ : Scope)] = _ at hscopes
        rw [hscopes]
        simp
      cases List.mem_singleton.mp hmem
      cases hscope
    | outermost _ hname =>
      rcases houter with rfl | rfl
      · cases hname
      · exact absurd hname (by decide)
    | imported type _ _ htype => cases htype

end SourceFile

end CSharpGen
