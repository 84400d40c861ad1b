/-
  CSharpGen/Proofs/Passes.lean
  ============================
  **The two passes over a file agree.**  The second pass runs with imports and
  taken names that the first one could not know, and its `using` section is
  longer, but it fails exactly when the first one does and looks up the same
  references at the same places (`SourceFile.passes_agree`).

  Two facts carry this.  The `using` directives are lines of their own above the
  type, so they leave the shape of the writer as it is
  (`Shape.run_directives`); and the taken names that the first pass ends with
  are settled, so the second pass changes none of them
  (`SourceFile.taken_of_mem_emitted`).
-/
import CSharpGen.Proofs.Tables
import CSharpGen.SourceFile

namespace CSharpGen

/-! ### Lines of their own -/

namespace Shape

/-- A line is about to begin, and a line end would not indent what follows. -/
def Fresh (sh : Shape) : Prop := sh.atLineStart = true ∧ sh.statement ≠ some false

theorem newline_fresh (sh : Shape) : sh.newline.Fresh := by
  refine ⟨rfl, ?_⟩
  cases sh.statement <;> simp [newline]

theorem newline_of_steady {sh : Shape} (h : sh.statement ≠ some false) :
    sh.newline = { sh with atLineStart := true } := by
  unfold newline
  rw [if_neg h]
  rcases hs : sh.statement with _ | _ | _
  · rfl
  · exact absurd hs h
  · rfl

/-- A text that does not begin a continued statement leaves all but the column alone. -/
theorem write_of_steady {sh : Shape} (h : sh.statement ≠ some false) (s : String) :
    ∃ start, sh.write s = { sh with atLineStart := start } := by
  have hline : ∀ (sh : Shape) (line : String),
      ∃ start, sh.writeLine line = { sh with atLineStart := start } := by
    intro sh line
    unfold writeLine
    split
    · exact ⟨sh.atLineStart, rfl⟩
    · exact ⟨false, rfl⟩
  have hlines : ∀ (lines : List String) (sh : Shape), sh.statement ≠ some false →
      ∃ start, lines.foldl (fun sh line => sh.newline.writeLine line) sh
        = { sh with atLineStart := start } := by
    intro lines
    induction lines with
    | nil => intro sh _; exact ⟨sh.atLineStart, rfl⟩
    | cons line rest ih =>
      intro sh hsh
      obtain ⟨start, hstart⟩ := hline sh.newline line
      rw [List.foldl_cons, hstart, newline_of_steady hsh]
      obtain ⟨stop, hstop⟩ := ih { sh with atLineStart := start } hsh
      exact ⟨stop, hstop⟩
  obtain ⟨start, hstart⟩ := hline sh (Text.split '\n' s).1
  obtain ⟨stop, hstop⟩ := hlines (Text.split '\n' s).2 { sh with atLineStart := start } h
  refine ⟨stop, ?_⟩
  simp only [write, hstart]
  exact hstop

theorem write_append_newline (sh : Shape) (s : String) :
    sh.write (s ++ "\n") = (sh.write s).newline := by
  have hcut : ∀ cs : List Char, Text.cutAll '\n' (cs ++ ['\n'])
      = ((Text.cutAll '\n' cs).1, (Text.cutAll '\n' cs).2 ++ [[]]) := by
    intro cs
    induction cs with
    | nil => rfl
    | cons c cs ih => by_cases h : c = '\n' <;> simp [Text.cutAll, h, ih]
  have hsplit : Text.split '\n' (s ++ "\n")
      = ((Text.split '\n' s).1, (Text.split '\n' s).2 ++ [""]) := by
    have hlist : (s ++ "\n").toList = s.toList ++ ['\n'] := by rw [String.toList_append]; rfl
    simp only [Text.split, hlist, hcut]
    simp
  unfold write
  rw [hsplit]
  simp [List.foldl_append, writeLine]

theorem write_line_of_fresh {sh : Shape} (h : sh.Fresh) (s : String) :
    sh.write (s ++ "\n") = sh := by
  obtain ⟨hstart, hsteady⟩ := h
  obtain ⟨start, hwrite⟩ := write_of_steady hsteady s
  have hend : ({ sh with atLineStart := start } : Shape).newline
      = { sh with atLineStart := true } := newline_of_steady hsteady
  rw [write_append_newline, hwrite, hend, ← hstart]

/-- **Directives leave the shape as it is.** -/
theorem run_directives {sh : Shape} (h : sh.Fresh) (lead : String) (names : List String) :
    sh.run (SourceFile.directives lead names) = .ok sh := by
  have hline : ∀ name, sh.step (.text (lead ++ name ++ ";\n")) = .ok sh := by
    intro name
    have heq : lead ++ name ++ ";\n" = (lead ++ name ++ ";") ++ "\n" := by
      rw [show (";\n" : String) = ";" ++ "\n" from rfl, ← String.append_assoc]
    simp only [step, heq, write_line_of_fresh h]
  have hlast : sh.run [.text "\n"] = .ok sh := by
    have := write_line_of_fresh h ""
    simp only [String.empty_append] at this
    simp [run, step, this, bind, Except.bind]
  have hlines : ∀ names : List String,
      sh.run (names.map (fun name => .text (lead ++ name ++ ";\n"))) = .ok sh := by
    intro names
    induction names with
    | nil => rfl
    | cons name rest ih =>
      simp only [List.map_cons, run, hline name, bind, Except.bind]
      exact ih
  unfold SourceFile.directives
  split
  · rfl
  · rw [run_append, hlines names]
    exact hlast

end Shape

/-! ### The instructions of a file -/

namespace SourceFile

/-- The `using` section of a file does not change how its instructions run. -/
theorem shape_run_stream (f : SourceFile) (imports : Table ClassName) :
    ({} : Shape).run (f.stream imports) = ({} : Shape).run (f.stream []) := by
  have hcomment : ∀ sh, ({} : Shape).run f.commentStream = .ok sh → sh.Fresh := by
    intro sh h
    unfold commentStream at h
    split at h
    · cases h
      exact ⟨rfl, by simp⟩
    · rw [Shape.run_append] at h
      cases hrun : ({} : Shape).run
          (f.comment.commentStream f.statics (TypeDecl.stream f.statics)) with
      | error e => rw [hrun] at h; cases h
      | ok mid =>
        rw [hrun] at h
        have hlast := Shape.write_append_newline mid ""
        simp only [String.empty_append] at hlast
        simp only [Except.bind, Shape.run, Shape.step, bind, Except.ok.injEq] at h
        rw [← h, hlast]
        exact Shape.newline_fresh _
  -- Behind the comment both runs are at the same fresh line, and stay there.
  have hstream : ∀ imports : Table ClassName, ({} : Shape).run (f.stream imports)
      = (({} : Shape).run f.commentStream).bind fun sh =>
        sh.run (directives "using static " (f.statics.map ClassName.canonical)
          ++ f.bodyStream) := by
    intro imports
    unfold stream
    rw [List.append_assoc, List.append_assoc, Shape.run_append]
    cases hrun : ({} : Shape).run f.commentStream with
    | error e => rfl
    | ok sh =>
      simp only [Except.bind]
      rw [Shape.run_append, Shape.run_directives (hcomment sh hrun)]
      rfl
  rw [hstream imports, hstream []]

theorem sites_directives (p : Position) (lead : String) (names : List String) :
    sites p (directives lead names) = []
      ∧ (directives lead names).foldl Position.after p = p := by
  have htexts : ∀ s : Stream, (∀ i ∈ s, ∃ t, i = .text t) →
      sites p s = [] ∧ s.foldl Position.after p = p := by
    intro s
    induction s with
    | nil => intro _; exact ⟨rfl, rfl⟩
    | cons i rest ih =>
      intro h
      obtain ⟨t, rfl⟩ := h i (by simp)
      exact ih fun j hj => h j (List.mem_cons_of_mem _ hj)
  apply htexts
  intro i hi
  unfold directives at hi
  split at hi
  · cases hi
  · rcases List.mem_append.mp hi with hi | hi
    · obtain ⟨name, -, rfl⟩ := List.mem_map.mp hi
      exact ⟨_, rfl⟩
    · exact ⟨_, List.mem_singleton.mp hi⟩

theorem sites_stream (f : SourceFile) (imports : Table ClassName) :
    sites {} (f.stream imports) = sites {} f.commentStream
      ++ sites (f.commentStream.foldl Position.after {}) f.bodyStream := by
  unfold stream
  simp only [sites_append, List.foldl_append, (sites_directives _ _ _).1,
    (sites_directives _ _ _).2, List.append_nil]

end SourceFile

/-! ### What the passes look up -/

/-- The type that a reference asks to be imported: a far one, outside comments. -/
def Site.claimed? (setting : Setting) (r : Site) : Option ClassName :=
  if r.rule setting = .far ∧ r.quiet = false then some r.type.outermost else none

/-- The types that some look-ups claim for import, in order. -/
def Lookup.claimed (setting : Setting) (ls : List Lookup) : List ClassName :=
  ls.filterMap fun l => l.site.claimed? setting

namespace Names

/-- What has been asked for import. -/
def wanted (names : Names) : Table ClassName × List String := (names.claims, names.ambiguous)

/-- The names after some types have been claimed in order. -/
def claimAll (names : Names) (tops : List ClassName) : Names := tops.foldl claim names

theorem wanted_claim {a b : Names} (h : a.wanted = b.wanted) (top : ClassName) :
    (a.claim top).wanted = (b.claim top).wanted := by
  obtain ⟨hclaims, hambiguous⟩ := Prod.mk.inj h
  unfold claim
  rw [hclaims, hambiguous]
  cases b.claims.get? top.top with
  | none => rfl
  | some first =>
    simp only
    split
    · exact h
    · rfl

theorem wanted_claimAll {a b : Names} (h : a.wanted = b.wanted) (tops : List ClassName) :
    (a.claimAll tops).wanted = (b.claimAll tops).wanted := by
  induction tops generalizing a b with
  | nil => exact h
  | cons top rest ih => exact ih (wanted_claim h top)

/-- A reference that claims a type does so by `claim`, and no other one touches the
    claims. -/
theorem wanted_visit (setting : Setting) (names : Names) (r : Site) :
    (names.visit setting r).wanted
      = (names.claimAll (r.claimed? setting).toList).wanted := by
  rw [visit_eq_rule]
  by_cases hclaim : r.rule setting = .far ∧ r.quiet = false
  · have hclaimed : r.claimed? setting = some r.type.outermost := if_pos hclaim
    rw [hclaimed, hclaim.1, hclaim.2]
    have hmoved : (names.moveTo r.scopes r.typeVars).wanted = names.wanted := rfl
    exact wanted_claim hmoved r.type.outermost
  · have hclaimed : r.claimed? setting = none := if_neg hclaim
    rw [hclaimed]
    cases hrule : r.rule setting with
    | shadowed | known depth | hidden => rfl
    | near =>
      cases hres : (names.moveTo r.scopes r.typeVars).reserve? r.type.outermost with
      | none => rfl
      | some next =>
        rcases reserve?_cases hres with ⟨rfl, -⟩ | ⟨rfl, -⟩
        · rfl
        · rfl
    | far =>
      cases hquiet : r.quiet with
      | true => rfl
      | false => exact absurd ⟨hrule, hquiet⟩ hclaim

/-- **The claims of a run are made by its far references outside comments**, and by
    nothing else. -/
theorem wanted_foldl_visit (setting : Setting) (names : Names) (rs : List Site) :
    (rs.foldl (visit setting) names).wanted
      = (names.claimAll (rs.filterMap (Site.claimed? setting))).wanted := by
  induction rs generalizing names with
  | nil => rfl
  | cons r rest ih =>
    have hlist : (r :: rest).filterMap (Site.claimed? setting)
        = (r.claimed? setting).toList ++ rest.filterMap (Site.claimed? setting) := by
      cases h : r.claimed? setting <;> simp [h]
    calc (rest.foldl (visit setting) (names.visit setting r)).wanted
      _ = ((names.visit setting r).claimAll (rest.filterMap (Site.claimed? setting))).wanted :=
        ih (names.visit setting r)
      _ = ((names.claimAll (r.claimed? setting).toList).claimAll
          (rest.filterMap (Site.claimed? setting))).wanted :=
        wanted_claimAll (wanted_visit setting names r) _
      _ = (names.claimAll ((r :: rest).filterMap (Site.claimed? setting))).wanted := by
        rw [hlist, claimAll, claimAll, claimAll, List.foldl_append]

end Names

namespace SourceFile

/-- The look-ups of the first pass. -/
def collected (f : SourceFile) : List Lookup :=
  Writer.lookups (f.session []) {} (f.stream [])

/-- The imports of a file, by simple name; none if its first pass fails. -/
def imports (f : SourceFile) : Table ClassName :=
  match f.collect with
  | .ok found => found.imports
  | .error _ => []

/-- Where the second pass looks names up. -/
def setting (f : SourceFile) : Setting := ⟨f.space, f.imports⟩

/-- The look-ups of the second pass; none if the first one fails. -/
def emitted (f : SourceFile) : List Lookup :=
  match f.collect with
  | .ok found =>
    Writer.lookups (f.session found.imports) { names := { taken := found.taken } }
      (f.stream found.imports)
  | .error _ => []

/-- The references of the second pass with what is written for them. -/
def spellings (f : SourceFile) : List (Site × String) :=
  f.emitted.map fun l => (l.site, l.text f.setting)

theorem lookup_of_spelling {f : SourceFile} {r : Site} {s : String} (h : (r, s) ∈ f.spellings) :
    ∃ l ∈ f.emitted, l.site = r ∧ l.names.scopes = r.scopes ∧ l.names.typeVariables = r.typeVars
      ∧ l.type = r.type ∧ l.text f.setting = s := by
  obtain ⟨l, hl, heq⟩ := List.mem_map.mp h
  cases heq
  exact ⟨l, hl, rfl, rfl, rfl, rfl, rfl⟩

/-- The references of a file. -/
def references (f : SourceFile) : List Site := sites {} (f.stream [])

theorem references_eq (f : SourceFile) (imports : Table ClassName) :
    sites {} (f.stream imports) = f.references := by
  unfold references
  rw [sites_stream, sites_stream]

section Collect

variable {f : SourceFile} {found : Names}

theorem run_of_collect (h : f.collect = .ok found) :
    ∃ w : Writer, Writer.run (f.session []) {} (f.stream []) = .ok w ∧ w.names = found := by
  unfold collect Stream.run at h
  cases hrun : Writer.run (f.session []) {} (f.stream []) with
  | error e => rw [hrun] at h; cases h
  | ok w =>
    rw [hrun] at h
    cases h
    exact ⟨w, rfl, rfl⟩

theorem collect_tables (h : f.collect = .ok found) :
    let folded := f.references.foldl (Names.visit ⟨f.space, []⟩) {}
    found.claims = folded.claims ∧ found.ambiguous = folded.ambiguous
      ∧ found.taken = folded.taken := by
  obtain ⟨w, hrun, rfl⟩ := run_of_collect h
  have hnames := Writer.names_run hrun
  simp only
  rw [hnames]
  exact ⟨rfl, rfl, rfl⟩

theorem collect_spec (h : f.collect = .ok found) :
    found.Sound f.space ∧ ∀ r ∈ f.references,
      (r.rule ⟨f.space, []⟩ = .near → Names.Settled found.taken r.type.outermost)
      ∧ (r.rule ⟨f.space, []⟩ = .far → r.quiet = false → found.Claimed r.type.outermost) := by
  obtain ⟨hclaims, hambiguous, htaken⟩ := collect_tables h
  obtain ⟨hsound, -, hall⟩ :=
    Names.foldl_visit_spec ⟨f.space, []⟩ (Names.Sound.empty f.space) f.references
  refine ⟨⟨?_, ?_, ?_⟩, ?_⟩
  · rw [htaken]; exact hsound.taken
  · rw [hclaims]; exact hsound.claims
  · rw [hclaims]; exact hsound.keyed
  · intro r hr
    obtain ⟨hnear, hfar⟩ := hall r hr
    refine ⟨fun hrule => by rw [htaken]; exact hnear hrule, fun hrule hquiet => ?_⟩
    obtain ⟨first, hfirst, hor⟩ := hfar hrule hquiet
    exact ⟨first, by rw [hclaims]; exact hfirst, by rw [hambiguous]; exact hor⟩

theorem emit_of_collect (h : f.collect = .ok found) : ∃ w, f.emit found = .ok w := by
  obtain ⟨w, hrun, rfl⟩ := run_of_collect h
  have hfirst := Writer.shape_run (f.session []) {} (f.stream [])
  have hsecond := Writer.shape_run (f.session w.names.imports)
    { names := { taken := w.names.taken } } (f.stream w.names.imports)
  have hshape : ({ names := { taken := w.names.taken } } : Writer).shape = ({} : Shape) := rfl
  have hstart : ({} : Writer).shape = ({} : Shape) := rfl
  rw [hshape, shape_run_stream, ← hstart, ← hfirst, hrun] at hsecond
  unfold emit
  cases hemit : Writer.run (f.session w.names.imports)
      { names := { taken := w.names.taken } } (f.stream w.names.imports) with
  | error e => rw [hemit] at hsecond; cases hsecond
  | ok v => exact ⟨v, rfl⟩

theorem collect_of_render {text : String} (h : f.render = .ok text) :
    ∃ found, f.collect = .ok found := by
  obtain ⟨found, hcollect, -⟩ := Except.bind_eq_ok h
  exact ⟨found, hcollect⟩

theorem collect_of_mem_emitted {l : Lookup} (h : l ∈ f.emitted) :
    ∃ found, f.collect = .ok found := by
  cases hcollect : f.collect with
  | ok found => exact ⟨found, rfl⟩
  | error e => simp [emitted, hcollect] at h

theorem imports_of_collect (h : f.collect = .ok found) : f.imports = found.imports := by
  simp [imports, h]

theorem collect_of_importedTypes {types : List ClassName} (h : f.importedTypes = .ok types) :
    ∃ found, f.collect = .ok found
      ∧ types = Ordered.sort ClassName.canonical (found.imports.map Prod.snd) := by
  obtain ⟨found, hcollect, h⟩ := Except.bind_eq_ok h
  cases h
  exact ⟨found, hcollect, rfl⟩

theorem mem_importedTypes_iff {types : List ClassName} (h : f.importedTypes = .ok types)
    (k : ClassName) : k ∈ types ↔ f.imports.get? k.top = some k := by
  obtain ⟨found, hcollect, rfl⟩ := collect_of_importedTypes h
  rw [Ordered.mem_sort, imports_of_collect hcollect]
  exact (collect_spec hcollect).1.mem_imports_iff k

theorem emitted_eq_trace (h : f.collect = .ok found) :
    f.emitted = Names.trace f.setting { taken := found.taken } f.references := by
  obtain ⟨w, hw⟩ := emit_of_collect h
  have htrace := Writer.lookups_eq_trace hw
  have hemitted : f.emitted = Writer.lookups (f.session found.imports)
      { names := { taken := found.taken } } (f.stream found.imports) := by
    simp [emitted, h]
  rw [hemitted, htrace, ← references_eq f found.imports, setting, imports_of_collect h]
  rfl

theorem names_of_emit (h : f.collect = .ok found) {w : Writer} (hw : f.emit found = .ok w) :
    w.names = (f.references.foldl (Names.visit f.setting) { taken := found.taken }).moveTo
      w.position.scopes w.position.typeVars := by
  have hnames := Writer.names_run hw
  rw [hnames, ← references_eq f found.imports, setting, imports_of_collect h]
  rfl

theorem collected_eq_trace (h : f.collect = .ok found) :
    f.collected = Names.trace ⟨f.space, []⟩ {} f.references := by
  obtain ⟨w, hrun, -⟩ := run_of_collect h
  exact Writer.lookups_eq_trace hrun

theorem settled_of_rule_near (h : f.collect = .ok found) {r : Site} (hr : r ∈ f.references)
    (hrule : r.rule f.setting = .near) : Names.Settled found.taken r.type.outermost :=
  ((collect_spec h).2 r hr).1 (Site.rule_near_of_imports hrule)

/-- **The second pass never changes the taken names.** -/
theorem taken_of_mem_emitted (h : f.collect = .ok found) {l : Lookup} (hl : l ∈ f.emitted) :
    l.site ∈ f.references ∧ l.names.taken = found.taken := by
  rw [emitted_eq_trace h] at hl
  obtain ⟨before, r, after, hsplit, rfl⟩ := Names.mem_trace_iff.mp hl
  have hbefore : ∀ q ∈ before, q.rule f.setting = .near →
      Names.Settled ({ taken := found.taken } : Names).taken q.type.outermost := by
    intro q hq hrule
    exact settled_of_rule_near h (by rw [hsplit]; exact List.mem_append_left _ hq) hrule
  refine ⟨?_, Names.taken_foldl_of_settled hbefore⟩
  rw [hsplit]
  exact List.mem_append_right _ List.mem_cons_self

/-- A near type that the second pass writes by its simple names has taken the first of
    them. -/
theorem taken_of_near (h : f.collect = .ok found) {l : Lookup} (hl : l ∈ f.emitted)
    (hrule : l.names.rule f.setting l.type = .near)
    (hreserve : (l.names.reserve? l.type.outermost).isSome = true) :
    found.taken.get? l.type.top = some l.type.outermost := by
  obtain ⟨hsite, htaken⟩ := taken_of_mem_emitted h hl
  have hsettled : Names.Settled l.names.taken l.type.outermost := by
    rw [htaken]
    exact settled_of_rule_near h hsite hrule
  rw [← htaken]
  exact (Names.reserve?_of_settled l.type.outermost rfl hsettled).2.mp hreserve

theorem valid_of_mem_emitted (h : f.collect = .ok found) {l : Lookup} (hl : l ∈ f.emitted) :
    l.type.Valid := by
  obtain ⟨w, hrun, -⟩ := run_of_collect h
  exact Writer.valid_of_mem_sites hrun l.site (taken_of_mem_emitted h hl).1

end Collect

theorem claimed_sublist (space : String) (imports : Table ClassName) (rs : List Site) :
    (rs.filterMap (Site.claimed? ⟨space, imports⟩)).Sublist
      (rs.filterMap (Site.claimed? ⟨space, []⟩)) := by
  induction rs with
  | nil => exact List.Sublist.slnil
  | cons r rest ih =>
    by_cases hclaim : r.rule ⟨space, imports⟩ = .far ∧ r.quiet = false
    · have hsecond : r.claimed? ⟨space, imports⟩ = some r.type.outermost := if_pos hclaim
      have hfirst : r.claimed? ⟨space, []⟩ = some r.type.outermost :=
        if_pos ⟨Site.rule_far_of_imports hclaim.1, hclaim.2⟩
      rw [List.filterMap_cons_some hsecond, List.filterMap_cons_some hfirst]
      exact ih.cons_cons _
    · have hsecond : r.claimed? ⟨space, imports⟩ = none := if_neg hclaim
      rw [List.filterMap_cons_none hsecond]
      cases hfirst : r.claimed? ⟨space, []⟩ with
      | none => rw [List.filterMap_cons_none hfirst]; exact ih
      | some top => rw [List.filterMap_cons_some hfirst]; exact ih.cons _

theorem claimed_trace (setting : Setting) (names : Names) (rs : List Site) :
    Lookup.claimed setting (names.trace setting rs) = rs.filterMap (Site.claimed? setting) := by
  have hmap : Lookup.claimed setting (names.trace setting rs)
      = ((names.trace setting rs).map Lookup.site).filterMap (Site.claimed? setting) := by
    rw [List.filterMap_map]
    rfl
  rw [hmap, Names.trace_site]

/-- **The two passes agree.**  They fail alike; and when they succeed, the second one
    makes the same references at the same places, ends with the taken names that it
    started from, and claims no type that the first one has not claimed. -/
theorem passes_agree (f : SourceFile) :
    (∀ e, f.render = .error e ↔ f.importedTypes = .error e)
      ∧ ((∃ text, f.render = .ok text) ↔ ∃ types, f.importedTypes = .ok types)
      ∧ ∀ found, f.collect = .ok found → ∃ w, f.emit found = .ok w
        ∧ f.emitted.map Lookup.site = f.collected.map Lookup.site
        ∧ w.names.taken = found.taken
        ∧ found.wanted
          = (Names.claimAll {} (Lookup.claimed ⟨f.space, []⟩ f.collected)).wanted
        ∧ w.names.wanted = (Names.claimAll {} (Lookup.claimed f.setting f.emitted)).wanted
        ∧ (Lookup.claimed f.setting f.emitted).Sublist
          (Lookup.claimed ⟨f.space, []⟩ f.collected) := by
  have hresults : (∃ e, f.render = .error e ∧ f.importedTypes = .error e)
      ∨ ∃ text types, f.render = .ok text ∧ f.importedTypes = .ok types := by
    cases hcollect : f.collect with
    | error e =>
      refine Or.inl ⟨e, ?_, ?_⟩
      · simp only [render, hcollect, bind, Except.bind]
      · simp only [importedTypes, hcollect, bind, Except.bind]
    | ok found =>
      obtain ⟨w, hw⟩ := emit_of_collect hcollect
      refine Or.inr ⟨w.text f.style.layout,
        Ordered.sort ClassName.canonical (found.imports.map Prod.snd), ?_, ?_⟩
      · simp only [render, hcollect, hw, bind, Except.bind, pure, Except.pure]
      · simp only [importedTypes, hcollect, bind, Except.bind, pure, Except.pure]
  refine ⟨?_, ?_, ?_⟩
  · rcases hresults with ⟨e, hrender, htypes⟩ | ⟨text, types, hrender, htypes⟩
    · simp [hrender, htypes]
    · simp [hrender, htypes]
  · rcases hresults with ⟨e, hrender, htypes⟩ | ⟨text, types, hrender, htypes⟩
    · simp [hrender, htypes]
    · simp [hrender, htypes]
  · intro found hcollect
    obtain ⟨w, hw⟩ := emit_of_collect hcollect
    have hnames := names_of_emit hcollect hw
    obtain ⟨hclaims, hambiguous, -⟩ := collect_tables hcollect
    rw [emitted_eq_trace hcollect, collected_eq_trace hcollect, claimed_trace, claimed_trace,
      Names.trace_site, Names.trace_site]
    refine ⟨w, hw, rfl, ?_, ?_, ?_, claimed_sublist f.space f.imports f.references⟩
    · rw [hnames]
      exact Names.taken_foldl_of_settled fun r hr => settled_of_rule_near hcollect hr
    · rw [← Names.wanted_foldl_visit]
      exact Prod.ext hclaims hambiguous
    · have hwanted : w.names.wanted = (f.references.foldl (Names.visit f.setting)
          { taken := found.taken }).wanted := by
        rw [hnames]
        rfl
      have hstart : ({ taken := found.taken } : Names).wanted = ({} : Names).wanted := rfl
      rw [hwanted, Names.wanted_foldl_visit]
      exact Names.wanted_claimAll hstart _

end SourceFile

/-! ### A small file -/

/-- A field without documentation, attributes, modifiers and initializer. -/
def Field.bare (type : ClassName) (name : String) : Field TypeDecl :=
  ⟨name, .named type, .empty, [], .empty, none⟩

/-- A class that has fields and nested types only. -/
def TypeDecl.bareClass (name : String) (fields : List (Field TypeDecl)) (types : List TypeDecl) :
    TypeDecl :=
  .of ⟨.named .classKind name, .empty, [], .empty, [], none, [], [], fields, .empty, .empty, [],
    [], [], types, []⟩

namespace SourceFile

/-- A type in a namespace, with nothing above it and the default style. -/
def bare (space : String) (type : TypeDecl) : SourceFile := ⟨space, .empty, type, [], [], {}⟩

/-- An order refers to one type of its own namespace and to one of another. -/
def orders : SourceFile :=
  .bare "Shop" (.bareClass "Order"
    [.bare ⟨"Shop", "Customer", []⟩ "buyer", .bare ⟨"Money", "Amount", []⟩ "total"] [])

theorem passes_agree_orders : ∃ found w, orders.collect = .ok found ∧ orders.emit found = .ok w
    ∧ found.imports = [("Amount", ⟨"Money", "Amount", []⟩)] ∧ w.names.taken = found.taken := by
  have himports : orders.collect.toOption.map Names.imports
      = some [("Amount", ⟨"Money", "Amount", []⟩)] := by decide +kernel
  obtain ⟨found, hfound, himports⟩ := Option.map_eq_some_iff.mp himports
  have hcollect := Except.eq_ok_of_toOption hfound
  obtain ⟨w, hw, -, htaken, -⟩ := (passes_agree orders).2.2 found hcollect
  exact ⟨found, w, hcollect, hw, himports, htaken⟩

end SourceFile

end CSharpGen
