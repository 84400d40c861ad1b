/-
  CSharpGen/Proofs/Mentions.lean
  ==============================
  **Where types are mentioned.**  The writer remembers by two flags whether it
  is in documentation or in a comment, and the end of a documentation resets its
  flag even where it stands inside another one.  `mentions` reads the references
  off the instructions with what really stands around them, counting the
  documentation that is open.  As long as no documentation stands inside another
  (`docsApart`), the flags are right (`Arranged.sites_eq`).

  The order in which a scope lists its nested types is forgotten by taking them
  as a multiset (`Scope.content`).  Two streams that are put together alike then
  mention the same types at the same places, in some order
  (`Arranged.perm_mentions`), and how a name is looked up depends on nothing else
  (`Site.rule_eq_of_content`).
-/
import CSharpGen.Proofs.Arrangement
import CSharpGen.Proofs.Imports
import Mathlib.Data.Multiset.Basic

namespace CSharpGen

/-! ### Places and mentions -/

/-- What really stands around a place. -/
structure Surroundings where
  scopes : List Scope := []
  typeVars : List (List String) := []
  /-- How many documentations are open. -/
  docs : Nat := 0
  /-- How many comments are open. -/
  comments : Nat := 0

namespace Surroundings

/-- The place behind an instruction. -/
def after (p : Surroundings) : Instruction → Surroundings
  | .enterScope scope => { p with scopes := scope :: p.scopes }
  | .leaveScope => { p with scopes := p.scopes.tail }
  | .enterVariables vs => { p with typeVars := vs :: p.typeVars }
  | .leaveVariables => { p with typeVars := p.typeVars.tail }
  | .openDoc => { p with docs := p.docs + 1 }
  | .closeDoc => { p with docs := p.docs - 1 }
  | .openComment => { p with comments := p.comments + 1 }
  | .closeComment => { p with comments := p.comments - 1 }
  | _ => p

/-- Whether the place is in documentation or in a comment. -/
def quiet (p : Surroundings) : Bool := 0 < p.docs || 0 < p.comments

def mention? (p : Surroundings) : Instruction → Option Site
  | .reference c => some ⟨p.scopes, p.typeVars, p.quiet, c⟩
  | _ => none

/-- Whether an instruction opens neither documentation inside documentation, unless all
    of it is in a comment, nor a comment inside of either. -/
def admits (p : Surroundings) : Instruction → Bool
  | .openDoc => p.docs == 0 || 0 < p.comments
  | .openComment => p.docs == 0 && p.comments == 0
  | _ => true

end Surroundings

/-- The references of some instructions in order, with what really stands around them. -/
def mentions (p : Surroundings) : Stream → List Site
  | [] => []
  | i :: rest => (p.mention? i).toList ++ mentions (p.after i) rest

/-- Whether documentation never opens inside documentation. -/
def docsApart (p : Surroundings) : Stream → Bool
  | [] => true
  | i :: rest => p.admits i && docsApart (p.after i) rest

theorem mentions_append (p : Surroundings) (s t : Stream) :
    mentions p (s ++ t) = mentions p s ++ mentions (s.foldl Surroundings.after p) t := by
  induction s generalizing p with
  | nil => rfl
  | cons i rest ih => simp [mentions, ih]

theorem docsApart_append (p : Surroundings) (s t : Stream) :
    docsApart p (s ++ t) = (docsApart p s && docsApart (s.foldl Surroundings.after p) t) := by
  induction s generalizing p with
  | nil => rfl
  | cons i rest ih => simp [docsApart, ih, Bool.and_assoc]

/-! ### Well-arranged streams come back to where they began -/

theorem Instruction.after_of_isPlain {i : Instruction} (h : i.isPlain = true) (p : Surroundings) :
    p.after i = p := by
  cases i with
  | text | wrapSpace | wrapPoint => rfl
  | _ => cases h

theorem Arranged.place {blame : Blame} {f g : Frame} {s t : Stream}
    (h : Arranged blame f g s t) : ∀ p : Surroundings, s.foldl Surroundings.after p = p := by
  induction h with
  | plain h => exact Instruction.after_of_isPlain h
  | nil | reference | refuse | indent | unindent | openStatement | closeStatement =>
    exact fun _ => rfl
  | doc _ ih | comment _ ih | scope _ _ _ ih | typeVars _ _ ih | aside _ ih =>
    intro p
    simp only [withScope, withVariables, List.foldl_cons, List.foldl_append, ih]
    rfl
  | sink _ _ ih => exact ih
  | append _ _ ih ih' | swap _ _ ih ih' =>
    intro p
    rw [List.foldl_append, ih, ih']
  | trans _ _ ih _ => exact ih

/-! ### The flags of the writer -/

/-- The flags of the writer tell what really stands around the place. -/
structure Surroundings.Matches (q : Surroundings) (p : Position) : Prop where
  scopes : p.scopes = q.scopes
  typeVars : p.typeVars = q.typeVars
  inComment : p.inComment = decide (0 < q.comments)
  inDoc : q.comments = 0 → p.inDoc = decide (0 < q.docs)
  closed : q.docs = 0 → p.inDoc = false

theorem Surroundings.Matches.site?_eq {q : Surroundings} {p : Position} (h : q.Matches p)
    (i : Instruction) : p.site? i = q.mention? i := by
  obtain ⟨hscopes, htypeVars, hcomment, hdoc, -⟩ := h
  cases i with
  | reference c =>
    have hquiet : (p.inDoc || p.inComment) = q.quiet := by
      rw [hcomment, Surroundings.quiet]
      by_cases hzero : q.comments = 0
      · rw [hdoc hzero]
      · simp [Nat.pos_of_ne_zero hzero]
    simp only [Position.site?, Surroundings.mention?, hscopes, htypeVars, hquiet]
  | _ => rfl

/-- **Without documentation inside documentation the flags of the writer are right.** -/
theorem Arranged.sites_eq {blame : Blame} {f g : Frame} {s t : Stream}
    (h : Arranged blame f g s t) : ∀ (q : Surroundings) (p : Position), q.Matches p →
      docsApart q s = true → sites p s = mentions q s ∧ q.Matches (s.foldl Position.after p) := by
  -- What moves neither the place nor the flags.
  have hstay : ∀ (i : Instruction) (q : Surroundings) (p : Position), p.after i = p → q.Matches p →
      sites p [i] = mentions q [i] ∧ q.Matches ([i].foldl Position.after p) := by
    intro i q p hp hmatches
    refine ⟨?_, by simpa [hp] using hmatches⟩
    simp only [sites, mentions, List.append_nil, hmatches.site?_eq]
  -- What opens and closes around a stretch that keeps the place.
  have hbracket : ∀ {s : Stream} {i j : Instruction} {q : Surroundings} {p : Position},
      (∀ (q : Surroundings) (p : Position), q.Matches p → docsApart q s = true →
        sites p s = mentions q s ∧ q.Matches (s.foldl Position.after p)) →
      (∀ p : Surroundings, s.foldl Surroundings.after p = p) →
      (∀ p : Position, p.site? i = none ∧ p.site? j = none) →
      (∀ p : Surroundings, p.mention? i = none ∧ p.mention? j = none) →
      (q.after i).Matches (p.after i) →
      (∀ p' : Position, (q.after i).Matches p' → q.Matches (p'.after j)) →
      docsApart q (i :: (s ++ [j])) = true →
      sites p (i :: (s ++ [j])) = mentions q (i :: (s ++ [j]))
        ∧ q.Matches ((i :: (s ++ [j])).foldl Position.after p) := by
    intro s i j q p ih hplace hsites hmentions henter hleave hapart
    simp only [docsApart, docsApart_append, Bool.and_eq_true] at hapart
    obtain ⟨hsame, hinside⟩ := ih _ _ henter hapart.2.1
    refine ⟨?_, ?_⟩
    · simp only [sites, mentions, sites_append, mentions_append, (hsites _).1, (hsites _).2,
        (hmentions _).1, (hmentions _).2, hsame, Option.toList_none, List.nil_append]
    · simpa using hleave _ hinside
  induction h with
  | nil => exact fun q p hmatches _ => ⟨rfl, hmatches⟩
  | @plain f i hplain =>
    intro q p hmatches _
    refine hstay i q p ?_ hmatches
    cases i with
    | text | wrapSpace | wrapPoint => rfl
    | _ => cases hplain
  | reference | refuse | indent | unindent | openStatement | closeStatement =>
    exact fun q p hmatches _ => hstay _ q p rfl hmatches
  | doc harranged ih =>
    intro q p hmatches hapart
    have hadmits : q.admits .openDoc = true := by
      simp only [docsApart, Bool.and_eq_true] at hapart
      exact hapart.1
    refine hbracket ih harranged.place (fun _ => ⟨rfl, rfl⟩) (fun _ => ⟨rfl, rfl⟩) ?_ ?_ hapart
    · exact ⟨hmatches.scopes, hmatches.typeVars, hmatches.inComment,
        (fun _ => by simp [Surroundings.after, Position.after]), fun hzero => by cases hzero⟩
    · intro p' hinside
      refine ⟨hinside.scopes, hinside.typeVars, hinside.inComment, ?_, fun _ => rfl⟩
      intro hzero
      have hdocs : q.docs = 0 := by simpa [Surroundings.admits, hzero] using hadmits
      simp [Position.after, hdocs]
  | comment harranged ih =>
    intro q p hmatches hapart
    have hadmits : q.docs = 0 ∧ q.comments = 0 := by
      simp only [docsApart, Bool.and_eq_true] at hapart
      simpa [Surroundings.admits] using hapart.1
    refine hbracket ih harranged.place (fun _ => ⟨rfl, rfl⟩) (fun _ => ⟨rfl, rfl⟩) ?_ ?_ hapart
    · exact ⟨hmatches.scopes, hmatches.typeVars, by simp [Surroundings.after, Position.after],
        (fun hzero => by cases hzero), hmatches.closed⟩
    · intro p' hinside
      have hclosed : p'.inDoc = false := hinside.closed hadmits.1
      exact ⟨hinside.scopes, hinside.typeVars, by simp [Position.after, hadmits.2],
        (fun _ => by simp [Position.after, hclosed, hadmits.1]), fun _ => hclosed⟩
  | scope name hnested harranged ih =>
    intro q p hmatches hapart
    refine hbracket ih harranged.place (fun _ => ⟨rfl, rfl⟩) (fun _ => ⟨rfl, rfl⟩) ?_ ?_ hapart
    · exact ⟨by simp [Surroundings.after, Position.after, hmatches.scopes], hmatches.typeVars,
        hmatches.inComment, hmatches.inDoc, hmatches.closed⟩
    · intro p' hinside
      exact ⟨by simp [Position.after, hinside.scopes, Surroundings.after], hinside.typeVars,
        hinside.inComment, hinside.inDoc, hinside.closed⟩
  | typeVars vs harranged ih =>
    intro q p hmatches hapart
    refine hbracket ih harranged.place (fun _ => ⟨rfl, rfl⟩) (fun _ => ⟨rfl, rfl⟩) ?_ ?_ hapart
    · exact ⟨hmatches.scopes, by simp [Surroundings.after, Position.after, hmatches.typeVars],
        hmatches.inComment, hmatches.inDoc, hmatches.closed⟩
    · intro p' hinside
      exact ⟨hinside.scopes, by simp [Position.after, hinside.typeVars, Surroundings.after],
        hinside.inComment, hinside.inDoc, hinside.closed⟩
  | aside harranged ih =>
    intro q p hmatches hapart
    exact hbracket ih harranged.place (fun _ => ⟨rfl, rfl⟩) (fun _ => ⟨rfl, rfl⟩) hmatches
      (fun p' hinside => hinside) hapart
  | sink _ _ ih => exact ih
  | append hst _ ih ih' | swap hst _ ih ih' =>
    intro q p hmatches hapart
    rw [docsApart_append, hst.place, Bool.and_eq_true] at hapart
    obtain ⟨hfirst, hmid⟩ := ih q p hmatches hapart.1
    obtain ⟨hsecond, hend⟩ := ih' q _ hmid hapart.2
    rw [sites_append, mentions_append, hst.place, hfirst, hsecond, List.foldl_append]
    exact ⟨rfl, hend⟩
  | trans _ _ ih _ => exact ih

/-! ### Forgetting the order of nested types -/

/-- A scope without the order of its nested types. -/
def Scope.content (s : Scope) : Option String × Multiset String := (s.name, s.nested)

/-- What stands around a place, without the order of nested types. -/
def Surroundings.content (p : Surroundings) :
    List (Option String × Multiset String) × List (List String) × Nat × Nat :=
  (p.scopes.map Scope.content, p.typeVars, p.docs, p.comments)

/-- A reference without the order of the nested types around it. -/
def Site.content (r : Site) :
    List (Option String × Multiset String) × List (List String) × Bool × ClassName :=
  (r.scopes.map Scope.content, r.typeVars, r.quiet, r.type)

theorem Surroundings.content_eq_iff {p q : Surroundings} :
    p.content = q.content ↔ p.scopes.map Scope.content = q.scopes.map Scope.content
      ∧ p.typeVars = q.typeVars ∧ p.docs = q.docs ∧ p.comments = q.comments := by
  simp [Surroundings.content]

theorem Surroundings.content_after {p q : Surroundings} (h : p.content = q.content)
    (i : Instruction) : (p.after i).content = (q.after i).content := by
  obtain ⟨hscopes, hvars, hdocs, hcomments⟩ := content_eq_iff.mp h
  rw [content_eq_iff]
  cases i with
  | leaveScope => exact ⟨by simp [Surroundings.after, hscopes], hvars, hdocs, hcomments⟩
  | _ => simp [Surroundings.after, *]

theorem Surroundings.content_enterScope {p q : Surroundings} (h : p.content = q.content)
    (name : Option String) {nested nested' : List String} (hnested : nested.Perm nested') :
    (p.after (.enterScope ⟨name, nested⟩)).content
      = (q.after (.enterScope ⟨name, nested'⟩)).content := by
  obtain ⟨hscopes, hvars, hdocs, hcomments⟩ := content_eq_iff.mp h
  have hsame : (nested : Multiset String) = nested' := Multiset.coe_eq_coe.mpr hnested
  rw [content_eq_iff]
  exact ⟨by simp [Surroundings.after, Scope.content, hscopes, hsame], hvars, hdocs, hcomments⟩

theorem Surroundings.content_mention? {p q : Surroundings} (h : p.content = q.content)
    (i : Instruction) : (p.mention? i).map Site.content = (q.mention? i).map Site.content := by
  obtain ⟨hscopes, hvars, hdocs, hcomments⟩ := content_eq_iff.mp h
  cases i with
  | reference c => simp [Surroundings.mention?, Site.content, Surroundings.quiet, *]
  | _ => rfl

namespace Arranged

variable {blame : Blame} {f g : Frame} {s t : Stream}

/-- **Streams that are put together alike mention the same types at the same places.** -/
theorem perm_mentions (h : Arranged blame f g s t) : ∀ p q : Surroundings, p.content = q.content →
    ((mentions p s).map Site.content).Perm ((mentions q t).map Site.content) := by
  have hsingle : ∀ (i : Instruction) (p q : Surroundings), p.content = q.content →
      ((mentions p [i]).map Site.content).Perm ((mentions q [i]).map Site.content) := by
    intro i p q hpq
    have hmention := Surroundings.content_mention? hpq i
    simp only [mentions, List.append_nil, ← Option.toList_map, hmention]
    exact .refl _
  have hbracket : ∀ {s t : Stream} {i i' j : Instruction} {p q : Surroundings},
      (∀ p : Surroundings, p.mention? i = none) → (∀ p : Surroundings, p.mention? i' = none) →
      (∀ p : Surroundings, p.mention? j = none) →
      ((mentions (p.after i) s).map Site.content).Perm
        ((mentions (q.after i') t).map Site.content) →
      ((mentions p (i :: (s ++ [j]))).map Site.content).Perm
        ((mentions q (i' :: (t ++ [j]))).map Site.content) := by
    intro s t i i' j p q hi hi' hj hperm
    simpa [mentions, mentions_append, hi, hi', hj] using hperm
  induction h with
  | nil => exact fun _ _ _ => .refl _
  | plain | reference | refuse | indent | unindent | openStatement | closeStatement =>
    exact hsingle _
  | doc _ ih | comment _ ih | typeVars _ _ ih | aside _ ih =>
    intro p q hpq
    exact hbracket (fun _ => rfl) (fun _ => rfl) (fun _ => rfl)
      (ih _ _ (Surroundings.content_after hpq _))
  | scope name hnested _ ih =>
    intro p q hpq
    exact hbracket (fun _ => rfl) (fun _ => rfl) (fun _ => rfl)
      (ih _ _ (Surroundings.content_enterScope hpq name hnested))
  | sink _ _ ih => exact ih
  | append hst _ ih ih' =>
    intro p q hpq
    rw [mentions_append, mentions_append, hst.place, hst.symm.place, List.map_append,
      List.map_append]
    exact (ih p q hpq).append (ih' p q hpq)
  | swap hst huv ih ih' =>
    intro p q hpq
    rw [mentions_append, mentions_append, hst.place, huv.symm.place, List.map_append,
      List.map_append]
    exact ((ih p q hpq).append (ih' p q hpq)).trans List.perm_append_comm
  | trans _ _ ih ih' => exact fun p q hpq => (ih p p rfl).trans (ih' p q hpq)

/-- Documentation stands inside documentation in both of them or in none. -/
theorem docsApart_eq (h : Arranged blame f g s t) : ∀ p q : Surroundings, p.content = q.content →
    docsApart p s = docsApart q t := by
  have hadmits : ∀ (i : Instruction) {p q : Surroundings}, p.content = q.content →
      p.admits i = q.admits i := by
    intro i p q hpq
    obtain ⟨-, -, hdocs, hcomments⟩ := Surroundings.content_eq_iff.mp hpq
    cases i with
    | openDoc | openComment => simp only [Surroundings.admits, hdocs, hcomments]
    | _ => rfl
  have hbracket : ∀ {s t : Stream} {i i' j : Instruction} {p q : Surroundings},
      p.admits i = q.admits i' → (∀ p : Surroundings, p.admits j = true) →
      docsApart (p.after i) s = docsApart (q.after i') t →
      docsApart p (i :: (s ++ [j])) = docsApart q (i' :: (t ++ [j])) := by
    intro s t i i' j p q hi hj hinside
    simp [docsApart, docsApart_append, hi, hj, hinside]
  induction h with
  | nil => exact fun _ _ _ => rfl
  | plain | reference | refuse | indent | unindent | openStatement | closeStatement =>
    intro p q hpq
    simp only [docsApart, hadmits _ hpq]
  | doc _ ih | comment _ ih | typeVars _ _ ih | aside _ ih =>
    intro p q hpq
    exact hbracket (hadmits _ hpq) (fun _ => rfl) (ih _ _ (Surroundings.content_after hpq _))
  | scope name hnested _ ih =>
    intro p q hpq
    exact hbracket rfl (fun _ => rfl) (ih _ _ (Surroundings.content_enterScope hpq name hnested))
  | sink _ _ ih => exact ih
  | append hst _ ih ih' =>
    intro p q hpq
    rw [docsApart_append, docsApart_append, hst.place, hst.symm.place, ih p q hpq, ih' p q hpq]
  | swap hst huv ih ih' =>
    intro p q hpq
    rw [docsApart_append, docsApart_append, hst.place, huv.symm.place, ih p q hpq, ih' p q hpq,
      Bool.and_comm]
  | trans _ _ ih ih' => exact fun p q hpq => (ih p p rfl).trans (ih' p q hpq)

end Arranged

/-! ### What an open reference depends on -/

theorem Names.resolveNested_of_content (space simple : String) {scopes scopes' : List Scope}
    (h : scopes.map Scope.content = scopes'.map Scope.content) :
    resolveNested space simple scopes = resolveNested space simple scopes' := by
  have hnames : ∀ {a b : List Scope}, a.map Scope.content = b.map Scope.content →
      a.map Scope.name = b.map Scope.name := by
    intro a b hab
    have hfst := congrArg (List.map Prod.fst) hab
    rwa [List.map_map, List.map_map] at hfst
  have hdeclared : ∀ {a b : List Scope}, a.map Scope.content = b.map Scope.content →
      declaredIn space a simple = declaredIn space b simple := by
    intro a b hab
    have hview : ∀ l : List Scope,
        l.reverse.filterMap Scope.name = (l.map Scope.name).reverse.filterMap id := by
      intro l
      rw [← List.map_reverse, List.filterMap_map, Function.id_comp]
    rw [declaredIn, declaredIn, hview a, hview b, hnames hab]
  induction scopes generalizing scopes' with
  | nil =>
    cases scopes' with
    | nil => rfl
    | cons _ _ => cases h
  | cons s rest ih =>
    cases scopes' with
    | nil => cases h
    | cons s' rest' =>
      obtain ⟨hs, hrest⟩ := List.cons.inj h
      have hnested : s.nested.Perm s'.nested := Multiset.coe_eq_coe.mp (Prod.mk.inj hs).2
      have hcontains : s.nested.contains simple = s'.nested.contains simple := by
        rw [Bool.eq_iff_iff, List.contains_iff_mem, List.contains_iff_mem, hnested.mem_iff]
      simp only [resolveNested, hcontains, ih hrest, hdeclared h]

theorem Names.resolve_of_content (setting : Setting) {a b : Names}
    (h : a.scopes.map Scope.content = b.scopes.map Scope.content) (simple : String) :
    a.resolve setting simple = b.resolve setting simple := by
  have houter : a.outer? = b.outer? := by
    have hlast := congrArg (fun l => l.getLast?.bind Prod.fst) h
    simp only [List.getLast?_map, Option.bind_map] at hlast
    exact hlast
  have hnested := Names.resolveNested_of_content setting.space simple h
  cases hcase : resolveNested setting.space simple a.scopes with
  | some d =>
    rw [hnested] at hcase
    rw [Names.resolve, Names.resolve, hnested, hcase]
  | none =>
    have hfree := (resolveNested_eq_none_iff _ _ _).mp hcase
    rw [hnested] at hcase
    rw [resolve_of_not_nested setting a simple hfree,
      resolve_of_not_nested setting b simple ((resolveNested_eq_none_iff _ _ _).mp hcase), houter]

/-- **The case of a reference depends on its content only.** -/
theorem Site.rule_eq_of_content (setting : Setting) {r q : Site} (h : r.content = q.content) :
    r.rule setting = q.rule setting := by
  simp only [Site.content, Prod.mk.injEq] at h
  obtain ⟨hscopes, hvars, -, htype⟩ := h
  have hresolve := Names.resolve_of_content setting
    (a := ({} : Names).moveTo r.scopes r.typeVars) (b := ({} : Names).moveTo q.scopes q.typeVars)
    hscopes
  have hbinds : (({} : Names).moveTo r.scopes r.typeVars).binds setting
      = (({} : Names).moveTo q.scopes q.typeVars).binds setting := by
    funext c
    simp only [Names.binds, hresolve]
  have hvariables : (({} : Names).moveTo r.scopes r.typeVars).typeVariables
      = (({} : Names).moveTo q.scopes q.typeVars).typeVariables := hvars
  simp only [Site.rule, Names.rule, hbinds, hresolve, htype, hvariables]

end CSharpGen
