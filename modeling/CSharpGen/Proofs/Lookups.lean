/-
  CSharpGen/Proofs/Lookups.lean
  =============================
  **The references of a run** — the types that a writer looks up while it runs
  instructions, in order, each with what was known about names at that moment
  (`Writer.lookups`).

  Where a reference stands (`Site`: the declarations and type variables around
  it, whether it is in a comment, and the type) can be read off the
  instructions without running them (`sites`), because contexts open and close
  by instructions of their own.  A run that succeeds looks up exactly these
  sites, and its tables change only there, so that the whole run acts on names
  like a fold over its sites (`Writer.lookups_eq_trace`, `Writer.names_run`).
  Everything that is said later about what a pass claims, takes and writes is a
  statement about such a fold.
-/
import CSharpGen.Proofs.Shape

namespace CSharpGen

/-! ### Where references stand -/

/-- A reference to a type, with what stands around it. -/
structure Site where
  scopes : List Scope
  typeVars : List (List String)
  /-- Whether it stands in documentation or in a comment. -/
  quiet : Bool
  type : ClassName
  deriving DecidableEq, Repr

def Position.site? (p : Position) : Instruction → Option Site
  | .reference c => some ⟨p.scopes, p.typeVars, p.inDoc || p.inComment, c⟩
  | _ => none

/-- The references of some instructions in order. -/
def sites (p : Position) : Stream → List Site
  | [] => []
  | i :: rest => (p.site? i).toList ++ sites (p.after i) rest

theorem sites_append (p : Position) (s t : Stream) :
    sites p (s ++ t) = sites p s ++ sites (s.foldl Position.after p) t := by
  induction s generalizing p with
  | nil => rfl
  | cons i rest ih => simp [sites, ih]

/-! ### Names at a site -/

namespace Names

/-- What is known about names, seen from another place. -/
def moveTo (names : Names) (scopes : List Scope) (typeVars : List (List String)) : Names :=
  { names with scopes := scopes, typeVariables := typeVars }

/-- What is known about names after a reference has been written. -/
def visit (setting : Setting) (names : Names) (r : Site) : Names :=
  ((names.moveTo r.scopes r.typeVars).spell setting r.quiet r.type).2

end Names

/-- A reference at the moment when it is looked up. -/
structure Lookup where
  /-- What is known about names just before. -/
  names : Names
  quiet : Bool
  type : ClassName

namespace Lookup

/-- The text that is written. -/
def text (setting : Setting) (l : Lookup) : String := (l.names.spell setting l.quiet l.type).1

def site (l : Lookup) : Site := ⟨l.names.scopes, l.names.typeVariables, l.quiet, l.type⟩

end Lookup

/-- The look-ups of a run over some sites. -/
def Names.trace (setting : Setting) (names : Names) : List Site → List Lookup
  | [] => []
  | r :: rest =>
    ⟨names.moveTo r.scopes r.typeVars, r.quiet, r.type⟩
      :: (names.visit setting r).trace setting rest

theorem Names.trace_moveTo (setting : Setting) (names : Names) (s : List Scope)
    (v : List (List String)) (rs : List Site) :
    (names.moveTo s v).trace setting rs = names.trace setting rs := by
  cases rs with
  | nil => rfl
  | cons r rest => rfl

theorem Names.foldl_visit_moveTo (setting : Setting) (names : Names) (s s' : List Scope)
    (v v' : List (List String)) (rs : List Site) :
    (rs.foldl (visit setting) (names.moveTo s v)).moveTo s' v'
      = (rs.foldl (visit setting) names).moveTo s' v' := by
  cases rs with
  | nil => rfl
  | cons r rest => rfl

theorem Names.trace_site (setting : Setting) (names : Names) (rs : List Site) :
    (names.trace setting rs).map Lookup.site = rs := by
  induction rs generalizing names with
  | nil => rfl
  | cons r rest ih => simp [trace, ih, Lookup.site, moveTo]

theorem Names.mem_trace_iff {setting : Setting} {names : Names} {rs : List Site} {l : Lookup} :
    l ∈ names.trace setting rs ↔ ∃ before r after, rs = before ++ r :: after
      ∧ l = ⟨(before.foldl (visit setting) names).moveTo r.scopes r.typeVars, r.quiet, r.type⟩ := by
  induction rs generalizing names with
  | nil => simp [trace]
  | cons r rest ih =>
    simp only [trace, List.mem_cons, ih]
    constructor
    · rintro (rfl | ⟨before, s, after, rfl, rfl⟩)
      · exact ⟨[], r, rest, rfl, rfl⟩
      · exact ⟨r :: before, s, after, rfl, rfl⟩
    · rintro ⟨before, s, after, heq, rfl⟩
      cases before with
      | nil =>
        obtain ⟨rfl, rfl⟩ := List.cons.inj heq
        exact Or.inl rfl
      | cons first before =>
        obtain ⟨rfl, rfl⟩ := List.cons.inj heq
        exact Or.inr ⟨before, s, after, rfl, rfl⟩

/-! ### The look-ups of a run -/

namespace Writer

def lookup? (w : Writer) : Instruction → Option Lookup
  | .reference c => some ⟨w.names, w.inDoc || w.inComment, c⟩
  | _ => none

/-- The look-ups of a run in order, up to the first error. -/
def lookups (session : Session) (w : Writer) : Stream → List Lookup
  | [] => []
  | i :: rest =>
    (w.lookup? i).toList ++
      match w.step session i with
      | .ok next => next.lookups session rest
      | .error _ => []

theorem position_step {session : Session} {w next : Writer} {i : Instruction}
    (h : w.step session i = .ok next) : next.position = w.position.after i := by
  have hshape := shape_step session w i
  rw [h] at hshape
  exact Shape.step_position hshape.symm

theorem unindent_names {w next : Writer} {levels : Nat} (h : w.unindent levels = .ok next) :
    next.names = w.names := by
  obtain ⟨-, rfl⟩ := unindent_eq_ok h
  rfl

theorem closeStatement_names {layout : Layout} {w next : Writer}
    (h : w.closeStatement layout = .ok next) : next.names = w.names := by
  obtain ⟨level, -, rfl⟩ := closeStatement_eq_ok h
  rw [(shape_write layout _ "\n").2]
  exact (shape_write layout w ";").2

/-- **A step changes what is known about names only at a reference.** -/
theorem names_step {session : Session} {w next : Writer} {i : Instruction}
    (h : w.step session i = .ok next) :
    next.names = ((w.position.site? i).elim w.names (w.names.visit session.setting)).moveTo
      next.position.scopes next.position.typeVars := by
  cases i with
  | text s =>
    cases h
    have hnames := (shape_write session.layout w s).2
    simp only [Position.site?, Option.elim, position, hnames]
    rfl
  | reference c =>
    obtain ⟨-, rfl⟩ := reference_eq_ok h
    simp only [(shape_write session.layout _ _).2, position]
    rfl
  | unindent =>
    have hnames := unindent_names h
    simp only [Position.site?, Option.elim, position, hnames]
    rfl
  | closeStatement =>
    have hnames := closeStatement_names h
    simp only [Position.site?, Option.elim, position, hnames]
    rfl
  | openStatement =>
    simp only [step] at h
    split at h <;> cases h
    rfl
  | closeDoc | closeComment =>
    cases h
    have hnames := (shape_endLine session.layout w).2
    simp only [Position.site?, Option.elim, position, hnames]
    rfl
  | refuse fault => cases h
  | indent | wrapSpace | wrapPoint | enterScope | leaveScope | enterVariables | leaveVariables
  | suspendStatement | resumeStatement | openDoc | openComment =>
    cases h
    rfl

/-- **A run acts on names like a fold over its sites.** -/
theorem names_run {session : Session} {w next : Writer} {s : Stream}
    (h : w.run session s = .ok next) :
    next.names = ((sites w.position s).foldl (Names.visit session.setting) w.names).moveTo
      next.position.scopes next.position.typeVars := by
  induction s generalizing w with
  | nil => cases h; rfl
  | cons i rest ih =>
    obtain ⟨mid, hi, h⟩ := Except.bind_eq_ok h
    rw [ih h, names_step hi, Names.foldl_visit_moveTo, position_step hi]
    cases hsite : w.position.site? i with
    | none => simp [sites, hsite]
    | some r => simp [sites, hsite]

/-- **The look-ups of a run that succeeds are those of the fold over its sites.** -/
theorem lookups_eq_trace {session : Session} {w next : Writer} {s : Stream}
    (h : w.run session s = .ok next) :
    w.lookups session s = w.names.trace session.setting (sites w.position s) := by
  induction s generalizing w with
  | nil => rfl
  | cons i rest ih =>
    obtain ⟨mid, hi, h⟩ := Except.bind_eq_ok h
    simp only [lookups, hi, ih h]
    rw [names_step hi, Names.trace_moveTo, position_step hi]
    cases i with
    | reference c => rfl
    | _ => rfl

theorem valid_of_mem_sites {session : Session} {w next : Writer} {s : Stream}
    (h : w.run session s = .ok next) : ∀ r ∈ sites w.position s, r.type.Valid := by
  induction s generalizing w with
  | nil => intro r hr; cases hr
  | cons i rest ih =>
    obtain ⟨mid, hi, h⟩ := Except.bind_eq_ok h
    intro r hr
    rcases List.mem_append.mp hr with hr | hr
    · cases i with
      | reference c =>
        cases List.mem_singleton.mp hr
        exact c.validate_eq_ok_iff.mp (reference_eq_ok hi).1
      | _ => cases hr
    · rw [← position_step hi] at hr
      exact ih h r hr

end Writer

end CSharpGen
