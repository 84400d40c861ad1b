/-
  CSharpGen/Proofs/Fragments.lean
  ===============================
  **A type requires on its own what its file imports.**  The types that a file
  of a namespace would import for a type declaration are found by running the
  declaration alone, at the left margin and with the default layout.  In a file
  it stands below the `using` directives and inside its namespace, one level
  further in.

  Neither can be seen in the tables of names.  Lines of their own leave the
  shape of the writer as it is, and from a shape with more levels the same
  instructions run alike (`Shape.run_raise`), unless the levels run out, which
  a declaration that can be built never lets happen.
-/
import CSharpGen.Proofs.Failures
import CSharpGen.Proofs.Selection

namespace CSharpGen

/-! ### Further in -/

/-- The error says that there are not enough levels to go back. -/
def Error.RunsOut (e : Error) : Prop :=
  ∃ levels level, e = .structural (.cannotUnindent levels level)

namespace Shape

/-- The shape with some levels more. -/
def raise (k : Nat) (sh : Shape) : Shape := { sh with level := sh.level + k }

variable (k : Nat) (sh : Shape)

theorem newline_raise : (sh.raise k).newline = sh.newline.raise k := by
  by_cases hs : sh.statement = some false
  · simp only [newline, raise, hs, if_true, mk.injEq, and_true]
    omega
  · have hraised : ¬ (sh.raise k).statement = some false := hs
    simp only [newline, if_neg hs, if_neg hraised]
    rfl

theorem writeLine_raise (line : String) :
    (sh.raise k).writeLine line = (sh.writeLine line).raise k := by
  unfold writeLine
  split <;> rfl

theorem write_raise (s : String) : (sh.raise k).write s = (sh.write s).raise k := by
  simp only [write, writeLine_raise]
  refine List.foldl_hom (fun sh : Shape => sh.raise k) ?_
  intro sh line
  rw [newline_raise, writeLine_raise]

theorem endLine_raise : (sh.raise k).endLine = sh.endLine.raise k := by
  unfold endLine
  by_cases hstart : sh.atLineStart = true
  · rw [if_pos hstart, if_pos (show (sh.raise k).atLineStart = true from hstart)]
  · rw [if_neg hstart, if_neg (show ¬ (sh.raise k).atLineStart = true from hstart), write_raise]

variable {k sh}

theorem unindent_raise {levels : Nat} (h : ∀ e, sh.unindent levels = .error e → ¬ e.RunsOut) :
    (sh.raise k).unindent levels = (sh.unindent levels).map (raise k) := by
  by_cases hlevel : sh.level < levels
  · exact absurd ⟨levels, sh.level, rfl⟩ (h _ (if_pos hlevel))
  · have hraised : levels ≤ (sh.raise k).level := by
      simp only [raise]
      omega
    rw [unindent_of_level (Nat.le_of_not_lt hlevel), unindent_of_level hraised]
    simp only [Except.map, raise, Except.ok.injEq, mk.injEq, and_true]
    omega

theorem closeStatement_raise (h : ∀ e, sh.closeStatement = .error e → ¬ e.RunsOut) :
    (sh.raise k).closeStatement = sh.closeStatement.map (raise k) := by
  have hend : ∀ sh : Shape, (({ sh.raise k with statement := none } : Shape).write "\n")
      = (({ sh with statement := none } : Shape).write "\n").raise k := fun sh =>
    write_raise k { sh with statement := none } "\n"
  have hstatement : ((sh.write ";").raise k).statement = (sh.write ";").statement := rfl
  simp only [closeStatement, write_raise, hstatement] at h ⊢
  by_cases hcontinued : (sh.write ";").statement = some true
  · simp only [if_pos hcontinued] at h ⊢
    have hunindent : ((sh.write ";").raise k).unindent 2
        = ((sh.write ";").unindent 2).map (raise k) := by
      refine unindent_raise fun e he => h e ?_
      rw [he]
      rfl
    rw [hunindent]
    cases (sh.write ";").unindent 2 with
    | error e => rfl
    | ok next => exact congrArg Except.ok (hend next)
  · simp only [if_neg hcontinued]
    exact congrArg Except.ok (hend (sh.write ";"))

/-- **A step further in.** -/
theorem step_raise {i : Instruction} (h : ∀ e, sh.step i = .error e → ¬ e.RunsOut) :
    (sh.raise k).step i = (sh.step i).map (raise k) := by
  cases i with
  | text s => exact congrArg Except.ok (write_raise k sh s)
  | reference c =>
    simp only [step, bind, Except.bind]
    cases c.validate <;> rfl
  | unindent => exact unindent_raise h
  | closeStatement => exact closeStatement_raise h
  | openStatement =>
    have hstatement : (sh.raise k).statement = sh.statement := rfl
    simp only [step, hstatement]
    split <;> rfl
  | indent =>
    simp only [step, raise, Except.map, Except.ok.injEq, mk.injEq, and_true]
    omega
  | closeDoc | closeComment =>
    simp only [step, endLine_raise]
    rfl
  | wrapSpace | wrapPoint | enterScope | leaveScope | enterVariables | leaveVariables
  | suspendStatement | resumeStatement | openDoc | openComment | refuse => rfl

/-- **A run further in.** -/
theorem run_raise {s : Stream} (h : ∀ e, sh.run s = .error e → ¬ e.RunsOut) :
    (sh.raise k).run s = (sh.run s).map (raise k) := by
  induction s generalizing sh with
  | nil => rfl
  | cons i rest ih =>
    simp only [run, bind, Except.bind] at h ⊢
    have hstep : (sh.raise k).step i = (sh.step i).map (raise k) := by
      refine step_raise fun e he => h e ?_
      rw [he]
    rw [hstep]
    cases hi : sh.step i with
    | error e => rfl
    | ok next =>
      rw [hi] at h
      exact ih h

end Shape

theorem Blame.Explains.not_runsOut {blame : Blame} {e : Error} (h : blame.Explains e) :
    ¬ e.RunsOut := by
  rintro ⟨levels, level, rfl⟩
  rcases h with ⟨c, -, hc⟩ | ⟨-, hc⟩
  · unfold ClassName.validate at hc
    split at hc <;> cases hc
  · cases hc

/-! ### Streams that find the same names -/

/-- **The types found by two runs agree** if both refer to the same types at the same places,
    and one fails as the other does. -/
theorem Stream.importedTypes_eq {s t : Stream} {a b : Session} (hsetting : a.setting = b.setting)
    (hsites : sites {} s = sites {} t) {g : Shape → Shape}
    (hshape : ({} : Shape).run s = (({} : Shape).run t).map g) :
    (s.run a).map Writer.importedTypes = (t.run b).map Writer.importedTypes := by
  have hs : (s.run a).map Writer.shape = ({} : Shape).run s := Writer.shape_run a {} s
  have ht : (t.run b).map Writer.shape = ({} : Shape).run t := Writer.shape_run b {} t
  rw [hshape, ← ht] at hs
  cases hright : t.run b with
  | error e =>
    rw [hright] at hs
    cases hleft : s.run a with
    | error e' => rw [hleft] at hs; cases hs; rfl
    | ok w => rw [hleft] at hs; cases hs
  | ok v =>
    rw [hright] at hs
    cases hleft : s.run a with
    | error e => rw [hleft] at hs; cases hs
    | ok w =>
      have hw : w.names.imports
          = ((sites {} s).foldl (Names.visit a.setting) {}).imports := by
        rw [Writer.names_run hleft]
        rfl
      have hv : v.names.imports
          = ((sites {} t).foldl (Names.visit b.setting) {}).imports := by
        rw [Writer.names_run hright]
        rfl
      simp only [Except.map, Writer.importedTypes, hw, hv, hsites, hsetting]

theorem Ordered.mem_of_mem_insert {α : Type} {key : α → String} {a b : α} {sorted : List α}
    (h : b ∈ insert key a sorted) : b = a ∨ b ∈ sorted := by
  induction sorted with
  | nil => exact .inl (List.mem_singleton.mp h)
  | cons c rest ih =>
    unfold insert at h
    split at h
    · exact List.mem_cons.mp h
    · split at h
      · exact .inr h
      · rcases List.mem_cons.mp h with rfl | h
        · exact .inr (by simp)
        · exact (ih h).imp_right (List.mem_cons_of_mem c)

namespace SourceFile

section Surroundings

variable {f : SourceFile} (hcomment : f.comment.isEmpty = true) (hstatics : f.statics = [])

include hcomment hstatics

theorem stream_of_plain :
    f.stream [] = directives "using " (f.usingNamespaces []) ++ f.bodyStream := by
  simp [stream, commentStream, hcomment, hstatics, directives]

theorem sites_of_plain : sites {} (f.stream []) = sites {} f.type.fragment := by
  have hmargin : ∀ lead : String,
      sites {} (.text lead :: f.type.fragment) = sites {} f.type.fragment := fun _ => rfl
  have hbraces : ∀ lead : String,
      sites {} (.text lead :: .indent :: (f.type.fragment ++ [.unindent, .text "\x7d\n"]))
        = sites {} f.type.fragment := by
    intro lead
    have hend : ∀ p : Position, sites p [.unindent, .text "\x7d\n"] = [] := fun _ => rfl
    show sites {} (f.type.fragment ++ [.unindent, .text "\x7d\n"]) = _
    rw [sites_append, hend, List.append_nil]
  rw [stream_of_plain hcomment hstatics, sites_append, (sites_directives _ _ _).1,
    (sites_directives _ _ _).2, List.nil_append, bodyStream, hstatics]
  by_cases hspace : f.space.isEmpty = true
  · rw [if_pos hspace]
    rfl
  · rw [if_neg hspace]
    by_cases hscoped : f.style.fileScopedNamespace = true
    · rw [if_pos hscoped]
      exact hmargin _
    · rw [if_neg hscoped]
      exact hbraces _

/-- **In its file a type runs as it does on its own**, to a shape that only depends on the one
    it would have alone. -/
theorem shape_run_of_plain
    (hlevels : ∀ e, ({} : Shape).run f.type.fragment = .error e → ¬ e.RunsOut) :
    ∃ g : Shape → Shape,
      ({} : Shape).run (f.stream []) = (({} : Shape).run f.type.fragment).map g := by
  have hfresh : ({} : Shape).Fresh := ⟨rfl, by simp⟩
  have hline : ∀ (s t u : String) (rest : Stream), t = u ++ "\n" →
      ({} : Shape).run (.text (s ++ t) :: rest) = ({} : Shape).run rest := by
    rintro s _ u rest rfl
    simp only [Shape.run, Shape.step, ← String.append_assoc, Shape.write_line_of_fresh hfresh, bind,
      Except.bind]
  have hself : ∀ x : Except Error Shape, x = x.map id := by
    rintro (e | sh) <;> rfl
  rw [stream_of_plain hcomment hstatics, Shape.run_append, Shape.run_directives hfresh]
  simp only [Except.bind, bodyStream, hstatics]
  by_cases hspace : f.space.isEmpty = true
  · rw [if_pos hspace]
    exact ⟨id, hself _⟩
  · rw [if_neg hspace]
    by_cases hscoped : f.style.fileScopedNamespace = true
    · rw [if_pos hscoped, hline _ ";\n\n" ";\n" _ rfl]
      exact ⟨id, hself _⟩
    · -- the type stands one level further in, and the brace behind it is written at the margin
      refine ⟨fun sh => sh.write "\x7d\n", ?_⟩
      have hback : ∀ sh : Shape, (sh.raise 1).run [.unindent, .text "\x7d\n"]
          = .ok (sh.write "\x7d\n") := by
        intro sh
        have hlevel : 1 ≤ (sh.raise 1).level := Nat.le_add_left 1 sh.level
        simp only [Shape.run, Shape.step, Shape.unindent_of_level hlevel, bind, Except.bind]
        rfl
      have hindent : ∀ rest : Stream, ({} : Shape).run (.indent :: rest)
          = (({} : Shape).raise 1).run rest := fun _ => rfl
      rw [if_neg hscoped, hline _ " \x7b\n" " \x7b" _ rfl, hindent, Shape.run_append]
      have hraised := Shape.run_raise (k := 1) hlevels
      unfold TypeDecl.fragment at hraised ⊢
      rw [hraised]
      cases ({} : Shape).run (f.type.stream []) with
      | error e => rfl
      | ok sh => exact hback sh

end Surroundings

theorem importedTypes_of_plain {f : SourceFile} (hcomment : f.comment.isEmpty = true)
    (hstatics : f.statics = []) (htype : Obtainable (.built .type f.type)) :
    f.importedTypes = f.type.fragment.requiredImports f.space := by
  have hlevels : ∀ e, ({} : Shape).run f.type.fragment = .error e → ¬ e.RunsOut := by
    intro e he
    rcases htype.fit.arranged.runs {} [] Shape.at_start with ⟨next, hrun, -⟩ | ⟨e', hrun, hexplains⟩
    · exact absurd (hrun.symm.trans he) (by simp)
    · obtain rfl : e' = e := by
        have heq := hrun.symm.trans he
        simpa using heq
      exact hexplains.not_runsOut
  obtain ⟨g, hshape⟩ := shape_run_of_plain hcomment hstatics hlevels
  have hrequired : f.type.fragment.requiredImports f.space
      = (f.type.fragment.run ⟨({} : Style).layout, ⟨f.space, []⟩⟩).map Writer.importedTypes := by
    unfold Stream.requiredImports
    cases f.type.fragment.run ⟨({} : Style).layout, ⟨f.space, []⟩⟩ <;> rfl
  have himported : f.importedTypes
      = ((f.stream []).run (f.session [])).map Writer.importedTypes := by
    unfold importedTypes collect
    cases (f.stream []).run (f.session []) <;> rfl
  rw [himported, hrequired]
  exact Stream.importedTypes_eq rfl (sites_of_plain hcomment hstatics) hshape

/-! ### Files around a type -/

/-- The edit adds neither to the comment nor to the static usings. -/
def Edit.isPlain : Edit → Bool
  | .addComment .. | .addStaticUsing _ => false
  | _ => true

/-- The draft of a file around a type, with no comment and no static usings. -/
structure Draft.Plain (space : String) (t : TypeDecl) (d : Draft) : Prop where
  space : d.space = space
  type : d.type = t
  comment : d.comment = {}
  statics : d.statics = []
  usings : ∀ u ∈ d.usings, Identifier.isValidNamespace u = true

theorem Draft.Plain.apply {space : String} {t : TypeDecl} {d : Draft} (h : d.Plain space t)
    {e : Edit} (he : e.isPlain = true)
    (husing : ∀ u, e = .addUsing u → Identifier.isValidNamespace u = true) :
    (d.apply e).Plain space t := by
  cases e with
  | addComment | addStaticUsing => cases he
  | addUsing u =>
    refine { h with usings := ?_ }
    intro v hv
    rcases Ordered.mem_of_mem_insert hv with rfl | hv
    · exact husing v rfl
    · exact h.usings v hv
  | skipSystemImports | indent | columnLimit | fileScopedNamespace | style => exact { h with }

theorem Draft.Plain.applyAll {space : String} {t : TypeDecl} {d : Draft} (h : d.Plain space t)
    {edits : List Edit} (hplain : ∀ e ∈ edits, e.isPlain = true)
    (husings : ∀ u, .addUsing u ∈ edits → Identifier.isValidNamespace u = true) :
    (d.applyAll edits).Plain space t := by
  induction edits generalizing d with
  | nil => exact h
  | cons e rest ih =>
    refine ih (h.apply (hplain e (by simp)) ?_) ?_ ?_
    · rintro u rfl
      exact husings u (by simp)
    · exact fun e he => hplain e (List.mem_cons_of_mem _ he)
    · exact fun u hu => husings u (List.mem_cons_of_mem _ hu)

theorem Draft.Plain.build {space : String} {t : TypeDecl} {d : Draft} (h : d.Plain space t)
    (hnamed : t.layer.isAnonymous = false)
    (hspace : space = "" ∨ Identifier.isValidNamespace space = true)
    (hlimit : d.style.columnLimit ≠ 0) :
    d.build = .ok ⟨space, .empty, t, d.usings, [], d.style⟩ := by
  have husings : (d.usings.find? fun u => !Identifier.isValidNamespace u) = none := by
    rw [List.find?_eq_none]
    intro u hu
    simp [h.usings u hu]
  have hnames : d.checkNames = .ok () := by
    have hnamespace : (!space.isEmpty && !Identifier.isValidNamespace space) = false := by
      rcases hspace with rfl | hvalid
      · rfl
      · simp [hvalid]
    simp only [checkNames, h.type, h.space, hnamed, hnamespace, husings]
    rfl
  simp only [Draft.build, hnames, h.statics, h.comment, h.space, h.type, checkStatics,
    if_neg hlimit]
  rfl

/-- **A type requires on its own what its file imports.**  Whatever namespace, usings and
    layout options a file is built with around the type, without a comment and without
    static usings, it imports the types that the type alone requires for the namespace, or
    fails with the same error. -/
theorem importedTypes_eq_requiredImports {t : TypeDecl} (ht : Obtainable (.built .type t))
    (hnamed : t.layer.isAnonymous = false) {space : String}
    (hspace : space = "" ∨ Identifier.isValidNamespace space = true) {edits : List Edit}
    (hplain : ∀ e ∈ edits, e.isPlain = true)
    (husings : ∀ u, .addUsing u ∈ edits → Identifier.isValidNamespace u = true)
    (hlimit : (({ space := space, type := t } : Draft).applyAll edits).style.columnLimit ≠ 0) :
    ∃ f : SourceFile, (({ space := space, type := t } : Draft).applyAll edits).build = .ok f
      ∧ f.importedTypes = t.fragment.requiredImports space := by
  have hopened : ({ space := space, type := t } : Draft).Plain space t :=
    ⟨rfl, rfl, rfl, rfl, by simp⟩
  exact ⟨_, (hopened.applyAll hplain husings).build hnamed hspace hlimit,
    importedTypes_of_plain rfl rfl ht⟩

/-- The class of an order in a narrow file that also opens a namespace of its own. -/
theorem importedTypes_eq_requiredImports_orders : Obtainable (.built .type orders.type)
    ∧ orders.type.fragment.requiredImports "Shop" = .ok [⟨"Money", "Amount", []⟩]
    ∧ ∃ f : SourceFile, (({ space := "Shop", type := orders.type } : Draft).applyAll
        [.addUsing "System.Linq", .columnLimit 20, .indent (.spaces 4)]).build = .ok f
      ∧ f.importedTypes = .ok [⟨"Money", "Amount", []⟩] := by
  have hrequired : orders.type.fragment.requiredImports "Shop" = .ok [⟨"Money", "Amount", []⟩] :=
    Except.eq_ok_of_toOption (by decide +kernel)
  have hlinq : ∀ u, .addUsing u ∈ ([.addUsing "System.Linq", .columnLimit 20,
      .indent (.spaces 4)] : List Edit) → Identifier.isValidNamespace u = true := by
    intro u hu
    obtain rfl : u = "System.Linq" := by simpa using hu
    decide +kernel
  have hshop : "Shop" = "" ∨ Identifier.isValidNamespace "Shop" = true := .inr (by decide +kernel)
  obtain ⟨f, hbuild, himports⟩ := importedTypes_eq_requiredImports obtainable_orders_type rfl hshop
    (by simp [Edit.isPlain]) hlinq (by decide)
  exact ⟨obtainable_orders_type, hrequired, f, hbuild, himports.trans hrequired⟩

end SourceFile

end CSharpGen
