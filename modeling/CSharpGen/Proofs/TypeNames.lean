/-
  CSharpGen/Proofs/TypeNames.lean
  ===============================
  **The written form of a type name.**  A name is written as identifiers joined
  by dots, with the steps into nested types joined by `+` behind them
  (`ClassName.grammar`).  Reading such a text and writing it again are inverse to
  each other on the references that pass the check
  (`ClassName.parse_inverts_reflection`), since no identifier holds a dot or a
  plus sign: the first `+` ends the dotted part, and the last dot before it ends
  the namespace.

  Reading never fails, so a text outside the grammar has to be caught by the
  check.  One sort of them is not.  A dot at the very beginning leaves an empty
  namespace behind, which is what a name without any dot has, too; it is the only
  thing that reading ever loses (`ClassName.toList_eq_of_parse`).  All other
  malformed texts are reported, by the check and wherever such a reference is
  written (`ClassName.parse_validates_iff`).
-/
import CSharpGen.Proofs.Transcripts
import Mathlib.Computability.Language

namespace CSharpGen

open scoped Computability

/-! ### The grammar -/

namespace Identifier

/-- The identifiers. -/
def words : Language Char := {cs | isValid (String.ofList cs) = true}

/-- Any number of identifiers with `sep` before each of them. -/
def steps (sep : Char) : Language Char := ({[sep]} * words)∗

theorem mem_words {s : String} : s.toList ∈ words ↔ isValid s = true := by
  show isValid (String.ofList s.toList) = true ↔ isValid s = true
  rw [String.ofList_toList]

theorem mem_steps_iff {sep : Char} {cs : List Char} :
    cs ∈ steps sep ↔ ∃ names : List String, (∀ n ∈ names, isValid n = true)
      ∧ cs = (names.map String.toList).flatMap (sep :: ·) := by
  constructor
  · intro h
    obtain ⟨blocks, rfl, hblocks⟩ := Language.mem_kstar.mp h
    clear h
    induction blocks with
    | nil => exact ⟨[], by simp, rfl⟩
    | cons block rest ih =>
      have hrest : ∀ y ∈ rest, y ∈ ({[sep]} * words : Language Char) := fun y hy =>
        hblocks y (List.mem_cons_of_mem _ hy)
      obtain ⟨names, hnames, heq⟩ := ih hrest
      obtain ⟨_, rfl, word, hword, rfl⟩ := Language.mem_mul.mp (hblocks block (by simp))
      refine ⟨String.ofList word :: names, List.forall_mem_cons.mpr ⟨hword, hnames⟩, ?_⟩
      simp [heq]
  · rintro ⟨names, hnames, rfl⟩
    refine Language.mem_kstar.mpr ⟨names.map fun n => sep :: n.toList, ?_, ?_⟩
    · simp [List.flatMap_def, Function.comp_def]
    · intro y hy
      obtain ⟨n, hn, rfl⟩ := List.mem_map.mp hy
      exact Language.append_mem_mul (a := [sep]) rfl (mem_words.mpr (hnames n hn))

theorem isForeign_plus : isForeign '+' = true := by decide

end Identifier

namespace ClassName

/-- `Ident('+'Ident)*`: the names of the types of the global namespace. -/
def globalNames : Language Char := Identifier.words * Identifier.steps '+'

/-- `Ident('.'Ident)*('+'Ident)*`: the names of types. -/
def grammar : Language Char :=
  Identifier.words * Identifier.steps '.' * Identifier.steps '+'

variable {c : ClassName}

/-! ### References as texts -/

/-- The characters of a text with further ones added to it step by step. -/
theorem toList_foldl_step (sep : String) (steps : List String) (first : String) :
    (steps.foldl (fun name step => name ++ sep ++ step) first).toList
      = first.toList ++ (steps.map String.toList).flatMap (sep.toList ++ ·) := by
  induction steps generalizing first with
  | nil => simp
  | cons step rest ih => simp [ih, String.toList_append]

theorem toList_reflection (c : ClassName) : c.reflection.toList
    = c.qualifiedTop.toList ++ (c.inner.map String.toList).flatMap ('+' :: ·) :=
  toList_foldl_step "+" c.inner c.qualifiedTop

theorem toList_canonical (c : ClassName) : c.canonical.toList
    = c.qualifiedTop.toList ++ (c.inner.map String.toList).flatMap ('.' :: ·) :=
  toList_foldl_step "." c.inner c.qualifiedTop

theorem qualifiedTop_of_global (h : c.space = "") : c.qualifiedTop = c.top := by
  simp [qualifiedTop, h]

theorem toList_qualifiedTop_of_space (h : c.space ≠ "") :
    c.qualifiedTop.toList = c.space.toList ++ '.' :: c.top.toList := by
  simp [qualifiedTop, String.isEmpty_iff, h, String.toList_append]

theorem valid_iff (c : ClassName) : c.Valid ↔ ∀ name ∈ c.path, Identifier.isValid name = true := by
  refine ⟨Valid.isValid_of_mem_path, fun h => ?_⟩
  have hspace : (c.space.isEmpty || Identifier.isValidNamespace c.space) = true := by
    by_cases hempty : c.space.isEmpty = true
    · simp [hempty]
    · have hpieces : Identifier.isValidNamespace c.space = true :=
        List.all_eq_true.mpr fun name hname =>
          h name (List.mem_append_left _ (by simpa [spacePath, hempty] using hname))
      simp [hpieces]
  unfold Valid check
  rw [if_pos hspace]
  exact (checkNames_eq_ok_iff _).mpr fun name hname => h name (List.mem_append_right _ hname)

theorem Valid.isValid_of_mem_inner (h : c.Valid) :
    ∀ name ∈ c.inner, Identifier.isValid name = true := fun name hname =>
  h.isValid_of_mem_simpleNames name (List.mem_cons_of_mem _ hname)

theorem Valid.isValid_top (h : c.Valid) : Identifier.isValid c.top = true :=
  h.isValid_of_mem_simpleNames c.top (by simp [simpleNames])

theorem Valid.plus_not_mem_qualifiedTop (h : c.Valid) : '+' ∉ c.qualifiedTop.toList := by
  rw [qualifiedTop_eq_join]
  intro hmem
  rcases Text.mem_toList_join hmem with hdot | ⟨s, hs, hplus⟩
  · cases hdot
  · refine Identifier.not_mem_of_isForeign (h.isValid_of_mem_path s ?_)
      Identifier.isForeign_plus hplus
    rcases List.mem_append.mp hs with hs | hs
    · exact List.mem_append_left _ hs
    · exact List.mem_append_right _ (by simpa [simpleNames] using .inl (List.mem_singleton.mp hs))

/-! ### The texts of well-formed references are the grammar -/

theorem spacePath_of_join {names : List String} (h : ∀ n ∈ names, Identifier.isValid n = true)
    (top : String) (inner : List String) :
    (⟨Text.join "." names, top, inner⟩ : ClassName).spacePath = names := by
  cases names with
  | nil => rfl
  | cons n rest =>
    have hn : n.toList ≠ [] := by
      simpa using Identifier.ne_empty_of_isValid (h n (by simp))
    have hspace : Text.join "." (n :: rest) ≠ "" := by
      intro hempty
      have hlist := congrArg String.toList hempty
      rw [Text.toList_join_cons] at hlist
      exact hn (List.append_eq_nil_iff.mp hlist).1
    rw [spacePath, if_neg (by simpa [String.isEmpty_iff] using hspace)]
    exact Text.pieces_join n rest fun t ht =>
      Identifier.not_mem_of_isForeign (h t ht) Identifier.isForeign_dot

theorem Valid.reflection_mem_globalNames (h : c.Valid) (hspace : c.space = "") :
    c.reflection.toList ∈ globalNames := by
  rw [toList_reflection, qualifiedTop_of_global hspace]
  exact Language.append_mem_mul (Identifier.mem_words.mpr h.isValid_top)
    (Identifier.mem_steps_iff.mpr ⟨c.inner, h.isValid_of_mem_inner, rfl⟩)

theorem Valid.reflection_mem_grammar (h : c.Valid) : c.reflection.toList ∈ grammar := by
  obtain ⟨first, dotted, hpath⟩ :=
    List.exists_cons_of_ne_nil (l := c.spacePath ++ [c.top]) (by simp)
  have hvalid : ∀ n ∈ first :: dotted, Identifier.isValid n = true := by
    intro n hn
    rw [← hpath] at hn
    rcases List.mem_append.mp hn with hn | hn
    · exact h.isValid_of_mem_path n (List.mem_append_left _ hn)
    · cases List.mem_singleton.mp hn
      exact h.isValid_top
  obtain ⟨hfirst, hdotted⟩ := List.forall_mem_cons.mp hvalid
  rw [toList_reflection, qualifiedTop_eq_join, hpath, Text.toList_join_cons]
  exact Language.append_mem_mul
    (Language.append_mem_mul (Identifier.mem_words.mpr hfirst)
      (Identifier.mem_steps_iff.mpr ⟨dotted, hdotted, rfl⟩))
    (Identifier.mem_steps_iff.mpr ⟨c.inner, h.isValid_of_mem_inner, rfl⟩)

theorem exists_of_mem_globalNames {cs : List Char} (h : cs ∈ globalNames) :
    ∃ c : ClassName, c.Valid ∧ c.space = "" ∧ c.reflection.toList = cs := by
  obtain ⟨word, hword, tail, htail, rfl⟩ := Language.mem_mul.mp h
  obtain ⟨inner, hinner, rfl⟩ := Identifier.mem_steps_iff.mp htail
  refine ⟨⟨"", String.ofList word, inner⟩, (valid_iff _).mpr ?_, rfl, ?_⟩
  · intro name hname
    rcases List.mem_cons.mp hname with rfl | hname
    · exact hword
    · exact hinner name hname
  · rw [toList_reflection, qualifiedTop_of_global rfl, String.toList_ofList]

theorem exists_of_mem_grammar {cs : List Char} (h : cs ∈ grammar) :
    ∃ c : ClassName, c.Valid ∧ c.reflection.toList = cs := by
  obtain ⟨head, hhead, tail, htail, rfl⟩ := Language.mem_mul.mp h
  obtain ⟨word, hword, rest, hrest, rfl⟩ := Language.mem_mul.mp hhead
  obtain ⟨dotted, hdotted, rfl⟩ := Identifier.mem_steps_iff.mp hrest
  obtain ⟨inner, hinner, rfl⟩ := Identifier.mem_steps_iff.mp htail
  -- The last of the dotted names is the top-level type, the others are its namespace.
  obtain ⟨space, top, hnames⟩ :
      ∃ space top, String.ofList word :: dotted = space ++ [top] :=
    ⟨_, _, (List.dropLast_concat_getLast (List.cons_ne_nil (String.ofList word) dotted)).symm⟩
  have hvalid : ∀ n ∈ space ++ [top], Identifier.isValid n = true := by
    rw [← hnames]
    exact List.forall_mem_cons.mpr ⟨hword, hdotted⟩
  have hpath := spacePath_of_join (fun n hn => hvalid n (List.mem_append_left _ hn)) top inner
  refine ⟨⟨Text.join "." space, top, inner⟩, (valid_iff _).mpr ?_, ?_⟩
  · intro name hname
    rw [path, hpath] at hname
    rcases List.mem_append.mp hname with hname | hname
    · exact hvalid name (List.mem_append_left _ hname)
    · rcases List.mem_cons.mp hname with htop | hname
      · exact hvalid name (List.mem_append_right _ (List.mem_singleton.mpr htop))
      · exact hinner name hname
  · rw [toList_reflection, qualifiedTop_eq_join, hpath, ← hnames, Text.toList_join_cons,
      String.toList_ofList]

/-! ### Reading -/

/-- A text is cut into what stands before its first `+` and the steps behind it. -/
theorem split_eq {s head : String} {inner : List String} (hhead : '+' ∉ head.toList)
    (hinner : ∀ n ∈ inner, Identifier.isValid n = true)
    (hs : s.toList = head.toList ++ (inner.map String.toList).flatMap ('+' :: ·)) :
    Text.split '+' s = (head, inner) := by
  have hsteps : ∀ piece ∈ inner.map String.toList, '+' ∉ piece := by
    intro piece hpiece
    obtain ⟨n, hn, rfl⟩ := List.mem_map.mp hpiece
    exact Identifier.not_mem_of_isForeign (hinner n hn) Identifier.isForeign_plus
  simp [Text.split, hs, Text.cutAll_flatMap hhead hsteps]

/-- **Reading the written form of a well-formed reference gives the reference.** -/
theorem Valid.parse_reflection (h : c.Valid) : parse c.reflection = c := by
  have hdot := Identifier.not_mem_of_isForeign h.isValid_top Identifier.isForeign_dot
  have hsplit : Text.split '+' c.reflection = (c.qualifiedTop, c.inner) :=
    split_eq h.plus_not_mem_qualifiedTop h.isValid_of_mem_inner c.toList_reflection
  unfold parse
  rw [hsplit]
  by_cases hspace : c.space = ""
  · have hlast : Text.splitLast '.' c.qualifiedTop = none := by
      rw [qualifiedTop_of_global hspace, Text.splitLast, Text.cutLast_of_not_mem hdot]
      rfl
    simp only [hlast]
    rw [qualifiedTop_of_global hspace, ← hspace]
  · have hlast : Text.splitLast '.' c.qualifiedTop = some (c.space, c.top) := by
      rw [Text.splitLast, toList_qualifiedTop_of_space hspace, Text.cutLast_append_sep hdot]
      simp
    simp only [hlast]

/-- A dot before the name of a global type is read as an empty namespace. -/
theorem Valid.parse_leading_dot (h : c.Valid) (hspace : c.space = "") {s : String}
    (hs : s.toList = '.' :: c.reflection.toList) : parse s = c := by
  have hdot := Identifier.not_mem_of_isForeign h.isValid_top Identifier.isForeign_dot
  have hplus : '+' ∉ (String.ofList ('.' :: c.top.toList)).toList := by
    have htop := h.plus_not_mem_qualifiedTop
    rw [qualifiedTop_of_global hspace] at htop
    simpa using htop
  have hsplit : Text.split '+' s = (String.ofList ('.' :: c.top.toList), c.inner) := by
    refine split_eq hplus h.isValid_of_mem_inner ?_
    rw [hs, toList_reflection, qualifiedTop_of_global hspace]
    simp
  have hlast : Text.splitLast '.' (String.ofList ('.' :: c.top.toList)) = some ("", c.top) := by
    have hcut := Text.cutLast_append_sep hdot []
    rw [List.nil_append] at hcut
    simp [Text.splitLast, hcut]
  unfold parse
  simp only [hsplit, hlast, ← hspace]

/-- **Reading loses nothing but a dot at the beginning.** -/
theorem toList_eq_of_parse (s : String) :
    s.toList = (parse s).reflection.toList
      ∨ (parse s).space = "" ∧ s.toList = '.' :: (parse s).reflection.toList := by
  have hjoin := Text.join_cutAll '+' s.toList
  rcases Text.cutLast_spec '.' (Text.cutAll '+' s.toList).1 with
    ⟨hcut, -⟩ | ⟨before, after, hcut, hhead, -⟩
  · left
    have hparse : parse s = ⟨"", (Text.split '+' s).1, (Text.split '+' s).2⟩ := by
      simp [parse, Text.splitLast, Text.split, hcut]
    rw [hparse, toList_reflection, qualifiedTop_of_global rfl]
    simpa [Text.split, Function.comp_def] using hjoin.symm
  · have hparse : parse s = ⟨String.ofList before, String.ofList after, (Text.split '+' s).2⟩ := by
      simp [parse, Text.splitLast, Text.split, hcut]
    rw [hhead] at hjoin
    by_cases hbefore : before = []
    · right
      rw [hparse, toList_reflection, qualifiedTop_of_global (by simp [hbefore])]
      simpa [Text.split, hbefore, Function.comp_def] using hjoin.symm
    · left
      rw [hparse, toList_reflection, toList_qualifiedTop_of_space (by simpa using hbefore)]
      simpa [Text.split, Function.comp_def] using hjoin.symm

/-! ### Reading and writing are inverse -/

/-- With every `+` read as a dot the written form is the canonical name. -/
theorem Valid.canonical_eq_map (h : c.Valid) :
    c.canonical = c.reflection.map fun x => if x = '+' then '.' else x := by
  have hkeep : ∀ cs : List Char, '+' ∉ cs → cs.map (fun x => if x = '+' then '.' else x) = cs := by
    intro cs hcs
    refine (List.map_congr_left fun x hx => if_neg ?_).trans (List.map_id cs)
    rintro rfl
    exact hcs hx
  have hsteps : ∀ names : List String, (∀ n ∈ names, Identifier.isValid n = true) →
      ((names.map String.toList).flatMap ('+' :: ·)).map (fun x => if x = '+' then '.' else x)
        = (names.map String.toList).flatMap ('.' :: ·) := by
    intro names hnames
    induction names with
    | nil => rfl
    | cons n rest ih =>
      obtain ⟨hn, hrest⟩ := List.forall_mem_cons.mp hnames
      have hplus := Identifier.not_mem_of_isForeign hn Identifier.isForeign_plus
      simp [hkeep _ hplus, ih hrest]
  rw [← String.toList_inj, String.toList_map, toList_canonical, toList_reflection, List.map_append,
    hkeep _ h.plus_not_mem_qualifiedTop, hsteps _ h.isValid_of_mem_inner]

/-- **Reading and writing are inverse.**  A well-formed reference is read back from its
    written form with the same namespace and the same nesting chain; and every text of the
    grammar is read as a well-formed reference that is written as this text, and whose
    canonical name is the text with a dot for every `+`. -/
theorem parse_inverts_reflection :
    (∀ c : ClassName, c.validate = .ok () → parse c.reflection = c)
    ∧ ∀ s : String, s.toList ∈ grammar →
      (parse s).validate = .ok () ∧ (parse s).reflection = s
        ∧ (parse s).canonical = s.map fun x => if x = '+' then '.' else x := by
  refine ⟨fun c hc => ((validate_eq_ok_iff c).mp hc).parse_reflection, fun s hs => ?_⟩
  obtain ⟨c, hvalid, hc⟩ := exists_of_mem_grammar hs
  have hs : s = c.reflection := (String.toList_inj.mp hc).symm
  have hparse : parse s = c := by rw [hs, hvalid.parse_reflection]
  rw [hparse]
  exact ⟨(validate_eq_ok_iff c).mpr hvalid, hs.symm, by rw [hs, hvalid.canonical_eq_map]⟩

/-- A type nested two levels deep in a type of a dotted namespace. -/
def entryKey : ClassName := ⟨"System.Collections", "Table", ["Entry", "@class"]⟩

theorem valid_entryKey : entryKey.Valid := by decide +kernel

theorem parse_inverts_reflection_entryKey :
    entryKey.validate = .ok () ∧ "System.Collections.Table+Entry+@class".toList ∈ grammar
      ∧ parse "System.Collections.Table+Entry+@class" = entryKey
      ∧ (parse "System.Collections.Table+Entry+@class").canonical
        = "System.Collections.Table.Entry.@class" := by
  have hvalidate := (validate_eq_ok_iff entryKey).mpr valid_entryKey
  have hgrammar : "System.Collections.Table+Entry+@class".toList ∈ grammar :=
    valid_entryKey.reflection_mem_grammar
  have hmap : "System.Collections.Table+Entry+@class".map (fun x => if x = '+' then '.' else x)
      = "System.Collections.Table.Entry.@class" := by
    rw [← String.toList_inj, String.toList_map]
    decide
  refine ⟨hvalidate, hgrammar, parse_inverts_reflection.1 entryKey hvalidate, ?_⟩
  rw [(parse_inverts_reflection.2 _ hgrammar).2.2, hmap]

/-! ### What the check accepts -/

/-- A malformed reference is reported with its canonical name, by the check and by every
    writer that comes to write it. -/
theorem validate_error_of_not_valid (h : ¬ c.Valid) :
    ∃ fault, c.validate = .error (.invalidReference c.canonical fault)
      ∧ ∀ (session : Session) (w : Writer),
        w.step session (.reference c) = .error (.invalidReference c.canonical fault) := by
  cases hcheck : c.check with
  | ok u => exact absurd hcheck h
  | error fault =>
    have hvalidate : c.validate = .error (.invalidReference c.canonical fault) := by
      simp [validate, hcheck]
    refine ⟨fault, hvalidate, fun session w => ?_⟩
    simp [Writer.step, Writer.reference, Names.lookup, hvalidate, bind, Except.bind]

theorem valid_parse_iff (s : String) :
    (parse s).Valid ↔ s.toList ∈ grammar + {['.']} * globalNames := by
  rw [Language.mem_add]
  constructor
  · intro h
    rcases toList_eq_of_parse s with hs | ⟨hspace, hs⟩
    · left
      rw [hs]
      exact h.reflection_mem_grammar
    · right
      rw [hs]
      exact Language.append_mem_mul (a := ['.']) rfl (h.reflection_mem_globalNames hspace)
  · rintro (hs | hs)
    · exact (validate_eq_ok_iff _).mp (parse_inverts_reflection.2 s hs).1
    · obtain ⟨_, rfl, cs, hcs, heq⟩ := Language.mem_mul.mp hs
      obtain ⟨c, hvalid, hspace, rfl⟩ := exists_of_mem_globalNames hcs
      rw [hvalid.parse_leading_dot hspace heq.symm]
      exact hvalid

/-- **What the check accepts**: the texts of the grammar, and the name of a global type behind
    a single dot.  For every other text the check reports the reference, and so does
    every writer that comes to write it, in particular where a block of the reference alone
    is rendered. -/
theorem parse_validates_iff (s : String) :
    ((parse s).validate = .ok () ↔ s.toList ∈ grammar + {['.']} * globalNames)
    ∧ (s.toList ∉ grammar + {['.']} * globalNames →
      ∃ fault, (parse s).validate = .error (.invalidReference (parse s).canonical fault)
        ∧ (∀ (session : Session) (w : Writer), w.step session (.reference (parse s))
          = .error (.invalidReference (parse s).canonical fault))
        ∧ ∃ block : Code TypeDecl, Code.ofFormat "$T" [.type (.named (parse s))] = .ok block
          ∧ block.fragment.render = .error (.invalidReference (parse s).canonical fault)) := by
  refine ⟨by rw [validate_eq_ok_iff, valid_parse_iff], fun hs => ?_⟩
  obtain ⟨fault, hvalidate, hstep⟩ := validate_error_of_not_valid (mt (valid_parse_iff s).mp hs)
  refine ⟨fault, hvalidate, hstep, _, Code.ofFormat_argument .type fun _ => rfl, ?_⟩
  simp [Code.fragment, Code.stream, Part.streamAll, Part.stream, TypeRef.stream, Stream.render,
    Stream.run, Writer.run, hstep, bind, Except.bind]

/-- A name that ends with a dot. -/
theorem parse_validates_iff_dangling :
    "System.".toList ∉ grammar + {['.']} * globalNames
      ∧ (parse "System.").validate = .error (.invalidReference "System." .emptyName)
      ∧ ∃ block : Code TypeDecl, Code.ofFormat "$T" [.type (.named (parse "System."))] = .ok block
        ∧ block.fragment.render = .error (.invalidReference "System." .emptyName) := by
  have hparse : (parse "System.").validate = .error (.invalidReference "System." .emptyName) := rfl
  have hnot : "System.".toList ∉ grammar + {['.']} * globalNames := by
    intro h
    rw [(parse_validates_iff "System.").1.mpr h] at hparse
    cases hparse
  obtain ⟨fault, hvalidate, -, block, hblock, hrender⟩ := (parse_validates_iff "System.").2 hnot
  rw [Except.error.inj (hvalidate.symm.trans hparse)] at hrender
  exact ⟨hnot, hparse, block, hblock, hrender⟩

/-- A name with a dot at its beginning passes the check, though it is not of the grammar. -/
theorem leading_dot_validates : ".Foo".toList ∉ grammar ∧ (parse ".Foo").validate = .ok () := by
  have hvalid : (parse ".Foo").Valid := by decide +kernel
  refine ⟨fun h => ?_, (validate_eq_ok_iff _).mpr hvalid⟩
  have hreflection : (parse ".Foo").reflection = "Foo" := by decide +kernel
  rw [(parse_inverts_reflection.2 ".Foo" h).2.1] at hreflection
  revert hreflection
  decide

end ClassName

end CSharpGen
