/-
  CSharpGen/Proofs/Tokens.lean
  ============================
  **A block is seen by its tokens only** — nested blocks in their place, names
  and literals as the texts they are written as, and texts merged.

    * A text may be written in any pieces: the wrapper decides a break by the
      sum of what stands behind it (`Wrapper.append_append`), and a line end
      counts where it stands (`Writer.write_append`).  So the writer cannot
      tell a block from its tokens (`Writer.run_tokens`).
    * Drafts are `Alike` when they differ in their parts only, and these have
      the same tokens.  No edit looks at the parts, so edits keep drafts alike
      (`Code.Draft.Alike.apply`), and alike drafts are built to blocks with the
      same output.
-/
import CSharpGen.Code.Draft
import CSharpGen.Emit.Fragment
import CSharpGen.Proofs.Arrangement
import CSharpGen.Proofs.Balance
import Mathlib.Data.List.TakeWhile

namespace CSharpGen

variable {δ : Type}

/-! ### Writing piece by piece -/

namespace Wrapper

/-- Text without line ends stays behind the held break if it fits, and breaks the line there
    if it does not. -/
theorem append_plain (layout : Layout) (w : Wrapper) {s : String} (hs : '\n' ∉ s.toList) :
    w.append layout s =
      match w.held with
      | none => ⟨w.out ++ s, w.column + s.length, none⟩
      | some held =>
        if w.column + s.length ≤ layout.limit then
          ⟨w.out, w.column + s.length, some ⟨held.kind, held.level, held.text ++ s⟩⟩
        else
          ⟨w.out ++ "\n" ++ layout.indentation held.level ++ held.text ++ s,
            held.level * layout.unit.length + held.text.length + s.length, none⟩ := by
  have hline := Text.takeWhile_of_not_mem hs
  have hcut := Text.cutLast_of_not_mem hs
  unfold append
  cases hheld : w.held with
  | none => simp [write, hcut, hheld]
  | some held =>
    simp only [hline, String.length_toList]
    by_cases hfits : w.column + s.length ≤ layout.limit
    · simp [hfits]
    · simp [hfits, settle, hheld, write, hcut]

/-- **Text without line ends may be cut anywhere.**  A break is decided by the sum of the
    pieces behind it. -/
theorem append_append (layout : Layout) (w : Wrapper) {s t : String} (hs : '\n' ∉ s.toList)
    (ht : '\n' ∉ t.toList) :
    w.append layout (s ++ t) = (w.append layout s).append layout t := by
  have hst : '\n' ∉ (s ++ t).toList := by simp [hs, ht]
  rw [append_plain layout w hst, append_plain layout _ ht, append_plain layout w hs]
  cases w.held with
  | none => simp [String.append_assoc, Nat.add_assoc]
  | some held =>
    simp only [String.length_append]
    by_cases hfirst : w.column + s.length ≤ layout.limit
    · by_cases hboth : w.column + (s.length + t.length) ≤ layout.limit
      · have hsecond : w.column + s.length + t.length ≤ layout.limit := by omega
        simp [hfirst, hboth, String.append_assoc, Nat.add_assoc]
      · have hsecond : ¬ w.column + s.length + t.length ≤ layout.limit := by omega
        simp [hfirst, hboth, String.append_assoc, Nat.add_assoc]
    · have hboth : ¬ w.column + (s.length + t.length) ≤ layout.limit := by omega
      simp [hfirst, hboth, String.append_assoc, Nat.add_assoc]

end Wrapper

namespace Writer

variable (layout : Layout)

theorem writeLine_append (w : Writer) {s t : String} (hs : '\n' ∉ s.toList)
    (ht : '\n' ∉ t.toList) :
    w.writeLine layout (s ++ t) = (w.writeLine layout s).writeLine layout t := by
  by_cases hempty : s = ""
  · simp [writeLine, hempty]
  · by_cases hempty' : t = ""
    · simp [writeLine, hempty']
    · have hboth : (s ++ t).isEmpty = false := by
        simp [String.isEmpty_eq_false_iff, hempty]
      have hfirst : s.isEmpty = false := by simp [String.isEmpty_eq_false_iff, hempty]
      have hsecond : t.isEmpty = false := by simp [String.isEmpty_eq_false_iff, hempty']
      simp [writeLine, hboth, hfirst, hsecond, append, Wrapper.append_append layout _ hs ht]

/-- Write one character. -/
def writeChar (w : Writer) (c : Char) : Writer :=
  if c = '\n' then w.newline layout else w.writeLine layout (String.singleton c)

theorem write_eq_foldl (w : Writer) (s : String) :
    w.write layout s = s.toList.foldl (writeChar layout) w := by
  have hlines : ∀ (cs : List Char) (w : Writer),
      ((Text.cutAll '\n' cs).2.map String.ofList).foldl
          (fun w line => (w.newline layout).writeLine layout line)
          (w.writeLine layout (String.ofList (Text.cutAll '\n' cs).1))
        = cs.foldl (writeChar layout) w := by
    intro cs
    induction cs with
    | nil =>
      intro w
      simp [Text.cutAll, writeLine]
    | cons c cs ih =>
      intro w
      by_cases hc : c = '\n'
      · have hnothing : w.writeLine layout "" = w := by simp [writeLine]
        simp only [Text.cutAll, hc, if_true, List.map_cons, List.foldl_cons, writeChar]
        rw [show String.ofList [] = "" from rfl, hnothing]
        exact ih (w.newline layout)
      · have hrest := (Text.not_mem_of_mem_cutAll '\n' cs).1
        have hsplit : String.ofList (c :: (Text.cutAll '\n' cs).1)
            = String.singleton c ++ String.ofList (Text.cutAll '\n' cs).1 := by
          simp
        simp only [Text.cutAll, hc, if_false, List.foldl_cons, writeChar]
        rw [hsplit, writeLine_append layout w (by simpa using Ne.symm hc) (by simpa using hrest)]
        exact ih _
  exact hlines s.toList w

/-- **A text may be written in any pieces.** -/
theorem write_append (w : Writer) (s t : String) :
    w.write layout (s ++ t) = (w.write layout s).write layout t := by
  simp only [write_eq_foldl, String.toList_append, List.foldl_append]

end Writer

/-! ### Tokens -/

theorem Code.textParts_empty : (textParts "" : List (Part δ)) = [] := rfl

theorem Code.textParts_of_ne {s : String} (h : s ≠ "") :
    (textParts s : List (Part δ)) = [.text s] := by
  simp [textParts, String.isEmpty_iff, h]

namespace Part

/-- Names and string literals as the texts they are written as. -/
def spelled : Part δ → Part δ
  | .name s => .text s
  | .quoted (some s) => .text (Text.quote s)
  | .quoted none => .text "null"
  | p => p

/-- A part before some others: an empty text is left out, and a text goes together with the
    text behind it. -/
def before : Part δ → List (Part δ) → List (Part δ)
  | .text s, .text t :: ps => .text (s ++ t) :: ps
  | .text s, ps => Code.textParts s ++ ps
  | p, ps => p :: ps

/-- The parts without empty texts, with adjacent texts merged. -/
def merge (ps : List (Part δ)) : List (Part δ) := ps.foldr before []

/-- The tokens of some parts: nested blocks in their place, names and literals as texts,
    and texts merged. -/
def tokens (ps : List (Part δ)) : List (Part δ) := merge ((flatAll ps).map spelled)

theorem before_text (s : String) (ps : List (Part δ)) :
    (∃ t rest, ps = .text t :: rest ∧ before (.text s) ps = .text (s ++ t) :: rest)
      ∨ ∀ r, before (.text r) ps = Code.textParts r ++ ps := by
  cases ps with
  | nil => exact .inr fun _ => rfl
  | cons p rest =>
    cases p with
    | text t => exact .inl ⟨t, rest, rfl, rfl⟩
    | _ => exact .inr fun _ => rfl

theorem before_empty (ps : List (Part δ)) : before (.text "") ps = ps := by
  rcases before_text "" ps with ⟨t, rest, rfl, hbefore⟩ | hbefore
  · simp [hbefore]
  · simp [hbefore, Code.textParts_empty]

theorem before_before (s t : String) (ps : List (Part δ)) :
    before (.text s) (before (.text t) ps) = before (.text (s ++ t)) ps := by
  rcases before_text t ps with ⟨u, rest, rfl, hbefore⟩ | hbefore
  · simp [before, String.append_assoc]
  · by_cases ht : t = ""
    · simp [ht, before_empty]
    · have hboth : s ++ t ≠ "" := by simp [ht]
      rw [hbefore, hbefore, Code.textParts_of_ne ht, Code.textParts_of_ne hboth]
      rfl

theorem foldr_before (p : Part δ) (ps qs : List (Part δ)) :
    (before p ps).foldr before qs = before p (ps.foldr before qs) := by
  cases p with
  | text s =>
    rcases before_text s ps with ⟨t, rest, rfl, hbefore⟩ | hbefore
    · rw [hbefore]
      exact (before_before s t _).symm
    · rw [hbefore]
      by_cases hs : s = ""
      · simp [hs, Code.textParts_empty, before_empty]
      · rw [Code.textParts_of_ne hs]
        rfl
  | _ => rfl

/-- What stands behind some parts sees only their tokens. -/
theorem merge_append (ps qs : List (Part δ)) :
    merge (ps ++ qs) = (merge ps).foldr before (merge qs) := by
  have hall : ∀ ps : List (Part δ), (merge ps).foldr before (merge qs)
      = ps.foldr before (merge qs) := by
    intro ps
    induction ps with
    | nil => rfl
    | cons p ps ih =>
      simp only [merge, List.foldr_cons, foldr_before] at ih ⊢
      rw [ih]
  rw [hall, merge, List.foldr_append]
  rfl

theorem tokens_append (ps qs : List (Part δ)) :
    tokens (ps ++ qs) = (tokens ps).foldr before (tokens qs) := by
  simp only [tokens, flatAll_append, List.map_append, merge_append]

theorem tokens_textParts (s : String) (ps : List (Part δ)) :
    tokens (Code.textParts s ++ ps) = before (.text s) (tokens ps) := by
  by_cases hs : s = ""
  · simp [hs, Code.textParts_empty, before_empty]
  · rw [Code.textParts_of_ne hs, tokens_append]
    simp [tokens, flatAll, flat, spelled, merge, before, Code.textParts_of_ne hs]

end Part

/-- The tokens of a block. -/
def Code.tokens (c : Code δ) : List (Part δ) := Part.tokens c.parts

/-! ### Streams of tokens -/

theorem staticMember?_nil (c : ClassName) (rest : String) : staticMember? [] c rest = none := by
  unfold staticMember?
  split <;> simp

section Stream

variable (emit : δ → Stream)

theorem Part.streamAll_eq_flatMap (ps : List (Part δ)) :
    Part.streamAll [] emit ps = ps.flatMap (Part.stream [] emit) := by
  induction ps with
  | nil => rfl
  | cons p ps ih =>
    have hkept : Part.elided? [] p ps = none := by
      unfold Part.elided?
      split
      · rw [staticMember?_nil]
        rfl
      · rfl
    rw [Part.streamAll_eq, hkept, List.flatMap_cons, ih]

mutual

theorem Part.stream_flat : ∀ p : Part δ,
    p.flat.flatMap (Part.stream [] emit) = p.stream [] emit
  | .block c => by rw [Part.flat, Part.stream, Code.stream_flat c]
  | .text _ | .name _ | .quoted _ | .type _ | .declaration _ | .indent | .unindent
  | .openStatement | .closeStatement | .wrapSpace | .wrapPoint => by simp [Part.flat]

theorem Code.stream_flat : ∀ c : Code δ,
    c.flat.flatMap (Part.stream [] emit) = c.stream [] emit
  | ⟨parts, _⟩ => by
    rw [Code.flat, Code.stream, Part.streamAll_eq_flatMap, Part.stream_flatAll parts]

theorem Part.stream_flatAll : ∀ ps : List (Part δ),
    (Part.flatAll ps).flatMap (Part.stream [] emit) = ps.flatMap (Part.stream [] emit)
  | [] => rfl
  | p :: ps => by
    rw [Part.flatAll, List.flatMap_append, Part.stream_flat p, Part.stream_flatAll ps,
      List.flatMap_cons]

end

theorem Part.stream_spelled (p : Part δ) : p.spelled.stream [] emit = p.stream [] emit := by
  cases p with
  | quoted s => cases s <;> simp [Part.spelled, Part.stream]
  | _ => simp [Part.spelled, Part.stream]

variable (session : Session)

theorem Writer.run_before (w : Writer) (p : Part δ) (ps : List (Part δ)) :
    w.run session ((Part.before p ps).flatMap (Part.stream [] emit))
      = w.run session ((p :: ps).flatMap (Part.stream [] emit)) := by
  have hstep : ∀ (w : Writer) (s : String) (rest : Stream),
      w.run session (.text s :: rest) = (w.write session.layout s).run session rest :=
    fun _ _ _ => rfl
  cases p with
  | text s =>
    rcases Part.before_text s ps with ⟨t, rest, rfl, hbefore⟩ | hbefore
    · simp only [hbefore, List.flatMap_cons, Part.stream, List.singleton_append, hstep,
        Writer.write_append]
    · rw [hbefore]
      by_cases hs : s = ""
      · have hnothing : w.write session.layout "" = w := by rw [Writer.write_eq_foldl]; rfl
        simp [hs, Code.textParts_empty, Part.stream, hstep, hnothing]
      · rw [Code.textParts_of_ne hs]
        rfl
  | _ => rfl

/-- **Merging texts cannot be seen.** -/
theorem Writer.run_merge (w : Writer) (ps : List (Part δ)) :
    w.run session ((Part.merge ps).flatMap (Part.stream [] emit))
      = w.run session (ps.flatMap (Part.stream [] emit)) := by
  induction ps generalizing w with
  | nil => rfl
  | cons p ps ih =>
    have hmerge : Part.merge (p :: ps) = Part.before p (Part.merge ps) := rfl
    rw [hmerge, Writer.run_before, List.flatMap_cons, List.flatMap_cons, Writer.run_append,
      Writer.run_append]
    simp only [ih]

theorem Writer.run_tokens (w : Writer) (c : Code δ) :
    w.run session (c.tokens.flatMap (Part.stream [] emit)) = w.run session (c.stream [] emit) := by
  have hspelled : ∀ ps : List (Part δ), (ps.map Part.spelled).flatMap (Part.stream [] emit)
      = ps.flatMap (Part.stream [] emit) := by
    intro ps
    simp only [List.flatMap_map, Part.stream_spelled]
  rw [Code.tokens, Part.tokens, Writer.run_merge, hspelled, ← Code.flat_eq, Code.stream_flat]

end Stream

namespace Code

variable {a b : Code TypeDecl}

theorem run_fragment (session : Session) (h : a.tokens = b.tokens) :
    Stream.run session a.fragment = Stream.run session b.fragment := by
  unfold Stream.run fragment
  rw [← Writer.run_tokens, ← Writer.run_tokens, h]

theorem render_eq_of_tokens (h : a.tokens = b.tokens) : a.fragment.render = b.fragment.render := by
  simp only [Stream.render, run_fragment _ h]

theorem requiredImports_eq_of_tokens (h : a.tokens = b.tokens) (space : String) :
    a.fragment.requiredImports space = b.fragment.requiredImports space := by
  simp only [Stream.requiredImports, run_fragment _ h]

end Code

/-! ### Drafts with the same tokens -/

namespace Code.Draft

/-- The drafts differ in their parts only, and these have the same tokens. -/
structure Alike (d e : Draft δ) : Prop where
  rest : e = { d with parts := e.parts }
  tokens : Part.tokens d.parts = Part.tokens e.parts

variable {d e : Draft δ}

theorem absorb_withParts (d : Draft δ) (ps : List (Part δ)) (c : Code δ) :
    ({ d with parts := ps } : Draft δ).absorb c
      = (d.absorb c).map fun e => { e with parts := ps } := by
  unfold absorb count
  dsimp only
  split
  · rfl
  · split
    · rfl
    · split <;> rfl

theorem argumentPart_withParts (d : Draft δ) (ps : List (Part δ)) (placeholder : Placeholder)
    (arg : Argument δ) :
    ({ d with parts := ps } : Draft δ).argumentPart placeholder arg
      = (d.argumentPart placeholder arg).map fun r => (r.1, { r.2 with parts := ps }) := by
  cases placeholder with
  | literal =>
    cases arg with
    | code c =>
      simp only [argumentPart, absorb_withParts]
      cases d.absorb c <;> rfl
    | _ => rfl
  | _ => cases arg <;> rfl

/-- **Directives do not look at the parts collected so far.** -/
theorem directive_withParts (d : Draft δ) (ps : List (Part δ)) (format : String)
    (args : List (Argument δ)) (cursor : Cursor) (dir : Directive) :
    ({ d with parts := ps } : Draft δ).directive format args cursor dir
      = (d.directive format args cursor dir).map
        fun r => (r.1, { r.2.1 with parts := ps }, r.2.2) := by
  cases dir with
  | argument placeholder position =>
    simp only [directive, bind, Except.bind]
    cases cursor.take format args position with
    | error fault => rfl
    | ok taken =>
      simp only [argumentPart_withParts]
      cases d.argumentPart placeholder taken.1 <;> rfl
  | unindent | openStatement =>
    simp only [directive]
    split <;> rfl
  | closeStatement =>
    simp only [directive, count]
    split
    · split <;> rfl
    · rfl
  | indent | wrapSpace | wrapPoint => rfl

theorem parts_of_directive {format : String} {args : List (Argument δ)} {cursor next : Cursor}
    {dir : Directive} {p : Part δ} (h : d.directive format args cursor dir = .ok (p, e, next)) :
    e.parts = d.parts := by
  have hsame := directive_withParts d d.parts format args cursor dir
  rw [h] at hsame
  simp only [Except.map, Except.ok.injEq, Prod.mk.injEq] at hsame
  rw [hsame.2.1]

theorem Alike.refl (d : Draft δ) : d.Alike d := ⟨rfl, rfl⟩

theorem Alike.trans {f : Draft δ} (h : d.Alike e) (h' : e.Alike f) : d.Alike f := by
  refine ⟨?_, h.tokens.trans h'.tokens⟩
  rw [h'.rest, h.rest]

theorem Alike.push (h : d.Alike e) {ps qs : List (Part δ)} (hpq : Part.tokens ps = Part.tokens qs) :
    (d.push ps).Alike (e.push qs) := by
  refine ⟨?_, ?_⟩
  · rw [h.rest]
    rfl
  · simp only [Draft.push, Part.tokens_append, h.tokens, hpq]

theorem Alike.fail (h : d.Alike e) (fault : CodeFault) : (d.fail fault).Alike (e.fail fault) := by
  refine ⟨?_, h.tokens⟩
  rw [h.rest]
  rfl

theorem Alike.setFlows (h : d.Alike e) (flows : Nat) :
    ({ d with flows := flows } : Draft δ).Alike { e with flows := flows } := by
  refine ⟨?_, h.tokens⟩
  rw [h.rest]

theorem Alike.interpret (h : d.Alike e) (format : String) (args : List (Argument δ))
    (ending : Except CodeFault String) (cursor : Cursor) (segments : List (String × Directive)) :
    (d.interpret format args ending cursor segments).Alike
      (e.interpret format args ending cursor segments) := by
  induction segments generalizing d e cursor with
  | nil =>
    simp only [Draft.interpret, finish]
    split
    · exact h.fail _
    · split
      · exact (h.push rfl).fail _
      · exact h.push rfl
  | cons segment rest ih =>
    obtain ⟨lead, dir⟩ := segment
    have hdirective : e.directive format args cursor dir
        = (d.directive format args cursor dir).map
          fun r => (r.1, { r.2.1 with parts := e.parts }, r.2.2) := by
      rw [← directive_withParts, ← h.rest]
    simp only [Draft.interpret, hdirective]
    cases hfirst : d.directive format args cursor dir with
    | error fault => exact h.fail fault
    | ok r =>
      obtain ⟨p, moved, next⟩ := r
      have hparts := parts_of_directive hfirst
      have hmoved : moved.Alike { moved with parts := e.parts } := ⟨rfl, hparts ▸ h.tokens⟩
      exact ih (hmoved.push rfl) next

theorem Alike.fault_eq (h : d.Alike e) : e.fault = d.fault := by rw [h.rest]

theorem Alike.add (h : d.Alike e) (format : String) (args : List (Argument δ)) :
    (d.add format args).Alike (e.add format args) := by
  unfold Draft.add
  rw [h.fault_eq]
  split
  · exact h
  · exact h.interpret format args _ _ _

theorem Alike.addCode (h : d.Alike e) (c : Code δ) : (d.addCode c).Alike (e.addCode c) := by
  have habsorb : e.absorb c = (d.absorb c).map fun r => { r with parts := e.parts } := by
    rw [← absorb_withParts, ← h.rest]
  unfold Draft.addCode
  rw [h.fault_eq, habsorb]
  split
  · exact h
  · cases hfirst : d.absorb c with
    | error fault => exact h.fail fault
    | ok moved =>
      have hsame := absorb_withParts d d.parts c
      rw [hfirst] at hsame
      simp only [Except.map, Except.ok.injEq] at hsame
      have hparts : moved.parts = d.parts := by rw [hsame]
      have hmoved : moved.Alike { moved with parts := e.parts } := ⟨rfl, hparts ▸ h.tokens⟩
      exact hmoved.push rfl

/-- **An edit cannot tell drafts with the same tokens apart.** -/
theorem Alike.apply (h : d.Alike e) (edit : Edit δ) : (d.apply edit).Alike (e.apply edit) := by
  have hflows : e.flows = d.flows := by rw [h.rest]
  cases edit with
  | add format args => exact h.add format args
  | addStatement format args => exact h.add _ args
  | addCode c => exact h.addCode c
  | beginFlow header args =>
    have hadded := h.add (header ++ " \x7b\n$>") args
    have hcount : (e.add (header ++ " \x7b\n$>") args).flows
        = (d.add (header ++ " \x7b\n$>") args).flows := by rw [hadded.rest]
    simp only [Draft.apply, Draft.beginFlow, hcount]
    exact hadded.setFlows _
  | nextFlow header args =>
    simp only [Draft.apply, Draft.nextFlow, hflows]
    split
    · exact h.fail _
    · exact h.add _ args
  | endFlow =>
    simp only [Draft.apply, Draft.endFlow, hflows]
    split
    · exact h.fail _
    · exact (h.setFlows _).add _ []
  | endFlowWith clause args =>
    simp only [Draft.apply, Draft.endFlowWith, hflows]
    split
    · exact h.fail _
    · exact (h.setFlows _).add _ args
  | indent | unindent => exact h.add _ []

theorem Alike.applyAll (h : d.Alike e) (edits : List (Edit δ)) :
    (d.applyAll edits).Alike (e.applyAll edits) := by
  induction edits generalizing d e with
  | nil => exact h
  | cons edit rest ih => exact ih (h.apply edit)

/-- The drafts fail with one error, or are built to blocks that are written alike, and
    require the same imports in every namespace. -/
structure SameOutput (d e : Draft TypeDecl) : Prop where
  render : (do let c ← d.build; c.fragment.render) = do let c ← e.build; c.fragment.render
  requiredImports : ∀ space, (do let c ← d.build; c.fragment.requiredImports space)
    = do let c ← e.build; c.fragment.requiredImports space

theorem Alike.sameOutput {d e : Draft TypeDecl} (h : d.Alike e) : d.SameOutput e := by
  have hbuild : (∃ err, d.build = .error err ∧ e.build = .error err)
      ∨ ∃ a b : Code TypeDecl, d.build = .ok a ∧ e.build = .ok b ∧ a.tokens = b.tokens := by
    have hrest := h.rest
    unfold Draft.build
    rw [hrest]
    dsimp only
    split
    · exact .inl ⟨_, rfl, rfl⟩
    · split
      · exact .inl ⟨_, rfl, rfl⟩
      · split
        · exact .inl ⟨_, rfl, rfl⟩
        · exact .inr ⟨_, _, rfl, rfl, h.tokens⟩
  rcases hbuild with ⟨err, hd, he⟩ | ⟨a, b, hd, he, htokens⟩
  · refine ⟨?_, fun space => ?_⟩
    · rw [hd, he]
    · rw [hd, he]
  · refine ⟨?_, fun space => ?_⟩
    · rw [hd, he]
      exact render_eq_of_tokens htokens
    · rw [hd, he]
      exact requiredImports_eq_of_tokens htokens space

end Code.Draft

end CSharpGen
