/-
  CSharpGen/Proofs/Expressions.lean
  =================================
  **The expression of a block that is one statement.**  An accessor whose body is
  one statement is written as an expression behind an arrow.  The expression is
  cut out of the block by a look at its outermost parts only, and by a count of
  statements that is kept elsewhere.

  `Code.IsStatement` says what such a block is: the two marks around the parts of
  the statement, by itself or alone in other blocks.  From it follow

    * that nothing is lost (`Code.singleExpression_keeps_body`): with nested
      blocks written out and texts merged, the block is its expression between
      the marks, with at most one `return ` before it.  That no statement hides
      in the expression rests on what drafts refuse (`Code.Built.sound`);
    * when the `return ` goes (`Code.leading_return_dropped_iff`): only the first
      part is looked at.  A `return ` that comes with a nested block, or is put
      together from several texts, stays behind the arrow
      (`Property.return_behind_arrow`).
-/
import CSharpGen.Proofs.Builders
import CSharpGen.Proofs.Tokens

namespace CSharpGen

variable {δ : Type}

/-! ### Leading texts -/

theorem Text.after_eq_some_iff {lead s t : String} : after lead s = some t ↔ s = lead ++ t := by
  have hchars : ∀ ls cs ts : List Char, afterChars ls cs = some ts ↔ cs = ls ++ ts := by
    intro ls
    induction ls with
    | nil => simp [afterChars]
    | cons l ls ih =>
      intro cs ts
      cases cs with
      | nil => simp [afterChars]
      | cons c cs =>
        by_cases hc : l = c
        · simp [afterChars, hc, ih]
        · simp [afterChars, hc, Ne.symm hc]
  unfold after
  rw [Option.map_eq_some_iff]
  constructor
  · rintro ⟨ts, hts, rfl⟩
    rw [← String.toList_inj, (hchars _ _ _).mp hts]
    simp
  · rintro rfl
    exact ⟨t.toList, (hchars _ _ _).mpr (by simp), by simp⟩

namespace Writer

theorem run_text (session : Session) (w : Writer) (s : String) (rest : Stream) :
    w.run session (.text s :: rest) = (w.write session.layout s).run session rest := rfl

theorem write_nothing (layout : Layout) (w : Writer) : w.write layout "" = w := by
  rw [write_eq_foldl]
  rfl

end Writer

namespace Part

/-- The text that some parts begin with, up to the first part that is none. -/
def leadText : List (Part δ) → String
  | .text s :: ps => s ++ leadText ps
  | _ => ""

theorem leadText_textParts (s : String) (ps : List (Part δ)) :
    leadText (Code.textParts s ++ ps) = s ++ leadText ps := by
  by_cases hs : s = ""
  · simp [hs, Code.textParts_empty]
  · rw [Code.textParts_of_ne hs]
    rfl

theorem leadText_concat_closeStatement (ps : List (Part δ)) :
    leadText (ps ++ [.closeStatement]) = leadText ps := by
  induction ps with
  | nil => rfl
  | cons p ps ih =>
    cases p with
    | text s => simp only [List.cons_append, leadText, ih]
    | _ => rfl

theorem flatAll_textParts (s : String) (ps : List (Part δ)) :
    flatAll (Code.textParts s ++ ps) = Code.textParts s ++ flatAll ps := by
  by_cases hs : s = ""
  · simp [hs, Code.textParts_empty]
  · simp [Code.textParts_of_ne hs, flatAll, flat]

theorem merge_textParts (s : String) (ps : List (Part δ)) :
    merge (Code.textParts s ++ ps) = before (.text s) (merge ps) := by
  by_cases hs : s = ""
  · simp [hs, Code.textParts_empty, before_empty]
  · rw [Code.textParts_of_ne hs]
    rfl

theorem merge_concat_closeStatement (ps : List (Part δ)) :
    merge (ps ++ [.closeStatement]) = merge ps ++ [.closeStatement] := by
  induction ps with
  | nil => rfl
  | cons p ps ih =>
    have hbefore : ∀ qs : List (Part δ),
        before p (qs ++ [.closeStatement]) = before p qs ++ [.closeStatement] := by
      intro qs
      cases p with
      | text s =>
        cases qs with
        | nil => simp [before]
        | cons q qs => cases q <;> simp [before]
      | _ => rfl
    show before p (merge (ps ++ [.closeStatement])) = _
    rw [ih, hbefore]
    rfl

/-- A type before the end of a statement is never left out. -/
theorem streamAll_concat_closeStatement (statics : List ClassName) (emit : δ → Stream)
    (ps : List (Part δ)) : streamAll statics emit (ps ++ [.closeStatement])
      = streamAll statics emit ps ++ [.closeStatement] := by
  induction ps with
  | nil => simp [streamAll, stream]
  | cons p ps ih =>
    have helided : elided? statics p (ps ++ [.closeStatement])
        = (elided? statics p ps).map fun found => (found.1, found.2 ++ [.closeStatement]) := by
      cases p with
      | type t =>
        cases t with
        | named c =>
          cases ps with
          | nil => rfl
          | cons q qs => cases q <;> simp [elided?, Function.comp_def]
        | _ => rfl
      | _ => rfl
    simp only [List.cons_append, streamAll_eq, helided]
    cases hfound : elided? statics p ps with
    | none => simp [ih]
    | some found =>
      obtain ⟨member, more⟩ := found
      obtain ⟨c, rest, rfl, rfl⟩ := elided?_eq_some statics hfound
      rw [List.cons_append, streamAll_text, streamAll_text, List.cons_append] at ih
      simp only [Option.map, (List.cons.inj ih).2, List.cons_append]

end Part

namespace Code

/-! ### Blocks that are one statement -/

/-- The block is the statement with the given parts, by itself or alone in other blocks. -/
inductive IsStatement (body : List (Part δ)) : Code δ → Prop
  | here (n : Nat) : IsStatement body ⟨.openStatement :: (body ++ [.closeStatement]), n⟩
  | nested {c : Code δ} (n : Nat) (h : IsStatement body c) : IsStatement body ⟨[.block c], n⟩

namespace IsStatement

variable {c : Code δ} {body : List (Part δ)}

theorem unique {other : List (Part δ)} (h : c.IsStatement body) (h' : c.IsStatement other) :
    body = other := by
  induction h with
  | here n =>
    generalize hc : (⟨.openStatement :: (body ++ [.closeStatement]), n⟩ : Code δ) = d at h'
    cases h' with
    | here m =>
      injection hc with hparts
      exact List.append_cancel_right (List.cons.inj hparts).2
    | nested m _ => simp at hc
  | nested n _ ih =>
    cases h' with
    | nested m h' => exact ih h'

theorem flat_eq (h : c.IsStatement body) :
    c.flat = .openStatement :: (Part.flatAll body ++ [.closeStatement]) := by
  induction h with
  | here n => simp [Code.flat, Part.flatAll, Part.flat, Part.flatAll_append]
  | nested n _ ih => rw [Code.flat, Part.flatAll_singleton, Part.flat, ih]

theorem stream_eq (h : c.IsStatement body) (statics : List ClassName) (emit : δ → Stream) :
    c.stream statics emit
      = .openStatement :: (Part.streamAll statics emit body ++ [.closeStatement]) := by
  induction h with
  | here n =>
    rw [Code.stream, Part.streamAll_eq, Part.streamAll_concat_closeStatement]
    rfl
  | nested n _ ih =>
    rw [Code.stream, Part.streamAll_eq]
    simp [Part.elided?, Part.stream, Part.streamAll, ih]

theorem isEmpty_eq (h : c.IsStatement body) : c.isEmpty = false := by
  cases h with
  | here n => rfl
  | nested n _ => rfl

end IsStatement

/-- **What a single expression is cut out of**: a statement without marks among its parts. -/
theorem isStatement_of_singleExpression? {c e : Code δ} (h : c.singleExpression? = some e) :
    ∃ body, c.IsStatement body ∧ (∀ p ∈ body, p.isMark = false) ∧ e = ⟨dropReturn body, 0⟩ := by
  fun_induction Code.singleExpression? c with
  | case1 inner ih =>
    obtain ⟨body, hbody, hmarks, he⟩ := ih h
    exact ⟨body, .nested 1 hbody, hmarks, he⟩
  | case3 rest =>
    unfold statementExpression? at h
    split at h
    next hlast =>
      split at h
      next => cases h
      next hmarks =>
        cases h
        obtain ⟨body, rfl⟩ := List.getLast?_eq_some_iff.mp hlast
        rw [List.dropLast_concat] at hmarks ⊢
        exact ⟨body, .here 1, by simpa using hmarks, rfl⟩
    next => cases h
  | case2 | case4 | case5 => cases h

/-- Only a text in front is touched: it loses a `return `, and is left out when empty. -/
theorem dropReturn_cases (body : List (Part δ)) :
    (dropReturn body = body ∧ ∀ s more, body ≠ .text s :: more)
      ∨ ∃ lead t more, (lead = "" ∧ (∀ s, t ≠ "return " ++ s) ∨ lead = "return ")
        ∧ body = .text (lead ++ t) :: more ∧ dropReturn body = textParts t ++ more := by
  unfold dropReturn
  split
  next s more =>
    refine .inr ?_
    cases hafter : Text.after "return " s with
    | some t =>
      obtain rfl := Text.after_eq_some_iff.mp hafter
      exact ⟨"return ", t, more, .inr rfl, rfl, rfl⟩
    | none =>
      refine ⟨"", s, more, .inl ⟨rfl, ?_⟩, by simp, rfl⟩
      rintro t rfl
      rw [Text.after_eq_some_iff.mpr rfl] at hafter
      cases hafter
  next hno => exact .inl ⟨rfl, fun s more heq => hno s more heq⟩

/-- The parts of a statement are what is left of them behind a text that is taken away. -/
theorem merge_dropReturn (body : List (Part δ)) :
    ∃ lead, (lead = "" ∨ lead = "return ")
      ∧ Part.merge (Part.flatAll body) = Part.merge (.text lead :: Part.flatAll (dropReturn body))
      ∧ ∀ statics (emit : δ → Stream) session (w : Writer),
        w.run session (Part.streamAll statics emit body)
          = w.run session (.text lead :: Part.streamAll statics emit (dropReturn body)) := by
  rcases dropReturn_cases body with ⟨hsame, -⟩ | ⟨lead, t, more, hlead, rfl, hdrop⟩
  · refine ⟨"", .inl rfl, ?_, ?_⟩
    · rw [hsame]
      exact (Part.before_empty _).symm
    · intro statics emit session w
      rw [hsame, Writer.run_text, Writer.write_nothing]
  · refine ⟨lead, hlead.imp And.left id, ?_, ?_⟩
    · rw [hdrop, Part.flatAll_textParts]
      show Part.before (.text (lead ++ t)) _ = Part.before (.text lead) (Part.merge _)
      rw [Part.merge_textParts, Part.before_before]
      rfl
    · intro statics emit session w
      rw [hdrop, Part.streamAll_text, Writer.run_text, Writer.run_text, Writer.write_append]
      by_cases ht : t = ""
      · simp [ht, textParts_empty, Writer.write_nothing]
      · rw [textParts_of_ne ht, List.singleton_append, Part.streamAll_text, Writer.run_text]

/-! ### Nothing is lost -/

/-- In a sound block the parts of the statement stand inside of it. -/
theorem IsStatement.inside {tight : Prop} {c : Code δ} {body : List (Part δ)}
    (h : c.IsStatement body) (hsound : c.Sound tight) :
    Part.track true (Part.flatAll body) = some true ∧ ∀ b, .block b ∈ body → b.Sound tight := by
  induction h with
  | here n =>
    refine ⟨?_, fun b hb => hsound.nested (by simp [hb])⟩
    obtain ⟨halternate, -⟩ := hsound.flat
    rw [(IsStatement.here n).flat_eq] at halternate
    have htrack : Part.track true (Part.flatAll body ++ [.closeStatement]) = some false :=
      halternate
    rw [Part.track_append] at htrack
    obtain ⟨b, hb, hclose⟩ := Option.bind_eq_some_iff.mp htrack
    cases b with
    | true => exact hb
    | false => cases hclose
  | nested n _ ih => exact ih (hsound.nested (by simp))

theorem no_mark_dropReturn {body : List (Part δ)}
    (h : ∀ p ∈ Part.flatAll body, p.isStatementMark = false) :
    ∀ p ∈ Part.flatAll (dropReturn body), p.isStatementMark = false := by
  rcases dropReturn_cases body with ⟨hsame, -⟩ | ⟨lead, t, more, -, rfl, hdrop⟩
  · rw [hsame]
    exact h
  · rw [hdrop, Part.flatAll_textParts]
    intro p hp
    rcases List.mem_append.mp hp with hp | hp
    · by_cases ht : t = ""
      · simp [ht, textParts_empty] at hp
      · rw [textParts_of_ne ht] at hp
        cases List.mem_singleton.mp hp
        rfl
    · exact h p (List.mem_append_right _ hp)

/-- **A single expression is the whole block**, less the marks and at most one `return `.
    It holds no statement, and the writer cannot tell the block from its pieces; so an
    accessor that is written as an expression loses nothing else. -/
theorem singleExpression_keeps_body {calls : Edit δ → Prop} {c e : Code δ} (h : c.Built calls)
    (he : c.singleExpression? = some e) :
    e.statements = 0 ∧ (∀ p ∈ e.flat, p.isStatementMark = false)
    ∧ ∃ lead, (lead = "" ∨ lead = "return ")
      ∧ Part.merge c.flat
        = .openStatement :: (Part.merge (.text lead :: e.flat) ++ [.closeStatement])
      ∧ ∀ statics (emit : δ → Stream),
        (∀ session (w : Writer), w.run session (c.stream statics emit) = w.run session
          (.openStatement :: .text lead :: (e.stream statics emit ++ [.closeStatement])))
        ∧ ∀ keyword, accessorStream statics emit keyword c
          = .text keyword :: .text " => " :: (e.stream statics emit ++ [.text ";\n"]) := by
  obtain ⟨body, hbody, hmarks, hdropped⟩ := isStatement_of_singleExpression? he
  obtain ⟨lead, hlead, hmerge, hruns⟩ := merge_dropReturn body
  have hsound : c.Sound False := h.sound False.elim
  obtain ⟨hinside, hnested⟩ := hbody.inside hsound
  obtain ⟨hclean, -⟩ := no_mark_of_inside hmarks hnested hinside
  have hflat : e.flat = Part.flatAll (dropReturn body) := by rw [hdropped, Code.flat]
  have hstream : ∀ statics (emit : δ → Stream),
      e.stream statics emit = Part.streamAll statics emit (dropReturn body) := by
    intro statics emit
    rw [hdropped, Code.stream]
  refine ⟨by rw [hdropped], ?_, lead, hlead, ?_, fun statics emit => ⟨fun session w => ?_, ?_⟩⟩
  · rw [hflat]
    exact no_mark_dropReturn hclean
  · rw [hbody.flat_eq, hflat, ← hmerge, ← Part.merge_concat_closeStatement]
    rfl
  · -- The statement is opened first, and closed behind whatever stands in it.
    have hopen : ∀ s t : Stream, (∀ v : Writer, v.run session s = v.run session t) →
        w.run session (.openStatement :: (s ++ [.closeStatement]))
          = w.run session (.openStatement :: (t ++ [.closeStatement])) := by
      intro s t hst
      simp only [Writer.run, Writer.run_append, hst]
    rw [hbody.stream_eq, hstream]
    exact hopen _ _ (hruns statics emit session)
  · intro keyword
    simp [accessorStream, hbody.isEmpty_eq, he, arrowStream]

/-- A statement that returns twice a value. -/
def doubled : Code TypeDecl :=
  ⟨[.openStatement, .text "return ", .name "value", .text " * 2", .closeStatement], 1⟩

/-- The statement, handed over as a block. -/
def doubledInside : Code TypeDecl := ⟨[.block doubled], 1⟩

theorem singleExpression_keeps_body_doubled :
    doubledInside.Built (fun _ => True)
    ∧ doubledInside.singleExpression? = some ⟨[.name "value", .text " * 2"], 0⟩
    ∧ ∃ lead, (lead = "" ∨ lead = "return ") ∧ Part.merge doubledInside.flat
      = [.openStatement] ++ Part.merge [.text lead, .name "value", .text " * 2"]
        ++ [.closeStatement] := by
  have hdoubled : doubled.Built fun _ => True :=
    .finished (.edited (e := .addStatement "return $N * 2" [.text "value"]) .empty trivial
      (by simp [Edit.blocks, Argument.blocks])) rfl
  have hinside : doubledInside.Built fun _ => True :=
    .finished (.edited (e := .add "$L" [.code doubled]) .empty trivial
      (by simpa [Edit.blocks, Argument.blocks] using hdoubled)) rfl
  obtain ⟨-, -, lead, hlead, hmerge, -⟩ := singleExpression_keeps_body hinside rfl
  exact ⟨hinside, rfl, lead, hlead, hmerge⟩

/-! ### When the `return ` goes -/

/-- The text that the statement of a block begins with. -/
def statementText (c : Code δ) : String := Part.leadText c.flat.tail

/-- The first part of the statement is a text that begins with `return ` by itself. -/
def OpensWithReturn (c : Code δ) : Prop :=
  ∃ s more, c.IsStatement (.text ("return " ++ s) :: more)

theorem IsStatement.statementText_eq {c : Code δ} {body : List (Part δ)}
    (h : c.IsStatement body) : c.statementText = Part.leadText (Part.flatAll body) := by
  rw [statementText, h.flat_eq]
  exact Part.leadText_concat_closeStatement _

theorem IsStatement.opensWithReturn_iff {c : Code δ} {body : List (Part δ)}
    (h : c.IsStatement body) :
    c.OpensWithReturn ↔ ∃ s more, body = .text ("return " ++ s) :: more := by
  constructor
  · rintro ⟨s, more, hother⟩
    exact ⟨s, more, h.unique hother⟩
  · rintro ⟨s, more, rfl⟩
    exact ⟨s, more, h⟩

/-- The text in front loses a `return ` that its first piece holds, and nothing else. -/
theorem leadText_dropReturn (body : List (Part δ)) :
    ((∃ s more, body = .text ("return " ++ s) :: more)
        ∧ Part.leadText (Part.flatAll body)
          = "return " ++ Part.leadText (Part.flatAll (dropReturn body)))
      ∨ (¬ ∃ s more, body = .text ("return " ++ s) :: more)
        ∧ Part.leadText (Part.flatAll (dropReturn body)) = Part.leadText (Part.flatAll body) := by
  rcases dropReturn_cases body with ⟨hsame, hno⟩ | ⟨lead, t, more, hlead, rfl, hdrop⟩
  · refine .inr ⟨?_, by rw [hsame]⟩
    rintro ⟨s, more, hbody⟩
    exact hno _ more hbody
  · have hwhole : Part.leadText (Part.flatAll (.text (lead ++ t) :: more))
        = lead ++ Part.leadText (Part.flatAll (dropReturn (.text (lead ++ t) :: more))) := by
      rw [hdrop, Part.flatAll_textParts, Part.leadText_textParts, ← String.append_assoc]
      rfl
    rcases hlead with ⟨rfl, hno⟩ | rfl
    · refine .inr ⟨?_, (hwhole.trans String.empty_append).symm⟩
      rintro ⟨s, other, hbody⟩
      obtain ⟨htext, -⟩ := List.cons.inj hbody
      injection htext with htext
      exact hno s (by simpa using htext)
    · exact .inl ⟨⟨t, more, rfl⟩, hwhole⟩

/-- **A leading `return ` is dropped exactly when the first part of the statement holds it
    whole.**  Otherwise the expression begins with it. -/
theorem leading_return_dropped_iff {c e : Code δ} (he : c.singleExpression? = some e)
    {rest : String} (hreturn : c.statementText = "return " ++ rest) :
    (Part.leadText e.flat = rest ↔ c.OpensWithReturn)
    ∧ (Part.leadText e.flat = "return " ++ rest ↔ ¬ c.OpensWithReturn) := by
  obtain ⟨body, hbody, -, rfl⟩ := isStatement_of_singleExpression? he
  have hlonger : rest ≠ "return " ++ rest := by
    intro heq
    have hlength := congrArg String.length heq
    have hseven : "return ".length = 7 := rfl
    rw [String.length_append] at hlength
    omega
  rw [hbody.statementText_eq] at hreturn
  rw [hbody.opensWithReturn_iff, Code.flat]
  rcases leadText_dropReturn body with ⟨hopens, htext⟩ | ⟨hopens, htext⟩
  · have hrest : Part.leadText (Part.flatAll (dropReturn body)) = rest := by
      rw [hreturn] at htext
      exact (String.append_right_inj _).mp htext.symm
    rw [hrest]
    exact ⟨iff_of_true rfl hopens, iff_of_false hlonger (not_not.mpr hopens)⟩
  · rw [htext, hreturn]
    exact ⟨iff_of_false hlonger.symm hopens, iff_of_true rfl hopens⟩

/-- A statement that returns, with the word in a block of its own. -/
def returnInBlock : Code TypeDecl :=
  ⟨[.openStatement, .block ⟨[.text "return 1"], 0⟩, .closeStatement], 1⟩

/-- A statement that returns, with the word in two pieces. -/
def returnInPieces : Code TypeDecl :=
  ⟨[.openStatement, .text "return", .text " 1", .closeStatement], 1⟩

theorem leading_return_dropped_iff_doubled :
    (doubledInside.statementText = "return " ∧ doubledInside.OpensWithReturn)
    ∧ returnInBlock.statementText = "return 1" ∧ ¬ returnInBlock.OpensWithReturn := by
  have hdoubled : doubledInside.statementText = "return " ++ "" := rfl
  have hblock : returnInBlock.statementText = "return " ++ "1" := rfl
  exact ⟨⟨hdoubled, (leading_return_dropped_iff rfl hdoubled).1.mp rfl⟩,
    hblock, (leading_return_dropped_iff rfl hblock).2.mp rfl⟩

end Code

namespace Property

/-- A property with only a getter. -/
def reading (body : Code TypeDecl) : Property TypeDecl :=
  ⟨some "P", .builtIn .intKw, .empty, [], .empty, [], some body, none, none⟩

theorem obtainable_reading {body : Code TypeDecl} (h : Obtainable (.code body)) :
    Obtainable (.built .property (reading body)) := by
  refine .built (.edited (k := .property) (e := Edit.getter body)
    (.opened (.property (.builtIn .intKw) (some "P")) (by simp)) ?_) rfl
  simpa [Construct.handed] using h

/-- The statement begins with `return `, and so does what is written behind the arrow. -/
structure KeepsReturn (body : Code TypeDecl) : Prop where
  statement : body.statementText = "return " ++ "1"
  expression : ∃ e, body.singleExpression? = some e ∧ Part.leadText e.flat = "return 1"
  render : (reading body).fragment.render = .ok "int P => return 1;\n"

/-- **A `return ` can stay behind the arrow**, where it comes with a nested block or in
    pieces. -/
theorem return_behind_arrow :
    (Obtainable (.built .property (reading .returnInBlock)) ∧ KeepsReturn .returnInBlock)
    ∧ Obtainable (.built .property (reading .returnInPieces)) ∧ KeepsReturn .returnInPieces := by
  have hinner : Code.Built (fun _ => True) (⟨[.text "return 1"], 0⟩ : Code TypeDecl) :=
    .finished (.edited (e := .add "return 1" []) .empty trivial (by simp [Code.Edit.blocks])) rfl
  have hblock : Obtainable (.code Code.returnInBlock) := by
    refine .code (.finished (.edited (e := .addStatement "$L" [.code ⟨[.text "return 1"], 0⟩])
      .empty trivial ?_) rfl) ?_
    · simpa [Code.Edit.blocks, Argument.blocks] using hinner
    · intro t ht
      cases ht
  have hpieces : Obtainable (.code Code.returnInPieces) := by
    refine .code (.finished (.edited (e := .addStatement "return$L" [.text " 1"])
      .empty trivial ?_) rfl) ?_
    · simp [Code.Edit.blocks, Argument.blocks]
    · intro t ht
      cases ht
  refine ⟨⟨obtainable_reading hblock, rfl, ⟨_, rfl, rfl⟩, ?_⟩,
    obtainable_reading hpieces, rfl, ⟨_, rfl, rfl⟩, ?_⟩
  · exact Except.eq_ok_of_toOption (by decide +kernel)
  · exact Except.eq_ok_of_toOption (by decide +kernel)

end Property

end CSharpGen
