/-
  CSharpGen/Proofs/Literals.lean
  ==============================
  **String literals.**  A literal is read back by a reader of its own
  (`Text.unescape`): a backslash begins an escape, and every other character
  stands for itself if the reader lets it.  The whole theory rests on how one
  character is written (`Text.escape_cases`): by a short escape, by its code, or
  as itself.  What is not the character itself is printable ASCII, so the ways to
  misread a literal are few, and reading gives the text back
  (`Text.unescape_flatMap_escape`).

  What a character escapes is decided by its Unicode category, and a compiler ends
  a line at characters of other categories, too: U+2028 and U+2029 are no
  control characters.  They are the only ones that break a literal
  (`Text.literal_unbroken_iff`).

  A literal holds no line end, so that writing it ends no line.  It takes room,
  though, and a break before or behind it may then become a line end.  Nothing but
  its width matters for the number of lines (`Text.literal_denotes_value`).
-/
import CSharpGen.Proofs.LineEnds
import CSharpGen.Proofs.Transcripts
import CSharpGen.Text.Quoted

namespace CSharpGen

namespace Text

/-! ### Reading literals -/

/-- What a backslash and a character behind it stand for. -/
def shortEscape? : Char → Option Char
  | '"' => some '"'
  | '\\' => some '\\'
  | 'n' => some '\n'
  | 'r' => some '\r'
  | 't' => some '\t'
  | '0' => some '\x00'
  | _ => none

/-- The character whose code is written in four hexadecimal digits. -/
def fromHexFour? (a b c d : Char) : Option Char := do
  let a ← hexValue? a
  let b ← hexValue? b
  let c ← hexValue? c
  let d ← hexValue? d
  let code := 0x1000 * a + 0x100 * b + 0x10 * c + d
  if code.isValidChar then some (Char.ofNat code) else none

/-- The text that the characters between the quotes of a literal denote.  A quote, a
    backslash that begins no escape, and a character that `bare` does not let stand for
    itself are errors. -/
def unescape (bare : Char → Bool) : List Char → Option (List Char)
  | [] => some []
  | '\\' :: 'u' :: a :: b :: c :: d :: rest => do
    let x ← fromHexFour? a b c d
    let text ← unescape bare rest
    return x :: text
  | '\\' :: k :: rest => do
    let x ← shortEscape? k
    let text ← unescape bare rest
    return x :: text
  | c :: rest =>
    if c = '"' ∨ c = '\\' ∨ bare c = false then none else (unescape bare rest).map (c :: ·)

/-! ### How a character is written -/

/-- The characters that stand for themselves in a literal. -/
def isBare (c : Char) : Bool := c != '"' && c != '\\' && !isControl c

/-- The printable characters of ASCII. -/
def isPrintable (c : Char) : Bool := 0x20 ≤ c.toNat && c.toNat < 0x7f

theorem escape_cases (c : Char) :
    (∃ k, shortEscape? k = some c ∧ escape c = ['\\', k] ∧ isBare c = false)
      ∨ (isControl c = true ∧ escape c = '\\' :: 'u' :: hexFour c.toNat)
      ∨ (isBare c = true ∧ escape c = [c]) := by
  unfold escape
  split_ifs with hquote hbackslash hnewline hreturn htab hnull hcontrol
  · exact .inl ⟨'"', by simp [shortEscape?, hquote], rfl, by simp [isBare, hquote]⟩
  · exact .inl ⟨'\\', by simp [shortEscape?, hbackslash], rfl, by simp [isBare, hbackslash]⟩
  · exact .inl ⟨'n', by simp [shortEscape?, hnewline], rfl, by subst hnewline; decide⟩
  · exact .inl ⟨'r', by simp [shortEscape?, hreturn], rfl, by subst hreturn; decide⟩
  · exact .inl ⟨'t', by simp [shortEscape?, htab], rfl, by subst htab; decide⟩
  · exact .inl ⟨'0', by simp [shortEscape?, hnull], rfl, by subst hnull; decide⟩
  · exact .inr (.inl ⟨hcontrol, rfl⟩)
  · exact .inr (.inr ⟨by simp [isBare, hquote, hbackslash, hcontrol], rfl⟩)

theorem isBare_of_isControl {c : Char} (h : isControl c = true) : isBare c = false := by
  simp [isBare, h]

theorem escape_of_isBare {c : Char} (h : isBare c = true) : escape c = [c] := by
  rcases escape_cases c with ⟨k, -, -, hnot⟩ | ⟨hcontrol, -⟩ | ⟨-, heq⟩
  · rw [h] at hnot
    cases hnot
  · rw [isBare_of_isControl hcontrol] at h
    cases h
  · exact heq

theorem isPrintable_of_shortEscape? {k c : Char} (h : shortEscape? k = some c) :
    isPrintable k = true := by
  unfold shortEscape? at h
  split at h
  case h_7 => cases h
  all_goals rfl

theorem isPrintable_hexDigit : ∀ n < 16, isPrintable (hexDigit n) = true := by
  decide

theorem isPrintable_of_mem_hexFour {n : Nat} {x : Char} (h : x ∈ hexFour n) :
    isPrintable x = true := by
  simp only [hexFour, List.mem_cons, List.not_mem_nil, or_false] at h
  rcases h with rfl | rfl | rfl | rfl <;>
    exact isPrintable_hexDigit _ (Nat.mod_lt _ (by decide))

/-- **A character is written as itself or in printable ASCII.** -/
theorem mem_escape {x c : Char} (h : x ∈ escape c) :
    x = c ∧ isBare c = true ∨ isPrintable x = true := by
  rcases escape_cases c with ⟨k, hk, heq, -⟩ | ⟨-, heq⟩ | ⟨hbare, heq⟩
  · rw [heq] at h
    rcases List.mem_cons.mp h with rfl | h
    · exact .inr rfl
    · cases List.mem_singleton.mp h
      exact .inr (isPrintable_of_shortEscape? hk)
  · rw [heq] at h
    rcases List.mem_cons.mp h with rfl | h
    · exact .inr rfl
    · rcases List.mem_cons.mp h with rfl | h
      · exact .inr rfl
      · exact .inr (isPrintable_of_mem_hexFour h)
  · rw [heq] at h
    exact .inl ⟨List.mem_singleton.mp h, hbare⟩

theorem isControl_of_isPrintable {x : Char} (h : isPrintable x = true) : isControl x = false := by
  simp only [isPrintable, isControl, Bool.and_eq_true, decide_eq_true_eq] at h ⊢
  simp only [Bool.or_eq_false_iff, Bool.and_eq_false_iff, decide_eq_false_iff_not]
  omega

/-! ### Reading back -/

theorem fromHexFour?_hexFour {c : Char} (h : c.toNat < 0x10000) :
    fromHexFour? (hexDigit (c.toNat / 0x1000 % 0x10)) (hexDigit (c.toNat / 0x100 % 0x10))
      (hexDigit (c.toNat / 0x10 % 0x10)) (hexDigit (c.toNat % 0x10)) = some c := by
  have hdigit : ∀ n, hexValue? (hexDigit (n % 0x10)) = some (n % 0x10) := fun n =>
    hexValue?_hexDigit _ (Nat.mod_lt _ (by decide))
  have hcode : 0x1000 * (c.toNat / 0x1000 % 0x10) + 0x100 * (c.toNat / 0x100 % 0x10)
      + 0x10 * (c.toNat / 0x10 % 0x10) + c.toNat % 0x10 = c.toNat := by omega
  have hvalid : c.toNat.isValidChar := c.valid
  simp [fromHexFour?, hdigit, hcode, hvalid]

theorem unescape_bare {bare : Char → Bool} {c : Char} (h : isBare c = true) (rest : List Char) :
    unescape bare (c :: rest)
      = if bare c = false then none else (unescape bare rest).map (c :: ·) := by
  simp only [isBare, Bool.and_eq_true, bne_iff_ne] at h
  obtain ⟨⟨hquote, hbackslash⟩, -⟩ := h
  rw [unescape]
  · simp [hquote, hbackslash]
  · intro a b d e rest' heq
    exact absurd heq hbackslash
  · intro k rest' heq
    exact absurd heq hbackslash

/-- One character is read back, if the reader lets it stand where it is written as itself. -/
theorem unescape_escape_append (bare : Char → Bool) (c : Char) (rest : List Char) :
    unescape bare (escape c ++ rest)
      = if isBare c = true ∧ bare c = false then none else (unescape bare rest).map (c :: ·) := by
  rcases escape_cases c with ⟨k, hk, heq, hbare⟩ | ⟨hcontrol, heq⟩ | ⟨hbare, heq⟩
  · have hu : k ≠ 'u' := by
      rintro rfl
      cases hk
    rw [heq, if_neg (by simp [hbare]), List.cons_append, List.cons_append, List.nil_append,
      unescape, hk]
    · cases unescape bare rest <;> rfl
    · intro a b c d rest hk
      exact absurd hk hu
  · have hcode : c.toNat < 0x10000 := by
      simp only [isControl, Bool.or_eq_true, Bool.and_eq_true, decide_eq_true_eq] at hcontrol
      omega
    rw [heq, if_neg (by simp [isBare_of_isControl hcontrol])]
    simp only [hexFour, List.cons_append, List.nil_append]
    rw [unescape, fromHexFour?_hexFour hcode]
    cases unescape bare rest <;> rfl
  · rw [heq, List.singleton_append, unescape_bare hbare]
    simp [hbare]

/-- **Reading back** gives the text exactly if the reader lets every character stand that is
    written as itself. -/
theorem unescape_flatMap_escape (bare : Char → Bool) (cs : List Char) :
    unescape bare (cs.flatMap escape) = some cs
      ↔ ∀ c ∈ cs, isBare c = true → bare c = true := by
  induction cs with
  | nil => simp [unescape]
  | cons c rest ih =>
    rw [List.flatMap_cons, unescape_escape_append, List.forall_mem_cons, ← ih]
    by_cases hc : isBare c = true ∧ bare c = false
    · rw [if_pos hc]
      constructor
      · intro h
        cases h
      · rintro ⟨hlet, -⟩
        rw [hlet hc.1] at hc
        cases hc.2
    · have hlet : isBare c = true → bare c = true := by
        intro hbare
        simpa [hbare] using hc
      rw [if_neg hc]
      constructor
      · intro h
        obtain ⟨text, hread, heq⟩ := Option.map_eq_some_iff.mp h
        exact ⟨hlet, (List.cons.inj heq).2 ▸ hread⟩
      · rintro ⟨-, hread⟩
        rw [hread, Option.map_some]

/-! ### The literal of a text -/

theorem toList_quote (v : String) :
    (quote v).toList = '"' :: (v.toList.flatMap escape ++ ['"']) := String.toList_ofList

/-- The characters of a literal are those of the text, or printable ASCII. -/
theorem mem_quote {x : Char} {v : String} (h : x ∈ (quote v).toList) :
    x ∈ v.toList ∧ isBare x = true ∨ isPrintable x = true := by
  rw [toList_quote, List.mem_cons, List.mem_append, List.mem_singleton] at h
  rcases h with rfl | h | rfl
  · exact .inr rfl
  · obtain ⟨c, hc, hx⟩ := List.mem_flatMap.mp h
    exact (mem_escape hx).imp_left fun ⟨heq, hbare⟩ => heq ▸ ⟨hc, hbare⟩
  · exact .inr rfl

theorem mem_quote_of_isBare {x : Char} {v : String} (hx : x ∈ v.toList) (hbare : isBare x = true) :
    x ∈ (quote v).toList := by
  have hescape : x ∈ escape x := by simp [escape_of_isBare hbare]
  rw [toList_quote]
  exact List.mem_cons_of_mem _ (List.mem_append_left _ (List.mem_flatMap.mpr ⟨x, hx, hescape⟩))

theorem flatMap_escape_of_bare {cs : List Char} (h : ∀ c ∈ cs, isBare c = true) :
    cs.flatMap escape = cs := by
  induction cs with
  | nil => rfl
  | cons c rest ih =>
    obtain ⟨hbare, hrest⟩ := List.forall_mem_cons.mp h
    rw [List.flatMap_cons, escape_of_isBare hbare, ih hrest, List.singleton_append]

theorem isControl_of_mem_quote {x : Char} {v : String} (h : x ∈ (quote v).toList) :
    isControl x = false := by
  rcases mem_quote h with ⟨-, hbare⟩ | hprintable
  · simp only [isBare, Bool.and_eq_true, Bool.not_eq_true'] at hbare
    exact hbare.2
  · exact isControl_of_isPrintable hprintable

theorem unescape_quote (v : String) :
    unescape (fun _ => true) (v.toList.flatMap escape) = some v.toList :=
  (unescape_flatMap_escape _ _).mpr fun _ _ _ => rfl

theorem quote_injective : Function.Injective quote := by
  intro v w h
  have hlist := congrArg String.toList h
  rw [toList_quote, toList_quote, List.cons.injEq, List.append_cancel_right_eq] at hlist
  have hread := congrArg (unescape fun _ => true) hlist.2
  rw [unescape_quote, unescape_quote] at hread
  exact String.toList_inj.mp (Option.some.inj hread)

theorem quote_plain (v : String) : quote v ≠ "" ∧ '\n' ∉ (quote v).toList := by
  refine ⟨?_, fun h => ?_⟩
  · intro h
    have hlist := congrArg String.toList h
    rw [toList_quote] at hlist
    cases hlist
  · have hcontrol := isControl_of_mem_quote h
    revert hcontrol
    decide

/-- What is written where a string literal for the value stands between `before` and
    `after`. -/
def aroundLiteral (before after : Stream) (value : String) : Stream :=
  before ++ ((Part.quoted (some value) : Part TypeDecl).stream [] (TypeDecl.stream []) ++ after)

/-- **A literal denotes its value.**  It stands in quotes, holds no control character, and is
    read as the text it was made for, so that different texts have different literals.  A
    value adds a line to what is written only by its width: two values whose literals are
    equally wide make equally many lines, and any two do where nothing may be broken. -/
theorem literal_denotes_value :
    (∀ v : String, ∃ body, (quote v).toList = '"' :: (body ++ ['"'])
      ∧ unescape (fun _ => true) body = some v.toList
      ∧ ∀ x ∈ (quote v).toList, isControl x = false)
    ∧ Function.Injective quote
    ∧ ∀ (session : Session) (w : Writer) (before after : Stream) (a b : String),
      w.wrapper.held = none →
      ((quote a).length = (quote b).length ∨ ∀ i ∈ before ++ after, i.isBreak = false) →
      (∃ e, w.run session (aroundLiteral before after a) = .error e
          ∧ w.run session (aroundLiteral before after b) = .error e)
        ∨ ∃ u v, w.run session (aroundLiteral before after a) = .ok u
          ∧ w.run session (aroundLiteral before after b) = .ok v
          ∧ lineEnds (u.text session.layout) = lineEnds (v.text session.layout) := by
  refine ⟨fun v => ?_, quote_injective, ?_⟩
  · exact ⟨_, toList_quote v, unescape_quote v, fun x hx => isControl_of_mem_quote hx⟩
  · intro session w before after a b hheld hfit
    exact Writer.lineEnds_apart session hheld (quote_plain a) (quote_plain b) hfit

/-- A text of two lines makes as many lines as no text. -/
theorem literal_denotes_value_log :
    ∃ u v, ({} : Writer).run (.alone ({} : Style).layout)
          (aroundLiteral [.text "Log("] [.text ");\n"] "one\ntwo") = .ok u
      ∧ ({} : Writer).run (.alone ({} : Style).layout)
          (aroundLiteral [.text "Log("] [.text ");\n"] "") = .ok v
      ∧ lineEnds (u.text ({} : Style).layout) = lineEnds (v.text ({} : Style).layout)
      ∧ v.text ({} : Style).layout = "Log(\"\");\n" := by
  have htext : (({} : Writer).run (.alone ({} : Style).layout)
      (aroundLiteral [.text "Log("] [.text ");\n"] "")).toOption.map
        (fun v => v.text ({} : Style).layout) = some "Log(\"\");\n" := by
    decide +kernel
  obtain ⟨v, hv, hwritten⟩ := Option.map_eq_some_iff.mp htext
  have hrun := Except.eq_ok_of_toOption hv
  rcases literal_denotes_value.2.2 (.alone ({} : Style).layout) {} [.text "Log("] [.text ");\n"]
    "one\ntwo" "" rfl (.inr (by decide)) with ⟨e, -, hfails⟩ | ⟨u, v', hu, hv', hlines⟩
  · rw [hrun] at hfails
    cases hfails
  · rw [hrun] at hv'
    cases hv'
    exact ⟨u, v, hu, hrun, hlines, hwritten⟩

/-- A call with a break before its argument, a string. -/
def logging (v : String) : Code TypeDecl :=
  ⟨[.text "Log(", .wrapSpace, .quoted (some v), .text ")"], 0⟩

/-- The break becomes a line end before a literal that does not fit behind it. -/
theorem render_logging_wide {v : String} (h : 95 < (quote v).length) :
    (logging v).fragment.render = .ok ("Log(\n\t\t" ++ quote v ++ ")") := by
  have hplain := quote_plain v
  have hwide : ¬ 5 + (quote v).length ≤ ({} : Style).layout.limit := by
    show ¬ 5 + (quote v).length ≤ 100
    omega
  have hbroken : (⟨"Log(", 5, some ⟨.space, 2, ""⟩⟩ : Wrapper).append ({} : Style).layout (quote v)
      = ⟨"Log(\n\t\t" ++ quote v, 2 + (quote v).length, none⟩ := by
    rw [Wrapper.append_plain _ _ hplain.2]
    simp only [if_neg hwide]
    rfl
  have hliteral : ({ wrapper := ⟨"Log(", 5, some ⟨.space, 2, ""⟩⟩, atLineStart := false } :
      Writer).write ({} : Style).layout (quote v)
        = { wrapper := ⟨"Log(\n\t\t" ++ quote v, 2 + (quote v).length, none⟩
            atLineStart := false } := by
    rw [Writer.write_line _ _ hplain.2]
    simp [Writer.writeLine, String.isEmpty_iff, hplain.1, Writer.append, hbroken]
  have hrender : (logging v).fragment.render
      = .ok (((({ wrapper := ⟨"Log(", 5, some ⟨.space, 2, ""⟩⟩, atLineStart := false } :
        Writer).write ({} : Style).layout (quote v)).write ({} : Style).layout ")").text
          ({} : Style).layout) := rfl
  rw [hrender, hliteral]
  rfl

/-- A value as wide as one likes. -/
def wideValue (n : Nat) : String := String.ofList (List.replicate n 'x')

theorem toList_quote_wideValue (n : Nat) :
    (quote (wideValue n)).toList = '"' :: (List.replicate n 'x' ++ ['"']) := by
  have hbare : ∀ c ∈ List.replicate n 'x', isBare c = true := fun c hc => by
    rw [List.eq_of_mem_replicate hc]
    rfl
  rw [toList_quote, wideValue, String.toList_ofList, flatMap_escape_of_bare hbare]

/-- **A value can add a line.**  Behind a break a short one stays on its line, and a wide one
    makes the break a line end. -/
theorem wide_value_breaks_line :
    Code.ofFormat "Log($W$S)" [.text "x"] = .ok (logging "x")
      ∧ Code.ofFormat "Log($W$S)" [.text (wideValue 100)] = .ok (logging (wideValue 100))
      ∧ ∃ short wide : String,
        (logging "x").fragment.render = .ok short
          ∧ (logging (wideValue 100)).fragment.render = .ok wide
          ∧ short = "Log( \"x\")"
          ∧ wide.toList = "Log(\n\t\t\"".toList ++ List.replicate 100 'x' ++ "\")".toList
          ∧ lineEnds short = 0 ∧ lineEnds wide = 1 := by
  have hshort : (logging "x").fragment.render.toOption = some "Log( \"x\")" := by
    decide +kernel
  have hwidth : 95 < (quote (wideValue 100)).length := by
    rw [← String.length_toList, toList_quote_wideValue]
    simp
  -- stated for any value, so that no wide text is computed
  have hlines : ∀ v, lineEnds ("Log(\n\t\t" ++ quote v ++ ")") = 1 := by
    intro v
    rw [lineEnds_append, lineEnds_append, lineEnds_of_not_mem (quote_plain v).2]
    decide
  refine ⟨rfl, rfl, _, _, Except.eq_ok_of_toOption hshort, render_logging_wide hwidth, rfl, ?_,
    by decide, hlines _⟩
  simp only [String.toList_append, toList_quote_wideValue]
  simp

/-! ### Line ends in a literal -/

/-- The characters at which a line of source text ends. -/
def lineTerminators : List Char := ['\n', '\r', '\u0085', '\u2028', '\u2029']

theorem lineTerminator_cases {t : Char} (h : t ∈ lineTerminators) :
    isPrintable t = false ∧ (isBare t = true ↔ t = '\u2028' ∨ t = '\u2029') := by
  simp only [lineTerminators, List.mem_cons, List.not_mem_nil, or_false] at h
  rcases h with rfl | rfl | rfl | rfl | rfl <;> decide

/-- **The literal for a text stays on its line, unless the text holds one of two characters.**
    Of the characters that end a line only U+2028 and U+2029 stand in the literal, where they
    stand in the text; and a compiler that ends lines at all of them reads the text from its
    literal exactly if it holds neither. -/
theorem literal_unbroken_iff {δ : Type} (statics : List ClassName) (emit : δ → Stream)
    (d : Code.Draft δ) (v : String) :
    ∃ (p : Part δ) (literal : String) (body : List Char),
      d.argumentPart .string (.text v) = .ok (p, d) ∧ p.stream statics emit = [.text literal]
        ∧ literal.toList = '"' :: (body ++ ['"'])
        ∧ (∀ t ∈ lineTerminators,
          t ∈ literal.toList ↔ (t = '\u2028' ∨ t = '\u2029') ∧ t ∈ v.toList)
        ∧ (unescape (fun c => !lineTerminators.contains c) body = some v.toList
          ↔ '\u2028' ∉ v.toList ∧ '\u2029' ∉ v.toList) := by
  refine ⟨.quoted (some v), quote v, v.toList.flatMap escape, rfl, rfl, toList_quote v, ?_, ?_⟩
  · intro t ht
    obtain ⟨hprintable, hbare⟩ := lineTerminator_cases ht
    constructor
    · intro hmem
      rcases mem_quote hmem with ⟨hv, hself⟩ | hascii
      · exact ⟨hbare.mp hself, hv⟩
      · rw [hprintable] at hascii
        cases hascii
    · rintro ⟨hseparator, hv⟩
      exact mem_quote_of_isBare hv (hbare.mpr hseparator)
  · rw [unescape_flatMap_escape]
    constructor
    · intro h
      exact ⟨fun hv => absurd (h _ hv (by decide)) (by decide),
        fun hv => absurd (h _ hv (by decide)) (by decide)⟩
    · rintro ⟨hline, hparagraph⟩ c hc hbare
      rw [Bool.not_eq_true', List.contains_eq_mem, decide_eq_false_iff_not]
      intro hterminator
      rcases (lineTerminator_cases hterminator).2.mp hbare with rfl | rfl
      · exact hline hc
      · exact hparagraph hc

/-- Two lines in one text, each ended in its own way. -/
theorem literal_unbroken_iff_lines :
    ∃ literal : String, (Part.quoted (some "one\ntwo\u0085") : Part TypeDecl).stream [] (fun _ => [])
        = [.text literal]
      ∧ literal = "\"one\\ntwo\\u0085\"" ∧ '\u0085' ∉ literal.toList := by
  obtain ⟨p, literal, body, hpart, hstream, -, hterminators, -⟩ :=
    literal_unbroken_iff [] (fun _ : TypeDecl => []) {} "one\ntwo\u0085"
  cases hpart
  have hliteral : literal = "\"one\\ntwo\\u0085\"" := by
    cases hstream
    decide
  refine ⟨literal, hstream, hliteral, fun h => ?_⟩
  have hbroken := ((hterminators '\u0085' (by decide)).mp h).1
  revert hbroken
  decide

/-- **A literal can be broken.**  The character U+2028 is written as it is. -/
theorem line_separator_in_literal :
    ∃ (block : Code TypeDecl) (literal : String),
      Code.ofFormat "$S" [.text "one\u2028two"] = .ok block
        ∧ block.fragment.render = .ok literal
        ∧ '\u2028' ∈ literal.toList ∧ '\u2028' ∈ lineTerminators := by
  have hplain : (Part.quoted (some "one\u2028two") : Part TypeDecl).plain = "\"one\u2028two\"" := by
    decide
  have hrender := Code.render_single (p := .quoted (some "one\u2028two")) rfl rfl
    (by simp [Part.classNames])
  rw [hplain] at hrender
  exact ⟨_, _, Code.ofFormat_argument .string fun _ => rfl, hrender, by decide, by decide⟩

end Text

end CSharpGen
