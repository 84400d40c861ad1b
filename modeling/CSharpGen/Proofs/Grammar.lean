/-
  CSharpGen/Proofs/Grammar.lean
  =============================
  **The grammar of formats.**  A format is a row of tokens: plain characters,
  `$$`, the marks `$> $< $[ $] $W $Z`, and the placeholders `$L $S $T $N` with or
  without digits.  `Format.Accepted` lists what else is asked of the tokens for
  given arguments, and `Format.block` is the block that they stand for.

  The reader accepts exactly these formats, and makes exactly this block
  (`Code.ofFormat_eq_ok_iff`).  Reading a row of tokens gives its segments
  (`Format.scan_tokens`), and what can be read is a row of tokens
  (`Format.tokens_of_scan`).  What the segments ask for is found when every
  placeholder has an argument in the one style that the format has
  (`Format.Token.Selectable`), and the rest is a matter of the parts.
-/
import CSharpGen.Proofs.Accounts

namespace CSharpGen

variable {δ : Type}

/-! ### Tokens -/

/-- A token of a format that takes no argument. -/
inductive Mark where
  | indent | unindent | openStatement | closeStatement | wrapSpace | wrapPoint
  deriving DecidableEq, Repr

namespace Mark

def char : Mark → Char
  | indent => '>'
  | unindent => '<'
  | openStatement => '['
  | closeStatement => ']'
  | wrapSpace => 'W'
  | wrapPoint => 'Z'

def directive : Mark → Directive
  | indent => .indent
  | unindent => .unindent
  | openStatement => .openStatement
  | closeStatement => .closeStatement
  | wrapSpace => .wrapSpace
  | wrapPoint => .wrapPoint

def part : Mark → Part δ
  | indent => .indent
  | unindent => .unindent
  | openStatement => .openStatement
  | closeStatement => .closeStatement
  | wrapSpace => .wrapSpace
  | wrapPoint => .wrapPoint

end Mark

namespace Placeholder

def char : Placeholder → Char
  | literal => 'L'
  | string => 'S'
  | type => 'T'
  | name => 'N'

/-- `$T` takes a type, `$N` takes text, `$S` takes text or null, and `$L` takes anything. -/
def takes : Placeholder → ArgumentSort → Bool
  | literal, _ => true
  | string, .text | string, .null => true
  | type, .type => true
  | name, .text => true
  | _, _ => false

theorem fill?_isSome (p : Placeholder) (arg : Argument δ) :
    (p.fill? arg).isSome = p.takes arg.sort := by
  cases p <;> cases arg <;> rfl

end Placeholder

namespace Format

/-- A token of a format. -/
inductive Token where
  | plain (c : Char) (h : c ≠ '$')
  | dollar
  | mark (m : Mark)
  /-- A placeholder for an argument, with the digits of its position. -/
  | hole (p : Placeholder) (digits : List Char) (h : ∀ d ∈ digits, d.isDigit = true)

namespace Token

def chars : Token → List Char
  | plain c _ => [c]
  | dollar => ['$', '$']
  | mark m => ['$', m.char]
  | hole p digits _ => '$' :: digits ++ [p.char]

/-- The format that consists of some tokens. -/
def spell (ts : List Token) : String := .ofList (ts.flatMap chars)

/-- The position of the argument of a placeholder, where `next` is the first position
    that no placeholder without digits has taken. -/
def slot (next : Nat) (digits : List Char) : Nat :=
  if digits.isEmpty then next else number digits - 1

/-- The first position that is free behind a placeholder. -/
def bump (next : Nat) (digits : List Char) : Nat := if digits.isEmpty then next + 1 else next

/-- The placeholders among some tokens, with their digits. -/
def holes : List Token → List (Placeholder × List Char)
  | [] => []
  | hole p digits _ :: ts => (p, digits) :: holes ts
  | _ :: ts => holes ts

/-- The placeholders with the positions of their arguments. -/
def slots (next : Nat) : List (Placeholder × List Char) → List (Placeholder × Nat)
  | [] => []
  | (p, digits) :: rest => (p, slot next digits) :: slots (bump next digits) rest

/-- What the argument at a position becomes under a placeholder. -/
def filled? (args : List (Argument δ)) (p : Placeholder) (position : Nat) : Option (Part δ) :=
  args[position]?.bind p.fill?

/-- The parts that some tokens stand for, behind the characters `lead` of a run of text. -/
def parts (args : List (Argument δ)) (lead : List Char) (next : Nat) :
    List Token → List (Part δ)
  | [] => Code.textParts (.ofList lead)
  | plain c _ :: ts => parts args (lead ++ [c]) next ts
  | dollar :: ts => parts args (lead ++ ['$']) next ts
  | mark m :: ts => Code.textParts (.ofList lead) ++ m.part :: parts args [] next ts
  | hole p digits _ :: ts =>
    Code.textParts (.ofList lead) ++ (filled? args p (slot next digits)).toList
      ++ parts args [] (bump next digits) ts

end Token

/-- The tokens are a format for the arguments. -/
structure Accepted (args : List (Argument δ)) (ts : List Token) : Prop where
  /-- No placeholder has digits, or all have. -/
  style : (∀ h ∈ Token.holes ts, h.2 = []) ∨ ∀ h ∈ Token.holes ts, h.2 ≠ []
  /-- Digits count the arguments from 1. -/
  numbered : ∀ h ∈ Token.holes ts, h.2 ≠ [] → 1 ≤ number h.2 ∧ number h.2 ≤ args.length
  /-- Every placeholder has an argument: the next one, if it has no digits. -/
  reached : ∀ s ∈ Token.slots 0 (Token.holes ts), s.2 < args.length
  /-- No argument is left over. -/
  used : ∀ position < args.length, ∃ p, (p, position) ∈ Token.slots 0 (Token.holes ts)
  /-- Every placeholder takes the sort of its argument. -/
  sorts : ∀ s ∈ Token.slots 0 (Token.holes ts), ∀ arg, args[s.2]? = some arg →
    s.1.takes arg.sort = true
  /-- From left to right, the indentation never falls below the level of the start. -/
  levels : ∀ before, before <+: Token.parts args [] 0 ts → 0 ≤ (Part.profileAll before).net
  /-- The marks `$[` and `$]` alternate, from a first `$[` to a last `$]`. -/
  paired : Part.Paired (Token.parts args [] 0 ts)
  /-- No block with a statement of its own stands between a `$[` and its `$]`. -/
  apart : ∀ before c after, Token.parts args [] 0 ts = before ++ .block c :: after →
    c.opensStatement = true → Part.Paired before

/-- The block that the tokens stand for. -/
def block (args : List (Argument δ)) (ts : List Token) : Code δ :=
  ⟨Token.parts args [] 0 ts, Part.endedAll (Token.parts args [] 0 ts)⟩

end Format

/-! ### Formats are read token by token -/

namespace Format

theorem placeholder?_char (p : Placeholder) : placeholder? p.char = some p := by
  cases p <;> rfl

theorem char_of_placeholder? {c : Char} {p : Placeholder} (h : placeholder? c = some p) :
    c = p.char := by
  unfold placeholder? at h
  split at h <;> cases h <;> rfl

theorem exists_of_mark? {c : Char} {d : Directive} (h : mark? c = some d) :
    ∃ m : Mark, c = m.char := by
  unfold mark? at h
  split at h <;> cases h
  · exact ⟨.indent, rfl⟩
  · exact ⟨.unindent, rfl⟩
  · exact ⟨.openStatement, rfl⟩
  · exact ⟨.closeStatement, rfl⟩
  · exact ⟨.wrapSpace, rfl⟩
  · exact ⟨.wrapPoint, rfl⟩

theorem directive?_mark (m : Mark) : directive? [] m.char = .ok (some m.directive) := by
  cases m <;> rfl

theorem directive?_hole (p : Placeholder) (digits : List Char) :
    directive? digits p.char
      = (position? digits).map fun position => some (.argument p position) := by
  simp only [directive?, placeholder?_char, bind, Except.bind, pure, Except.pure]
  cases position? digits <;> rfl

theorem not_isDigit_char (p : Placeholder) : p.char.isDigit = false := by cases p <;> rfl

theorem not_isDigit_mark (m : Mark) : m.char.isDigit = false := by cases m <;> rfl

/-- The position of a placeholder is a legal one. -/
def IsPosition (digits : List Char) : Prop :=
  digits ≠ [] → 0 < number digits ∧ number digits < positionLimit

/-- The position that legal digits stand for. -/
def positionOf (digits : List Char) : Option Nat :=
  if digits.isEmpty then none else some (number digits - 1)

theorem position?_eq_ok_iff {digits : List Char} {position : Option Nat} :
    position? digits = .ok position ↔ IsPosition digits ∧ position = positionOf digits := by
  unfold position? IsPosition positionOf
  cases digits with
  | nil => simp [eq_comm]
  | cons d ds =>
    simp only [List.isEmpty_cons, Bool.false_eq_true, if_false]
    split
    · next h => simp [h, eq_comm]
    · next h => simp [h]

theorem scan_digits (format : String) (lead ds : List Char) {more : List Char}
    (h : ∀ d ∈ more, d.isDigit = true) (cs : List Char) :
    scan format lead (some ds) (more ++ cs) = scan format lead (some (ds ++ more)) cs := by
  induction more generalizing ds with
  | nil => simp
  | cons d more ih =>
    obtain ⟨hd, hmore⟩ := List.forall_mem_cons.mp h
    rw [List.cons_append, scan, if_pos hd, ih _ hmore, List.append_assoc, List.singleton_append]

/-- The segments of a format that consists of some tokens, behind the plain text `lead`. -/
def Token.segments (lead : List Char) : List Token → List (String × Directive)
  | [] => []
  | .plain c _ :: ts => segments (lead ++ [c]) ts
  | .dollar :: ts => segments (lead ++ ['$']) ts
  | .mark m :: ts => (.ofList lead, m.directive) :: segments [] ts
  | .hole p digits _ :: ts => (.ofList lead, .argument p (positionOf digits)) :: segments [] ts

/-- The plain text behind the last directive. -/
def Token.tail (lead : List Char) : List Token → String
  | [] => .ofList lead
  | .plain c _ :: ts => tail (lead ++ [c]) ts
  | .dollar :: ts => tail (lead ++ ['$']) ts
  | .mark _ :: ts | .hole _ _ _ :: ts => tail [] ts

/-- **A row of tokens is read token by token.** -/
theorem scan_tokens (format : String) {ts : List Token}
    (h : ∀ hole ∈ Token.holes ts, IsPosition hole.2) (lead : List Char) :
    scan format lead none (ts.flatMap Token.chars)
      = ⟨Token.segments lead ts, .ok (Token.tail lead ts)⟩ := by
  induction ts generalizing lead with
  | nil => rfl
  | cons t ts ih =>
    cases t with
    | plain c hc =>
      have hrest := ih h
      simp [Token.chars, scan, hc, hrest, Token.segments, Token.tail]
    | dollar =>
      have hrest := ih h
      have hdollar : directive? [] '$' = .ok none := rfl
      simp [Token.chars, scan, hdollar, hrest, Token.segments, Token.tail]
    | mark m =>
      have hrest := ih h
      simp [Token.chars, scan, not_isDigit_mark, directive?_mark, hrest, Token.segments, Token.tail]
    | hole p ds hd =>
      obtain ⟨hlegal, hothers⟩ := List.forall_mem_cons.mp h
      have hrest := ih hothers
      have hplaced := position?_eq_ok_iff.mpr ⟨hlegal, rfl⟩
      have hdir : directive? ds p.char = .ok (some (.argument p (positionOf ds))) := by
        rw [directive?_hole, hplaced]
        rfl
      simp [Token.chars, scan, scan_digits format lead [] hd, not_isDigit_char, hdir, hrest,
        Token.segments, Token.tail]

theorem holes_cons (t : Token) (ts : List Token) :
    Token.holes (t :: ts) = Token.holes [t] ++ Token.holes ts := by
  cases t <;> rfl

theorem token_of_directive? {ds : List Char} {c : Char} {found : Option Directive}
    (hds : ∀ d ∈ ds, d.isDigit = true) (h : directive? ds c = .ok found) :
    ∃ t : Token, t.chars = '$' :: ds ++ [c]
      ∧ ∀ hole ∈ Token.holes [t], IsPosition hole.2 := by
  cases hp : placeholder? c with
  | some p =>
    rw [char_of_placeholder? hp, directive?_hole] at h
    cases hposition : position? ds with
    | error fault => rw [hposition] at h; cases h
    | ok position =>
      refine ⟨.hole p ds hds, by rw [char_of_placeholder? hp]; rfl, ?_⟩
      exact List.forall_mem_singleton.mpr (position?_eq_ok_iff.mp hposition).1
  | none =>
    simp only [directive?, hp] at h
    split at h
    · cases h
    · next hempty =>
      obtain rfl : ds = [] := by simpa using hempty
      split at h
      · next hdollar => exact ⟨.dollar, by rw [hdollar]; rfl, by simp [Token.holes]⟩
      · split at h
        · next hmark =>
          obtain ⟨m, rfl⟩ := exists_of_mark? hmark
          exact ⟨.mark m, rfl, by simp [Token.holes]⟩
        · cases h

/-- **What can be read is a row of tokens.**  Inside a placeholder, the dollar sign and the
    digits read so far belong to its token. -/
theorem tokens_of_scan {format : String} {cs : List Char} {lead : List Char}
    {digits : Option (List Char)} (hdigits : ∀ ds, digits = some ds → ∀ d ∈ ds, d.isDigit = true)
    {tail : String} (h : (scan format lead digits cs).ending = .ok tail) :
    ∃ ts : List Token, (digits.elim [] ('$' :: ·)) ++ cs = ts.flatMap Token.chars
      ∧ ∀ hole ∈ Token.holes ts, IsPosition hole.2 := by
  induction cs generalizing lead digits with
  | nil =>
    cases digits with
    | none => exact ⟨[], rfl, by simp [Token.holes]⟩
    | some ds => cases h
  | cons c cs ih =>
    cases digits with
    | none =>
      simp only [scan] at h
      split at h
      · next hc =>
        obtain ⟨ts, hts, hplaced⟩ := ih (by simp) h
        exact ⟨ts, by simpa [hc] using hts, hplaced⟩
      · next hc =>
        obtain ⟨ts, hts, hplaced⟩ := ih (by simp) h
        refine ⟨.plain c hc :: ts, ?_, hplaced⟩
        simpa [Token.chars] using hts
    | some ds =>
      have hds := hdigits ds rfl
      simp only [scan] at h
      split at h
      · next hc =>
        have hmore : ∀ ds', some (ds ++ [c]) = some ds' → ∀ d ∈ ds', d.isDigit = true := by
          rintro _ ⟨⟩
          exact List.forall_mem_append.mpr ⟨hds, List.forall_mem_singleton.mpr hc⟩
        obtain ⟨ts, hts, hplaced⟩ := ih hmore h
        exact ⟨ts, by simpa using hts, hplaced⟩
      · split at h
        · cases h
        all_goals
          next hfound =>
            obtain ⟨t, hchars, ht⟩ := token_of_directive? hds hfound
            obtain ⟨ts, hts, hplaced⟩ := ih (by simp) h
            refine ⟨t :: ts, ?_, ?_⟩
            · rw [List.flatMap_cons, hchars, ← hts]
              simp
            · rw [holes_cons]
              exact List.forall_mem_append.mpr ⟨ht, hplaced⟩

end Format

/-! ### Placeholders and the cursor -/

namespace Format.Token

variable {args : List (Argument δ)} {cursor : Code.Cursor}

/-- Every placeholder finds an argument that it takes, in the style that the cursor allows. -/
structure Selectable (args : List (Argument δ)) (cursor : Code.Cursor)
    (hs : List (Placeholder × List Char)) : Prop where
  style : (cursor.indexed = false ∧ ∀ h ∈ hs, h.2 = [])
    ∨ (cursor.relative = false ∧ ∀ h ∈ hs, h.2 ≠ [])
  found : ∀ s ∈ slots cursor.next hs, (filled? args s.1 s.2).isSome = true

/-- The cursor behind a placeholder. -/
def moved (cursor : Code.Cursor) (digits : List Char) : Code.Cursor where
  next := bump cursor.next digits
  relative := cursor.relative || digits.isEmpty
  indexed := cursor.indexed || !digits.isEmpty
  used := slot cursor.next digits :: cursor.used

/-- The cursor has passed placeholders of one style only. -/
def Unmixed (cursor : Code.Cursor) : Prop := (cursor.relative && cursor.indexed) = false

theorem select_mark (m : Mark) :
    cursor.select args m.directive = some (m.part, cursor) := by
  cases m <;> rfl

theorem take_placed (digits : List Char) :
    (cursor.take "" args (positionOf digits)).toOption
      = if (moved cursor digits).relative && (moved cursor digits).indexed then none
        else args[slot cursor.next digits]?.map (·, moved cursor digits) := by
  have hadvance : cursor.advance (positionOf digits)
      = (slot cursor.next digits, { moved cursor digits with used := cursor.used }) := by
    cases digits with
    | nil => simp [positionOf, Code.Cursor.advance, moved, slot, bump]
    | cons d ds => simp [positionOf, Code.Cursor.advance, moved, slot, bump]
  simp only [Code.Cursor.take, hadvance]
  split
  · rfl
  · cases args[slot cursor.next digits]? <;> rfl

theorem select_hole_iff {p : Placeholder} {digits : List Char} {part : Part δ}
    {next : Code.Cursor} :
    cursor.select args (.argument p (positionOf digits)) = some (part, next)
      ↔ Unmixed (moved cursor digits) ∧ filled? args p (slot cursor.next digits) = some part
        ∧ next = moved cursor digits := by
  rw [Code.Cursor.select, take_placed, Unmixed, filled?]
  cases (moved cursor digits).relative && (moved cursor digits).indexed with
  | true => simp
  | false =>
    cases args[slot cursor.next digits]? with
    | none => simp
    | some arg => simp [eq_comm (a := next)]

theorem selectable_cons {p : Placeholder} {digits : List Char}
    {hs : List (Placeholder × List Char)} :
    Selectable args cursor ((p, digits) :: hs) ↔ Unmixed (moved cursor digits)
      ∧ (filled? args p (slot cursor.next digits)).isSome = true
      ∧ Selectable args (moved cursor digits) hs := by
  have hstyle : ((cursor.indexed = false ∧ ∀ h ∈ (p, digits) :: hs, h.2 = [])
      ∨ (cursor.relative = false ∧ ∀ h ∈ (p, digits) :: hs, h.2 ≠ []))
      ↔ Unmixed (moved cursor digits)
        ∧ (((moved cursor digits).indexed = false ∧ ∀ h ∈ hs, h.2 = [])
          ∨ ((moved cursor digits).relative = false ∧ ∀ h ∈ hs, h.2 ≠ [])) := by
    cases digits with
    | nil => simp [Unmixed, moved]
    | cons d ds => simp [Unmixed, moved]
  constructor
  · intro h
    obtain ⟨hfirst, hothers⟩ := List.forall_mem_cons.mp h.found
    obtain ⟨hunmixed, hrest⟩ := hstyle.mp h.style
    exact ⟨hunmixed, hfirst, hrest, hothers⟩
  · rintro ⟨hunmixed, hfirst, hothers⟩
    exact ⟨hstyle.mpr ⟨hunmixed, hothers.style⟩, List.forall_mem_cons.mpr ⟨hfirst, hothers.found⟩⟩

/-- What can be found is found, and the parts are those that the tokens stand for. -/
theorem selectAll_of_selectable (lead : List Char) {ts : List Token}
    (h : Selectable args cursor (holes ts)) :
    ∃ ps last, cursor.selectAll args (segments lead ts) = some (ps, last)
      ∧ ps ++ Code.textParts (tail lead ts) = parts args lead cursor.next ts
      ∧ last.used = ((slots cursor.next (holes ts)).map Prod.snd).reverse ++ cursor.used := by
  induction ts generalizing lead cursor with
  | nil => exact ⟨[], cursor, rfl, rfl, rfl⟩
  | cons t ts ih =>
    cases t with
    | plain c hc => exact ih _ h
    | dollar => exact ih _ h
    | mark m =>
      obtain ⟨ps, last, hselect, hparts, hused⟩ := ih [] h
      refine ⟨Code.textParts (.ofList lead) ++ m.part :: ps, last, ?_, ?_, hused⟩
      · rw [segments, Code.Cursor.selectAll, select_mark, Option.bind_some, hselect]
        rfl
      · rw [tail, parts, ← hparts]
        simp
    | hole p digits hd =>
      obtain ⟨hunmixed, hfilled, hothers⟩ := selectable_cons.mp h
      obtain ⟨part, hpart⟩ := Option.isSome_iff_exists.mp hfilled
      obtain ⟨ps, last, hselect, hparts, hused⟩ := ih [] hothers
      refine ⟨Code.textParts (.ofList lead) ++ part :: ps, last, ?_, ?_, ?_⟩
      · rw [segments, Code.Cursor.selectAll, select_hole_iff.mpr ⟨hunmixed, hpart, rfl⟩,
          Option.bind_some, hselect]
        rfl
      · have hnext : (moved cursor digits).next = bump cursor.next digits := rfl
        rw [tail, parts, hpart, ← hnext, ← hparts]
        simp
      · rw [hused]
        simp [holes, slots, moved]

theorem selectable_of_selectAll {lead : List Char} {ts : List Token} (hunmixed : Unmixed cursor)
    {ps : List (Part δ)} {last : Code.Cursor}
    (h : cursor.selectAll args (segments lead ts) = some (ps, last)) :
    Selectable args cursor (holes ts) := by
  induction ts generalizing lead cursor ps with
  | nil =>
    refine ⟨?_, by simp [holes, slots]⟩
    rcases Bool.and_eq_false_iff.mp hunmixed with hrelative | hindexed
    · exact Or.inr ⟨hrelative, by simp [holes]⟩
    · exact Or.inl ⟨hindexed, by simp [holes]⟩
  | cons t ts ih =>
    cases t with
    | plain c hc => exact ih hunmixed h
    | dollar => exact ih hunmixed h
    | mark m =>
      rw [segments, Code.Cursor.selectAll, select_mark, Option.bind_some,
        Option.map_eq_some_iff] at h
      obtain ⟨⟨qs, _⟩, hselect, ⟨⟩⟩ := h
      exact ih hunmixed hselect
    | hole p digits hd =>
      rw [segments, Code.Cursor.selectAll, Option.bind_eq_some_iff] at h
      obtain ⟨⟨part, next⟩, hpart, hrest⟩ := h
      obtain ⟨hmoved, hfilled, rfl⟩ := select_hole_iff.mp hpart
      obtain ⟨⟨qs, _⟩, hselect, ⟨⟩⟩ := Option.map_eq_some_iff.mp hrest
      exact selectable_cons.mpr ⟨hmoved, by rw [hfilled]; rfl, ih hmoved hselect⟩

theorem block_mem_parts {lead : List Char} {next : Nat} {ts : List Token} {c : Code δ}
    (h : .block c ∈ parts args lead next ts) : .code c ∈ args := by
  have htext : ∀ s : String, Part.block c ∉ Code.textParts s := by
    intro s
    unfold Code.textParts
    split <;> simp
  induction ts generalizing lead next with
  | nil => exact absurd h (htext _)
  | cons t ts ih =>
    cases t with
    | plain _ _ => exact ih h
    | dollar => exact ih h
    | mark m =>
      rcases List.mem_append.mp h with h | h
      · exact absurd h (htext _)
      · rcases List.mem_cons.mp h with h | h
        · cases m <;> cases h
        · exact ih h
    | hole p digits _ =>
      rcases List.mem_append.mp h with h | h
      · rcases List.mem_append.mp h with h | h
        · exact absurd h (htext _)
        · obtain ⟨arg, harg, hfill⟩ := Option.bind_eq_some_iff.mp (Option.mem_toList.mp h)
          have hcode : arg = .code c := by
            cases p <;> cases arg <;> cases hfill
            rfl
          exact hcode ▸ List.mem_of_getElem? harg
      · exact ih h

theorem filled?_isSome_iff {p : Placeholder} {position : Nat} :
    (filled? args p position).isSome = true ↔ position < args.length
      ∧ ∀ arg, args[position]? = some arg → p.takes arg.sort = true := by
  unfold filled?
  by_cases hposition : position < args.length
  · simp [hposition, Placeholder.fill?_isSome]
  · simp [hposition]

theorem mem_slots_of_numbered {hs : List (Placeholder × List Char)} {next : Nat}
    {p : Placeholder} {digits : List Char} (h : (p, digits) ∈ hs) (hdigits : digits ≠ []) :
    (p, number digits - 1) ∈ slots next hs := by
  induction hs generalizing next with
  | nil => cases h
  | cons first rest ih =>
    rcases List.mem_cons.mp h with rfl | h
    · simp [slots, slot, hdigits]
    · exact List.mem_cons_of_mem _ (ih h)

end Format.Token

namespace Format

variable {args : List (Argument δ)} {ts : List Token}

/-- **When a row of tokens makes a block**: every placeholder finds an argument, every
    argument is used, and the parts fit. -/
theorem ofFormat_spell_iff (hplaced : ∀ hole ∈ Token.holes ts, IsPosition hole.2)
    (hargs : ∀ c, .code c ∈ args → 0 ≤ c.profile.lowest) {c : Code δ} :
    Code.ofFormat (Token.spell ts) args = .ok c ↔ Token.Selectable args {} (Token.holes ts)
      ∧ (∀ position < args.length, ∃ p, (p, position) ∈ Token.slots 0 (Token.holes ts))
      ∧ Part.Fit 0 false (Token.parts args [] 0 ts) ∧ c = block args ts := by
  have hparse : parse (Token.spell ts) = ⟨Token.segments [] ts, .ok (Token.tail [] ts)⟩ := by
    have hscan := scan_tokens (Token.spell ts) hplaced []
    rwa [← @String.toList_ofList (ts.flatMap Token.chars)] at hscan
  have hbuild : (∃ e, ({} : Code.Draft δ).enterAll (Token.parts args [] 0 ts) = some e
      ∧ e.build = .ok c) ↔ Part.Fit 0 false (Token.parts args [] 0 ts) ∧ c = block args ts := by
    rw [Code.Draft.build_enterAll_iff (fun b hb => hargs b (Token.block_mem_parts hb)) rfl rfl]
    simp [block]
  have hunused_iff : ∀ {last : Code.Cursor},
      last.used = ((Token.slots 0 (Token.holes ts)).map Prod.snd).reverse ++ [] →
      (last.unused? args.length = none
        ↔ ∀ position < args.length, ∃ p, (p, position) ∈ Token.slots 0 (Token.holes ts)) := by
    intro last hused
    simp [Code.Cursor.unused?, hused]
  rw [Code.Draft.ofFormat_eq_ok_iff_selected, hparse]
  constructor
  · rintro ⟨tail, ps, last, ⟨⟩, hselect, hunused, hmade⟩
    have hstart : Token.Unmixed {} := rfl
    have hselectable := Token.selectable_of_selectAll hstart hselect
    obtain ⟨qs, last', hselect', hparts, hused⟩ := Token.selectAll_of_selectable [] hselectable
    cases hselect.symm.trans hselect'
    rw [hparts, hbuild] at hmade
    exact ⟨hselectable, (hunused_iff hused).mp hunused, hmade⟩
  · rintro ⟨hselectable, hall, hmade⟩
    obtain ⟨qs, last, hselect, hparts, hused⟩ := Token.selectAll_of_selectable [] hselectable
    refine ⟨_, qs, last, rfl, hselect, (hunused_iff hused).mpr hall, ?_⟩
    rw [hparts, hbuild]
    exact hmade

/-- The rules of the grammar, sorted by who enforces them: the reader of the format, the
    cursor over the arguments, and the counters of the draft. -/
theorem accepted_iff (hcount : args.length < positionLimit) :
    Accepted args ts ↔ (∀ hole ∈ Token.holes ts, IsPosition hole.2)
      ∧ Token.Selectable args {} (Token.holes ts)
      ∧ (∀ position < args.length, ∃ p, (p, position) ∈ Token.slots 0 (Token.holes ts))
      ∧ Part.Fit 0 false (Token.parts args [] 0 ts) := by
  constructor
  · intro h
    refine ⟨?_, ⟨?_, ?_⟩, h.used, ?_, Part.paired_iff_track.mp h.paired, ?_⟩
    · intro hole hhole hdigits
      have hnumber := h.numbered hole hhole hdigits
      exact ⟨hnumber.1, Nat.lt_of_le_of_lt hnumber.2 hcount⟩
    · exact h.style.imp (fun hstyle => ⟨rfl, hstyle⟩) fun hstyle => ⟨rfl, hstyle⟩
    · intro s hs
      exact Token.filled?_isSome_iff.mpr ⟨h.reached s hs, h.sorts s hs⟩
    · intro before hbefore
      simpa using h.levels before hbefore
    · intro before c after heq hopens
      exact Part.paired_iff_track.mp (h.apart before c after heq hopens)
  · rintro ⟨hplaced, hselectable, hused, hfit⟩
    have hfound := fun s hs => Token.filled?_isSome_iff.mp (hselectable.found s hs)
    refine ⟨?_, ?_, fun s hs => (hfound s hs).1, hused, fun s hs => (hfound s hs).2, ?_,
      Part.paired_iff_track.mpr hfit.closed, ?_⟩
    · exact hselectable.style.imp And.right And.right
    · rintro ⟨p, digits⟩ hhole hdigits
      have hfirst : 1 ≤ number digits := (hplaced _ hhole hdigits).1
      have hreached : number digits - 1 < args.length :=
        (hfound _ (Token.mem_slots_of_numbered hhole hdigits)).1
      have hlast : number digits ≤ args.length := by omega
      exact ⟨hfirst, hlast⟩
    · intro before hbefore
      simpa using hfit.levels before hbefore
    · intro before c after heq hopens
      exact Part.paired_iff_track.mpr (hfit.apart before c after heq hopens)

end Format

/-- **The formats that make a block are those of the grammar**, and the block consists of the
    parts that the tokens stand for.  A list of arguments is shorter than the positions can
    count, and a block among the arguments has been made before. -/
theorem Code.ofFormat_eq_ok_iff {calls : Edit δ → Prop} (format : String)
    (args : List (Argument δ)) (hcount : args.length < Format.positionLimit)
    (hargs : ∀ c, .code c ∈ args → c.Built calls) (c : Code δ) :
    ofFormat format args = .ok c
      ↔ ∃ ts, Format.Token.spell ts = format ∧ Format.Accepted args ts
        ∧ c = Format.block args ts := by
  have hlowest : ∀ b, .code b ∈ args → 0 ≤ b.profile.lowest := by
    intro b hb
    have hsound : b.Sound False := (hargs b hb).sound False.elim
    exact hsound.flat.2.1
  constructor
  · intro h
    obtain ⟨tail, -, -, hending, -⟩ := Draft.ofFormat_eq_ok_iff_selected.mp h
    obtain ⟨ts, hts, hplaced⟩ := Format.tokens_of_scan (by simp) hending
    have hspell : Format.Token.spell ts = format := by
      rw [Format.Token.spell, ← hts]
      simp
    rw [← hspell, Format.ofFormat_spell_iff hplaced hlowest] at h
    obtain ⟨hselectable, hused, hfit, hc⟩ := h
    exact ⟨ts, hspell, (Format.accepted_iff hcount).mpr ⟨hplaced, hselectable, hused, hfit⟩, hc⟩
  · rintro ⟨ts, rfl, haccepted, hc⟩
    obtain ⟨hplaced, hselectable, hused, hfit⟩ := (Format.accepted_iff hcount).mp haccepted
    exact (Format.ofFormat_spell_iff hplaced hlowest).mpr ⟨hselectable, hused, hfit, hc⟩

namespace Code

/-- A statement of its own. -/
def stop : Code Empty := ⟨[.openStatement, .text "Stop()", .closeStatement], 1⟩

theorem ofFormat_eq_ok_iff_stop :
    (∃ ts, Format.Token.spell ts = "$N:$>\n$L$<$$ "
      ∧ Format.Accepted [.text "end", .code stop] ts
      ∧ Format.block [.text "end", .code stop] ts
        = ⟨[.name "end", .text ":", .indent, .text "\n", .block stop, .unindent, .text "$ "], 1⟩)
    ∧ ∀ ts, Format.Token.spell ts = "$[$1L$]" → ¬ Format.Accepted [.code stop] ts := by
  have hstop : stop.Built fun _ => True := by
    refine .finished (d := ({} : Draft Empty).applyAll [.addStatement "Stop()" []])
      (Draft.Reached.empty.applyAll ?_) rfl
    simp [Edit.blocks]
  constructor
  · obtain ⟨ts, hspell, haccepted, hblock⟩ := (ofFormat_eq_ok_iff "$N:$>\n$L$<$$ "
      [.text "end", .code stop] (by decide) (by simpa using hstop) _).mp rfl
    exact ⟨ts, hspell, haccepted, hblock.symm⟩
  · intro ts hspell haccepted
    have hok := (ofFormat_eq_ok_iff "$[$1L$]" [.code stop] (by decide) (by simpa using hstop)
      _).mpr ⟨ts, hspell, haccepted, rfl⟩
    have herror : ofFormat "$[$1L$]" [.code stop] = .error (.structural .nestedStatement) := rfl
    rw [herror] at hok
    cases hok

end Code

end CSharpGen
