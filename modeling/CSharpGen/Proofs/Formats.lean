/-
  CSharpGen/Proofs/Formats.lean
  =============================
  **One format or several.**  A format is read from left to right, and takes its
  arguments in order unless it numbers them.  Two formats in a row read as one,
  where the text at the end of the first goes to the front of the second
  (`Format.parse_append`), and they find their arguments in the two lists joined
  (`Code.Draft.walk_shifted`).  So the draft after both is alike to the draft
  after the one (`Code.Draft.add_add_alike`).

  `Code.output_of_tokens` says what cannot be seen in the output of a block: how
  its text is cut, whether a block in it was added or nested, and over how many
  formats it was split.
-/
import CSharpGen.Proofs.Tokens

namespace CSharpGen

variable {δ : Type}

/-! ### Formats read in pieces -/

namespace Format

/-- The format with some text put in front. -/
def ledBy (f : Format) (text : String) : Format :=
  match f.segments with
  | [] => ⟨[], f.ending.map (text ++ ·)⟩
  | (lead, dir) :: rest => ⟨(text ++ lead, dir) :: rest, f.ending⟩

theorem scan_lead (format : String) (text lead : List Char) (digits : Option (List Char))
    (cs : List Char) :
    scan format (text ++ lead) digits cs
      = (scan format lead digits cs).ledBy (String.ofList text) := by
  induction cs generalizing lead digits with
  | nil =>
    cases digits with
    | none => simp [scan, ledBy, Except.map]
    | some ds => rfl
  | cons c cs ih =>
    cases digits with
    | none =>
      simp only [scan, List.append_assoc, ih]
      split <;> rfl
    | some ds =>
      simp only [scan, List.append_assoc, ih]
      split
      · rfl
      · split
        · rfl
        · rfl
        · simp [ledBy]

/-- **A format that can be read is read the same in front of another.** -/
theorem scan_append {format : String} {lead : List Char} {digits : Option (List Char)}
    {cs : List Char} {segments : List (String × Directive)} {tail : String}
    (h : scan format lead digits cs = ⟨segments, .ok tail⟩) (format' : String) (more : List Char) :
    scan format' lead digits (cs ++ more)
      = ⟨segments ++ (scan format' tail.toList none more).segments,
        (scan format' tail.toList none more).ending⟩ := by
  induction cs generalizing lead digits segments with
  | nil =>
    cases digits with
    | none =>
      simp only [scan, Format.mk.injEq, Except.ok.injEq] at h
      obtain ⟨rfl, rfl⟩ := h
      simp
    | some ds => simp [scan] at h
  | cons c cs ih =>
    cases digits with
    | none =>
      simp only [scan, List.cons_append] at h ⊢
      split at h
      next hc =>
        rw [if_pos hc]
        exact ih h
      next hc =>
        rw [if_neg hc]
        exact ih h
    | some ds =>
      simp only [scan, List.cons_append] at h ⊢
      split at h
      next hc =>
        rw [if_pos hc]
        exact ih h
      next hc =>
        rw [if_neg hc]
        cases hdir : directive? ds c with
        | error fault => simp [hdir] at h
        | ok found =>
          cases found with
          | none =>
            simp only [hdir] at h ⊢
            exact ih h
          | some d =>
            simp only [hdir, Format.mk.injEq] at h
            obtain ⟨rfl, hending⟩ := h
            have hread : scan format [] none cs = ⟨(scan format [] none cs).segments, .ok tail⟩ := by
              rw [← hending]
            simp [ih hread]

/-- What two formats ask for, one behind the other. -/
theorem parse_append {f g s t : String} (hf : (parse f).ending = .ok s)
    (hg : (parse g).ending = .ok t) :
    parse (f ++ g) = ⟨(parse f).segments ++ ((parse g).ledBy s).segments,
      ((parse g).ledBy s).ending⟩ := by
  have hfirst : scan f [] none f.toList = ⟨(parse f).segments, .ok s⟩ := by rw [← hf, parse]
  have hsecond : scan g [] none g.toList = ⟨(parse g).segments, .ok t⟩ := by rw [← hg, parse]
  -- the name of the format is used for faults only
  have hrename : scan (f ++ g) [] none g.toList = parse g := by
    have hall := scan_append hsecond (f ++ g) []
    rw [parse, hsecond]
    simpa [scan] using hall
  have hlead := scan_lead (f ++ g) s.toList [] none g.toList
  rw [List.append_nil, String.ofList_toList, hrename] at hlead
  rw [parse, String.toList_append, scan_append hfirst (f ++ g) g.toList, hlead]

/-- A placeholder on its own. -/
theorem parse_placeholder (placeholder : Placeholder) :
    parse ("$" ++ placeholder.letter) = ⟨[("", .argument placeholder none)], .ok ""⟩ := by
  cases placeholder <;> rfl

end Format

/-- The directive names the position of its argument. -/
def Directive.isNumbered : Directive → Bool
  | .argument _ (some _) => true
  | _ => false

/-- The format can be read, and takes its arguments in order. -/
structure Format.InOrder (f : Format) : Prop where
  readable : ∃ tail, f.ending = .ok tail
  unnumbered : ∀ segment ∈ f.segments, segment.2.isNumbered = false

theorem Format.InOrder.append {f g : String} (hf : (parse f).InOrder) (hg : (parse g).InOrder) :
    (parse (f ++ g)).InOrder := by
  obtain ⟨s, hs⟩ := hf.readable
  obtain ⟨t, ht⟩ := hg.readable
  rw [parse_append hs ht]
  cases hsegments : (parse g).segments with
  | nil =>
    refine ⟨⟨s ++ t, ?_⟩, ?_⟩
    · simp [ledBy, hsegments, ht, Except.map]
    · simpa [ledBy, hsegments] using hf.unnumbered
  | cons segment rest =>
    obtain ⟨lead, dir⟩ := segment
    have hrest := hg.unnumbered
    rw [hsegments, List.forall_mem_cons] at hrest
    refine ⟨⟨t, ?_⟩, ?_⟩
    · simp [ledBy, hsegments, ht]
    · simp only [ledBy, hsegments, List.forall_mem_append, List.forall_mem_cons]
      exact ⟨hf.unnumbered, hrest⟩

/-! ### Arguments taken in order -/

namespace Code

/-- The cursor has passed the first arguments, in order, of at most `count`. -/
structure Cursor.Counts (count : Nat) (cursor : Cursor) : Prop where
  indexed : cursor.indexed = false
  used : ∀ position, position ∈ cursor.used ↔ position < cursor.next
  bounded : cursor.next ≤ count

theorem Cursor.Counts.start (count : Nat) : ({} : Cursor).Counts count where
  indexed := rfl
  used := by simp
  bounded := Nat.zero_le _

/-- Nothing is left over when every argument has been passed. -/
theorem Cursor.Counts.unused?_eq_none {count : Nat} {cursor : Cursor} (h : cursor.Counts count) :
    cursor.unused? count = none ↔ cursor.next = count := by
  have hiff : cursor.unused? count = none ↔ ∀ position < count, position < cursor.next := by
    simp [Cursor.unused?, h.used]
  rw [hiff]
  constructor
  · intro hall
    by_contra hne
    have hlt : cursor.next < count := Nat.lt_of_le_of_ne h.bounded hne
    exact Nat.lt_irrefl _ (hall cursor.next hlt)
  · rintro rfl position hposition
    exact hposition

/-- The cursor past one more argument. -/
def Cursor.past (cursor : Cursor) : Cursor :=
  { next := cursor.next + 1, relative := true, indexed := cursor.indexed,
    used := cursor.next :: cursor.used }

theorem Cursor.Counts.past {count : Nat} {cursor : Cursor} (h : cursor.Counts count)
    (hlt : cursor.next < count) : cursor.past.Counts count where
  indexed := h.indexed
  used := by
    intro position
    simp only [Cursor.past, List.mem_cons, h.used]
    omega
  bounded := hlt

theorem Cursor.take_none {cursor : Cursor} (h : cursor.indexed = false) (format : String)
    (args : List (Argument δ)) :
    cursor.take format args none =
      match args[cursor.next]? with
      | none => .error (.missingArgument format (cursor.next + 1) args.length)
      | some arg => .ok (arg, cursor.past) := by
  simp only [Cursor.take, Cursor.advance, h, Bool.and_false, Cursor.past]
  rfl

/-- The arguments stand `offset` places further on among others. -/
def Shifted (offset : Nat) (args args' : List (Argument δ)) : Prop :=
  ∀ (position : Nat) (arg : Argument δ),
    args[position]? = some arg → args'[offset + position]? = some arg

theorem shifted_left (as bs : List (Argument δ)) : Shifted 0 as (as ++ bs) := by
  intro position arg h
  obtain ⟨hlt, -⟩ := List.getElem?_eq_some_iff.mp h
  rw [Nat.zero_add, List.getElem?_append_left hlt, h]

theorem shifted_right (as bs : List (Argument δ)) : Shifted as.length bs (as ++ bs) := by
  intro position arg h
  rw [List.getElem?_append_right (Nat.le_add_right _ _), Nat.add_sub_cancel_left, h]

theorem Shifted.length_le {offset : Nat} {args args' : List (Argument δ)}
    (h : Shifted offset args args') {position : Nat} (hlt : position < args.length) :
    offset + position < args'.length := by
  have hsome := h position _ (List.getElem?_eq_getElem hlt)
  exact (List.getElem?_eq_some_iff.mp hsome).1

namespace Draft

variable {d e : Draft δ}

/-- The draft and the cursor behind some segments, none if a directive is at fault. -/
def walk (format : String) (args : List (Argument δ)) (d : Draft δ) (cursor : Cursor) :
    List (String × Directive) → Option (Draft δ × Cursor)
  | [] => some (d, cursor)
  | (lead, dir) :: rest =>
    match d.directive format args cursor dir with
    | .error _ => none
    | .ok (part, moved, cursor) =>
      walk format args (moved.push (textParts lead ++ [part])) cursor rest

theorem interpret_of_walk {format : String} {args : List (Argument δ)} {cursor last : Cursor}
    {segments : List (String × Directive)} (h : d.walk format args cursor segments = some (e, last))
    (ending : Except CodeFault String) (more : List (String × Directive)) :
    d.interpret format args ending cursor (segments ++ more)
      = e.interpret format args ending last more := by
  induction segments generalizing d cursor with
  | nil =>
    simp only [walk, Option.some.injEq, Prod.mk.injEq] at h
    obtain ⟨rfl, rfl⟩ := h
    rfl
  | cons segment rest ih =>
    obtain ⟨lead, dir⟩ := segment
    simp only [walk] at h
    simp only [List.cons_append, interpret]
    cases hdir : d.directive format args cursor dir with
    | error fault => simp [hdir] at h
    | ok r =>
      simp only [hdir] at h ⊢
      exact ih h

/-- Without a fault every directive has been followed and every argument used. -/
theorem walk_of_interpret {format : String} {args : List (Argument δ)}
    {ending : Except CodeFault String} {cursor : Cursor} {segments : List (String × Directive)}
    (h : (d.interpret format args ending cursor segments).fault = none) :
    ∃ moved last tail, d.walk format args cursor segments = some (moved, last)
      ∧ ending = .ok tail ∧ last.unused? args.length = none
      ∧ d.interpret format args ending cursor segments = moved.push (textParts tail) := by
  induction segments generalizing d cursor with
  | nil =>
    cases ending with
    | error fault => simp [interpret, finish, fail] at h
    | ok tail =>
      refine ⟨d, cursor, tail, rfl, rfl, ?_⟩
      simp only [interpret, finish] at h ⊢
      cases hunused : cursor.unused? args.length with
      | some position => simp [hunused, fail] at h
      | none => exact ⟨rfl, rfl⟩
  | cons segment rest ih =>
    obtain ⟨lead, dir⟩ := segment
    simp only [interpret, walk] at h ⊢
    cases hdir : d.directive format args cursor dir with
    | error fault => simp [hdir, fail] at h
    | ok r =>
      simp only [hdir] at h
      exact ih h

/-- **A directive finds its argument among more arguments.** -/
theorem directive_shifted {offset : Nat} {args args' : List (Argument δ)}
    (hshift : Shifted offset args args') {format : String} {cursor next cursor' : Cursor}
    {dir : Directive} {p : Part δ} (hdir : dir.isNumbered = false)
    (hcounts : cursor.Counts args.length) (hcounts' : cursor'.Counts args'.length)
    (hnext : cursor'.next = offset + cursor.next)
    (h : d.directive format args cursor dir = .ok (p, e, next)) (format' : String) :
    ∃ next' : Cursor, d.directive format' args' cursor' dir = .ok (p, e, next')
      ∧ next.Counts args.length ∧ next'.Counts args'.length ∧ next'.next = offset + next.next := by
  -- all directives but the arguments leave the cursor alone
  have hsame : ∀ r : Except CodeFault (Part δ × Draft δ),
      (r.map fun r => (r.1, r.2, cursor)) = .ok (p, e, next) →
      ∃ next' : Cursor, (r.map fun r => (r.1, r.2, cursor')) = .ok (p, e, next')
        ∧ next.Counts args.length ∧ next'.Counts args'.length
        ∧ next'.next = offset + next.next := by
    intro r hr
    cases r with
    | error fault => simp [Except.map] at hr
    | ok r =>
      simp only [Except.map, Except.ok.injEq, Prod.mk.injEq] at hr
      obtain ⟨rfl, rfl, rfl⟩ := hr
      exact ⟨cursor', rfl, hcounts, hcounts', hnext⟩
  cases dir with
  | argument placeholder position =>
    cases position with
    | some position => simp [Directive.isNumbered] at hdir
    | none =>
      simp only [directive, Cursor.take_none hcounts.indexed, Cursor.take_none hcounts'.indexed,
        hnext] at h ⊢
      cases harg : args[cursor.next]? with
      | none => simp [harg, bind, Except.bind] at h
      | some arg =>
        have hlt := (List.getElem?_eq_some_iff.mp harg).1
        simp only [harg, hshift _ _ harg, bind, Except.bind] at h ⊢
        cases hpart : d.argumentPart placeholder arg with
        | error fault => simp [hpart] at h
        | ok r =>
          simp only [hpart, pure, Except.pure, Except.ok.injEq, Prod.mk.injEq] at h ⊢
          obtain ⟨rfl, rfl, rfl⟩ := h
          refine ⟨_, ⟨rfl, rfl, rfl⟩, hcounts.past hlt, hcounts'.past ?_, ?_⟩
          · rw [hnext]
            exact hshift.length_le hlt
          · simp only [Cursor.past, hnext]
            omega
  | indent => exact hsame (.ok (.indent, { d with depth := d.depth + 1 })) h
  | wrapSpace => exact hsame (.ok (.wrapSpace, d)) h
  | wrapPoint => exact hsame (.ok (.wrapPoint, d)) h
  | unindent =>
    simp only [directive] at h ⊢
    split at h
    · simp at h
    · rw [if_neg ‹_›]
      exact hsame (.ok (.unindent, { d with depth := d.depth - 1 })) h
  | openStatement =>
    simp only [directive] at h ⊢
    split at h
    · simp at h
    · rw [if_neg ‹_›]
      exact hsame (.ok (.openStatement, { d with inStatement := true })) h
  | closeStatement =>
    simp only [directive] at h ⊢
    split at h
    · rw [if_pos ‹_›]
      exact hsame (.ok (.closeStatement, { d.count 1 with inStatement := false })) h
    · simp at h

theorem walk_shifted {offset : Nat} {args args' : List (Argument δ)}
    (hshift : Shifted offset args args') {format : String} {cursor last cursor' : Cursor}
    {segments : List (String × Directive)}
    (hdirs : ∀ segment ∈ segments, segment.2.isNumbered = false)
    (hcounts : cursor.Counts args.length) (hcounts' : cursor'.Counts args'.length)
    (hnext : cursor'.next = offset + cursor.next)
    (h : d.walk format args cursor segments = some (e, last)) (format' : String) :
    ∃ last' : Cursor, d.walk format' args' cursor' segments = some (e, last')
      ∧ last.Counts args.length ∧ last'.Counts args'.length ∧ last'.next = offset + last.next := by
  induction segments generalizing d cursor cursor' with
  | nil =>
    simp only [walk, Option.some.injEq, Prod.mk.injEq] at h
    obtain ⟨rfl, rfl⟩ := h
    exact ⟨cursor', rfl, hcounts, hcounts', hnext⟩
  | cons segment rest ih =>
    obtain ⟨lead, dir⟩ := segment
    simp only [walk] at h ⊢
    cases hdir : d.directive format args cursor dir with
    | error fault => simp [hdir] at h
    | ok r =>
      obtain ⟨p, moved, next⟩ := r
      simp only [hdir] at h
      obtain ⟨next', hdir', hnextCounts, hnextCounts', hmoved⟩ :=
        directive_shifted hshift (hdirs _ (List.mem_cons_self ..)) hcounts hcounts' hnext hdir
          format'
      simp only [hdir']
      exact ih (fun s hs => hdirs s (List.mem_cons_of_mem _ hs)) hnextCounts hnextCounts' hmoved h

theorem alike_push_text (d : Draft δ) (s t : String) (ps : List (Part δ)) :
    ((d.push (textParts s)).push (textParts t ++ ps)).Alike
      (d.push (textParts (s ++ t) ++ ps)) := by
  refine ⟨rfl, ?_⟩
  simp only [push, List.append_assoc]
  rw [Part.tokens_append d.parts, Part.tokens_append d.parts, Part.tokens_textParts,
    Part.tokens_textParts, Part.before_before, Part.tokens_textParts]

/-- Text at the end of a draft may as well be at the start of the format behind it. -/
theorem alike_ledBy {format s : String} {args : List (Argument δ)} {cursor : Cursor}
    {parsed : Format}
    (h : ((d.push (textParts s)).interpret format args parsed.ending cursor
      parsed.segments).fault = none) :
    ((d.push (textParts s)).interpret format args parsed.ending cursor parsed.segments).Alike
      (d.interpret format args (parsed.ledBy s).ending cursor (parsed.ledBy s).segments) := by
  obtain ⟨segments, ending⟩ := parsed
  cases segments with
  | nil =>
    obtain ⟨moved, last, tail, hwalk, rfl, hunused, hpushed⟩ := walk_of_interpret h
    simp only [walk, Option.some.injEq, Prod.mk.injEq] at hwalk
    obtain ⟨rfl, rfl⟩ := hwalk
    have htext := alike_push_text d s tail []
    simp only [List.append_nil] at htext
    simpa [hpushed, Format.ledBy, interpret, finish, hunused, Except.map] using htext
  | cons segment rest =>
    obtain ⟨lead, dir⟩ := segment
    have hparts := directive_withParts d (d.push (textParts s)).parts format args cursor dir
    change (d.push (textParts s)).directive format args cursor dir = _ at hparts
    simp only [interpret, hparts] at h
    simp only [Format.ledBy, interpret, hparts]
    cases hdir : d.directive format args cursor dir with
    | error fault => simp [hdir, Except.map, fail] at h
    | ok r =>
      obtain ⟨p, moved, next⟩ := r
      have hmoved : moved.parts = d.parts := parts_of_directive hdir
      have hpushed : ({ moved with parts := (d.push (textParts s)).parts } : Draft δ)
          = moved.push (textParts s) := by simp only [push, hmoved]
      simp only [Except.map, hpushed]
      exact (alike_push_text moved s lead [p]).interpret format args ending next rest

theorem add_of_fault_eq_none {format : String} {args : List (Argument δ)}
    (h : (d.add format args).fault = none) :
    d.fault = none ∧ d.add format args = d.interpret format args (Format.parse format).ending {}
      (Format.parse format).segments := by
  cases hfault : d.fault with
  | some fault => simp [add, hfault] at h
  | none => simp [add, hfault]

/-- **Two formats in a row are one format.** -/
theorem add_add_alike {f g : String} {as bs : List (Argument δ)}
    (hf : (Format.parse f).InOrder) (hg : (Format.parse g).InOrder)
    (h : ((d.add f as).add g bs).fault = none) :
    ((d.add f as).add g bs).Alike (d.add (f ++ g) (as ++ bs)) := by
  obtain ⟨hfirst, hsecond⟩ := add_of_fault_eq_none h
  obtain ⟨hstart, hadd⟩ := add_of_fault_eq_none hfirst
  rw [hsecond] at h
  rw [hadd] at hfirst
  obtain ⟨e, c, s, hwalk, hs, hunused, htext⟩ := walk_of_interpret hfirst
  rw [hadd, htext] at hsecond h
  obtain ⟨e', c', t, hwalk', ht, hunused', htext'⟩ := walk_of_interpret h
  -- the first format leaves the cursor where the arguments of the second begin
  obtain ⟨k, hk, hcounts, hcountsK, hnextK⟩ := walk_shifted (shifted_left as bs) hf.unnumbered
    (Cursor.Counts.start _) (Cursor.Counts.start _) rfl hwalk (f ++ g)
  have hboundary : k.next = as.length := by
    rw [hnextK, Nat.zero_add]
    exact hcounts.unused?_eq_none.mp hunused
  obtain ⟨k', hk', hcounts', hcountsK', hnextK'⟩ := walk_shifted (shifted_right as bs) hg.unnumbered
    (Cursor.Counts.start _) hcountsK hboundary hwalk' (f ++ g)
  have hend : k'.unused? (as ++ bs).length = none := by
    rw [hcountsK'.unused?_eq_none, hnextK', hcounts'.unused?_eq_none.mp hunused', List.length_append]
  -- behind the first format, one format does what the second does
  have hrest : (e.push (textParts s)).interpret (f ++ g) (as ++ bs) (Format.parse g).ending k
      (Format.parse g).segments = (d.add f as).add g bs := by
    have hall := interpret_of_walk hk' (Format.parse g).ending []
    rw [List.append_nil] at hall
    rw [hall, hadd, htext, hsecond, htext', ht]
    simp only [interpret, finish, hend]
  have hwhole : d.add (f ++ g) (as ++ bs) = e.interpret (f ++ g) (as ++ bs)
      ((Format.parse g).ledBy s).ending k ((Format.parse g).ledBy s).segments := by
    simp only [add, hstart, Format.parse_append hs ht, Option.isSome_none, Bool.false_eq_true,
      if_false]
    exact interpret_of_walk hk _ _
  rw [hwhole, ← hrest]
  refine alike_ledBy ?_
  rw [hrest, hadd, htext, hsecond]
  exact h

/-- The edits that add some formats, each with its arguments. -/
def adds (pieces : List (String × List (Argument δ))) : List (Edit δ) :=
  pieces.map fun piece => .add piece.1 piece.2

theorem adds_alike {pieces : List (String × List (Argument δ))}
    (hpieces : ∀ piece ∈ pieces, (Format.parse piece.1).InOrder)
    (h : (d.applyAll (adds pieces)).fault = none) :
    (d.applyAll (adds pieces)).Alike
      (d.add (String.join (pieces.map Prod.fst)) (pieces.flatMap Prod.snd)) := by
  suffices hall : (Format.parse (String.join (pieces.map Prod.fst))).InOrder
      ∧ (d.applyAll (adds pieces)).Alike
        (d.add (String.join (pieces.map Prod.fst)) (pieces.flatMap Prod.snd)) from hall.2
  induction pieces generalizing d with
  | nil =>
    have hfault : d.fault = none := h
    have hparse : Format.parse "" = ⟨[], .ok ""⟩ := rfl
    have hadd : d.add "" [] = d.push [] := by
      simp [add, hfault, hparse, interpret, finish, Cursor.unused?, textParts_empty]
    refine ⟨⟨⟨"", rfl⟩, ?_⟩, ?_⟩
    · simp [hparse]
    · simp only [List.map_nil, String.join_nil, List.flatMap_nil, hadd]
      refine ⟨rfl, ?_⟩
      simp [push, adds, applyAll]
  | cons piece rest ih =>
    obtain ⟨hpiece, hrest⟩ := List.forall_mem_cons.mp hpieces
    obtain ⟨horder, halike⟩ := ih hrest (d := d.add piece.1 piece.2) h
    have hjoined : String.join ((piece :: rest).map Prod.fst)
        = piece.1 ++ String.join (rest.map Prod.fst) := by simp
    have hfault : ((d.add piece.1 piece.2).add (String.join (rest.map Prod.fst))
        (rest.flatMap Prod.snd)).fault = none := by
      rw [halike.fault_eq]
      exact h
    rw [hjoined, List.flatMap_cons]
    exact ⟨hpiece.append horder, halike.trans (add_add_alike hpiece horder hfault)⟩

/-- **A block added is a block nested.** -/
theorem addCode_alike (d : Draft δ) (c : Code δ) : (d.addCode c).Alike (d.add "$L" [.code c]) := by
  have hparse : Format.parse "$L" = ⟨[("", .argument .literal none)], .ok ""⟩ :=
    Format.parse_placeholder .literal
  cases hfault : d.fault with
  | some fault =>
    simpa [addCode, add, hfault] using Alike.refl d
  | none =>
    have hdir : d.directive "$L" [.code c] {} (.argument .literal none)
        = (d.absorb c).map fun e => (.block c, e, Cursor.past {}) := by
      have htake : ({} : Cursor).take "$L" [.code c] none = .ok (.code c, Cursor.past {}) := rfl
      simp only [directive, htake, bind, Except.bind, argumentPart]
      cases d.absorb c <;> rfl
    have hflat : Part.tokens c.parts = Part.tokens [.block c] := by
      rw [Part.tokens, Part.tokens, Part.flatAll_singleton, Part.flat, Code.flat_eq]
    simp only [addCode, add, hfault, hparse, interpret, hdir]
    cases d.absorb c with
    | error fault => exact (Alike.refl d).fail fault
    | ok e =>
      have hpushed : (e.push [.block c]).push [] = e.push [.block c] := by simp [push]
      have hused : (Cursor.past {}).unused? 1 = none := rfl
      simpa [Except.map, finish, hused, textParts_empty, hpushed] using (Alike.refl e).push hflat

end Draft

/-- **Only the tokens of a block can be seen.**  Blocks with the same tokens are written alike
    and require the same imports.  So a block added and a block nested, and several formats
    and one format, cannot be told apart, whatever edits follow. -/
theorem output_of_tokens :
    (∀ a b : Code TypeDecl, a.tokens = b.tokens →
      a.fragment.render = b.fragment.render
        ∧ ∀ space, a.fragment.requiredImports space = b.fragment.requiredImports space)
    ∧ (∀ (d : Draft TypeDecl) (c : Code TypeDecl) (edits : List (Edit TypeDecl)),
      ((d.addCode c).applyAll edits).SameOutput ((d.add "$L" [.code c]).applyAll edits))
    ∧ ∀ (d : Draft TypeDecl) (pieces : List (String × List (Argument TypeDecl)))
        (edits : List (Edit TypeDecl)),
      (∀ piece ∈ pieces, (Format.parse piece.1).InOrder) →
      (d.applyAll (Draft.adds pieces)).fault = none →
      ((d.applyAll (Draft.adds pieces)).applyAll edits).SameOutput
        ((d.add (String.join (pieces.map Prod.fst)) (pieces.flatMap Prod.snd)).applyAll edits) := by
  refine ⟨?_, ?_, ?_⟩
  · intro a b htokens
    exact ⟨render_eq_of_tokens htokens, requiredImports_eq_of_tokens htokens⟩
  · intro d c edits
    exact ((Draft.addCode_alike d c).applyAll edits).sameOutput
  · intro d pieces edits hpieces hfault
    exact ((Draft.adds_alike hpieces hfault).applyAll edits).sameOutput

/-- A name in a nested block, and the same text in two pieces; a call in one format and in two. -/
theorem output_of_tokens_call :
    (⟨[.block ⟨[.text "", .name "count"], 0⟩], 0⟩ : Code TypeDecl).fragment.render
        = (⟨[.text "co", .text "unt"], 0⟩ : Code TypeDecl).fragment.render
    ∧ (({} : Draft TypeDecl).applyAll
        (Draft.adds [("$L(", [.text "f"]), ("$S);\n", [.text "x"])])).SameOutput
        (({} : Draft TypeDecl).add "$L($S);\n" [.text "f", .text "x"]) := by
  obtain ⟨hblocks, -, hpieces⟩ := output_of_tokens
  refine ⟨(hblocks _ _ rfl).1, hpieces {} [("$L(", [.text "f"]), ("$S);\n", [.text "x"])] [] ?_ rfl⟩
  have hcall : Format.parse "$L(" = ⟨[("", .argument .literal none)], .ok "("⟩ := rfl
  have harg : Format.parse "$S);\n" = ⟨[("", .argument .string none)], .ok ");\n"⟩ := rfl
  intro piece hpiece
  simp only [List.mem_cons, List.not_mem_nil, or_false] at hpiece
  rcases hpiece with rfl | rfl
  · exact ⟨⟨_, congrArg Format.ending hcall⟩, by simp [hcall, Directive.isNumbered]⟩
  · exact ⟨⟨_, congrArg Format.ending harg⟩, by simp [harg, Directive.isNumbered]⟩

end Code

end CSharpGen
