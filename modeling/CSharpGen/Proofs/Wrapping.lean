/-
  CSharpGen/Proofs/Wrapping.lean
  ==============================
  **Breaking lines with and without looking ahead.**  The wrapper sees its
  requests one by one, and holds a break back until it knows what becomes of it.
  The rule it follows can be said about the finished text, for each break by
  itself (`Written`): a break point at the beginning of a line is dropped; any
  other break is a line end exactly when some text is added behind it, and what
  stands before it on its line, together with what is added up to the next line
  end or break, goes past the column limit.

  A break once decided stays decided, whatever is asked for later.  So what is
  carried through a run (`Wrapper.Tracks`) is that the part of the text that
  stands follows the rule in front of every continuation, and that what is held
  back fits on its line.  `Wrapper.output_follows_rule` reads the rule off at
  the end of the run.
-/
import CSharpGen.Proofs.Tokens
import Mathlib.Data.List.DropRight

namespace CSharpGen

/-! ### Columns -/

namespace Text

/-- The number of characters behind the last line end. -/
def column (s : String) : Nat := (s.toList.rtakeWhile (· ≠ '\n')).length

/-- The number of characters before the first line end. -/
def lineWidth (s : String) : Nat := (s.toList.takeWhile (· ≠ '\n')).length

theorem column_append_of_not_mem (s : String) {t : String} (ht : '\n' ∉ t.toList) :
    column (s ++ t) = column s + t.length := by
  have hall : ∀ c ∈ t.toList.reverse, decide (c ≠ '\n') = true := by
    intro c hc
    have hne : c ≠ '\n' := fun heq => ht (heq ▸ List.mem_reverse.mp hc)
    simpa using hne
  simp only [column, List.rtakeWhile, String.toList_append, List.reverse_append,
    List.length_reverse, List.takeWhile_append_of_pos hall, List.length_append, String.length_toList]

theorem column_append_of_mem (s : String) {t : String} (ht : '\n' ∈ t.toList) :
    column (s ++ t) = column t := by
  have hsome : (t.toList.reverse.takeWhile fun c => decide (c ≠ '\n')).length
      ≠ t.toList.reverse.length := by
    intro hlength
    have hself := (List.takeWhile_prefix _).eq_of_length hlength
    have hne := List.takeWhile_eq_self_iff.mp hself '\n' (List.mem_reverse.mpr ht)
    simp at hne
  simp only [column, List.rtakeWhile, String.toList_append, List.reverse_append,
    List.takeWhile_append, if_neg hsome]

theorem column_newline (s : String) : column (s ++ "\n") = 0 := by
  simp [column, List.rtakeWhile]

theorem lineWidth_append_of_not_mem {s : String} (hs : '\n' ∉ s.toList) (t : String) :
    lineWidth (s ++ t) = s.length + lineWidth t := by
  have hall : ∀ c ∈ s.toList, decide (c ≠ '\n') = true := by
    intro c hc
    have hne : c ≠ '\n' := fun heq => hs (heq ▸ hc)
    simpa using hne
  simp only [lineWidth, String.toList_append, List.takeWhile_append_of_pos hall, List.length_append,
    String.length_toList]

theorem lineWidth_of_not_mem {s : String} (hs : '\n' ∉ s.toList) : lineWidth s = s.length := by
  have hempty : lineWidth "" = 0 := rfl
  rw [← String.append_empty (s := s), lineWidth_append_of_not_mem hs, hempty, String.append_empty]
  simp

theorem lineWidth_append_of_mem {s : String} (hs : '\n' ∈ s.toList) (t : String) :
    lineWidth (s ++ t) = lineWidth s := by
  have hsome : (s.toList.takeWhile fun c => decide (c ≠ '\n')).length ≠ s.toList.length := by
    intro hlength
    have hself := (List.takeWhile_prefix _).eq_of_length hlength
    have hne := List.takeWhile_eq_self_iff.mp hself '\n' hs
    simp at hne
  simp only [lineWidth, String.toList_append, List.takeWhile_append, if_neg hsome]

theorem lineWidth_le_append (s t : String) : lineWidth s ≤ lineWidth (s ++ t) := by
  by_cases hs : '\n' ∈ s.toList
  · rw [lineWidth_append_of_mem hs]
  · rw [lineWidth_append_of_not_mem hs, lineWidth_of_not_mem hs]
    omega

end Text

theorem Break.plain_text (kind : Break) : '\n' ∉ kind.text.toList := by
  cases kind <;> decide

theorem Layout.plain_indentation {layout : Layout} (hunit : '\n' ∉ layout.unit.toList)
    (level : Nat) :
    '\n' ∉ (layout.indentation level).toList
      ∧ (layout.indentation level).length = level * layout.unit.length := by
  induction level with
  | zero => simp [indentation]
  | succ level ih =>
    obtain ⟨hplain, hlength⟩ := ih
    rw [indentation]
    refine ⟨by simp [hunit, hplain], ?_⟩
    rw [String.length_append, hlength, Nat.succ_mul]
    omega

/-! ### The rule -/

/-- What is asked of a wrapper: to add text, or a place where the line may be broken, with
    the levels of indentation behind a line end there. -/
inductive Request where
  | text (s : String)
  | mayBreak (kind : Break) (level : Nat)
  deriving DecidableEq, Repr

/-- Requests in order, each with what is written for it. -/
abbrev Laid := List (Request × String)

def Laid.text (laid : Laid) : String := String.join (laid.map Prod.snd)

/-- A break point is dropped at the beginning of a line. -/
def Break.Dropped (kind : Break) (before : String) : Prop :=
  kind = .point ∧ Text.column before = 0

instance (kind : Break) (before : String) : Decidable (kind.Dropped before) :=
  inferInstanceAs (Decidable (_ ∧ _))

/-- The texts added behind `before`, up to the next break that is not dropped. -/
def Laid.ahead (before : String) : Laid → List String
  | [] => []
  | (.text s, t) :: rest => s :: ahead (before ++ t) rest
  | (.mayBreak kind _, t) :: rest =>
    if kind.Dropped before then ahead (before ++ t) rest else []

/-- Some text is added behind a break, and its first line goes past the limit. -/
def Overflows (layout : Layout) (before : String) (kind : Break) (added : List String) : Prop :=
  added ≠ [] ∧ layout.limit
    < Text.column before + kind.text.length + Text.lineWidth (String.join added)

/-- What is written for a request between the text `before` it and the `rest`. -/
def Written (layout : Layout) (before : String) (rest : Laid) : Request → String → Prop
  | .text s, t => t = s
  | .mayBreak kind level, t =>
    (kind.Dropped before → t = "")
    ∧ (¬ kind.Dropped before →
      (Overflows layout before kind (rest.ahead (before ++ t)) →
        t = "\n" ++ layout.indentation level)
      ∧ (¬ Overflows layout before kind (rest.ahead (before ++ t)) → t = kind.text))

/-- What is written for each request is what the rule says. -/
def FollowsRule (layout : Layout) (laid : Laid) : Prop :=
  ∀ (done : Laid) (r : Request) (t : String) (todo : Laid),
    laid = done ++ (r, t) :: todo → Written layout done.text todo r t

/-- The rule holds at every request behind `before`. -/
def Obeys (layout : Layout) (before : String) : Laid → Prop
  | [] => True
  | (r, t) :: rest => Written layout before rest r t ∧ Obeys layout (before ++ t) rest

/-- Texts, each written as it is. -/
def Laid.plain (added : List String) : Laid := added.map fun s => (.text s, s)

namespace Laid

theorem text_cons (r : Request) (t : String) (laid : Laid) :
    text ((r, t) :: laid) = t ++ text laid := by
  simp [text]

theorem text_append (laid more : Laid) : text (laid ++ more) = laid.text ++ more.text := by
  simp [text]

theorem text_plain (added : List String) : (plain added).text = String.join added := by
  simp [text, plain, Function.comp_def]

theorem ahead_plain (before : String) (added : List String) (rest : Laid) :
    ahead before (plain added ++ rest) = added ++ rest.ahead (before ++ String.join added) := by
  induction added generalizing before with
  | nil => simp [plain]
  | cons s added ih =>
    have hcons : plain (s :: added) = (.text s, s) :: plain added := rfl
    rw [hcons, List.cons_append, ahead, ih, String.join_cons, String.append_assoc]
    rfl

end Laid

theorem obeys_plain {layout : Layout} {before : String} {added : List String} {rest : Laid} :
    Obeys layout before (Laid.plain added ++ rest)
      ↔ Obeys layout (before ++ String.join added) rest := by
  induction added generalizing before with
  | nil => simp [Laid.plain]
  | cons s added ih =>
    have hcons : Laid.plain (s :: added) = (.text s, s) :: Laid.plain added := rfl
    rw [hcons, List.cons_append, Obeys, ih, String.join_cons, String.append_assoc]
    simp [Written]

theorem obeys_iff {layout : Layout} {before : String} {laid : Laid} :
    Obeys layout before laid ↔ ∀ (done : Laid) (r : Request) (t : String) (todo : Laid),
      laid = done ++ (r, t) :: todo → Written layout (before ++ done.text) todo r t := by
  induction laid generalizing before with
  | nil => simp [Obeys]
  | cons piece laid ih =>
    obtain ⟨r, t⟩ := piece
    rw [Obeys, ih]
    constructor
    · rintro ⟨hfirst, hrest⟩ done r' t' todo heq
      cases done with
      | nil =>
        cases heq
        rwa [Laid.text, List.map_nil, String.join_nil, String.append_empty]
      | cons piece done =>
        obtain ⟨rfl, rfl⟩ := List.cons.inj heq
        rw [Laid.text_cons, ← String.append_assoc]
        exact hrest done r' t' todo rfl
    · intro hall
      refine ⟨?_, ?_⟩
      · have hfirst := hall [] r t laid rfl
        rwa [Laid.text, List.map_nil, String.join_nil, String.append_empty] at hfirst
      · rintro done r' t' todo rfl
        have hrest := hall ((r, t) :: done) r' t' todo rfl
        rwa [Laid.text_cons, ← String.append_assoc] at hrest

theorem followsRule_iff {layout : Layout} {laid : Laid} :
    FollowsRule layout laid ↔ Obeys layout "" laid := by
  simp only [FollowsRule, obeys_iff, String.empty_append]

/-! ### The rule leaves no choice -/

/-- What is added behind two texts is the same, if neither begins a line or both stand at
    one column. -/
theorem ahead_eq {layout : Layout} {before before' : String} {laid laid' : Laid}
    (h : Obeys layout before laid) (h' : Obeys layout before' laid')
    (hrequests : laid.map Prod.fst = laid'.map Prod.fst)
    (hcolumn : Text.column before = Text.column before'
      ∨ 0 < Text.column before ∧ 0 < Text.column before') :
    laid.ahead before = laid'.ahead before' := by
  induction laid generalizing before before' laid' with
  | nil =>
    obtain rfl : laid' = [] := by simpa using hrequests.symm
    rfl
  | cons piece laid ih =>
    obtain ⟨⟨r, t⟩, laid', rfl⟩ : ∃ q rest, laid' = q :: rest :=
      List.exists_cons_of_ne_nil (by rintro rfl; simp at hrequests)
    obtain ⟨r', t'⟩ := piece
    obtain ⟨rfl, hrest⟩ : r' = r ∧ laid.map Prod.fst = laid'.map Prod.fst := by
      simpa using hrequests
    obtain ⟨hwritten, h⟩ := h
    obtain ⟨hwritten', h'⟩ := h'
    cases r' with
    | text s =>
      obtain rfl : t' = s := hwritten
      obtain rfl : t = t' := hwritten'
      rw [Laid.ahead, Laid.ahead, ih h h' hrest ?_]
      by_cases hs : '\n' ∈ t.toList
      · rw [Text.column_append_of_mem _ hs, Text.column_append_of_mem _ hs]
        exact .inl rfl
      · rw [Text.column_append_of_not_mem _ hs, Text.column_append_of_not_mem _ hs]
        omega
    | mayBreak kind level =>
      have hsame : kind.Dropped before ↔ kind.Dropped before' := by
        unfold Break.Dropped
        constructor <;> rintro ⟨hkind, hzero⟩ <;> exact ⟨hkind, by omega⟩
      by_cases hdropped : kind.Dropped before
      · obtain rfl : t' = "" := hwritten.1 hdropped
        obtain rfl : t = "" := hwritten'.1 (hsame.mp hdropped)
        rw [Laid.ahead, Laid.ahead, if_pos hdropped, if_pos (hsame.mp hdropped)]
        rw [String.append_empty] at h h' ⊢
        rw [String.append_empty]
        exact ih h h' hrest hcolumn
      · rw [Laid.ahead, Laid.ahead, if_neg hdropped, if_neg (mt hsame.mpr hdropped)]

/-- Behind a break that is not dropped no line begins, if a line end is indented. -/
theorem column_pos_of_written {layout : Layout} (hunit : '\n' ∉ layout.unit.toList)
    {before : String} {rest : Laid} {kind : Break} {level : Nat} {t : String}
    (h : Written layout before rest (.mayBreak kind level) t) (hkept : ¬ kind.Dropped before)
    (hindented : layout.indentation level ≠ "") : 0 < Text.column (before ++ t) := by
  by_cases hover : Overflows layout before kind (rest.ahead (before ++ t))
  · obtain rfl := (h.2 hkept).1 hover
    have hlength : (layout.indentation level).length ≠ 0 := by simpa using hindented
    have hplain := (layout.plain_indentation hunit level).1
    rw [← String.append_assoc, Text.column_append_of_not_mem _ hplain, Text.column_newline]
    omega
  · obtain rfl := (h.2 hkept).2 hover
    rw [Text.column_append_of_not_mem _ kind.plain_text]
    cases kind with
    | space => exact Nat.lt_add_left _ (by decide)
    | point =>
      have hne : Text.column before ≠ 0 := fun hzero => hkept ⟨rfl, hzero⟩
      omega

/-- **The rule leaves no choice**, if every line end is indented. -/
theorem Obeys.unique {layout : Layout} (hunit : '\n' ∉ layout.unit.toList) {before : String}
    {laid laid' : Laid} (h : Obeys layout before laid) (h' : Obeys layout before laid')
    (hrequests : laid.map Prod.fst = laid'.map Prod.fst)
    (hindented : ∀ kind level, .mayBreak kind level ∈ laid.map Prod.fst →
      layout.indentation level ≠ "") : laid = laid' := by
  induction laid generalizing before laid' with
  | nil => simpa using hrequests.symm
  | cons piece laid ih =>
    obtain ⟨⟨r, t'⟩, laid', rfl⟩ : ∃ q rest, laid' = q :: rest :=
      List.exists_cons_of_ne_nil (by rintro rfl; simp at hrequests)
    obtain ⟨r', t⟩ := piece
    obtain ⟨rfl, hrest⟩ : r' = r ∧ laid.map Prod.fst = laid'.map Prod.fst := by
      simpa using hrequests
    obtain ⟨hwritten, h⟩ := h
    obtain ⟨hwritten', h'⟩ := h'
    have htext : t = t' := by
      cases r' with
      | text s => exact hwritten.trans hwritten'.symm
      | mayBreak kind level =>
        by_cases hdropped : kind.Dropped before
        · rw [hwritten.1 hdropped, hwritten'.1 hdropped]
        · -- whatever is written, the same texts come next
          have hlevel := hindented kind level (by simp)
          have hahead := ahead_eq h h' hrest
            (.inr ⟨column_pos_of_written hunit hwritten hdropped hlevel,
              column_pos_of_written hunit hwritten' hdropped hlevel⟩)
          have hrule := hwritten'.2 hdropped
          rw [← hahead] at hrule
          by_cases hover : Overflows layout before kind (Laid.ahead (before ++ t) laid)
          · rw [(hwritten.2 hdropped).1 hover, hrule.1 hover]
          · rw [(hwritten.2 hdropped).2 hover, hrule.2 hover]
    obtain rfl := htext
    rw [ih h h' hrest fun kind level hmem => hindented kind level (List.mem_cons_of_mem _ hmem)]

/-! ### What a run keeps -/

namespace Wrapper

/-- Do what a request asks for. -/
def request (layout : Layout) (w : Wrapper) : Request → Wrapper
  | .text s => w.append layout s
  | .mayBreak .space level => w.addSpace layout level
  | .mayBreak .point level => w.addPoint layout level

/-- The text after some requests. -/
def output (layout : Layout) (requests : List Request) : String :=
  (requests.foldl (request layout) {}).finish layout

/-- The requests so far have been settled: what is written for them follows the rule in
    front of every continuation of the given kind. -/
structure Settled (layout : Layout) (follows : Laid → Prop) (requests : List Request)
    (laid : Laid) : Prop where
  requests : laid.map Prod.fst = requests
  obeys : ∀ rest, follows rest → Obeys layout laid.text rest → Obeys layout "" (laid ++ rest)

/-- The wrapper after some requests. -/
inductive Tracks (layout : Layout) : List Request → Wrapper → Prop
  /-- No break is held. -/
  | settled {requests : List Request} {laid : Laid}
      (h : Settled layout (fun _ => True) requests laid) :
      Tracks layout requests ⟨laid.text, Text.column laid.text, none⟩
  /-- A break is held with the texts added behind it, and these fit on the line. -/
  | held {requests : List Request} {laid : Laid} {kind : Break} {level : Nat}
      (added : List String)
      (h : Settled layout (fun rest => ∃ t more, rest = (.mayBreak kind level, t) :: more)
        requests laid)
      (hkept : ¬ kind.Dropped laid.text)
      (hline : '\n' ∉ (String.join added).toList)
      (hfits : added ≠ [] → Text.column laid.text + kind.text.length + (String.join added).length
        ≤ layout.limit) :
      Tracks layout (requests ++ .mayBreak kind level :: added.map .text)
        ⟨laid.text, Text.column laid.text + kind.text.length + (String.join added).length,
          some ⟨kind, level, String.join added⟩⟩

theorem write_of_column (out s : String) (held : Option Held) :
    (⟨out, Text.column out, held⟩ : Wrapper).write s =
      ⟨out ++ s, Text.column (out ++ s), held⟩ := by
  unfold write
  rcases Text.cutLast_spec '\n' s.toList with ⟨hcut, hnot⟩ | ⟨before, after, hcut, hs, hnot⟩
  · simp only [hcut, Text.column_append_of_not_mem out hnot]
  · have hlast : Text.column (out ++ s) = after.length := by
      have hsplit : out ++ s = (out ++ String.ofList before ++ "\n") ++ String.ofList after := by
        rw [← String.toList_inj]
        simp [hs]
      rw [hsplit, Text.column_append_of_not_mem _ (by simpa using hnot), Text.column_newline]
      simp
    simp only [hcut, hlast]

section Decide

variable {layout : Layout} {requests : List Request} {laid : Laid} {kind : Break} {level : Nat}
  {added : List String}

/-- A held break is settled by what is written for it, if that is what the rule says. -/
theorem Settled.decide {follows : Laid → Prop} {t : String}
    (h : Settled layout (fun rest => ∃ t more, rest = (.mayBreak kind level, t) :: more)
      requests laid) (added : List String)
    (ht : ∀ rest, follows rest →
      Written layout laid.text (Laid.plain added ++ rest) (.mayBreak kind level) t) :
    Settled layout follows (requests ++ .mayBreak kind level :: added.map .text)
      (laid ++ (.mayBreak kind level, t) :: Laid.plain added) where
  requests := by simp [h.requests, Laid.plain, Function.comp_def]
  obeys := by
    intro rest hfollows hrest
    rw [Laid.text_append, Laid.text_cons, Laid.text_plain, ← String.append_assoc] at hrest
    rw [List.append_assoc, List.cons_append]
    exact h.obeys _ ⟨t, _, rfl⟩ ⟨ht rest hfollows, obeys_plain.mpr hrest⟩

/-- The line is broken before a text that goes past the limit. -/
theorem written_line_end (hkept : ¬ kind.Dropped laid.text)
    (hline : '\n' ∉ (String.join added).toList) {s : String}
    (hover : layout.limit < Text.column laid.text + kind.text.length + (String.join added).length
      + Text.lineWidth s) (rest : Laid) :
    Written layout laid.text (Laid.plain (added ++ [s]) ++ rest) (.mayBreak kind level)
      ("\n" ++ layout.indentation level) := by
  refine ⟨fun hdropped => absurd hdropped hkept, fun _ => ⟨fun _ => rfl, fun hfits => ?_⟩⟩
  refine absurd ⟨?_, ?_⟩ hfits
  · simp [Laid.ahead_plain]
  · rw [Laid.ahead_plain, List.append_assoc, String.join_append,
      Text.lineWidth_append_of_not_mem hline, List.singleton_append, String.join_cons]
    have hwidth := Text.lineWidth_le_append s (String.join (rest.ahead
      (laid.text ++ ("\n" ++ layout.indentation level) ++ String.join (added ++ [s]))))
    omega

/-- The line is not broken before what fits on it. -/
theorem written_no_line_end (hkept : ¬ kind.Dropped laid.text) {rest : Laid}
    (hfits : rest.ahead (laid.text ++ kind.text) ≠ [] →
      Text.column laid.text + kind.text.length
        + Text.lineWidth (String.join (rest.ahead (laid.text ++ kind.text))) ≤ layout.limit) :
    Written layout laid.text rest (.mayBreak kind level) kind.text := by
  refine ⟨fun hdropped => absurd hdropped hkept, fun _ => ⟨fun hover => ?_, fun _ => rfl⟩⟩
  have hle := hfits hover.1
  have hlt := hover.2
  omega

end Decide

variable {layout : Layout} {requests : List Request} {w : Wrapper}

theorem Settled.mono {follows follows' : Laid → Prop} {laid : Laid}
    (h : Settled layout follows requests laid) (hmono : ∀ rest, follows' rest → follows rest) :
    Settled layout follows' requests laid :=
  ⟨h.requests, fun rest hrest => h.obeys rest (hmono rest hrest)⟩

/-- **Where no text follows, a held break is not a line end.** -/
theorem Tracks.release (h : Tracks layout requests w) :
    ∃ laid : Laid, Settled layout (fun rest => rest.ahead laid.text = []) requests laid
      ∧ w.settle layout false = ⟨laid.text, Text.column laid.text, none⟩ := by
  cases h with
  | @settled _ laid h => exact ⟨laid, h.mono fun _ _ => trivial, rfl⟩
  | @held _ laid kind level added h hkept hline hfits =>
    have htext : Laid.text (laid ++ (.mayBreak kind level, kind.text) :: Laid.plain added)
        = laid.text ++ kind.text ++ String.join added := by
      rw [Laid.text_append, Laid.text_cons, Laid.text_plain, String.append_assoc]
    refine ⟨_, h.decide (t := kind.text) added ?_, ?_⟩
    · intro rest hnone
      rw [htext] at hnone
      refine written_no_line_end hkept ?_
      rw [Laid.ahead_plain, hnone, List.append_nil, Text.lineWidth_of_not_mem hline]
      exact hfits
    · rw [htext, Text.column_append_of_not_mem _ hline,
        Text.column_append_of_not_mem _ kind.plain_text]
      rfl

/-- What becomes of a held break when text is added behind it. -/
theorem append_of_held {held : Held} (hheld : w.held = some held) (s : String) :
    w.append layout s =
      if layout.limit < w.column + Text.lineWidth s then (w.settle layout true).write s
      else if '\n' ∈ s.toList then (w.settle layout false).write s
      else ⟨w.out, w.column + s.length, some ⟨held.kind, held.level, held.text ++ s⟩⟩ := by
  have hwidth : (s.toList.takeWhile (· ≠ '\n')).length = Text.lineWidth s := rfl
  unfold append
  simp only [hheld, hwidth]
  by_cases hover : layout.limit < w.column + Text.lineWidth s
  · have hfits : ¬ w.column + Text.lineWidth s ≤ layout.limit := by omega
    simp [hover, hfits]
  · have hfits : w.column + Text.lineWidth s ≤ layout.limit := by omega
    by_cases hs : '\n' ∈ s.toList
    · have hcut : Text.lineWidth s ≠ s.length := by
        intro hlength
        have hself := (List.takeWhile_prefix fun c => decide (c ≠ '\n')).eq_of_length
          (hlength.trans String.length_toList.symm)
        simpa using List.takeWhile_eq_self_iff.mp hself '\n' hs
      simp [hover, hfits, hs, hcut]
    · have hlength := Text.lineWidth_of_not_mem hs
      rw [hlength] at hover hfits ⊢
      simp [hover, hfits, hs]

/-- **Adding text.**  A held break becomes a line end if the text goes past the limit; if
    the line ends inside the text, nothing more can move the break. -/
theorem Tracks.text (hunit : '\n' ∉ layout.unit.toList) (h : Tracks layout requests w)
    (s : String) : Tracks layout (requests ++ [.text s]) (w.append layout s) := by
  cases h with
  | @settled _ laid h =>
    have hadded : Settled layout (fun _ => True) (requests ++ [.text s])
        (laid ++ Laid.plain [s]) := by
      refine ⟨by simp [h.requests, Laid.plain], ?_⟩
      intro rest _ hrest
      rw [Laid.text_append, Laid.text_plain] at hrest
      rw [List.append_assoc]
      exact h.obeys _ trivial (obeys_plain.mpr hrest)
    have htracks := Tracks.settled hadded
    rw [Laid.text_append, Laid.text_plain, String.join_cons, String.join_nil, String.append_empty,
      ← write_of_column] at htracks
    exact htracks
  | @held requests laid kind level added h hkept hline hfits =>
    have hmore : String.join (added ++ [s]) = String.join added ++ s := by simp
    have hrequests : (requests ++ .mayBreak kind level :: added.map .text) ++ [.text s]
        = requests ++ .mayBreak kind level :: (added ++ [s]).map .text := by simp
    -- a break decided as `t` leaves the wrapper with the text behind it written out
    have hdecided : ∀ t : String,
        (∀ rest, Written layout laid.text (Laid.plain (added ++ [s]) ++ rest)
          (.mayBreak kind level) t) →
        Tracks layout (requests ++ .mayBreak kind level :: (added ++ [s]).map .text)
          ((⟨laid.text ++ t ++ String.join added, Text.column (laid.text ++ t ++ String.join added),
            none⟩ : Wrapper).write s) := by
      intro t ht
      have htracks := Tracks.settled (h.decide (added ++ [s]) fun rest (_ : True) => ht rest)
      rwa [Laid.text_append, Laid.text_cons, Laid.text_plain, hmore, ← String.append_assoc,
        ← String.append_assoc, ← write_of_column] at htracks
    rw [hrequests, append_of_held rfl]
    by_cases hover : layout.limit < Text.column laid.text + kind.text.length
        + (String.join added).length + Text.lineWidth s
    · rw [if_pos hover]
      obtain ⟨hplain, hlength⟩ := layout.plain_indentation hunit level
      have hbroken := hdecided _ (written_line_end hkept hline hover)
      rw [Text.column_append_of_not_mem _ hline, ← String.append_assoc,
        Text.column_append_of_not_mem _ hplain, Text.column_newline, Nat.zero_add, hlength]
        at hbroken
      exact hbroken
    · rw [if_neg hover]
      by_cases hs : '\n' ∈ s.toList
      · rw [if_pos hs]
        have hkeptLine := hdecided kind.text fun rest => written_no_line_end hkept fun _ => by
          rw [Laid.ahead_plain, String.join_append, hmore, String.append_assoc,
            Text.lineWidth_append_of_not_mem hline, Text.lineWidth_append_of_mem hs]
          omega
        rw [Text.column_append_of_not_mem _ hline, Text.column_append_of_not_mem _ kind.plain_text]
          at hkeptLine
        exact hkeptLine
      · rw [if_neg hs]
        have hlonger := Tracks.held (added ++ [s]) h hkept
          (by
            rw [hmore, String.toList_append]
            exact fun hmem => (List.mem_append.mp hmem).elim hline hs)
          (fun _ => by
            rw [hmore, String.length_append]
            rw [Text.lineWidth_of_not_mem hs] at hover
            omega)
        rw [hmore, String.length_append, ← Nat.add_assoc] at hlonger
        exact hlonger

theorem column_release (layout : Layout) (w : Wrapper) :
    (w.settle layout false).column = w.column := by
  unfold settle
  cases w.held <;> rfl

/-- A break is held behind what has been settled. -/
theorem Settled.hold {laid : Laid}
    (h : Settled layout (fun rest => rest.ahead laid.text = []) requests laid) (kind : Break)
    (hkept : ¬ kind.Dropped laid.text) (level : Nat) :
    Tracks layout (requests ++ [.mayBreak kind level])
      ⟨laid.text, Text.column laid.text + kind.text.length, some ⟨kind, level, ""⟩⟩ := by
  refine Tracks.held [] (h.mono ?_) hkept (by simp) (by simp)
  rintro rest ⟨t, more, rfl⟩
  simp [Laid.ahead, hkept]

/-- At the beginning of a line no break is held, and a break point is dropped. -/
theorem Tracks.drop (h : Tracks layout requests w) (hcolumn : w.column = 0) (level : Nat) :
    Tracks layout (requests ++ [.mayBreak .point level]) w := by
  cases h with
  | @settled _ laid h =>
    have hdropped : Break.point.Dropped laid.text := ⟨rfl, hcolumn⟩
    have htext : Laid.text (laid ++ [(.mayBreak .point level, "")]) = laid.text := by
      simp [Laid.text]
    have hmore : Settled layout (fun _ => True) (requests ++ [.mayBreak .point level])
        (laid ++ [(.mayBreak .point level, "")]) := by
      refine ⟨by simp [h.requests], ?_⟩
      intro rest _ hrest
      rw [htext] at hrest
      rw [List.append_assoc, List.singleton_append]
      refine h.obeys _ trivial ⟨⟨fun _ => rfl, fun hkept => absurd hdropped hkept⟩, ?_⟩
      rwa [String.append_empty]
    have htracks := Tracks.settled hmore
    rwa [htext] at htracks
  | @held _ laid kind _ _ h hkept =>
    have hzero : Text.column laid.text = 0 ∧ kind.text.length = 0 := by
      simp only at hcolumn
      omega
    cases kind with
    | space => exact absurd hzero.2 (by decide)
    | point => exact absurd ⟨rfl, hzero.1⟩ hkept

/-- **A request keeps the rule.** -/
theorem Tracks.request (hunit : '\n' ∉ layout.unit.toList) (h : Tracks layout requests w)
    (r : Request) : Tracks layout (requests ++ [r]) (w.request layout r) := by
  obtain ⟨laid, hsettled, hreleased⟩ := h.release
  match r with
  | .text s => exact h.text hunit s
  | .mayBreak .space level =>
    have hheld := hsettled.hold .space (by simp [Break.Dropped]) level
    simp only [Wrapper.request, addSpace, hreleased]
    exact hheld
  | .mayBreak .point level =>
    simp only [Wrapper.request, addPoint]
    by_cases hcolumn : w.column = 0
    · rw [if_pos hcolumn]
      exact h.drop hcolumn level
    · rw [if_neg hcolumn, hreleased]
      refine hsettled.hold .point (fun hdropped => hcolumn ?_) level
      rw [← column_release layout w, hreleased]
      exact hdropped.2

/-- **A run keeps the rule.** -/
theorem Tracks.run (hunit : '\n' ∉ layout.unit.toList) (h : Tracks layout requests w)
    (more : List Request) :
    Tracks layout (requests ++ more) (more.foldl (Wrapper.request layout) w) := by
  induction more generalizing requests w with
  | nil => rwa [List.append_nil]
  | cons r more ih =>
    have hrest := ih (h.request hunit r)
    rwa [List.append_assoc] at hrest

/-- **The wrapper breaks lines as if it could look ahead.**  Its text is what is written for
    the requests one after another, and for every request the rule says what that is.  If
    every line end is indented, the rule leaves no other choice. -/
theorem output_follows_rule (layout : Layout) (hunit : '\n' ∉ layout.unit.toList)
    (requests : List Request) :
    ∃ laid : Laid, laid.map Prod.fst = requests ∧ output layout requests = laid.text
      ∧ FollowsRule layout laid
      ∧ ((∀ kind level, .mayBreak kind level ∈ requests → layout.indentation level ≠ "") →
        ∀ other : Laid, other.map Prod.fst = requests → FollowsRule layout other →
          other = laid) := by
  have hempty : Settled layout (fun _ => True) [] [] := ⟨rfl, fun rest _ hrest => hrest⟩
  have hstart : Tracks layout [] {} := .settled hempty
  obtain ⟨laid, hsettled, hreleased⟩ := (hstart.run hunit requests).release
  have hobeys := hsettled.obeys [] rfl trivial
  rw [List.append_nil] at hobeys
  refine ⟨laid, hsettled.requests, ?_, followsRule_iff.mpr hobeys, ?_⟩
  · unfold output finish
    rw [hreleased]
  · intro hindented other hother hrule
    have hsame : laid.map Prod.fst = other.map Prod.fst := by
      rw [hsettled.requests, hother, List.nil_append]
    refine (hobeys.unique hunit (followsRule_iff.mp hrule) hsame ?_).symm
    rwa [hsettled.requests, List.nil_append]

/-- A call whose second argument does not fit. -/
def call : List Request :=
  [.mayBreak .point 1, .text "Call(", .mayBreak .point 2, .text "first,", .mayBreak .space 2,
    .text "second", .text ");\n"]

theorem output_follows_rule_call : output ⟨"  ", 12⟩ call = "Call(first,\n    second);\n"
    ∧ ∃ laid : Laid, laid.map Prod.fst = call ∧ laid.text = "Call(first,\n    second);\n"
      ∧ FollowsRule ⟨"  ", 12⟩ laid := by
  have houtput : output ⟨"  ", 12⟩ call = "Call(first,\n    second);\n" := by decide
  obtain ⟨laid, hrequests, htext, hrule, -⟩ :=
    output_follows_rule ⟨"  ", 12⟩ (by decide) call
  exact ⟨houtput, laid, hrequests, htext ▸ houtput, hrule⟩

end Wrapper

end CSharpGen
