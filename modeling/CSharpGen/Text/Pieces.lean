/-
  CSharpGen/Text/Pieces.lean
  ==========================
  **Cutting texts at a separator** — the three cuts the generator needs: at
  every separator (lines, dotted namespaces, nested type names), at the last
  one only (a namespace and the simple name after it), and the way back,
  joining pieces with a separator between them.

  All cuts work on `List Char` by recursion on the characters; the functions on
  `String` only wrap them.  A text has one more piece than it has separators,
  so there is always a first piece: it is returned apart from the others, and
  no caller has to deal with an empty list of pieces.
-/

namespace CSharpGen.Text

/-! ### Cutting at every separator -/

/-- The piece before the first `sep`, and the pieces after each `sep`. -/
def cutAll (sep : Char) : List Char → List Char × List (List Char)
  | [] => ([], [])
  | c :: cs =>
    let pieces := cutAll sep cs
    if c = sep then ([], pieces.1 :: pieces.2) else (c :: pieces.1, pieces.2)

/-- The pieces of a text joined again are the text. -/
theorem join_cutAll (sep : Char) (cs : List Char) :
    (cutAll sep cs).1 ++ (cutAll sep cs).2.flatMap (sep :: ·) = cs := by
  induction cs with
  | nil => rfl
  | cons c cs ih => by_cases h : c = sep <;> simp [cutAll, h, ih]

/-- No piece of a text contains the separator. -/
theorem not_mem_of_mem_cutAll (sep : Char) (cs : List Char) :
    sep ∉ (cutAll sep cs).1 ∧ ∀ piece ∈ (cutAll sep cs).2, sep ∉ piece := by
  induction cs with
  | nil => simp [cutAll]
  | cons c cs ih =>
    by_cases h : c = sep
    · simp [cutAll, h]
      exact ih
    · simp only [cutAll, h, if_false]
      exact ⟨by simp [ih.1, Ne.symm h], ih.2⟩

/-- A text cut at every `sep`: the first piece and the others. -/
def split (sep : Char) (s : String) : String × List String :=
  let pieces := cutAll sep s.toList
  (String.ofList pieces.1, pieces.2.map String.ofList)

/-- All pieces of a text cut at every `sep`. -/
def pieces (sep : Char) (s : String) : List String :=
  (split sep s).1 :: (split sep s).2

/-! ### Cutting at the last separator -/

/-- The characters before and after the last `sep`, if there is one. -/
def cutLast (sep : Char) : List Char → Option (List Char × List Char)
  | [] => none
  | c :: cs =>
    match cutLast sep cs with
    | some (before, after) => some (c :: before, after)
    | none => if c = sep then some ([], cs) else none

/-- The texts before and after the last `sep`, if there is one. -/
def splitLast (sep : Char) (s : String) : Option (String × String) :=
  (cutLast sep s.toList).map fun cut => (String.ofList cut.1, String.ofList cut.2)

/-! ### Joining -/

/-- The texts in order with `sep` between each two of them. -/
def join (sep : String) : List String → String
  | [] => ""
  | [s] => s
  | s :: t :: rest => s ++ sep ++ join sep (t :: rest)

/-! ### Leading text -/

/-- What follows `lead` in the character list, if the list starts with it. -/
def afterChars : List Char → List Char → Option (List Char)
  | [], cs => some cs
  | _ :: _, [] => none
  | l :: lead, c :: cs => if l = c then afterChars lead cs else none

/-- What follows `lead` in `s`, if `s` starts with it. -/
def after (lead s : String) : Option String :=
  (afterChars lead.toList s.toList).map String.ofList

end CSharpGen.Text
