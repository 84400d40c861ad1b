/-
  CSharpGen/Proofs/Paths.lean
  ===========================
  **The path of a type** — the segments of its namespace followed by the simple
  names of its nesting chain.  Every dotted name the writer can produce is a
  list of identifiers joined by dots, and an identifier holds neither a dot nor
  a colon nor a line end.  Two consequences carry the theory of names:

    * dotted names are equal exactly when the lists behind them are
      (`Identifier.join_injective`), and the canonical name of a type is its
      path joined by dots (`ClassName.canonical_eq_join`);
    * a name with the `global::` alias is no dotted name
      (`ClassName.global_ne_join`).

  The boundary between namespace and chain is not part of the path: a type
  nested in `Outer` and a type of the namespace `Outer` may share one.
-/
import CSharpGen.Error

namespace CSharpGen

/-! ### Joining and cutting texts -/

namespace Text

theorem cutAll_of_not_mem {sep : Char} {cs : List Char} (h : sep ∉ cs) :
    cutAll sep cs = (cs, []) := by
  induction cs with
  | nil => rfl
  | cons c cs ih =>
    obtain ⟨hc, hcs⟩ := not_or.mp (mt List.mem_cons.mpr h)
    simp [cutAll, Ne.symm hc, ih hcs]

theorem takeWhile_of_not_mem {sep : Char} {cs : List Char} (h : sep ∉ cs) :
    cs.takeWhile (· ≠ sep) = cs := by
  induction cs with
  | nil => rfl
  | cons c cs ih =>
    obtain ⟨hc, hcs⟩ := not_or.mp (mt List.mem_cons.mpr h)
    simpa [Ne.symm hc] using ih hcs

theorem cutAll_append_sep {sep : Char} {cs : List Char} (h : sep ∉ cs) (rest : List Char) :
    cutAll sep (cs ++ sep :: rest)
      = (cs, (cutAll sep rest).1 :: (cutAll sep rest).2) := by
  induction cs with
  | nil => simp [cutAll]
  | cons c cs ih =>
    obtain ⟨hc, hcs⟩ := not_or.mp (mt List.mem_cons.mpr h)
    simp [cutAll, Ne.symm hc, ih hcs]

/-- Pieces without the separator are what a cut finds in the text they are joined to. -/
theorem cutAll_flatMap {sep : Char} {first : List Char} {rest : List (List Char)}
    (hfirst : sep ∉ first) (hrest : ∀ piece ∈ rest, sep ∉ piece) :
    cutAll sep (first ++ rest.flatMap (sep :: ·)) = (first, rest) := by
  induction rest generalizing first with
  | nil => simp [cutAll_of_not_mem hfirst]
  | cons piece rest ih =>
    have htail := ih (hrest piece (by simp)) fun q hq => hrest q (List.mem_cons_of_mem _ hq)
    rw [List.flatMap_cons, List.cons_append, cutAll_append_sep hfirst, htail]

/-- A text is cut at its last separator, if it has one. -/
theorem cutLast_spec (sep : Char) (cs : List Char) :
    (cutLast sep cs = none ∧ sep ∉ cs)
      ∨ ∃ before after, cutLast sep cs = some (before, after) ∧ cs = before ++ sep :: after
        ∧ sep ∉ after := by
  induction cs with
  | nil => exact .inl ⟨rfl, by simp⟩
  | cons c cs ih =>
    rcases ih with ⟨hcut, hnot⟩ | ⟨before, after, hcut, rfl, hnot⟩
    · by_cases hc : c = sep
      · exact .inr ⟨[], cs, by simp [cutLast, hcut, hc], by simp [hc], hnot⟩
      · exact .inl ⟨by simp [cutLast, hcut, hc], by simp [hnot, Ne.symm hc]⟩
    · exact .inr ⟨c :: before, after, by simp [cutLast, hcut], by simp, hnot⟩

theorem cutLast_of_not_mem {sep : Char} {cs : List Char} (h : sep ∉ cs) :
    cutLast sep cs = none := by
  rcases cutLast_spec sep cs with ⟨hcut, -⟩ | ⟨before, after, -, rfl, -⟩
  · exact hcut
  · simp at h

theorem cutLast_append_sep {sep : Char} {after : List Char} (h : sep ∉ after)
    (before : List Char) : cutLast sep (before ++ sep :: after) = some (before, after) := by
  induction before with
  | nil => simp [cutLast, cutLast_of_not_mem h]
  | cons c before ih => simp [cutLast, ih]

theorem pieces_eq_map (sep : Char) (s : String) :
    pieces sep s = ((cutAll sep s.toList).1 :: (cutAll sep s.toList).2).map String.ofList := rfl

@[simp] theorem join_cons_cons (sep s t : String) (rest : List String) :
    join sep (s :: t :: rest) = s ++ sep ++ join sep (t :: rest) := rfl

/-- The characters of texts joined by dots. -/
theorem toList_join_cons (s : String) (rest : List String) :
    (join "." (s :: rest)).toList
      = s.toList ++ (rest.map String.toList).flatMap ('.' :: ·) := by
  induction rest generalizing s with
  | nil => simp [join]
  | cons t rest ih =>
    rw [join_cons_cons, String.toList_append, String.toList_append, ih]
    simp

theorem pieces_join (s : String) (rest : List String)
    (h : ∀ t ∈ s :: rest, '.' ∉ t.toList) :
    pieces '.' (join "." (s :: rest)) = s :: rest := by
  have hrest : ∀ piece ∈ rest.map String.toList, '.' ∉ piece := by
    intro piece hpiece
    obtain ⟨t, ht, rfl⟩ := List.mem_map.mp hpiece
    exact h t (List.mem_cons_of_mem _ ht)
  rw [pieces_eq_map, toList_join_cons, cutAll_flatMap (h s (by simp)) hrest]
  simp

theorem join_injective {xs ys : List String} (hx : xs ≠ []) (hy : ys ≠ [])
    (hxs : ∀ s ∈ xs, '.' ∉ s.toList) (hys : ∀ s ∈ ys, '.' ∉ s.toList)
    (h : join "." xs = join "." ys) : xs = ys := by
  obtain ⟨x, xs, rfl⟩ := List.exists_cons_of_ne_nil hx
  obtain ⟨y, ys, rfl⟩ := List.exists_cons_of_ne_nil hy
  calc x :: xs = pieces '.' (join "." (x :: xs)) := (pieces_join x xs hxs).symm
    _ = pieces '.' (join "." (y :: ys)) := by rw [h]
    _ = y :: ys := pieces_join y ys hys

theorem mem_toList_join {c : Char} {xs : List String} (h : c ∈ (join "." xs).toList) :
    c = '.' ∨ ∃ s ∈ xs, c ∈ s.toList := by
  cases xs with
  | nil => simp [join] at h
  | cons s rest =>
    rw [toList_join_cons] at h
    rcases List.mem_append.mp h with h | h
    · exact Or.inr ⟨s, by simp, h⟩
    · obtain ⟨piece, hpiece, hc⟩ := List.mem_flatMap.mp h
      obtain ⟨t, ht, rfl⟩ := List.mem_map.mp hpiece
      rcases List.mem_cons.mp hc with hdot | hc
      · exact Or.inl hdot
      · exact Or.inr ⟨t, List.mem_cons_of_mem _ ht, hc⟩

theorem join_append (xs : List String) (t : String) (ys : List String) (hx : xs ≠ []) :
    join "." (xs ++ t :: ys) = join "." xs ++ "." ++ join "." (t :: ys) := by
  induction xs with
  | nil => exact absurd rfl hx
  | cons s rest ih =>
    cases rest with
    | nil => rfl
    | cons u rest =>
      have hrest := ih (by simp)
      simp only [List.cons_append, join_cons_cons] at hrest ⊢
      rw [hrest]
      simp only [String.append_assoc]

theorem join_pieces (s : String) : join "." (pieces '.' s) = s := by
  rw [← String.toList_inj, pieces_eq_map, List.map_cons, toList_join_cons]
  simpa [List.map_map, Function.comp_def] using join_cutAll '.' s.toList

end Text

/-! ### The characters of an identifier -/

namespace Identifier

/-- The characters that an identifier cannot contain. -/
def isForeign (c : Char) : Bool := !continuesWord c && c != '@'

theorem continuesWord_of_startsWord {c : Char} (h : startsWord c = true) :
    continuesWord c = true := by
  rcases Bool.or_eq_true_iff.mp h with ha | hu
  · simp [continuesWord, ha]
  · simp [continuesWord, hu]

theorem continuesWord_of_isWord {cs : List Char} (h : isWord cs = true) :
    ∀ c ∈ cs, continuesWord c = true := by
  cases cs with
  | nil => simp
  | cons first rest =>
    simp only [isWord, Bool.and_eq_true, List.all_eq_true] at h
    intro c hc
    rcases List.mem_cons.mp hc with rfl | hc
    · exact continuesWord_of_startsWord h.1
    · exact h.2 c hc

theorem isWord_of_isValid {s : String} (h : isValid s = true) :
    isWord s.toList = true ∨ ∃ body, s.toList = '@' :: body ∧ isWord body = true := by
  unfold isValid at h
  split at h
  · next body heq => exact Or.inr ⟨body, heq, h⟩
  · exact Or.inl (Bool.and_eq_true_iff.mp h).1

theorem not_mem_of_isForeign {s : String} {c : Char} (hs : isValid s = true)
    (hc : isForeign c = true) : c ∉ s.toList := by
  intro hmem
  simp only [isForeign, Bool.and_eq_true, Bool.not_eq_true', bne_iff_ne] at hc
  have hword : continuesWord c = true := by
    rcases isWord_of_isValid hs with hword | ⟨body, heq, hword⟩
    · exact continuesWord_of_isWord hword c hmem
    · rw [heq] at hmem
      rcases List.mem_cons.mp hmem with hat | hbody
      · exact absurd hat hc.2
      · exact continuesWord_of_isWord hword c hbody
  rw [hc.1] at hword
  cases hword

theorem isForeign_dot : isForeign '.' = true := by decide

theorem isForeign_colon : isForeign ':' = true := by decide

theorem isForeign_newline : isForeign '\n' = true := by decide

/-- **Dotted names of identifiers are equal only if their parts are.** -/
theorem join_injective {xs ys : List String} (hx : xs ≠ []) (hy : ys ≠ [])
    (hxs : ∀ s ∈ xs, isValid s = true) (hys : ∀ s ∈ ys, isValid s = true)
    (h : Text.join "." xs = Text.join "." ys) : xs = ys := by
  refine Text.join_injective hx hy ?_ ?_ h
  · intro s hs
    exact not_mem_of_isForeign (hxs s hs) isForeign_dot
  · intro s hs
    exact not_mem_of_isForeign (hys s hs) isForeign_dot

theorem ne_empty_of_isValid {s : String} (h : isValid s = true) : s ≠ "" := by
  rintro rfl
  revert h
  decide

end Identifier

/-! ### Paths -/

namespace ClassName

/-- The segments of the namespace, and none for the global one. -/
def spacePath (c : ClassName) : List String :=
  if c.space.isEmpty then [] else Text.pieces '.' c.space

/-- The segments of the namespace and the simple names, down to the type meant. -/
def path (c : ClassName) : List String := c.spacePath ++ c.simpleNames

/-- Whether every segment of the reference is a legal identifier. -/
def Valid (c : ClassName) : Prop := c.check = .ok ()

instance (c : ClassName) : Decidable c.Valid :=
  match h : c.check with
  | .ok () => isTrue h
  | .error e => isFalse (by simp [Valid, h])

theorem validate_eq_ok_iff (c : ClassName) : c.validate = .ok () ↔ c.Valid := by
  unfold validate Valid
  cases c.check with
  | ok u => simp
  | error fault => simp

theorem checkNames_eq_ok_iff (names : List String) :
    checkNames names = .ok () ↔ ∀ name ∈ names, Identifier.isValid name = true := by
  induction names with
  | nil => simp [checkNames]
  | cons name rest ih =>
    by_cases hempty : name.isEmpty = true
    · have hbad : ¬ Identifier.isValid name = true := fun hv =>
        Identifier.ne_empty_of_isValid hv (String.isEmpty_iff.mp hempty)
      simp [checkNames, hempty, hbad]
    · by_cases hv : Identifier.isValid name = true
      · simp [checkNames, hempty, hv, ih]
      · simp [checkNames, hempty, hv]

theorem Valid.isValid_of_mem_path {c : ClassName} (h : c.Valid) :
    ∀ name ∈ c.path, Identifier.isValid name = true := by
  unfold Valid check at h
  split at h
  · next hspace =>
    intro name hname
    rcases List.mem_append.mp hname with hname | hname
    · by_cases hempty : c.space.isEmpty = true
      · simp [spacePath, hempty] at hname
      · simp only [spacePath, hempty] at hname
        have hvalid : Identifier.isValidNamespace c.space = true := by
          simpa [hempty] using hspace
        exact List.all_eq_true.mp hvalid name hname
    · exact (checkNames_eq_ok_iff c.simpleNames).mp h name hname
  · cases h

theorem Valid.isValid_of_mem_simpleNames {c : ClassName} (h : c.Valid) :
    ∀ name ∈ c.simpleNames, Identifier.isValid name = true := fun name hname =>
  h.isValid_of_mem_path name (List.mem_append_right _ hname)

theorem Valid.isValid_of_mem_drop {c : ClassName} (h : c.Valid) (depth : Nat) :
    ∀ name ∈ c.simpleNames.drop depth, Identifier.isValid name = true := fun name hname =>
  h.isValid_of_mem_simpleNames name (List.mem_of_mem_drop hname)

theorem path_ne_nil (c : ClassName) : c.path ≠ [] := by simp [path, simpleNames]

theorem qualifiedTop_eq_join (c : ClassName) :
    c.qualifiedTop = Text.join "." (c.spacePath ++ [c.top]) := by
  by_cases h : c.space.isEmpty = true
  · simp [qualifiedTop, spacePath, h, Text.join]
  · rw [qualifiedTop, spacePath, if_neg h, if_neg h,
      Text.join_append _ _ _ (by simp [Text.pieces]), Text.join_pieces]
    rfl

/-- **The canonical name is the path joined by dots.** -/
theorem canonical_eq_join (c : ClassName) : c.canonical = Text.join "." c.path := by
  -- The names nested below are appended one by one to the part joined so far.
  have key : ∀ (names done : List String), done ≠ [] →
      names.foldl (fun name step => name ++ "." ++ step) (Text.join "." done)
        = Text.join "." (done ++ names) := by
    intro names
    induction names with
    | nil => intro done _; simp
    | cons name rest ih =>
      intro done hdone
      have hone := Text.join_append done name [] hdone
      simp only [List.foldl_cons]
      rw [show Text.join "." done ++ "." ++ name = Text.join "." (done ++ [name]) from hone.symm,
        ih (done ++ [name]) (by simp)]
      simp
  unfold canonical
  rw [qualifiedTop_eq_join, key _ _ (by simp)]
  simp [path, simpleNames]

/-- The `global::` alias is followed by a colon, which no dotted name of identifiers
    contains. -/
theorem global_ne_join (name : String) {xs : List String}
    (hx : ∀ s ∈ xs, Identifier.isValid s = true) : "global::" ++ name ≠ Text.join "." xs := by
  intro h
  have hmem : ':' ∈ (Text.join "." xs).toList := by
    rw [← h, String.toList_append]
    exact List.mem_append_left _ (by decide)
  rcases Text.mem_toList_join hmem with hdot | ⟨s, hs, hc⟩
  · cases hdot
  · exact Identifier.not_mem_of_isForeign (hx s hs) Identifier.isForeign_colon hc

/-! ### Top-level types -/

@[simp] theorem outermost_top (c : ClassName) : c.outermost.top = c.top := rfl

@[simp] theorem outermost_space (c : ClassName) : c.outermost.space = c.space := rfl

theorem same_topLevel_iff (s t top : String) :
    (topLevel s top).same (topLevel t top) = true ↔ s = t := by
  have hlength : ∀ u : String, u ≠ "" → u ++ "." ++ top ≠ top := by
    intro u hu h
    have hl := congrArg (fun x : String => x.toList.length) h
    have hpos : u.toList ≠ [] := by simpa using hu
    have : 0 < u.toList.length := List.length_pos_iff.mpr hpos
    simp only [String.toList_append, List.length_append] at hl
    omega
  constructor
  · intro h
    have h : (topLevel s top).canonical = (topLevel t top).canonical := by simpa [same] using h
    simp only [canonical, topLevel, List.foldl_nil, qualifiedTop, String.isEmpty_iff] at h
    by_cases hs : s = ""
    · by_cases ht : t = ""
      · rw [hs, ht]
      · rw [if_pos hs, if_neg ht] at h
        exact absurd h.symm (hlength t ht)
    · by_cases ht : t = ""
      · rw [if_neg hs, if_pos ht] at h
        exact absurd h (hlength s hs)
      · rw [if_neg hs, if_neg ht] at h
        have h := congrArg String.toList h
        simp only [String.toList_append, List.append_cancel_right_eq] at h
        exact String.toList_inj.mp h
  · rintro rfl
    simp [same]

end ClassName

end CSharpGen
