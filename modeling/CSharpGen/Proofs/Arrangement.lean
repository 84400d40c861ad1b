/-
  CSharpGen/Proofs/Arrangement.lean
  =================================
  **Streams that are put together alike.**  Every declaration is written as a
  stream in which indentation is undone only where it was opened, statements
  open and end in turn, and scopes, type variables and comments close again.
  `Arranged` is the grammar of such streams.  It relates two streams at once:
  they are the same up to the order of stretches that stand side by side, and up
  to the order in which a scope lists its nested types.

  The relation has the place before and behind the stream as indices (`Frame`):
  the levels of indentation that are open at least, and whether a statement is.
  What may make a stream fail is a parameter (`Blame`): the types that it refers
  to, and whether a field has a statement for its initial value.

  This module lays out types and code (`Code.Fits.arranged`); members and whole
  declarations follow in `CSharpGen.Proofs.Members`.
-/
import CSharpGen.Proofs.Balance
import CSharpGen.Proofs.Nesting
import Mathlib.Data.List.Forall2

namespace CSharpGen

/-! ### The grammar -/

/-- What a stream needs at a place: levels of indentation that are open, and whether a
    statement is. -/
structure Frame where
  depth : Nat
  inStatement : Bool

/-- What a failure may be blamed on. -/
structure Blame where
  /-- The types that may be referred to. -/
  names : ClassName → Prop
  /-- Whether a field may have a statement for its initial value. -/
  faults : Prop

def Instruction.isPlain : Instruction → Bool
  | .text _ | .wrapSpace | .wrapPoint => true
  | _ => false

/-- Two streams that are put together alike. -/
inductive Arranged (blame : Blame) : Frame → Frame → Stream → Stream → Prop
  | nil {f : Frame} : Arranged blame f f [] []
  | plain {f : Frame} {i : Instruction} (h : i.isPlain = true) : Arranged blame f f [i] [i]
  | reference {f : Frame} {c : ClassName} (h : blame.names c) :
      Arranged blame f f [.reference c] [.reference c]
  | refuse {f : Frame} (h : blame.faults) :
      Arranged blame f f [.refuse .nestedStatement] [.refuse .nestedStatement]
  | indent {d : Nat} {b : Bool} : Arranged blame ⟨d, b⟩ ⟨d + 1, b⟩ [.indent] [.indent]
  | unindent {d : Nat} {b : Bool} : Arranged blame ⟨d + 1, b⟩ ⟨d, b⟩ [.unindent] [.unindent]
  | openStatement {d : Nat} :
      Arranged blame ⟨d, false⟩ ⟨d, true⟩ [.openStatement] [.openStatement]
  | closeStatement {d : Nat} :
      Arranged blame ⟨d, true⟩ ⟨d, false⟩ [.closeStatement] [.closeStatement]
  | doc {f g : Frame} {s t : Stream} (h : Arranged blame f g s t) :
      Arranged blame f g (.openDoc :: (s ++ [.closeDoc])) (.openDoc :: (t ++ [.closeDoc]))
  | comment {f g : Frame} {s t : Stream} (h : Arranged blame f g s t) :
      Arranged blame f g (.openComment :: (s ++ [.closeComment]))
        (.openComment :: (t ++ [.closeComment]))
  | scope {f g : Frame} {s t : Stream} (name : Option String) {nested nested' : List String}
      (hnested : nested.Perm nested') (h : Arranged blame f g s t) :
      Arranged blame f g (withScope name nested s) (withScope name nested' t)
  | typeVars {f g : Frame} {s t : Stream} (vs : List TypeVariable)
      (h : Arranged blame f g s t) :
      Arranged blame f g (withVariables vs s) (withVariables vs t)
  | aside {d : Nat} {b : Bool} {s t : Stream}
      (h : Arranged blame ⟨d, false⟩ ⟨d, false⟩ s t) :
      Arranged blame ⟨d, b⟩ ⟨d, b⟩ (.suspendStatement :: (s ++ [.resumeStatement]))
        (.suspendStatement :: (t ++ [.resumeStatement]))
  /-- What is open beyond need may be forgotten. -/
  | sink {f : Frame} {d : Nat} {b : Bool} {s t : Stream} (k : Nat)
      (h : Arranged blame f ⟨d + k, b⟩ s t) : Arranged blame f ⟨d, b⟩ s t
  | append {f g h : Frame} {s t u v : Stream} (hst : Arranged blame f g s t)
      (huv : Arranged blame g h u v) : Arranged blame f h (s ++ u) (t ++ v)
  | swap {f : Frame} {s t u v : Stream} (hst : Arranged blame f f s t)
      (huv : Arranged blame f f u v) : Arranged blame f f (s ++ u) (v ++ t)
  | trans {f g : Frame} {s t u : Stream} (hst : Arranged blame f g s t)
      (htu : Arranged blame f g t u) : Arranged blame f g s u

namespace Arranged

variable {blame : Blame} {f g : Frame} {s t : Stream}

theorem symm (h : Arranged blame f g s t) : Arranged blame f g t s := by
  induction h with
  | nil => exact .nil
  | plain h => exact .plain h
  | reference h => exact .reference h
  | refuse h => exact .refuse h
  | indent => exact .indent
  | unindent => exact .unindent
  | openStatement => exact .openStatement
  | closeStatement => exact .closeStatement
  | doc _ ih => exact .doc ih
  | comment _ ih => exact .comment ih
  | scope name hnested _ ih => exact .scope name hnested.symm ih
  | typeVars vs _ ih => exact .typeVars vs ih
  | aside _ ih => exact .aside ih
  | sink k _ ih => exact .sink k ih
  | append _ _ ih ih' => exact .append ih ih'
  | swap _ _ ih ih' => exact .swap ih' ih
  | trans _ _ ih ih' => exact .trans ih' ih

theorem right (h : Arranged blame f g s t) : Arranged blame f g t t := h.symm.trans h

theorem cons {i : Instruction} (hi : i.isPlain = true) (h : Arranged blame f g s t) :
    Arranged blame f g (i :: s) (i :: t) :=
  (Arranged.plain hi).append h

theorem concat {i : Instruction} (h : Arranged blame f g s t) (hi : i.isPlain = true) :
    Arranged blame f g (s ++ [i]) (t ++ [i]) :=
  h.append (.plain hi)

theorem braces {d : Nat} {b : Bool} {u v : Stream} (h : Arranged blame ⟨d + 1, b⟩ ⟨d + 1, b⟩ s t)
    (hend : Arranged blame ⟨d, b⟩ g u v) :
    Arranged blame ⟨d, b⟩ g (.indent :: (s ++ .unindent :: u)) (.indent :: (t ++ .unindent :: v)) :=
  Arranged.indent.append (h.append (Arranged.unindent.append hend))

theorem statement {d : Nat} (h : Arranged blame ⟨d, true⟩ ⟨d, true⟩ s t) :
    Arranged blame ⟨d, false⟩ ⟨d, false⟩ (.openStatement :: (s ++ [.closeStatement]))
      (.openStatement :: (t ++ [.closeStatement])) :=
  Arranged.openStatement.append (h.append .closeStatement)

theorem of_plain {s : Stream} (h : ∀ i ∈ s, i.isPlain = true) : Arranged blame f f s s := by
  induction s with
  | nil => exact .nil
  | cons i rest ih =>
    refine .cons (h i (by simp)) (ih ?_)
    intro j hj
    exact h j (List.mem_cons_of_mem _ hj)

/-! ### Stretches side by side -/

theorem forall₂_map {α : Type} {u v : α → Stream} {as : List α}
    (h : ∀ a ∈ as, Arranged blame f f (u a) (v a)) :
    (as.map u).Forall₂ (Arranged blame f f) (as.map v) :=
  List.forall₂_map_left_iff.mpr (List.forall₂_map_right_iff.mpr (List.forall₂_same.mpr h))

theorem flatMap {α : Type} {u v : α → Stream} {as : List α}
    (h : ∀ a ∈ as, Arranged blame f f (u a) (v a)) :
    Arranged blame f f (as.flatMap u) (as.flatMap v) := by
  induction as with
  | nil => exact .nil
  | cons a rest ih =>
    refine (h a (by simp)).append (ih ?_)
    intro b hb
    exact h b (List.mem_cons_of_mem _ hb)

theorem flatMap_perm {α : Type} {u : α → Stream} {as bs : List α} (hperm : as.Perm bs)
    (h : ∀ a ∈ as, Arranged blame f f (u a) (u a)) :
    Arranged blame f f (as.flatMap u) (bs.flatMap u) := by
  induction hperm with
  | nil => exact .nil
  | cons a _ ih =>
    refine (h a (by simp)).append (ih ?_)
    intro b hb
    exact h b (List.mem_cons_of_mem _ hb)
  | swap a b rest =>
    have hrest : Arranged blame f f (rest.flatMap u) (rest.flatMap u) :=
      flatMap fun c hc => h c (by simp [hc])
    have hswap := Arranged.swap (h b (by simp)) (h a (by simp))
    simpa using hswap.append hrest
  | trans hab _ ih ih' => exact (ih h).trans (ih' fun b hb => h b (hab.mem_iff.mpr hb))

theorem commaSeparated {ss ts : List Stream} (h : ss.Forall₂ (Arranged blame f f) ts) :
    Arranged blame f f (commaSeparated ss) (commaSeparated ts) := by
  induction h with
  | nil => exact .nil
  | cons hst hrest ih =>
    cases hrest with
    | nil => exact hst
    | cons _ _ => exact hst.append (.cons rfl (.cons rfl ih))

theorem separated {ss ts : List Stream} (h : ss.Forall₂ (Arranged blame f f) ts) :
    Arranged blame f f (separated ss) (separated ts) := by
  induction h with
  | nil => exact .nil
  | cons hst hrest ih =>
    cases hrest with
    | nil => exact hst
    | cons _ _ => exact hst.append (.cons rfl ih)

theorem separated_perm {ss ts : List Stream} (hperm : ss.Perm ts)
    (h : ∀ s ∈ ss, Arranged blame f f s s) :
    Arranged blame f f (CSharpGen.separated ss) (CSharpGen.separated ts) := by
  have hline : Arranged blame f f [.text "\n"] [.text "\n"] := .plain rfl
  induction hperm with
  | nil => exact .nil
  | @cons s ss ts hst ih =>
    have hrest := ih fun t ht => h t (List.mem_cons_of_mem _ ht)
    cases ss with
    | nil =>
      cases List.nil_perm.mp hst
      exact h s (by simp)
    | cons t rest =>
      cases ts with
      | nil => cases List.perm_nil.mp hst
      | cons u rest' => exact (h s (by simp)).append (.cons rfl hrest)
  | swap s t rest =>
    have hs := h s (by simp)
    have ht := h t (by simp)
    -- The line between the two goes over with the first of them.
    have hswap : Arranged blame f f (t ++ .text "\n" :: s) (s ++ .text "\n" :: t) := by
      have hover := Arranged.swap ht (hline.append hs)
      have hback := (Arranged.swap hline hs).append ht
      simpa using hover.trans hback
    cases rest with
    | nil => exact hswap
    | cons u rest =>
      have hall : ∀ v ∈ u :: rest, Arranged blame f f v v := fun v hv =>
        h v (List.mem_cons_of_mem _ (List.mem_cons_of_mem _ hv))
      have htail := separated (List.forall₂_same.mpr hall)
      have hwhole := hswap.append (hline.append htail)
      simpa [CSharpGen.separated] using hwhole
  | trans hab _ ih ih' => exact (ih h).trans (ih' fun t ht => h t (hab.mem_iff.mpr ht))

end Arranged

/-! ### Types -/

mutual

/-- The types that a type is named by. -/
def TypeRef.classNames : TypeRef → List ClassName
  | .named c => [c]
  | .generic raw args => raw :: TypeRef.classNamesAll args
  | .array t | .nullable t => TypeRef.classNames t
  | .builtIn _ | .typeVariable _ => []

def TypeRef.classNamesAll : List TypeRef → List ClassName
  | [] => []
  | t :: ts => TypeRef.classNames t ++ TypeRef.classNamesAll ts

end

def TypeRef.Named (blame : Blame) (t : TypeRef) : Prop := ∀ c ∈ t.classNames, blame.names c

section Types

variable {blame : Blame} {f : Frame}

mutual

theorem TypeRef.arranged : ∀ t : TypeRef, t.Named blame → Arranged blame f f t.stream t.stream
  | .builtIn _, _ | .typeVariable _, _ => by
    rw [TypeRef.stream]
    exact .plain rfl
  | .named c, h => by
    rw [TypeRef.stream]
    exact .reference (h c (by simp [TypeRef.classNames]))
  | .generic raw args, h => by
    rw [TypeRef.stream]
    have hraw : blame.names raw := h raw (by simp [TypeRef.classNames])
    have hargs := TypeRef.arranged_all args fun c hc => h c (by simp [TypeRef.classNames, hc])
    exact (Arranged.reference hraw).append (.cons rfl (hargs.concat rfl))
  | .array t, h => by
    rw [TypeRef.stream]
    exact (TypeRef.arranged t (by simpa [TypeRef.Named, TypeRef.classNames] using h)).concat rfl
  | .nullable t, h => by
    rw [TypeRef.stream]
    exact (TypeRef.arranged t (by simpa [TypeRef.Named, TypeRef.classNames] using h)).concat rfl

theorem TypeRef.arranged_all : ∀ ts : List TypeRef,
    (∀ c ∈ TypeRef.classNamesAll ts, blame.names c) →
    Arranged blame f f (TypeRef.streamAll ts) (TypeRef.streamAll ts)
  | [], _ => by
    rw [TypeRef.streamAll]
    exact .nil
  | [t], h => by
    rw [TypeRef.streamAll]
    exact TypeRef.arranged t fun c hc => h c (by simp [TypeRef.classNamesAll, hc])
  | t :: u :: rest, h => by
    rw [TypeRef.streamAll]
    have ht := TypeRef.arranged t fun c hc => h c (by simp [TypeRef.classNamesAll, hc])
    have hrest := TypeRef.arranged_all (u :: rest) fun c hc =>
      h c (by rw [TypeRef.classNamesAll]; exact List.mem_append_right _ hc)
    exact ht.append (.cons rfl hrest)

end

theorem TypeRef.arranged_streamAll {ts : List TypeRef} (h : ∀ t ∈ ts, t.Named blame) :
    Arranged blame f f (TypeRef.streamAll ts) (TypeRef.streamAll ts) := by
  refine TypeRef.arranged_all ts ?_
  induction ts with
  | nil => simp [TypeRef.classNamesAll]
  | cons t rest ih =>
    intro c hc
    rcases List.mem_append.mp hc with hc | hc
    · exact h t (by simp) c hc
    · exact ih (fun u hu => h u (List.mem_cons_of_mem _ hu)) c hc

theorem TypeVariable.arranged_streamList (vs : List TypeVariable) :
    Arranged blame f f (TypeVariable.streamList vs) (TypeVariable.streamList vs) := by
  have hnames : ∀ i ∈ TypeVariable.streamNames vs, i.isPlain = true := by
    fun_induction TypeVariable.streamNames vs with
    | case1 => simp
    | case2 v => simp [Instruction.isPlain]
    | case3 v u rest ih => simpa [Instruction.isPlain] using ih
  unfold TypeVariable.streamList
  split
  · exact .nil
  · exact .cons rfl ((Arranged.of_plain hnames).concat rfl)

theorem TypeVariable.arranged_constraints (vs : List TypeVariable)
    (h : ∀ t ∈ vs.flatMap TypeVariable.bounds, t.Named blame) :
    Arranged blame f f (vs.flatMap TypeVariable.constraint)
      (vs.flatMap TypeVariable.constraint) := by
  apply Arranged.flatMap
  intro v hv
  unfold TypeVariable.constraint
  split
  · exact .nil
  · refine .cons rfl (.cons rfl (.cons rfl (TypeRef.arranged_streamAll ?_)))
    intro t ht
    exact h t (List.mem_flatMap.mpr ⟨v, hv, ht⟩)

theorem ModifierSet.arranged_stream (s : ModifierSet) (implied : List Modifier) :
    Arranged blame f f (s.stream implied) (s.stream implied) := by
  apply Arranged.flatMap
  intro m _
  exact .cons rfl (.plain rfl)

end Types

/-! ### Replacing declarations in code -/

section Map

variable {α β : Type} (w : α → β)

theorem Part.mapAll_eq (ps : List (Part α)) : Part.mapAll w ps = ps.map (Part.map w) := by
  induction ps with
  | nil => rfl
  | cons p ps ih => rw [Part.mapAll, ih, List.map_cons]

theorem Code.parts_map (c : Code α) : (c.map w).parts = Part.mapAll w c.parts := by
  obtain ⟨parts, _⟩ := c
  rw [Code.map]

@[simp] theorem Code.isEmpty_map (c : Code α) : (c.map w).isEmpty = c.isEmpty := by
  simp [Code.isEmpty, Code.parts_map, Part.mapAll_eq]

mutual

theorem Part.opensStatement_map : ∀ p : Part α, (p.map w).opensStatement = p.opensStatement
  | .block c => by
    rw [Part.map, Part.opensStatement, Part.opensStatement]
    exact Code.opensStatement_map c
  | .text _ | .name _ | .quoted _ | .type _ | .declaration _ | .indent | .unindent
  | .openStatement | .closeStatement | .wrapSpace | .wrapPoint => by
    simp [Part.map, Part.opensStatement]

@[simp] theorem Code.opensStatement_map : ∀ c : Code α,
    (c.map w).opensStatement = c.opensStatement
  | ⟨parts, _⟩ => by
    rw [Code.map, Code.opensStatement, Code.opensStatement]
    exact Part.anyOpens_map parts

theorem Part.anyOpens_map : ∀ ps : List (Part α),
    Part.anyOpens (Part.mapAll w ps) = Part.anyOpens ps
  | [] => by simp [Part.mapAll, Part.anyOpens]
  | p :: ps => by
    simp only [Part.mapAll, Part.anyOpens, Part.opensStatement_map p, Part.anyOpens_map ps]

end

theorem Part.isMark_map (p : Part α) : (p.map w).isMark = p.isMark := by
  cases p <;> simp [Part.map, Part.isMark]

theorem Code.dropReturn_map (ps : List (Part α)) :
    dropReturn (ps.map (Part.map w)) = (dropReturn ps).map (Part.map w) := by
  cases ps with
  | nil => rfl
  | cons p rest =>
    cases p with
    | text s =>
      simp only [List.map_cons, Part.map, dropReturn, List.map_append]
      unfold textParts
      split <;> simp [Part.map]
    | _ => simp [Part.map, dropReturn]

theorem Code.statementExpression?_map (ps : List (Part α)) :
    statementExpression? (ps.map (Part.map w))
      = (statementExpression? ps).map (Code.map w) := by
  have hmarks : (ps.map (Part.map w)).dropLast.any Part.isMark = ps.dropLast.any Part.isMark := by
    rw [← List.map_dropLast, List.any_map]
    congr 1
    funext p
    exact Part.isMark_map w p
  unfold statementExpression?
  rw [List.getLast?_map, hmarks, ← List.map_dropLast, Code.dropReturn_map]
  cases ps.getLast? with
  | none => rfl
  | some p =>
    cases p with
    | closeStatement =>
      simp only [Option.map, Part.map]
      split
      · rfl
      · simp [Code.map, Part.mapAll_eq]
    | _ => simp [Part.map]

theorem Code.singleExpression?_map : ∀ c : Code α,
    (c.map w).singleExpression? = c.singleExpression?.map (Code.map w)
  | ⟨[], _⟩ => rfl
  | ⟨[.block inner], n⟩ => by
    simp only [Code.map, Part.mapAll, Part.map, singleExpression?]
    split
    · exact Code.singleExpression?_map inner
    · rfl
  | ⟨.block _ :: _ :: _, _⟩ => by simp [Code.map, Part.mapAll, Part.map, singleExpression?]
  | ⟨.openStatement :: rest, n⟩ => by
    simp only [Code.map, Part.mapAll, Part.map, singleExpression?]
    split
    · rw [Part.mapAll_eq]
      exact Code.statementExpression?_map w rest
    · rfl
  | ⟨.text _ :: _, _⟩ | ⟨.name _ :: _, _⟩ | ⟨.quoted _ :: _, _⟩ | ⟨.type _ :: _, _⟩
  | ⟨.declaration _ :: _, _⟩ | ⟨.indent :: _, _⟩ | ⟨.unindent :: _, _⟩
  | ⟨.closeStatement :: _, _⟩ | ⟨.wrapSpace :: _, _⟩ | ⟨.wrapPoint :: _, _⟩ => by
    simp [Code.map, Part.mapAll, Part.map, singleExpression?]

end Map

/-! ### Parts one after another -/

section Parts

variable {δ : Type} (statics : List ClassName)

/-- What is written for a type directly before one of its static members, and the parts
    behind the member. -/
def Part.elided? : Part δ → List (Part δ) → Option (String × List (Part δ))
  | .type (.named c), .text rest :: more =>
    (staticMember? statics c rest).map fun member => (member, more)
  | _, _ => none

theorem Part.streamAll_eq (emit : δ → Stream) (p : Part δ) (ps : List (Part δ)) :
    Part.streamAll statics emit (p :: ps) =
      match Part.elided? statics p ps with
      | some (member, more) => .text member :: Part.streamAll statics emit more
      | none => p.stream statics emit ++ Part.streamAll statics emit ps := by
  rw [Part.streamAll.eq_def]
  split
  · next heq => cases heq
  · next c rest more heq =>
    obtain ⟨rfl, rfl⟩ := List.cons.inj heq
    rw [Part.elided?]
    cases staticMember? statics c rest with
    | some member => rfl
    | none =>
      rw [Option.map, Part.streamAll_text, Part.stream]
      rfl
  · next q qs hno heq =>
    obtain ⟨rfl, rfl⟩ := List.cons.inj heq
    have hnone : Part.elided? statics p ps = none := by
      unfold Part.elided?
      split
      · next c rest more => exact absurd rfl (hno c rest more rfl)
      · rfl
    rw [hnone]

theorem Part.elided?_map {β : Type} (w : δ → β) (p : Part δ) (ps : List (Part δ)) :
    Part.elided? statics (p.map w) (Part.mapAll w ps)
      = (Part.elided? statics p ps).map fun found => (found.1, Part.mapAll w found.2) := by
  cases p with
  | type t =>
    cases t with
    | named c =>
      cases ps with
      | nil => rfl
      | cons q qs =>
        cases q with
        | text rest =>
          simp only [Part.map, Part.mapAll, Part.elided?, Option.map_map]
          rfl
        | _ => simp [Part.map, Part.mapAll, Part.elided?]
    | _ => simp [Part.map, Part.elided?]
  | _ => simp [Part.map, Part.elided?]

theorem Part.elided?_eq_some {p : Part δ} {ps more : List (Part δ)} {member : String}
    (h : Part.elided? statics p ps = some (member, more)) :
    ∃ c rest, p = .type (.named c) ∧ ps = .text rest :: more := by
  unfold Part.elided? at h
  split at h
  · next c rest more' =>
    obtain ⟨_, -, heq⟩ := Option.map_eq_some_iff.mp h
    cases heq
    exact ⟨c, rest, rfl, rfl⟩
  · cases h

mutual

theorem Part.stream_map {β : Type} (w : δ → β) (emit : β → Stream) : ∀ p : Part δ,
    (p.map w).stream statics emit = p.stream statics fun d => emit (w d)
  | .block c => by
    rw [Part.map, Part.stream, Part.stream]
    exact Code.stream_map w emit c
  | .text _ | .name _ | .quoted (some _) | .quoted none | .type _ | .declaration _ | .indent
  | .unindent | .openStatement | .closeStatement | .wrapSpace | .wrapPoint => by
    simp [Part.map, Part.stream]

/-- Replacing the declarations of a block changes what is written for them only. -/
theorem Code.stream_map {β : Type} (w : δ → β) (emit : β → Stream) : ∀ c : Code δ,
    (c.map w).stream statics emit = c.stream statics fun d => emit (w d)
  | ⟨parts, _⟩ => by
    rw [Code.map, Code.stream, Code.stream]
    exact Part.streamAll_map w emit parts

theorem Part.streamAll_map {β : Type} (w : δ → β) (emit : β → Stream) : ∀ ps : List (Part δ),
    Part.streamAll statics emit (Part.mapAll w ps)
      = Part.streamAll statics (fun d => emit (w d)) ps
  | [] => by simp [Part.mapAll, Part.streamAll]
  | p :: ps => by
    have hrest := Part.streamAll_map w emit ps
    simp only [Part.mapAll, Part.streamAll_eq, Part.elided?_map]
    cases helided : Part.elided? statics p ps with
    | none =>
      simp only [Option.map]
      rw [Part.stream_map w emit p, hrest]
    | some found =>
      obtain ⟨member, more⟩ := found
      obtain ⟨c, rest, rfl, rfl⟩ := Part.elided?_eq_some statics helided
      rw [Part.mapAll, Part.map, Part.streamAll_text, Part.streamAll_text] at hrest
      simp only [Option.map, (List.cons.inj hrest).2]

end

mutual

def Part.classNames : Part δ → List ClassName
  | .type t => t.classNames
  | .block c => Code.classNames c
  | _ => []

/-- The types that a block refers to, nested blocks included. -/
def Code.classNames : Code δ → List ClassName
  | ⟨parts, _⟩ => Part.classNamesAll parts

def Part.classNamesAll : List (Part δ) → List ClassName
  | [] => []
  | p :: ps => Part.classNames p ++ Part.classNamesAll ps

end

theorem Code.classNames_eq (c : Code δ) : c.classNames = c.parts.flatMap Part.classNames := by
  have hall : ∀ ps : List (Part δ), Part.classNamesAll ps = ps.flatMap Part.classNames := by
    intro ps
    induction ps with
    | nil => rfl
    | cons p ps ih => rw [Part.classNamesAll, ih, List.flatMap_cons]
  obtain ⟨parts, _⟩ := c
  rw [Code.classNames, hall]

theorem Code.classNames_singleExpression? {c e : Code δ} (h : c.singleExpression? = some e) :
    ∀ n ∈ e.classNames, n ∈ c.classNames := by
  simp only [Code.classNames_eq]
  refine Code.mem_singleExpression? (by simp [Part.classNames]) ?_ h
  intro c
  rw [Part.classNames, Code.classNames_eq]

/-! ### From frame to frame -/

/-- The parts lead from one frame to another, and never undo more than is open. -/
structure Part.Leads (ps : List (Part δ)) (f g : Frame) : Prop where
  statement : Part.track f.inStatement (Part.flatAll ps) = some g.inStatement
  level : 0 ≤ (f.depth : Int) + (Part.profileAll ps).lowest
  depth : (g.depth : Int) = f.depth + (Part.profileAll ps).net

theorem Part.Leads.cons {p : Part δ} {ps : List (Part δ)} {f g : Frame}
    (h : Part.Leads (p :: ps) f g) : ∃ m, Part.Leads [p] f m ∧ Part.Leads ps m g := by
  obtain ⟨hstatement, hlevel, hdepth⟩ := h
  rw [Part.flatAll, Part.track_append] at hstatement
  simp only [Part.profileAll, IndentProfile.andThen] at hlevel hdepth
  obtain ⟨b, hb, hrest⟩ := Option.bind_eq_some_iff.mp hstatement
  have hnet := (Part.follows_profile p).lowest_le_net
  refine ⟨⟨((f.depth : Int) + p.profile.net).toNat, b⟩, ⟨?_, ?_, ?_⟩, ⟨hrest, ?_, ?_⟩⟩
  · rw [Part.flatAll_singleton]
    exact hb
  · rw [Part.profileAll_singleton]
    omega
  · rw [Part.profileAll_singleton]
    show ((((f.depth : Int) + p.profile.net).toNat : Nat) : Int) = _
    omega
  · show 0 ≤ ((((f.depth : Int) + p.profile.net).toNat : Nat) : Int) + _
    omega
  · show _ = ((((f.depth : Int) + p.profile.net).toNat : Nat) : Int) + _
    omega

theorem Part.Leads.nil {f g : Frame} (h : Part.Leads ([] : List (Part δ)) f g) : g = f := by
  obtain ⟨hstatement, -, hdepth⟩ := h
  obtain ⟨d, b⟩ := f
  obtain ⟨d', b'⟩ := g
  cases hstatement
  have : d' = d := by
    simp only [Part.profileAll, IndentProfile.flat] at hdepth
    omega
  rw [this]

theorem Part.Leads.plain {p : Part δ} {f g : Frame} (h : Part.Leads [p] f g)
    (hmark : p.isMark = false) (hblock : ∀ c, p ≠ .block c) : g = f := by
  have hflat : Part.flatAll [p] = [p] ∧ Part.profileAll [p] = .flat
      ∧ p.isStatementMark = false := by
    rw [Part.flatAll_singleton, Part.profileAll_singleton]
    cases p with
    | block c => exact absurd rfl (hblock c)
    | openStatement | closeStatement | indent | unindent => cases hmark
    | _ => simp [Part.flat, Part.profile, Part.isStatementMark]
  obtain ⟨hstatement, hlevel, hdepth⟩ := h
  rw [hflat.1, Part.track_cons_of_not_mark hflat.2.2] at hstatement
  rw [hflat.2.1] at hlevel hdepth
  exact Part.Leads.nil (δ := δ) ⟨hstatement, hlevel, hdepth⟩

/-- A sound block leads wherever it may stand to the same place, if levels that it leaves
    open are not counted. -/
theorem Code.Sound.leads {c : Code δ} {tight : Prop} (h : c.Sound tight) {b : Bool}
    (hb : (b && c.opensStatement) = false) (d : Nat) :
    Part.Leads c.parts ⟨d, b⟩ ⟨d + c.profile.net.toNat, b⟩ := by
  obtain ⟨-, hlow, -⟩ := h.flat
  have hnet := c.follows_profile.lowest_le_net
  refine ⟨?_, ?_, ?_⟩
  · rw [← c.flat_eq]
    exact h.track_flat hb
  · rw [← c.profile_eq]
    show 0 ≤ (d : Int) + _
    omega
  · rw [← c.profile_eq]
    show ((d + c.profile.net.toNat : Nat) : Int) = (d : Int) + _
    omega

end Parts

/-! ### Code -/

/-- Wherever they stand, two declarations are written alike. -/
structure Emission.Alike (blame : Blame) (e e' : Emission) : Prop where
  name : e.name = e'.name
  constant : ∀ (name : String) (f : Frame),
    Arranged blame f f (e.constant name) (e'.constant name)
  member : ∀ (implied : List Modifier) (f : Frame),
    Arranged blame f f (e.member implied) (e'.member implied)

theorem Emission.Alike.right {blame : Blame} {e e' : Emission} (h : e.Alike blame e') :
    e'.Alike blame e' :=
  ⟨rfl, fun name f => (h.constant name f).right, fun implied f => (h.member implied f).right⟩

/-- The block is sound, it refers only to types that may be blamed, and the declarations
    in it are written alike under both readings. -/
structure Code.Fits {ι : Type} (blame : Blame) (w w' : ι → Emission) (c : Code ι) : Prop where
  sound : c.Sound False
  names : ∀ n ∈ c.classNames, blame.names n
  inner : ∀ i ∈ c.declarations, (w i).Alike blame (w' i)

section Code

variable {ι : Type} {blame : Blame} {w w' : ι → Emission}

theorem Code.Fits.singleExpression {c e : Code ι} (h : c.Fits blame w w')
    (he : c.singleExpression? = some e) : e.Fits blame w w' where
  sound := h.sound.singleExpression he
  names := fun n hn => h.names n (Code.classNames_singleExpression? he n hn)
  inner := fun i hi => h.inner i (Code.declarations_singleExpression? he i hi)

variable (statics : List ClassName)

mutual

theorem Part.arranged : ∀ p : Part ι, (∀ n ∈ p.classNames, blame.names n) →
    (∀ i ∈ p.declarations, (w i).Alike blame (w' i)) → ∀ {f g : Frame}, Part.Leads [p] f g →
    Arranged blame f g ((p.map w).stream statics Emission.embedded)
      ((p.map w').stream statics Emission.embedded)
  | .text _, _, _, _, _, h | .name _, _, _, _, _, h | .quoted (some _), _, _, _, _, h
  | .quoted none, _, _, _, _, h | .wrapSpace, _, _, _, _, h | .wrapPoint, _, _, _, _, h => by
    cases h.plain rfl (by simp)
    simp only [Part.map, Part.stream]
    exact .plain rfl
  | .type t, hnames, _, _, _, h => by
    cases h.plain rfl (by simp)
    simp only [Part.map, Part.stream]
    exact t.arranged (by simpa [TypeRef.Named, Part.classNames] using hnames)
  | .declaration i, _, hinner, f, _, h => by
    cases h.plain rfl (by simp)
    simp only [Part.map, Part.stream]
    exact (hinner i (by simp [Part.declarations])).member [] f
  | .block c, hnames, hinner, f, g, h => by
    simp only [Part.map, Part.stream]
    refine Code.arranged c (by simpa [Part.classNames] using hnames)
      (by simpa [Part.declarations] using hinner) ?_
    obtain ⟨hstatement, hlevel, hdepth⟩ := h
    rw [Part.flatAll_singleton, Part.flat, c.flat_eq] at hstatement
    rw [Part.profileAll_singleton, Part.profile, c.profile_eq] at hlevel hdepth
    exact ⟨hstatement, hlevel, hdepth⟩
  | .indent, _, _, ⟨d, b⟩, ⟨d', b'⟩, h => by
    obtain ⟨hstatement, -, hdepth⟩ := h
    simp only [Part.map, Part.stream]
    cases hstatement
    have hd : d' = d + 1 := by
      simp only [Part.profileAll_singleton, Part.profile] at hdepth
      omega
    rw [hd]
    exact .indent
  | .unindent, _, _, ⟨d, b⟩, ⟨d', b'⟩, h => by
    obtain ⟨hstatement, hlevel, hdepth⟩ := h
    simp only [Part.map, Part.stream]
    cases hstatement
    have hd : d = d' + 1 := by
      simp only [Part.profileAll_singleton, Part.profile] at hlevel hdepth
      omega
    rw [hd]
    exact .unindent
  | .openStatement, _, _, ⟨d, b⟩, ⟨d', b'⟩, h => by
    obtain ⟨hstatement, -, hdepth⟩ := h
    simp only [Part.map, Part.stream]
    have hd : d' = d := by
      simp only [Part.profileAll_singleton, Part.profile, IndentProfile.flat] at hdepth
      omega
    cases b with
    | true => cases hstatement
    | false =>
      cases hstatement
      rw [hd]
      exact .openStatement
  | .closeStatement, _, _, ⟨d, b⟩, ⟨d', b'⟩, h => by
    obtain ⟨hstatement, -, hdepth⟩ := h
    simp only [Part.map, Part.stream]
    have hd : d' = d := by
      simp only [Part.profileAll_singleton, Part.profile, IndentProfile.flat] at hdepth
      omega
    cases b with
    | false => cases hstatement
    | true =>
      cases hstatement
      rw [hd]
      exact .closeStatement

theorem Code.arranged : ∀ c : Code ι, (∀ n ∈ c.classNames, blame.names n) →
    (∀ i ∈ c.declarations, (w i).Alike blame (w' i)) → ∀ {f g : Frame}, Part.Leads c.parts f g →
    Arranged blame f g ((c.map w).stream statics Emission.embedded)
      ((c.map w').stream statics Emission.embedded)
  | ⟨parts, _⟩, hnames, hinner, f, g, h => by
    simp only [Code.map, Code.stream]
    exact (Part.arranged_all parts (by simpa [Code.classNames] using hnames)
      (by simpa [Code.declarations] using hinner)).1 h

-- A type that is left out takes the text behind it along, so that the parts behind the
-- text are needed too.
theorem Part.arranged_all : ∀ ps : List (Part ι), (∀ n ∈ Part.classNamesAll ps, blame.names n) →
    (∀ i ∈ Part.declarationsAll ps, (w i).Alike blame (w' i)) →
    (∀ {f g : Frame}, Part.Leads ps f g →
      Arranged blame f g (Part.streamAll statics Emission.embedded (Part.mapAll w ps))
        (Part.streamAll statics Emission.embedded (Part.mapAll w' ps)))
    ∧ ∀ {f g : Frame}, Part.Leads ps.tail f g →
      Arranged blame f g (Part.streamAll statics Emission.embedded (Part.mapAll w ps.tail))
        (Part.streamAll statics Emission.embedded (Part.mapAll w' ps.tail))
  | [], _, _ => by
    have hnil : ∀ {f g : Frame}, Part.Leads ([] : List (Part ι)) f g →
        Arranged blame f g (Part.streamAll statics Emission.embedded (Part.mapAll w []))
          (Part.streamAll statics Emission.embedded (Part.mapAll w' [])) := by
      intro f g h
      cases h.nil
      simp only [Part.mapAll, Part.streamAll]
      exact .nil
    exact ⟨hnil, hnil⟩
  | p :: ps, hnames, hinner => by
    have hrest := Part.arranged_all ps
      (fun n hn => hnames n (by rw [Part.classNamesAll]; exact List.mem_append_right _ hn))
      (fun i hi => hinner i (by rw [Part.declarationsAll]; exact List.mem_append_right _ hi))
    refine ⟨?_, hrest.1⟩
    intro f g h
    obtain ⟨m, hfirst, hlast⟩ := h.cons
    simp only [Part.mapAll, Part.streamAll_eq, Part.elided?_map]
    cases helided : Part.elided? statics p ps with
    | none =>
      have hp := Part.arranged p
        (fun n hn => hnames n (by rw [Part.classNamesAll]; exact List.mem_append_left _ hn))
        (fun i hi => hinner i (by rw [Part.declarationsAll]; exact List.mem_append_left _ hi))
        hfirst
      exact hp.append (hrest.1 hlast)
    | some found =>
      obtain ⟨member, more⟩ := found
      obtain ⟨c, rest, rfl, rfl⟩ := Part.elided?_eq_some statics helided
      cases hfirst.plain rfl (by simp)
      obtain ⟨m, htext, hmore⟩ := hlast.cons
      cases htext.plain rfl (by simp)
      exact .cons rfl (hrest.2 hmore)

end

/-- **A block that fits is written alike under both readings**, at every place where it may
    stand. -/
theorem Code.Fits.arranged {c : Code ι} (h : c.Fits blame w w') {f : Frame}
    (hf : (f.inStatement && c.opensStatement) = false) :
    Arranged blame f f ((c.map w).stream statics Emission.embedded)
      ((c.map w').stream statics Emission.embedded) := by
  obtain ⟨d, b⟩ := f
  exact .sink _ (Code.arranged statics c h.names h.inner (h.sound.leads hf d))

end Code

end CSharpGen
