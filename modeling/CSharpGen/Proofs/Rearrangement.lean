/-
  CSharpGen/Proofs/Rearrangement.lean
  ===================================
  **Declarations with their members in another order.**  A rearrangement may
  shuffle every layer of a declaration by itself, also those of declarations
  inside code.  It is described by one layer whose inner declarations are pairs,
  each of them a declaration and what it becomes (`TypeDecl.Rearranged`); the
  two sides are the layer with the first and with the second of every pair.

  A file and a rearranged one are put together alike
  (`SourceFile.Rearranged.arranged`), and if one of them can be written, so can
  the other (`Arranged.run_of_run`).
-/
import CSharpGen.Proofs.Failures

namespace CSharpGen

/-! ### Replacing declarations twice -/

section MapMap

variable {α β γ : Type} (f : α → β) (g : β → γ)

mutual

theorem Part.map_map : ∀ p : Part α, (p.map f).map g = p.map (g ∘ f)
  | .block c => by
    rw [Part.map, Part.map, Part.map, Code.map_map c]
  | .text _ | .name _ | .quoted _ | .type _ | .declaration _ | .indent | .unindent
  | .openStatement | .closeStatement | .wrapSpace | .wrapPoint => by simp [Part.map]

theorem Code.map_map : ∀ c : Code α, (c.map f).map g = c.map (g ∘ f)
  | ⟨parts, _⟩ => by
    rw [Code.map, Code.map, Code.map, Part.mapAll_mapAll parts]

theorem Part.mapAll_mapAll : ∀ ps : List (Part α),
    Part.mapAll g (Part.mapAll f ps) = Part.mapAll (g ∘ f) ps
  | [] => by simp [Part.mapAll]
  | p :: ps => by
    simp only [Part.mapAll, Part.map_map p, Part.mapAll_mapAll ps]

end

theorem Attribute.map_map (a : Attribute α) : (a.map f).map g = a.map (g ∘ f) := by
  simp [Attribute.map, Function.comp_def, Code.map_map]

theorem Parameter.map_map (p : Parameter α) : (p.map f).map g = p.map (g ∘ f) := by
  simp [Parameter.map, Function.comp_def, Code.map_map, Attribute.map_map]

theorem Field.map_map (x : Field α) : (x.map f).map g = x.map (g ∘ f) := by
  simp [Field.map, Function.comp_def, Code.map_map, Attribute.map_map]

theorem Method.map_map (m : Method α) : (m.map f).map g = m.map (g ∘ f) := by
  simp [Method.map, Function.comp_def, Code.map_map, Attribute.map_map, Parameter.map_map]

theorem Property.map_map (p : Property α) : (p.map f).map g = p.map (g ∘ f) := by
  simp [Property.map, Function.comp_def, Code.map_map, Attribute.map_map, Parameter.map_map]

theorem Identity.map_map (i : Identity α) : (i.map f).map g = i.map (g ∘ f) := by
  cases i with
  | named kind name => rfl
  | anonymous arguments => simp [Identity.map, Code.map_map]

theorem Declaration.map_map (d : Declaration α) : (d.map f).map g = d.map (g ∘ f) := by
  simp [Declaration.map, Function.comp_def, Code.map_map, Attribute.map_map, Field.map_map,
    Method.map_map, Property.map_map, Identity.map_map]

end MapMap

/-! ### Balance does not depend on declarations -/

section Balance

variable {α β : Type} (f : α → β)

mutual

theorem Part.flat_map : ∀ p : Part α, (p.map f).flat = p.flat.map (Part.map f)
  | .block c => by
    rw [Part.map, Part.flat, Part.flat]
    exact Code.flat_map c
  | .text _ | .name _ | .quoted _ | .type _ | .declaration _ | .indent | .unindent
  | .openStatement | .closeStatement | .wrapSpace | .wrapPoint => by simp [Part.map, Part.flat]

theorem Code.flat_map : ∀ c : Code α, (c.map f).flat = c.flat.map (Part.map f)
  | ⟨parts, _⟩ => by
    rw [Code.map, Code.flat, Code.flat]
    exact Part.flatAll_map parts

theorem Part.flatAll_map : ∀ ps : List (Part α),
    Part.flatAll (Part.mapAll f ps) = (Part.flatAll ps).map (Part.map f)
  | [] => by simp [Part.mapAll, Part.flatAll]
  | p :: ps => by
    simp only [Part.mapAll, Part.flatAll, List.map_append, Part.flat_map p, Part.flatAll_map ps]

end

mutual

theorem Part.profile_map : ∀ p : Part α, (p.map f).profile = p.profile
  | .block c => by
    rw [Part.map, Part.profile, Part.profile]
    exact Code.profile_map c
  | .text _ | .name _ | .quoted _ | .type _ | .declaration _ | .indent | .unindent
  | .openStatement | .closeStatement | .wrapSpace | .wrapPoint => by
    simp [Part.map, Part.profile]

theorem Code.profile_map : ∀ c : Code α, (c.map f).profile = c.profile
  | ⟨parts, _⟩ => by
    rw [Code.map, Code.profile, Code.profile]
    exact Part.profileAll_map parts

theorem Part.profileAll_map : ∀ ps : List (Part α),
    Part.profileAll (Part.mapAll f ps) = Part.profileAll ps
  | [] => by simp [Part.mapAll, Part.profileAll]
  | p :: ps => by
    simp only [Part.mapAll, Part.profileAll, Part.profile_map p, Part.profileAll_map ps]

end

theorem Part.track_map (inside : Bool) (ps : List (Part α)) :
    Part.track inside (ps.map (Part.map f)) = Part.track inside ps := by
  induction ps generalizing inside with
  | nil => rfl
  | cons p ps ih => cases p <;> simp [Part.map, Part.track, ih]

theorem Part.countP_isClose_map (ps : List (Part α)) :
    (ps.map (Part.map f)).countP Part.isClose = ps.countP Part.isClose := by
  rw [List.countP_map]
  congr 1
  funext p
  cases p <;> simp [Part.map, Part.isClose]

mutual

theorem Part.sound_of_map {tight : Prop} : ∀ p : Part α,
    (∀ c, p.map f = .block c → c.Sound tight) → ∀ c, p = .block c → c.Sound tight
  | .block c, h, _, rfl => Code.sound_of_map c (h (c.map f) (by rw [Part.map]))

theorem Code.sound_of_map {tight : Prop} : ∀ c : Code α, (c.map f).Sound tight → c.Sound tight
  | ⟨parts, statements⟩, h => by
    rw [Code.map] at h
    obtain ⟨halternate, hlevel, hcount, hequal, hnested⟩ := h
    rw [Part.flatAll_map, Part.track_map] at halternate
    rw [Part.profileAll_map] at hlevel
    rw [Part.flatAll_map, Part.countP_isClose_map] at hcount hequal
    exact .of halternate hlevel hcount hequal (Part.sound_of_mapAll parts hnested)

theorem Part.sound_of_mapAll {tight : Prop} : ∀ ps : List (Part α),
    (∀ c, .block c ∈ Part.mapAll f ps → c.Sound tight) → ∀ c, .block c ∈ ps → c.Sound tight
  | p :: ps, h, c, hc => by
    rw [Part.mapAll] at h
    rcases List.mem_cons.mp hc with hc | hc
    · exact Part.sound_of_map p (fun d hd => h d (by rw [hd]; simp)) c hc.symm
    · exact Part.sound_of_mapAll ps (fun d hd => h d (List.mem_cons_of_mem _ hd)) c hc

end

end Balance

/-! ### Rearranged declarations -/

/-- Anything may be blamed. -/
def Blame.any : Blame := ⟨fun _ => True, True⟩

namespace TypeDecl

/-- The same declaration with the members of every layer in another order. -/
inductive Rearranged : TypeDecl → TypeDecl → Prop
  | layer {d d' : Declaration (TypeDecl × TypeDecl)} (hlayer : d.Shuffled d')
      (hinner : ∀ p ∈ d.inner, Rearranged p.1 p.2) :
      Rearranged (.of (d.map Prod.fst)) (.of (d'.map Prod.snd))

theorem Rearranged.alike (statics : List ClassName) {t u : TypeDecl} (h : t.Rearranged u)
    (hsound : t.Sound) : (t.emission statics).Alike .any (u.emission statics) := by
  induction h with
  | @layer d d' hlayer _ ih =>
    obtain ⟨hcodes, hinner⟩ := hsound
    rw [Declaration.codes_map] at hcodes
    rw [Declaration.inner_map] at hinner
    have halike : ∀ p ∈ d.inner,
        (p.1.emission statics).Alike .any (p.2.emission statics) := by
      intro p hp
      exact ih p hp (hinner p.1 (List.mem_map_of_mem hp))
    have hemission : ∀ (e : Declaration (TypeDecl × TypeDecl)) (w : TypeDecl × TypeDecl → TypeDecl),
        (TypeDecl.of (e.map w)).emission statics
          = (e.map fun p => (w p).emission statics).emission statics := by
      intro e w
      rw [emission, fold_of, Declaration.map_map]
      rfl
    rw [hemission, hemission]
    refine Declaration.Shuffled.alike statics hlayer ⟨?_, ?_, fun _ _ _ => trivial, halike⟩
    · exact fun _ _ _ _ => trivial
    · intro c hc
      refine ⟨Code.sound_of_map Prod.fst c (hcodes _ (List.mem_map_of_mem hc)),
        fun _ _ => trivial, ?_⟩
      intro p hp
      exact halike p (List.mem_append_left _ (List.mem_append_left _
        (List.mem_flatMap.mpr ⟨c, hc, hp⟩)))

end TypeDecl

namespace SourceFile

/-- The same file with the members of its type, and of every declaration in its comment,
    in another order. -/
inductive Rearranged : SourceFile → SourceFile → Prop
  | of {space : String} {comment : Code (TypeDecl × TypeDecl)} {type type' : TypeDecl}
      {usings : List String} {statics : List ClassName} {style : Style}
      (hcomment : ∀ p ∈ comment.declarations, p.1.Rearranged p.2)
      (htype : type.Rearranged type') :
      Rearranged ⟨space, comment.map Prod.fst, type, usings, statics, style⟩
        ⟨space, comment.map Prod.snd, type', usings, statics, style⟩

/-- **A rearranged file is put together alike.** -/
theorem Rearranged.arranged {f g : SourceFile} (h : f.Rearranged g) (hfit : f.Fit) :
    Arranged .any ⟨0, false⟩ ⟨0, false⟩ (f.stream []) (g.stream []) := by
  obtain @⟨space, comment, type, type', usings, statics, style, hcomment, htype⟩ := h
  obtain ⟨⟨hsound, hinner⟩, htypeSound, -⟩ := hfit
  refine arranged_stream (f := ⟨space, comment.map Prod.fst, type, usings, statics, style⟩)
    (g := ⟨space, comment.map Prod.snd, type', usings, statics, style⟩) ?_ ?_ rfl rfl rfl rfl []
  · have hfits : comment.Fits .any (fun p => p.1.emission statics)
        (fun p => p.2.emission statics) := by
      refine ⟨Code.sound_of_map Prod.fst comment hsound, fun _ _ => trivial, ?_⟩
      intro p hp
      refine (hcomment p hp).alike statics (hinner p.1 ?_)
      rw [Code.declarations_map]
      exact List.mem_map_of_mem hp
    have harranged := hfits.stream statics (d := 0)
    simp only [Code.stream_map] at harranged
    simp only [commentStream, Code.commentStream, Code.isEmpty_map, Code.stream_map]
    split
    · exact .nil
    · exact (Arranged.comment harranged).concat rfl
  · intro d
    exact (htype.alike statics htypeSound).member [] _

end SourceFile

/-! ### Running both -/

/-- What stands in the stream may be blamed. -/
structure Blame.Covers (blame : Blame) (s : Stream) : Prop where
  names : ∀ c, .reference c ∈ s → blame.names c
  faults : .refuse .nestedStatement ∈ s → blame.faults

theorem Blame.Covers.of_subset {blame : Blame} {s t : Stream} (h : blame.Covers t) (hst : s ⊆ t) :
    blame.Covers s :=
  ⟨fun c hc => h.names c (hst hc), fun hc => h.faults (hst hc)⟩

namespace Arranged

variable {blame : Blame} {f g : Frame} {s t : Stream}

theorem mem_iff (h : Arranged blame f g s t) {i : Instruction}
    (hi : ∀ scope, i ≠ .enterScope scope) : i ∈ s ↔ i ∈ t := by
  induction h with
  | nil | plain | reference | refuse | indent | unindent | openStatement | closeStatement => rfl
  | doc _ ih | comment _ ih | typeVars _ _ ih | aside _ ih =>
    simp only [withVariables, List.mem_cons, List.mem_append, ih]
  | scope name _ _ ih =>
    simp only [withScope, List.mem_cons, List.mem_append, ih, hi, false_or]
  | sink _ _ ih => exact ih
  | append _ _ ih ih' => rw [List.mem_append, List.mem_append, ih, ih']
  | swap _ _ ih ih' => rw [List.mem_append, List.mem_append, ih, ih', or_comm]
  | trans _ _ ih ih' => exact ih.trans ih'

/-- Only what stands in the stream needs to be blamed. -/
theorem narrow (h : Arranged blame f g s t) {other : Blame} (hcovers : other.Covers s) :
    Arranged other f g s t := by
  have hinside : ∀ (i j : Instruction) (s : Stream), s ⊆ i :: (s ++ [j]) := fun i j s =>
    List.subset_cons_of_subset i (List.subset_append_left s [j])
  induction h with
  | nil => exact .nil
  | plain h => exact .plain h
  | reference => exact .reference (hcovers.names _ (by simp))
  | refuse => exact .refuse (hcovers.faults (by simp))
  | indent => exact .indent
  | unindent => exact .unindent
  | openStatement => exact .openStatement
  | closeStatement => exact .closeStatement
  | doc _ ih => exact .doc (ih (hcovers.of_subset (hinside _ _ _)))
  | comment _ ih => exact .comment (ih (hcovers.of_subset (hinside _ _ _)))
  | scope name hnested _ ih =>
    exact .scope name hnested (ih (hcovers.of_subset (hinside _ _ _)))
  | typeVars vs _ ih => exact .typeVars vs (ih (hcovers.of_subset (hinside _ _ _)))
  | aside _ ih => exact .aside (ih (hcovers.of_subset (hinside _ _ _)))
  | sink k _ ih => exact .sink k (ih hcovers)
  | append _ _ ih ih' =>
    apply Arranged.append
    · exact ih (hcovers.of_subset (List.subset_append_left _ _))
    · exact ih' (hcovers.of_subset (List.subset_append_right _ _))
  | swap _ _ ih ih' =>
    apply Arranged.swap
    · exact ih (hcovers.of_subset (List.subset_append_left _ _))
    · exact ih' (hcovers.of_subset (List.subset_append_right _ _))
  | trans hst _ ih ih' =>
    refine (ih hcovers).trans (ih' ⟨?_, ?_⟩)
    · exact fun c hc => hcovers.names c ((hst.mem_iff (by simp)).mpr hc)
    · exact fun hc => hcovers.faults ((hst.mem_iff (by simp)).mpr hc)

end Arranged

/-- A run that succeeds has met only well-formed types, and has refused nothing. -/
theorem Writer.clean_of_run {session : Session} {w next : Writer} {s : Stream}
    (h : w.run session s = .ok next) :
    (∀ c, .reference c ∈ s → c.validate = .ok ()) ∧ ∀ fault, .refuse fault ∉ s := by
  induction s generalizing w with
  | nil => simp
  | cons i rest ih =>
    obtain ⟨mid, hi, h⟩ := Except.bind_eq_ok h
    obtain ⟨hvalid, hrefuse⟩ := ih h
    constructor
    · intro c hc
      rcases List.mem_cons.mp hc with rfl | hc
      · exact (reference_eq_ok hi).1
      · exact hvalid c hc
    · intro fault hfault
      rcases List.mem_cons.mp hfault with rfl | hfault
      · cases hi
      · exact hrefuse fault hfault

/-- **If a stream can be written, so can every one that is put together alike.** -/
theorem Arranged.run_of_run {blame : Blame} {g : Frame} {s t : Stream}
    (h : Arranged blame ⟨0, false⟩ g s t) {session : Session} {w : Writer}
    (hs : s.run session = .ok w) (session' : Session) : ∃ w, t.run session' = .ok w := by
  obtain ⟨hvalid, hrefuse⟩ := Writer.clean_of_run hs
  have hclean : Arranged ⟨fun c => c.validate = .ok (), False⟩ ⟨0, false⟩ g s t :=
    h.narrow ⟨hvalid, hrefuse _⟩
  rcases hclean.symm.run session' with hok | ⟨e, -, ⟨c, hc, he⟩ | ⟨hfalse, -⟩⟩
  · exact hok
  · rw [show c.validate = .ok () from hc] at he
    cases he
  · exact hfalse.elim

end CSharpGen
