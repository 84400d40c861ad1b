/-
  CSharpGen/Proofs/Placement.lean
  ===============================
  **Where a source file is written** — directories are made one by one, then the
  file is put where the last segment of its path leads.  Both only put an entry
  into the tree (`Disk.get?_put`), and neither takes the place of a directory, so
  that a path which leads somewhere goes on leading there (`Disk.Keeps.locate?`).
  What is new after the directories are made is therefore told by the paths that
  led nowhere before (`Disk.Grown`): one directory is a step, all of them a run
  (`Disk.grown_createAll`).

  The path of a file below its output directory holds names only, since it is
  made of identifiers: it leaves neither the directory (`Disk.locate?_join`) nor
  a doubt about the file it belongs to.
-/
import CSharpGen.Disk
import CSharpGen.Proofs.Legality
import CSharpGen.Proofs.Selection
import Mathlib.Data.List.DropRight

namespace CSharpGen

/-! ### Paths -/

namespace Path

theorem trim_isPrefix (p : Path) : p.trim <+: p := List.rdropWhile_prefix isIdle p

theorem prefix_of_mem_steps {p q : Path} (h : q ∈ p.steps) : q <+: p := by
  obtain ⟨hmem, -⟩ := List.mem_filter.mp h
  obtain ⟨n, -, rfl⟩ := List.mem_map.mp hmem
  exact List.take_prefix _ _

/-- The directories that are made above a path are proper beginnings of it. -/
theorem prefix_of_mem_steps_parent {p q : Path} (hp : p ≠ []) (h : q ∈ p.parent.steps) :
    q <+: p ∧ q ≠ p := by
  have hparent : p.parent <+: p.trim.dropLast := trim_isPrefix _
  have hshorter : p.trim.dropLast <+: p.trim := List.dropLast_prefix _
  have hq : q <+: p.trim.dropLast := (prefix_of_mem_steps h).trans hparent
  refine ⟨hq.trans (hshorter.trans (trim_isPrefix p)), ?_⟩
  rintro rfl
  have hshort := hq.length_le
  have htrim := (trim_isPrefix q).length_le
  have hlong := List.length_pos_of_ne_nil hp
  rw [List.length_dropLast] at hshort
  omega

theorem text_append {p q : Path} (hp : p ≠ []) (hq : q ≠ []) :
    text (p ++ q) = text p ++ "/" ++ text q := by
  induction p with
  | nil => exact absurd rfl hp
  | cons s rest ih =>
    cases rest with
    | nil =>
      obtain ⟨t, q, rfl⟩ := List.exists_cons_of_ne_nil hq
      rfl
    | cons t rest =>
      have hrest := ih (by simp)
      simp only [text, List.cons_append, Text.join_cons_cons] at hrest ⊢
      rw [hrest]
      simp only [String.append_assoc]

theorem utf8ByteSize_text_append {p q : Path} (hp : p ≠ []) (hq : q ≠ []) :
    (text (p ++ q)).utf8ByteSize = (text p).utf8ByteSize + 1 + (text q).utf8ByteSize := by
  rw [text_append hp hq, String.utf8ByteSize_append, String.utf8ByteSize_append]
  rfl

theorem mem_of_mem_join {base rest : Path} {segment : String} (h : segment ∈ base.join rest) :
    segment ∈ base ∨ segment ∈ rest := by
  unfold join at h
  split at h
  · exact (List.mem_append.mp h).imp_left fun hmem => (List.dropLast_sublist base).subset hmem
  · exact List.mem_append.mp h

/-- A directory below which a path can be looked up can be looked up itself. -/
theorem isUsable_of_join {base rest : Path} (hrest : rest ≠ [])
    (h : (base.join rest).isUsable = true) : base.isUsable = true := by
  have hshort : ∀ {p : Path}, (p ++ rest).isUsable = true → p ≠ [] →
      (text p).utf8ByteSize + 1 < byteLimit := by
    intro p husable hp
    have hbytes := (Bool.and_eq_true_iff.mp husable).1
    rw [decide_eq_true_eq, utf8ByteSize_text_append hp hrest] at hbytes
    omega
  have hall : ∀ {p : Path}, (p ++ rest).isUsable = true →
      p.all (fun segment => !segment.toList.contains '\x00') = true := by
    intro p husable
    have hsegments := (Bool.and_eq_true_iff.mp husable).2
    rw [List.all_append] at hsegments
    exact (Bool.and_eq_true_iff.mp hsegments).1
  unfold join at h
  refine Bool.and_eq_true_iff.mpr ?_
  rw [decide_eq_true_eq]
  split at h
  · next hlast =>
    obtain ⟨front, rfl⟩ : ∃ front, base = front ++ [""] :=
      ⟨base.dropLast, (List.dropLast_append_getLast? "" hlast).symm⟩
    rw [List.dropLast_concat] at h
    refine ⟨?_, by simpa using hall h⟩
    cases front with
    | nil => decide
    | cons s front =>
      have hbytes := hshort h (by simp)
      rw [utf8ByteSize_text_append (by simp) (by simp)]
      have hempty : (text [""]).utf8ByteSize = 0 := by decide
      omega
  · refine ⟨?_, hall h⟩
    cases base with
    | nil => decide
    | cons s base =>
      have hbytes := hshort h (by simp)
      omega

end Path

namespace Disk

variable {disk made after : Disk} {place dir : Place} {p target : Path} {text : String}

/-! ### The tree as a map -/

theorem get?_of_ne_nil (hplace : place ≠ []) :
    disk.get? place = (disk.entries.find? fun e => e.1 == place).map Prod.snd := by
  simp [get?, hplace]

/-- **Putting an entry changes the tree at its place and nowhere else.** -/
theorem get?_put (disk : Disk) (hplace : place ≠ []) (node : Node) (q : Place) :
    (disk.put place node).get? q = if q = place then some node else disk.get? q := by
  by_cases hroot : q = []
  · subst hroot
    simp [get?, Ne.symm hplace]
  unfold put
  split
  · next hhas =>
    have hsame : ((fun e : Place × Node => e.1 == q)
        ∘ fun e => if e.1 == place then (place, node) else e) = fun e => e.1 == q := by
      funext e
      by_cases he : e.1 = place <;> simp [he]
    rw [get?_of_ne_nil hplace] at hhas
    rw [get?_of_ne_nil hroot, get?_of_ne_nil hroot, List.find?_map, hsame]
    by_cases hq : q = place
    · subst hq
      cases hfound : disk.entries.find? fun e => e.1 == q with
      | none => simp [hfound] at hhas
      | some e =>
        have he : e.1 = q := by simpa using List.find?_some hfound
        simp [he]
    · cases hfound : disk.entries.find? fun e => e.1 == q with
      | none => simp [hq]
      | some e =>
        have he : e.1 = q := by simpa using List.find?_some hfound
        simp [he, hq]
  · next hmissing =>
    rw [get?_of_ne_nil hplace] at hmissing
    rw [get?_of_ne_nil hroot, get?_of_ne_nil hroot, List.find?_append]
    by_cases hq : q = place
    · subst hq
      have hnone : (disk.entries.find? fun e => e.1 == q) = none := by
        rwa [Option.isSome_map, Option.not_isSome_iff_eq_none] at hmissing
      simp [hnone]
    · cases hfound : disk.entries.find? fun e => e.1 == q with
      | none => simp [hq, Ne.symm hq]
      | some e => simp [hq]

/-! ### Following paths -/

/-- A segment is followed from a directory, to itself, to the one above or to an entry. -/
theorem follow?_eq_some {segment : String} {q : Place} :
    disk.follow? place segment = some q ↔ disk.get? place = some .directory
      ∧ if Path.isIdle segment then q = place
        else if segment = Path.up then q = place.dropLast
        else (disk.get? (place ++ [segment])).isSome ∧ q = place ++ [segment] := by
  unfold follow?
  by_cases hdirectory : disk.get? place = some .directory
  · simp only [hdirectory, ne_eq, not_true_eq_false, if_false, true_and]
    split
    · simp [eq_comm]
    · split
      · simp [eq_comm]
      · split
        · next hhas => simp [hhas, eq_comm]
        · next hmissing => simp [hmissing]
  · simp [hdirectory]

theorem locate?_eq_some : disk.locate? p = some place ↔
    p.isUsable = true ∧ p.foldlM disk.follow? [] = some place := by
  unfold locate?
  split <;> simp_all

/-- The last segment is followed from where the path before it leads. -/
theorem locate?_concat {segment : String} (hdir : disk.locate? p = some dir)
    (husable : (p ++ [segment]).isUsable = true) :
    disk.locate? (p ++ [segment]) = disk.follow? dir segment := by
  have hfold := (locate?_eq_some.mp hdir).2
  simp [locate?, husable, List.foldlM_append, hfold]

/-- Directories stay directories, and where something stands something is left. -/
structure Keeps (disk after : Disk) : Prop where
  directory : ∀ q, disk.get? q = some .directory → after.get? q = some .directory
  entry : ∀ q, (disk.get? q).isSome = true → (after.get? q).isSome = true

theorem Keeps.follow? (h : disk.Keeps after) {segment : String} {q : Place}
    (hq : disk.follow? place segment = some q) : after.follow? place segment = some q := by
  rw [follow?_eq_some] at hq ⊢
  refine ⟨h.directory _ hq.1, ?_⟩
  obtain ⟨-, hstep⟩ := hq
  split
  · next hidle => rwa [if_pos hidle] at hstep
  · next hnamed =>
    rw [if_neg hnamed] at hstep
    split
    · next hup => rwa [if_pos hup] at hstep
    · next hdown =>
      rw [if_neg hdown] at hstep
      exact ⟨h.entry _ hstep.1, hstep.2⟩

/-- **A path leads where it led.** -/
theorem Keeps.locate? (h : disk.Keeps after) (hp : disk.locate? p = some place) :
    after.locate? p = some place := by
  have hrun : ∀ (p : Path) (start : Place), p.foldlM disk.follow? start = some place →
      p.foldlM after.follow? start = some place := by
    intro p
    induction p with
    | nil => exact fun _ hfold => hfold
    | cons segment rest ih =>
      intro start hfold
      obtain ⟨next, hnext, hrest⟩ := Option.bind_eq_some_iff.mp hfold
      exact Option.bind_eq_some_iff.mpr ⟨next, h.follow? hnext, ih next hrest⟩
  rw [locate?_eq_some] at hp ⊢
  exact ⟨hp.1, hrun p [] hp.2⟩

/-- An entry that takes the place of no directory leaves every path where it led. -/
theorem keeps_put (hplace : place ≠ []) (hfree : disk.get? place ≠ some .directory)
    (node : Node) : disk.Keeps (disk.put place node) := by
  constructor
  · intro q hq
    rw [disk.get?_put hplace, if_neg (by rintro rfl; exact hfree hq)]
    exact hq
  · intro q hq
    rw [disk.get?_put hplace]
    split
    · rfl
    · exact hq

/-! ### One entry -/

/-- An entry is put into the directory that the path leads to without its last segment. -/
theorem of_slot? (h : disk.slot? p = some place) :
    ∃ front name dir, p = front ++ [name] ∧ p.isUsable = true ∧ Path.isName name = true
      ∧ disk.locate? front = some dir ∧ disk.get? dir = some .directory
      ∧ place = dir ++ [name] := by
  unfold slot? at h
  split at h
  · cases h
  · next name hlast =>
    split at h
    · next hguard =>
      simp only [Bool.and_eq_true, isDirectory, node?, beq_iff_eq] at hguard
      obtain ⟨dir, hdir, rfl⟩ := Option.map_eq_some_iff.mp h
      rw [hdir] at hguard
      exact ⟨p.dropLast, name, dir, (List.dropLast_append_getLast? name hlast).symm,
        hguard.1.1, hguard.1.2, hdir, hguard.2, rfl⟩
    · cases h

theorem ne_nil_of_slot? (h : disk.slot? p = some place) : p ≠ [] ∧ place ≠ [] := by
  obtain ⟨front, name, dir, rfl, -, -, -, -, rfl⟩ := of_slot? h
  simp

theorem follow?_name {name : String} (hname : Path.isName name = true)
    (hdir : disk.get? dir = some .directory) : disk.follow? dir name
      = if (disk.get? (dir ++ [name])).isSome then some (dir ++ [name]) else none := by
  simp only [Path.isName, Bool.and_eq_true, Bool.not_eq_true', bne_iff_ne] at hname
  simp [Disk.follow?, hdir, hname.1.1, hname.1.2]

/-- The path leads to the entry that is put there. -/
theorem locate?_of_slot? (h : disk.slot? p = some place) (hkeeps : disk.Keeps after)
    (hhas : (after.get? place).isSome = true) : after.locate? p = some place := by
  obtain ⟨front, name, dir, rfl, husable, hname, hfront, hdir, rfl⟩ := of_slot? h
  rw [locate?_concat (hkeeps.locate? hfront) husable,
    follow?_name hname (hkeeps.directory _ hdir), if_pos hhas]

theorem locate?_eq_none_of_slot? (h : disk.slot? p = some place)
    (hfree : disk.get? place = none) : disk.locate? p = none := by
  obtain ⟨front, name, dir, rfl, husable, hname, hfront, hdir, rfl⟩ := of_slot? h
  rw [locate?_concat hfront husable, follow?_name hname hdir, hfree]
  rfl

/-! ### Making directories -/

/-- The entries of a tree are kept, and what is new are directories at some of the given
    paths, which led nowhere before. -/
structure Grown (paths : List Path) (disk after : Disk) : Prop where
  kept : ∀ q node, disk.get? q = some node → after.get? q = some node
  fresh : ∀ q node, disk.get? q = none → after.get? q = some node →
    node = .directory ∧ ∃ p ∈ paths, disk.locate? p = none ∧ after.locate? p = some q

theorem Grown.keeps {paths : List Path} (h : Grown paths disk after) : disk.Keeps after := by
  constructor
  · exact fun q hq => h.kept q _ hq
  · intro q hq
    obtain ⟨node, hnode⟩ := Option.isSome_iff_exists.mp hq
    rw [h.kept q node hnode]
    rfl

theorem Grown.refl (paths : List Path) (disk : Disk) : Grown paths disk disk := by
  refine ⟨fun q node hq => hq, fun q node hnone hq => ?_⟩
  rw [hnone] at hq
  cases hq

theorem Grown.trans {paths : List Path} (h : Grown [p] disk made) (h' : Grown paths made after) :
    Grown (p :: paths) disk after := by
  refine ⟨fun q node hq => h'.kept q node (h.kept q node hq), fun q node hnone hq => ?_⟩
  cases hmade : made.get? q with
  | none =>
    obtain ⟨rfl, path, hpath, hbefore, hafter⟩ := h'.fresh q node hmade hq
    have hnowhere : disk.locate? path = none := by
      by_contra hled
      obtain ⟨place, hplace⟩ := Option.ne_none_iff_exists'.mp hled
      rw [h.keeps.locate? hplace] at hbefore
      cases hbefore
    exact ⟨rfl, path, List.mem_cons_of_mem _ hpath, hnowhere, hafter⟩
  | some old =>
    obtain ⟨rfl, path, hpath, hbefore, hthen⟩ := h.fresh q old hnone hmade
    have hnode := h'.kept q _ hmade
    rw [hq] at hnode
    exact ⟨Option.some.inj hnode, path, by simp_all, hbefore, h'.keeps.locate? hthen⟩

/-- **Making one directory adds it and nothing else.** -/
theorem grown_createDirectory? (h : disk.createDirectory? p = some made) :
    Grown [p] disk made := by
  unfold createDirectory? at h
  split at h
  · cases h
  · next place hslot =>
    split at h
    · cases h
    · next hfree =>
      cases h
      rw [Option.not_isSome_iff_eq_none] at hfree
      have hplace := (ne_nil_of_slot? hslot).2
      have hput := disk.get?_put hplace .directory
      refine ⟨fun q node hq => ?_, fun q node hnone hq => ?_⟩
      · rw [hput, if_neg (by rintro rfl; rw [hfree] at hq; cases hq)]
        exact hq
      · rw [hput] at hq
        split at hq
        · next hhere =>
          subst hhere
          refine ⟨(Option.some.inj hq).symm, p, by simp, locate?_eq_none_of_slot? hslot hfree, ?_⟩
          exact locate?_of_slot? hslot (keeps_put hplace (by simp [hfree]) _) (by simp [hput])
        · rw [hnone] at hq
          cases hq

/-- **Making directories in order adds only those**, also if not all can be made. -/
theorem grown_createAll (disk : Disk) (paths : List Path) :
    Grown paths disk (disk.createAll paths).2 := by
  induction paths generalizing disk with
  | nil => exact .refl [] disk
  | cons p rest ih =>
    unfold createAll
    split
    · exact (Grown.refl [p] disk).trans (ih disk)
    · split
      · next made hmade => exact (grown_createDirectory? hmade).trans (ih made)
      · exact .refl _ disk

theorem grown_createDirectories (disk : Disk) (p : Path) :
    Grown p.steps disk (disk.createDirectories p).2 := by
  unfold createDirectories
  split
  · exact grown_createAll disk p.steps
  · exact .refl _ disk

/-! ### Writing a file -/

/-- A file of the given text has been written at the end of a path: the path leads to it,
    every other entry that was there is as it was, and what is new besides the file are
    directories on the way to it, where no path led before. -/
structure WrittenAt (disk after : Disk) (target : Path) (text : String) (place : Place) :
    Prop where
  located : after.locate? target = some place
  content : after.get? place = some (.file text)
  kept : ∀ q, q ≠ place → ∀ node, disk.get? q = some node → after.get? q = some node
  fresh : ∀ q, q ≠ place → ∀ node, disk.get? q = none → after.get? q = some node →
    node = .directory ∧ ∃ p, p <+: target ∧ p ≠ target ∧ disk.locate? p = none
      ∧ after.locate? p = some q

theorem WrittenAt.read? (h : WrittenAt disk after target text place) :
    after.read? target = some text := by
  simp [Disk.read?, node?, h.located, h.content]

theorem of_writeText? (h : disk.writeText? p text = some after) :
    ∃ place, disk.slot? p = some place ∧ disk.get? place ≠ some .directory
      ∧ after = disk.put place (.file text) := by
  unfold writeText? at h
  split at h
  · cases h
  · next place hslot =>
    split at h
    · cases h
    · next hfree => exact ⟨place, hslot, hfree, (Option.some.inj h).symm⟩

/-- **A text is written into a tree that has grown by the directories above it.** -/
theorem writtenAt_writeFile (h : disk.writeFile target text = (.ok (), after)) :
    ∃ place, WrittenAt disk after target text place := by
  have hgrown := grown_createDirectories disk target.parent
  unfold writeFile at h
  split at h
  · cases h
  · next made hmade =>
    rw [hmade] at hgrown
    split at h
    · cases h
    · next written hwritten =>
      cases h
      obtain ⟨place, hslot, hfree, rfl⟩ := of_writeText? hwritten
      obtain ⟨htarget, hplace⟩ := ne_nil_of_slot? hslot
      have hput := made.get?_put hplace (.file text)
      have hkeeps := keeps_put hplace hfree (.file text)
      refine ⟨place, ?_, by simp [hput], ?_, ?_⟩
      · exact locate?_of_slot? hslot hkeeps (by simp [hput])
      · intro q hq node hnode
        rw [hput, if_neg hq]
        exact hgrown.kept q node hnode
      · intro q hq node hnone hnode
        rw [hput, if_neg hq] at hnode
        obtain ⟨rfl, p, hp, hbefore, hafter⟩ := hgrown.fresh q node hnone hnode
        obtain ⟨hbegins, hproper⟩ := Path.prefix_of_mem_steps_parent htarget hp
        exact ⟨rfl, p, hbegins, hproper, hbefore, hkeeps.locate? hafter⟩

/-! ### Staying below a directory -/

/-- Without a segment that leads up, segments lead down along the names among them. -/
theorem foldlM_follow? {start : Place} (hup : Path.up ∉ p)
    (h : p.foldlM disk.follow? start = some place) :
    place = start ++ p.filter (fun segment => !Path.isIdle segment)
      ∧ (p ≠ [] → disk.get? start = some .directory) := by
  induction p generalizing start with
  | nil => exact ⟨by simpa using (Option.some.inj h).symm, fun hne => absurd rfl hne⟩
  | cons segment rest ih =>
    obtain ⟨hsegment, hrest⟩ := not_or.mp (mt List.mem_cons.mpr hup)
    obtain ⟨next, hnext, hfold⟩ := Option.bind_eq_some_iff.mp h
    obtain ⟨hplace, -⟩ := ih hrest hfold
    obtain ⟨hdirectory, hstep⟩ := follow?_eq_some.mp hnext
    refine ⟨?_, fun _ => hdirectory⟩
    split at hstep
    · next hidle => simpa [hidle, hstep] using hplace
    · next hnamed =>
      rw [if_neg (Ne.symm hsegment)] at hstep
      simpa [hnamed, hstep.2] using hplace

theorem locate?_eq_filter (hup : Path.up ∉ p) (h : disk.locate? p = some place) :
    place = p.filter fun segment => !Path.isIdle segment := by
  simpa using (foldlM_follow? hup (locate?_eq_some.mp h).2).1

/-- **Names lead down**: a path that goes on with names only leads to a place below the one
    that it goes on from. -/
theorem locate?_join {base rest : Path} (hne : rest ≠ [])
    (hnames : ∀ segment ∈ rest, Path.isIdle segment = false ∧ segment ≠ Path.up)
    (h : disk.locate? (base.join rest) = some place) :
    ∃ dir, disk.locate? base = some dir ∧ place = dir ++ rest := by
  obtain ⟨husable, hfold⟩ := locate?_eq_some.mp h
  unfold Path.join at hfold
  rw [List.foldlM_append] at hfold
  obtain ⟨dir, hdir, hrest⟩ := Option.bind_eq_some_iff.mp hfold
  obtain ⟨hplace, hdirectory⟩ := foldlM_follow? (fun hup => (hnames _ hup).2 rfl) hrest
  have hfilter : rest.filter (fun segment => !Path.isIdle segment) = rest :=
    List.filter_eq_self.mpr fun segment hmem => by simp [(hnames segment hmem).1]
  rw [hfilter] at hplace
  refine ⟨dir, locate?_eq_some.mpr ⟨Path.isUsable_of_join hne husable, ?_⟩, hplace⟩
  split at hdir
  · next hlast =>
    -- The slash at the end asks for a directory, and what follows has been found in one.
    rw [← List.dropLast_append_getLast? "" hlast, List.foldlM_append, hdir]
    simpa using follow?_eq_some.mpr ⟨hdirectory hne, by simp [Path.isIdle]⟩
  · exact hdir

/-- Without a segment that leads up, the new directories are those above the file. -/
theorem WrittenAt.fresh_above (h : WrittenAt disk after target text place)
    (hup : Path.up ∉ target) {q : Place} (hq : q ≠ place) (hbefore : disk.get? q = none)
    (hafter : (after.get? q).isSome = true) : q <+: place := by
  obtain ⟨node, hnode⟩ := Option.isSome_iff_exists.mp hafter
  obtain ⟨-, p, hp, -, -, hled⟩ := h.fresh q hq node hbefore hnode
  rw [locate?_eq_filter (fun hmem => hup (hp.subset hmem)) hled,
    locate?_eq_filter hup h.located]
  exact hp.filter _

end Disk

/-! ### The path of a source file -/

/-- The segment names an entry in every directory: it leads neither nowhere nor up, and no
    separator is in it. -/
structure Path.Plain (segment : String) : Prop where
  nonempty : segment ≠ ""
  slash : '/' ∉ segment.toList
  backslash : '\\' ∉ segment.toList
  here : segment ≠ "."
  above : segment ≠ ".."

theorem Path.Plain.leads_down {segment : String} (h : Plain segment) :
    isIdle segment = false ∧ segment ≠ up := by
  simp [isIdle, up, h.nonempty, h.here, h.above]

theorem Identifier.plain {s : String} (h : isValid s = true) : Path.Plain s := by
  have hdot : '.' ∉ s.toList := not_mem_of_isForeign h isForeign_dot
  refine ⟨ne_empty_of_isValid h, not_mem_of_isForeign h (by decide),
    not_mem_of_isForeign h (by decide), ?_, ?_⟩
  · rintro rfl
    exact hdot (by decide)
  · rintro rfl
    exact hdot (by decide)

theorem Identifier.plain_source {s : String} (h : isValid s = true) :
    Path.Plain (s ++ ".cs") := by
  have hname := plain h
  have hlong : 2 < (s ++ ".cs").toList.length := by simp
  refine ⟨?_, by simp [hname.slash], by simp [hname.backslash], ?_, ?_⟩
  all_goals
    intro heq
    rw [heq] at hlong
    revert hlong
    decide

namespace SourceFile

variable {f : SourceFile}

theorem Draft.names_of_build {d : Draft} (h : d.build = .ok f) :
    f.type.layer.isAnonymous = false
      ∧ (f.space = "" ∨ Identifier.isValidNamespace f.space = true) := by
  obtain ⟨comment, -, rfl⟩ := of_build h
  unfold Draft.build at h
  split at h
  · cases h
  · next hnames =>
    simp only [checkNames, bind, Except.bind] at hnames
    split at hnames
    · cases hnames
    · next hnamed =>
      split at hnames
      · cases hnames
      · next hspace =>
        refine ⟨by simpa using hnamed, ?_⟩
        simpa [String.isEmpty_iff, or_iff_not_imp_left] using hspace

/-- A finished file has a legal namespace, which may be the global one, and its type has a
    legal name. -/
theorem names_of_obtainable (h : Obtainable (.built .file f)) :
    (f.space = "" ∨ Identifier.isValidNamespace f.space = true)
      ∧ Identifier.isValid f.typeName = true := by
  have hlegal : f.type.WellFormed := h.legal
  obtain ⟨hnamed, hspace⟩ : f.type.layer.isAnonymous = false
      ∧ (f.space = "" ∨ Identifier.isValidNamespace f.space = true) := by
    cases h with
    | built _ hbuild => exact Draft.names_of_build hbuild
  refine ⟨hspace, ?_⟩
  cases htype : f.type.layer.name? with
  | none =>
    rw [Declaration.isAnonymous, Identity.isAnonymous, ← Declaration.name?, htype] at hnamed
    cases hnamed
  | some name =>
    rw [typeName, htype]
    cases hlayer : f.type with
    | of d =>
      rw [hlayer] at hlegal htype
      cases hlegal with
      | of legal => exact legal.name name htype

/-- **The path of a file is its namespace and the name of its type.** -/
theorem path_of_obtainable (h : Obtainable (.built .file f)) :
    ∃ segments, f.path = segments ++ [f.typeName ++ ".cs"] ∧ Text.join "." segments = f.space
      ∧ ∀ segment ∈ f.path, Path.Plain segment := by
  obtain ⟨hspace, hname⟩ := names_of_obtainable h
  refine ⟨_, rfl, ?_, ?_⟩
  · rcases hspace with hempty | hvalid
    · rw [hempty]
      rfl
    · have hkept : (Text.pieces '.' f.space).filter (fun segment => !segment.isEmpty)
          = Text.pieces '.' f.space := by
        refine List.filter_eq_self.mpr fun segment hmem => ?_
        have hne := Identifier.ne_empty_of_isValid (List.all_eq_true.mp hvalid segment hmem)
        simpa using hne
      rw [hkept, Text.join_pieces]
  · intro segment hmem
    rcases List.mem_append.mp hmem with hmem | hmem
    · obtain ⟨hpiece, hne⟩ := List.mem_filter.mp hmem
      rcases hspace with hempty | hvalid
      · rw [hempty] at hpiece
        rw [List.mem_singleton.mp hpiece] at hne
        exact absurd hne (by decide)
      · exact Identifier.plain (List.all_eq_true.mp hvalid segment hpiece)
    · rw [List.mem_singleton.mp hmem]
      exact Identifier.plain_source hname

/-- **Files of one path are one file by name.** -/
theorem names_eq_of_path {g : SourceFile} (hf : Obtainable (.built .file f))
    (hg : Obtainable (.built .file g)) (h : g.path = f.path) :
    g.space = f.space ∧ g.typeName = f.typeName := by
  obtain ⟨fs, hfpath, hfspace, -⟩ := path_of_obtainable hf
  obtain ⟨gs, hgpath, hgspace, -⟩ := path_of_obtainable hg
  rw [hfpath, hgpath] at h
  obtain ⟨rfl, hname⟩ := List.append_inj' h rfl
  refine ⟨hgspace.symm.trans hfspace, ?_⟩
  have hlast := congrArg String.toList (List.singleton_inj.mp hname)
  rw [String.toList_append, String.toList_append] at hlast
  exact String.toList_inj.mp (List.append_cancel_right hlast)

/-! ### Writing a source file -/

section Write

variable (f : SourceFile) (disk : Disk) (base : Path) (overwrite : Overwrite)

/-- **The cases of writing a file**, in the order in which they are told apart: there is no
    output directory, something is there already, the text cannot be made, or it is
    written. -/
theorem writeBelow_cases :
    (disk.has base = true ∧ disk.isDirectory base = false
      ∧ f.writeBelow disk base overwrite = (.error (.notDirectory base), disk))
    ∨ (disk.has base = true → disk.isDirectory base = true)
      ∧ ((overwrite = .ifMissing ∧ disk.has (base.join f.path) = true
          ∧ f.writeBelow disk base overwrite = (.ok .skipped, disk))
        ∨ ¬ (overwrite = .ifMissing ∧ disk.has (base.join f.path) = true)
          ∧ ((∃ e, f.render = .error e
              ∧ f.writeBelow disk base overwrite = (.error (.render e), disk))
            ∨ ∃ text result after, f.render = .ok text
              ∧ disk.writeFile (base.join f.path) text = (result, after)
              ∧ f.writeBelow disk base overwrite = (result.map fun _ => .written, after))) := by
  unfold writeBelow
  cases hbase : disk.has base && !disk.isDirectory base with
  | true =>
    rw [Bool.and_eq_true, Bool.not_eq_true'] at hbase
    exact .inl ⟨hbase.1, hbase.2, rfl⟩
  | false =>
    refine .inr ⟨fun hhas => by simpa [hhas] using hbase, ?_⟩
    by_cases hskip : overwrite = .ifMissing ∧ disk.has (base.join f.path) = true
    · exact .inl ⟨hskip.1, hskip.2, by simp [hskip]⟩
    · refine .inr ⟨hskip, ?_⟩
      cases hrender : f.render with
      | error e => exact .inl ⟨e, rfl, by simp [hskip]⟩
      | ok text =>
        obtain ⟨result, after, hfile⟩ :
            ∃ result after, disk.writeFile (base.join f.path) text = (result, after) :=
          ⟨_, _, Prod.mk.eta.symm⟩
        exact .inr ⟨text, result, after, rfl, hfile, by simp [hskip, hfile]⟩

theorem writeBelow_skipped_iff : (f.writeBelow disk base overwrite).1 = .ok .skipped ↔
    (disk.has base = true → disk.isDirectory base = true) ∧ overwrite = .ifMissing
      ∧ disk.has (base.join f.path) = true := by
  rcases f.writeBelow_cases disk base overwrite with ⟨hhas, hfile, hresult⟩
    | ⟨hbase, ⟨hmode, htarget, hresult⟩ | ⟨hwrite, ⟨e, -, hresult⟩
      | ⟨text, result, after, -, -, hresult⟩⟩⟩
  · rw [hresult]
    refine ⟨nofun, fun ⟨hbase, _⟩ => ?_⟩
    rw [hbase hhas] at hfile
    cases hfile
  · rw [hresult]
    exact ⟨fun _ => ⟨hbase, hmode, htarget⟩, fun _ => rfl⟩
  · rw [hresult]
    exact ⟨nofun, fun hskip => absurd hskip.2 hwrite⟩
  · rw [hresult]
    refine ⟨fun hskipped => ?_, fun hskip => absurd hskip.2 hwrite⟩
    cases result <;> cases hskipped

/-- The tree is touched only if the file is to be written and its text is complete. -/
theorem writeBelow_untouched
    (h : (f.writeBelow disk base overwrite).1 = .ok .skipped ∨ ∃ e, f.render = .error e) :
    (f.writeBelow disk base overwrite).2 = disk := by
  rcases f.writeBelow_cases disk base overwrite with ⟨-, -, hresult⟩
    | ⟨-, ⟨-, -, hresult⟩ | ⟨-, ⟨e, -, hresult⟩ | ⟨text, result, after, hrender, -, hresult⟩⟩⟩
  · rw [hresult]
  · rw [hresult]
  · rw [hresult]
  · rcases h with hskipped | ⟨e, he⟩
    · rw [hresult] at hskipped
      cases result <;> cases hskipped
    · rw [hrender] at he
      cases he

variable {f disk base overwrite}

theorem writtenAt_of_writeBelow {after : Disk}
    (h : f.writeBelow disk base overwrite = (.ok .written, after)) :
    ∃ text place, f.render = .ok text
      ∧ Disk.WrittenAt disk after (base.join f.path) text place := by
  rcases f.writeBelow_cases disk base overwrite with ⟨-, -, hresult⟩
    | ⟨-, ⟨-, -, hresult⟩ | ⟨-, ⟨e, -, hresult⟩ | ⟨text, result, _, hrender, hfile, hresult⟩⟩⟩
  · rw [hresult] at h
    cases h
  · rw [hresult] at h
    cases h
  · rw [hresult] at h
    cases h
  · rw [hresult] at h
    obtain ⟨hwritten, rfl⟩ := Prod.mk.inj h
    cases result with
    | error fault => cases hwritten
    | ok =>
      obtain ⟨place, hplace⟩ := Disk.writtenAt_writeFile hfile
      exact ⟨text, place, hrender, hplace⟩

end Write

/-- **Writing a file touches its own path only, and nothing until its text is complete.**
    The tree stays as it is if the output directory is none, if the text cannot be made and
    if the file is skipped, which happens exactly if it is asked for and something is there.
    Otherwise the text stands where the names of the path lead below the output directory,
    and the directories on the way are all that is new besides. -/
theorem writeBelow_confined {f : SourceFile} (h : Obtainable (.built .file f)) (disk : Disk)
    (base : Path) (overwrite : Overwrite) :
    (disk.has base = true ∧ disk.isDirectory base = false →
      f.writeBelow disk base overwrite = (.error (.notDirectory base), disk))
    ∧ (∀ e, f.render = .error e → (f.writeBelow disk base overwrite).2 = disk)
    ∧ ((f.writeBelow disk base overwrite).1 = .ok .skipped →
      (f.writeBelow disk base overwrite).2 = disk)
    ∧ ((f.writeBelow disk base overwrite).1 = .ok .skipped ↔
      (disk.has base = true → disk.isDirectory base = true) ∧ overwrite = .ifMissing
        ∧ disk.has (base.join f.path) = true)
    ∧ (∀ after, f.writeBelow disk base overwrite = (.ok .written, after) →
      ∃ text dir, f.render = .ok text ∧ after.read? (base.join f.path) = some text
        ∧ after.locate? base = some dir
        ∧ Disk.WrittenAt disk after (base.join f.path) text (dir ++ f.path)
        ∧ (Path.up ∉ base → ∀ q, q ≠ dir ++ f.path → disk.get? q = none →
          (after.get? q).isSome = true → q <+: dir ++ f.path))
    ∧ (∃ segments, f.path = segments ++ [f.typeName ++ ".cs"]
      ∧ Text.join "." segments = f.space ∧ ∀ segment ∈ f.path, Path.Plain segment)
    ∧ ∀ g, Obtainable (.built .file g) → g.path = f.path →
      g.space = f.space ∧ g.typeName = f.typeName := by
  obtain ⟨segments, hpath, hspace, hplain⟩ := path_of_obtainable h
  refine ⟨fun ⟨hhas, hfile⟩ => by simp [writeBelow, hhas, hfile],
    fun e he => f.writeBelow_untouched disk base overwrite (.inr ⟨e, he⟩),
    fun hskipped => f.writeBelow_untouched disk base overwrite (.inl hskipped),
    f.writeBelow_skipped_iff disk base overwrite, fun after hwritten => ?_,
    ⟨segments, hpath, hspace, hplain⟩, fun g hg hsame => names_eq_of_path h hg hsame⟩
  obtain ⟨text, place, hrender, hplace⟩ := writtenAt_of_writeBelow hwritten
  obtain ⟨dir, hdir, rfl⟩ := Disk.locate?_join (by simp [hpath])
    (fun segment hmem => (hplain segment hmem).leads_down) hplace.located
  refine ⟨text, dir, hrender, hplace.read?, hdir, hplace, fun hup q hq hbefore hafter => ?_⟩
  refine hplace.fresh_above (fun hmem => ?_) hq hbefore hafter
  rcases Path.mem_of_mem_join hmem with hbase | hrest
  · exact hup hbase
  · exact (hplain _ hrest).above rfl

/-- A class in a namespace of two segments. -/
def program : SourceFile := .bare "App.Core" (.bareClass "Main" [] [])

/-- An output directory that holds the first of them, and a file beside it. -/
def outputTree : Disk :=
  ⟨[(["out"], .directory), (["out", "App"], .directory), (["notes"], .file "keep")]⟩

theorem writeBelow_confined_program : Obtainable (.built .file program)
    ∧ ∃ after text, program.writeBelow outputTree ["out", ""] .ifMissing = (.ok .written, after)
      ∧ program.render = .ok text
      ∧ after.read? ["out", "App", "Core", "Main.cs"] = some text
      ∧ outputTree.has ["out", "App", "Core"] = false
      ∧ after.isDirectory ["out", "App", "Core"] = true
      ∧ program.writeBelow after ["out"] .ifMissing = (.ok .skipped, after)
      ∧ program.writeBelow after ["notes"] .always = (.error (.notDirectory ["notes"]), after) := by
  have hprogram : Obtainable (.built .file program) := by
    have htype : Obtainable (.built .type program.type) :=
      obtainable_bareClass (by decide) (by simp)
    exact .built (.opened (.file "App.Core" program.type) (List.forall_mem_singleton.mpr htype)) rfl
  obtain ⟨after, hwritten, hdirectory, hbase, htarget, hnotes⟩ :
      ∃ after, program.writeBelow outputTree ["out", ""] .ifMissing = (.ok .written, after)
        ∧ after.isDirectory ["out", "App", "Core"] = true ∧ after.isDirectory ["out"] = true
        ∧ after.has (Path.join ["out"] program.path) = true
        ∧ after.has ["notes"] = true ∧ after.isDirectory ["notes"] = false :=
    ⟨_, rfl, by decide +kernel⟩
  obtain ⟨-, -, -, -, hafter, -⟩ := writeBelow_confined hprogram outputTree ["out", ""] .ifMissing
  obtain ⟨text, -, hrender, hread, -⟩ := hafter after hwritten
  obtain ⟨-, -, hkept, hskipped, -⟩ := writeBelow_confined hprogram after ["out"] .ifMissing
  have hskip := hskipped.mpr ⟨fun _ => hbase, rfl, htarget⟩
  obtain ⟨hrefused, -⟩ := writeBelow_confined hprogram after ["notes"] .always
  exact ⟨hprogram, after, text, hwritten, hrender, hread, by decide +kernel, hdirectory,
    Prod.ext hskip (hkept hskip), hrefused hnotes⟩

end SourceFile

end CSharpGen
