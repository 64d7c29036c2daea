import CodeMigration.Proofs.UploadFolders
import CodeMigration.Proofs.UploadSteps

/-! # Archives whose jobs are deleted

A job can be deleted before its task starts, while the task waits, and behind its end. What is left then depends on
that. Only behind the end nothing is left. A job that is deleted earlier leaves its directory, and one that is deleted
while its task waits leaves a result too, since a deletion looks for the directory by the result, and the task enters
the result whether its job is listed or not. -/

namespace CodeMigration

open Act

variable {t : FileTree} {content? : Option Text.Bytes}

namespace FileTree

/-- A directory without an entry of some name. Nothing in it is called like a step back. -/
def Lacks (t : FileTree) (p : List String) (name : String) : Prop :=
  ∃ entries, t.at? p = some (dir entries) ∧ entries.lookup name = none ∧ (dir entries).Named (· ≠ "..")

theorem Lacks.deposit {t' : FileTree} {p rest : List String} {name first : String}
    (h : t.Lacks p name) (hp : p ≠ []) (hname : name.utf8ByteSize ≤ 255) (hfirst : first ≠ name)
    (hback : ".." ∉ first :: rest) (hput : t.deposit (p ++ first :: rest, content?) = .ok t') : t'.Lacks p name := by
  obtain ⟨entries, hat, hlookup, hnamed⟩ := h
  obtain ⟨entries', hinside, hat'⟩ := deposit_append hp hat hput
  have hnames : ∀ x ∈ first :: rest, x ≠ ".." := fun x hx heq => hback (heq ▸ hx)
  refine ⟨entries', hat', ?_, (hereditary_named _).deposit hnamed hnames hinside⟩
  have hapart : Apart (first :: rest) [name] :=
    ⟨fun hleads => hfirst (List.cons_prefix_cons.1 hleads).1,
      fun hleads => hfirst (List.cons_prefix_cons.1 hleads).1.symm⟩
  have hsame := at?_deposit hinside hapart
  rw [at?_dir_cons hname, at?_dir_cons hname, hlookup] at hsame
  simpa using hsame

end FileTree

namespace Disk

def Lacks (d : Disk) (dir : FilePath) (name : String) : Prop := (d.treeOf dir).Lacks dir.parts name

/-- A path that leads into a directory, and there through an entry of another name. -/
structure Beside (dir : FilePath) (name : String) (p : FilePath) : Prop where
  root : p.root = dir.root
  parts : ∃ first rest, p.parts = dir.parts ++ first :: rest ∧ first ≠ name ∧ ".." ∉ first :: rest

section
variable {d d' : Disk} {dir p : FilePath} {name : String}

theorem Beside.append (h : Beside dir name p) {more : List String} (hmore : ".." ∉ more) :
    Beside dir name ⟨p.root, p.parts ++ more⟩ := by
  obtain ⟨first, rest, hparts, hfirst, hback⟩ := h.parts
  refine ⟨h.root, first, rest ++ more, ?_, hfirst, ?_⟩
  · rw [hparts, List.append_assoc, List.cons_append]
  · rw [← List.cons_append, List.mem_append]
    exact not_or_intro hback hmore

theorem Beside.straight (h : Beside dir name p) (hdir : ".." ∉ dir.parts) : ".." ∉ p.parts := by
  obtain ⟨first, rest, hparts, -, hback⟩ := h.parts
  rw [hparts, List.mem_append]
  exact not_or_intro hdir hback

theorem Lacks.deposit (h : d.Lacks dir name) (hdir : ".." ∉ dir.parts) (hne : dir.parts ≠ [])
    (hname : name.utf8ByteSize ≤ 255) (hp : Beside dir name p)
    (hput : d.deposit p content? = .ok d') : d'.Lacks dir name := by
  have htree := treeOf_of_deposit hp.root (hp.straight hdir) hput
  obtain ⟨first, rest, hparts, hfirst, hback⟩ := hp.parts
  rw [hparts] at htree
  exact FileTree.Lacks.deposit h hne hname hfirst hback htree

theorem Lacks.exists_write (h : d.Lacks dir name) (hdir : ".." ∉ dir.parts) (hname : name.utf8ByteSize ≤ 255)
    (hback : name ≠ "..") (content : Text.Bytes) :
    ∃ d', d.write ⟨dir.root, dir.parts ++ [name]⟩ content = .ok d' ∧ d'.isDir dir = true := by
  obtain ⟨entries, hat, hlookup, -⟩ := h
  obtain ⟨t', ht'⟩ := FileTree.exists_write_new hat hname hlookup content
  have hstraight : ".." ∉ dir.parts ++ [name] := by
    rw [List.mem_append, List.mem_singleton]
    exact not_or_intro hdir hback.symm
  have hwrite : d.write ⟨dir.root, dir.parts ++ [name]⟩ content = .ok (d.withTree dir t') := by
    rw [Disk.write, update_of_not_mem hstraight]
    exact congrArg (Except.map (d.withTree dir)) ht'
  refine ⟨_, hwrite, ?_⟩
  obtain ⟨-, entries', hfind⟩ := FileTree.find_of_update ht' (List.prefix_append _ _) (by simp)
  rw [Disk.isDir, find_of_not_mem hdir, treeOf_withTree rfl, hfind]
  rfl

theorem Lacks.isDir (h : d.Lacks dir name) (hdir : ".." ∉ dir.parts) : d.isDir dir = true := by
  obtain ⟨entries, hat, -⟩ := h
  rw [Disk.isDir, find_of_not_mem hdir, FileTree.at?_eq_some.1 hat]
  rfl

theorem isThere_removeDir (h : d.isDir dir = true) (hdir : ".." ∉ dir.parts) (hne : dir.parts ≠ []) :
    ((d.removeDir dir).toOption.getD d).isThere dir = false := by
  rw [Disk.isDir, find_of_not_mem hdir] at h
  split at h
  case h_2 => cases h
  case h_1 t ht =>
    cases t with
    | file content => cases h
    | dir entries =>
      obtain ⟨t', ht'⟩ := FileTree.exists_removeDir (FileTree.at?_eq_some.2 ht)
      have hremoved : d.removeDir dir = .ok (d.withTree dir t') := by
        rw [removeDir, update_of_not_mem hdir, ht']
        rfl
      obtain ⟨r, hr, hat⟩ := FileTree.at?_update_self ht'
      rw [FileTree.at?_eq_some.2 ht] at hr
      cases hr
      rw [if_neg hne] at hat
      rw [hremoved]
      change (d.withTree dir t').isThere dir = false
      rw [isThere_eq_false_iff_at? hdir, treeOf_withTree rfl, hat]

theorem Lacks.named (h : d.Lacks dir name) (hdir : ".." ∉ dir.parts) (hp : Beside dir name p)
    (ht : d.find p = .ok t) : t.Named (· ≠ "..") := by
  obtain ⟨entries, hat, -, hnamed⟩ := h
  have hsame : d.treeOf p = d.treeOf dir := by rw [treeOf, treeOf, hp.root]
  rw [find_of_not_mem (hp.straight hdir)] at ht
  obtain ⟨first, rest, hparts, -, hback⟩ := hp.parts
  rw [hsame, hparts, FileTree.find_append, FileTree.at?_eq_some.1 hat] at ht
  exact hnamed.of_find ht

end

end Disk

namespace Service

variable {q : Pause} {w w' : World} {u : Upload} {x : Stage}

namespace Upload

variable (u : Upload)

theorem resultPath_eq : u.resultPath = ⟨u.workDir.root, u.workDir.parts ++ ["result.zip"]⟩ :=
  child_of_isName (by decide)

theorem parent_resultPath : u.resultPath.parent = u.workDir := by
  rw [resultPath_eq, FilePath.parent, List.dropLast_concat]

theorem beside_sourceDir : Disk.Beside u.workDir "result.zip" u.sourceDir := by
  rw [sourceDir, child_of_isName (by decide)]
  exact ⟨rfl, "source", [], rfl, by decide, by decide⟩

theorem beside_outputDir : Disk.Beside u.workDir "result.zip" u.outputDir := by
  rw [outputDir, child_of_isName (by decide)]
  exact ⟨rfl, "output", [], rfl, by decide, by decide⟩

theorem beside_migratedDir : Disk.Beside u.workDir "result.zip" u.migratedDir := by
  rw [migratedDir, child_of_isName (by decide)]
  exact u.beside_outputDir.append (by decide)

end Upload

/-- The directory of an archive is there, without a result. -/
def Upload.Waits (u : Upload) (w : World) : Prop := w.disk.Lacks u.workDir "result.zip"

section
variable {u : Upload} {o : Outside} {w w' : World} (hu : u.IsPlaced)
variable {code : FilePath}
include hu

theorem deposit_waits {text : String} {p : FilePath} (hp : Disk.Beside u.workDir "result.zip" p)
    (content? : Option Text.Bytes) : Keeps o u.Waits (fun _ => True) (onDisk text (·.deposit p content?)) :=
  .onDisk fun _ _ hw hput => Disk.Lacks.deposit hw hu.straight hu.named (by decide) hp hput

theorem extract_waits {dir : FilePath} (hdir : Disk.Beside u.workDir "result.zip" dir) (es : List ArchiveEntry) :
    Keeps o u.Waits (fun _ => True) (extract dir es) := by
  induction es with
  | nil => exact .pure trivial
  | cons e es ih =>
    have hparts : ".." ∉ e.parts := by simp [ArchiveEntry.parts]
    refine .bind (Q := fun _ => True) ?_ fun _ _ => ih
    cases hkind : e.isDir with
    | true => exact deposit_waits hu (hdir.append hparts) none
    | false => exact deposit_waits hu (hdir.append hparts) (some e.content)

theorem beside_codeDir (hw : u.Waits w) : Disk.Beside u.workDir "result.zip" (codeDir w.disk u.sourceDir) := by
  unfold codeDir
  split
  case h_1 name head tail hfind =>
    have hnamed := Disk.Lacks.named hw hu.straight u.beside_sourceDir hfind
    have hname : name ≠ ".." := (FileTree.named_dir.1 hnamed _ List.mem_cons_self).1
    apply u.beside_sourceDir.append
    rw [List.mem_singleton]
    exact hname.symm
  case h_2 => exact u.beside_sourceDir

theorem back_not_mem_of_mem_sourcesBelow (hw : u.Waits w)
    (hcode : Disk.Beside u.workDir "result.zip" code) {source : List String}
    (h : source ∈ sourcesBelow w.disk code) : ".." ∉ source := by
  unfold sourcesBelow at h
  split at h
  case h_1 t ht =>
    have hnamed := Disk.Lacks.named hw hu.straight hcode ht
    obtain ⟨hmem, -⟩ := List.mem_filter.1 h
    obtain ⟨e, he, rfl⟩ := List.mem_map.1 hmem
    exact fun hback => hnamed e (List.mem_mergeSort.1 he) ".." hback rfl
  case h_2 => cases h

theorem back_not_mem_of_mem_filesBelow (hw : u.Waits w)
    (hcode : Disk.Beside u.workDir "result.zip" code) {file : FilePath × Text.Bytes}
    (h : file ∈ w.disk.filesBelow code) : ".." ∉ file.1.parts.drop code.parts.length := by
  unfold Disk.filesBelow at h
  split at h
  case h_1 t ht =>
    have hnamed := Disk.Lacks.named hw hu.straight hcode ht
    obtain ⟨q, hq, rfl⟩ := List.mem_map.1 h
    obtain ⟨e, he, hkind⟩ := List.mem_filterMap.1 hq
    obtain ⟨path, v⟩ := e
    cases v with
    | dir entries => cases hkind
    | file content =>
      cases hkind
      rw [List.drop_left]
      exact fun hback => hnamed _ he ".." hback rfl
  case h_2 => cases h

theorem unpack_waits : Keeps o u.Waits (fun r => ∀ s ∈ r.1, ".." ∉ s) (unpack u) := by
  refine .bind (deposit_waits hu u.beside_sourceDir none) fun _ _ => .look fun w _ => ?_
  have hfail (f : Failure) : Keeps o u.Waits (fun r => ∀ s ∈ r.1, ".." ∉ s)
      (fail f : Act (List (List String) × Progress)) := fun w hw => ⟨hw, fun _ h => by cases h⟩
  cases w.disk.readBytes u.archive with
  | error fault => exact hfail _
  | ok bytes =>
    refine .outside (.bind (extract_waits hu u.beside_sourceDir _) fun _ _ => ?_)
    cases (Archive.ofBytes o.packing bytes).failure with
    | some f => exact hfail f
    | none =>
      refine .look fun w hw => ?_
      have hcode := beside_codeDir hu hw
      refine .bind (Q := fun _ => True) (fun w hw => ⟨hw, fun _ _ => trivial⟩) fun _ _ => ?_
      refine .bind (deposit_waits hu u.beside_outputDir none) fun _ _ => ?_
      refine .bind (deposit_waits hu u.beside_migratedDir none) fun _ _ => ?_
      refine .bind (.forIn (fun file hfile _ => ?_) _) fun _ _ => .pure ?_
      · have hback := back_not_mem_of_mem_filesBelow hu hw hcode hfile
        exact .bind (deposit_waits hu (u.beside_migratedDir.append hback) (some _)) fun _ _ => .pure trivial
      · exact fun s hs => back_not_mem_of_mem_sourcesBelow hu hw hcode hs

theorem settle_waits (hq : ".." ∉ q.source) : Keeps o u.Waits (fun _ => True) (settle u q) := by
  refine .ite (.bind (.attempt (deposit_waits hu (u.beside_migratedDir.append hq) (some _))) fun _ _ => ?_)
    (.pure trivial)
  exact .pure trivial

end

/-- Whether a job is listed, and its result. -/
def seen (id : String) (w : World) : Bool × Option FilePath := (w.registry.has id, w.registry.results.lookup id)

theorem Edited.seen_eq {id : String} (h : Edited w.registry id w'.registry) :
    seen id w' = seen id w := by
  obtain ⟨f, -, hf⟩ := h
  rw [seen, hf]
  rfl

theorem lookup_dropResult (r : Registry) (id : String) : (r.dropResult id).results.lookup id = none := by
  rw [List.lookup_eq_none_iff]
  intro p hp
  have hne := ((r.mem_dropResult id).1 hp).2
  simpa using hne.symm

theorem lookup_setResult (r : Registry) (id : String) (path : FilePath) :
    (r.setResult id path).results.lookup id = some path := by
  rw [Registry.setResult, List.lookup_append, lookup_dropResult, Option.none_or, List.lookup_cons_self]

theorem seen_deleted (id : String) (w : World) : seen id (deleted id w) = (false, none) := by
  have hlisted : (w.registry.unlist id).has id = false := by rw [Registry.has_unlist, bne_self_eq_false, Bool.and_false]
  exact Prod.ext hlisted (lookup_dropResult (w.registry.unlist id) id)

section
variable {u : Upload} {o : Outside} {w w' : World}

/-- Paths of sources that are left, and of the one that is migrated. -/
structure Pause.IsStraight (q : Pause) : Prop where
  source : ".." ∉ q.source
  rest : ∀ s ∈ q.rest, ".." ∉ s

/-- What a turn of a task comes to, if it does not break off: it waits again, or there is a result. -/
inductive Reaches (u : Upload) (w : World) : Option Pause → World → Prop where
  | pause {q : Pause} {w' : World} (hq : q.IsStraight) (hwaits : u.Waits w') (hseen : seen u.id w' = seen u.id w) :
      Reaches u w (some q) w'
  | result {w' : World} (hseen : seen u.id w' = ((seen u.id w).1, some u.resultPath))
      (hdir : w'.disk.isDir u.workDir = true) : Reaches u w none w'

theorem Reaches.of_seen {q : Option Pause} {w₁ : World} (h : Reaches u w₁ q w') (hseen : seen u.id w₁ = seen u.id w) :
    Reaches u w q w' := by
  cases h with
  | pause hq hwaits hsame => exact .pause hq hwaits (hsame.trans hseen)
  | result hsame hdir => exact .result (hseen ▸ hsame) hdir

/-- A result can be written as long as the directory waits for it. -/
theorem pack_reaches (hu : u.IsPlaced) (hwaits : u.Waits w) (p : Progress) :
    ∃ w', (pack u p).runIn o w = (.ok (), w') ∧ Reaches u w none w' := by
  obtain ⟨disk, hwrite, hdir⟩ := Disk.Lacks.exists_write hwaits hu.straight (by decide) (by decide)
    ((packed w.disk u.migratedDir).toBytes o.packing)
  rw [← u.resultPath_eq] at hwrite
  obtain ⟨fault, f, herror, -, -⟩ | ⟨disk', f, hok, -, hrun⟩ := pack_runIn u p o w
  · rw [hwrite] at herror
    cases herror
  · obtain rfl := Except.ok.inj (hwrite.symm.trans hok)
    exact ⟨_, hrun, .result (Prod.ext rfl (lookup_setResult _ _ _)) hdir⟩

theorem advance_reaches (hu : u.IsPlaced) (hwaits : u.Waits w) (p : Progress) {sources : List (List String)}
    (hsources : ∀ s ∈ sources, ".." ∉ s) :
    ∃ q w', (advance u p sources).runIn o w = (.ok q, w') ∧ Reaches u w q w' := by
  obtain ⟨q, hrun, hsource, hrest, -⟩ | ⟨r, w', hpack, hrun⟩ := advance_cases u o p sources w
  · exact ⟨some q, w, hrun, .pause ⟨hsources _ hsource, fun s hs => hsources s (hrest hs)⟩ hwaits rfl⟩
  · obtain ⟨w₁, hok, hreaches⟩ := pack_reaches (o := o) hu hwaits p
    obtain ⟨rfl, rfl⟩ := Prod.mk.inj (hpack.symm.trans hok)
    exact ⟨none, w', hrun, hreaches⟩

/-- A task that waits goes on to the next source or to the result, whether its job is listed or not. -/
theorem resume_reaches (hu : u.IsPlaced) (hwaits : u.Waits w) (hq : q.IsStraight) :
    ∃ q' w', (guarded u none (resume u q)).runIn o w = (.ok q', w') ∧ Reaches u w q' w' := by
  obtain ⟨p, w₁, hsettle⟩ := exists_settle u o q w
  obtain ⟨hwaits₁, -⟩ := settle_waits hu hq.source (o := o) w hwaits
  obtain ⟨hregistry, -⟩ := keeps_of_offRegistry (o := o) (I := (· = w.registry)) (settle_madeOf u q) w rfl
  rw [hsettle] at hwaits₁ hregistry
  have hseen : seen u.id w₁ = seen u.id w := by rw [seen, hregistry, seen]
  obtain ⟨q', w', hrun, hreaches⟩ := advance_reaches (o := o) hu hwaits₁ p hq.rest
  exact ⟨q', w', guarded_ok ((resume_runIn hsettle).trans hrun) none, hreaches.of_seen hseen⟩

theorem giveUp_runIn (u : Upload) (f : Failure) (o : Outside) (w : World) :
    ∃ w', (giveUp u f).runIn o w = (.ok (), w') ∧ seen u.id w' = seen u.id w ∧
      w'.disk = (w.disk.removeDir u.workDir).toOption.getD w.disk := by
  rw [giveUp, runIn_bind_ok (updateJob_runIn o w _ _), removeQuietly_runIn]
  exact ⟨_, rfl, rfl, rfl⟩

/-- The first turn of a task does the same, or it breaks off and nothing is left of the directory. -/
theorem begin_reaches (hu : u.IsPlaced) (hwaits : u.Waits w) :
    (∃ q w', (guarded u none (begin u)).runIn o w = (.ok q, w') ∧ Reaches u w q w') ∨
    ∃ w', (guarded u none (begin u)).runIn o w = (.ok none, w') ∧ seen u.id w' = seen u.id w ∧
      w'.disk.isThere u.workDir = false := by
  obtain ⟨hwaits₁, hsources⟩ := unpack_waits hu (o := o) w hwaits
  obtain ⟨hedited, -⟩ := unpack_keeps u (o := o) w (.refl w.registry u.id)
  rcases hunpack : (unpack u).runIn o w with ⟨f | ⟨sources, p⟩, w₁⟩
  · right
    rw [hunpack] at hwaits₁ hedited
    obtain ⟨w', hgiveUp, hseen, hdisk⟩ := giveUp_runIn u f o w₁
    have hbegin : (begin u).runIn o w = (.error f, w₁) := runIn_bind_error hunpack _
    refine ⟨w', ?_, hseen.trans hedited.seen_eq, ?_⟩
    · rw [guarded_error hbegin, hgiveUp]
    · rw [hdisk]
      exact Disk.isThere_removeDir (Disk.Lacks.isDir hwaits₁ hu.straight) hu.straight hu.named
  · left
    rw [hunpack] at hwaits₁ hedited hsources
    obtain ⟨q, w', hrun, hreaches⟩ := advance_reaches (o := o) hu hwaits₁ p (hsources (sources, p) rfl)
    have hbegin : (begin u).runIn o w = (advance u p sources).runIn o w₁ := runIn_bind_ok hunpack _
    exact ⟨q, w', guarded_ok (hbegin.trans hrun) none, hreaches.of_seen hedited.seen_eq⟩

end

inductive Turn where
  | task
  | delete

def Scene.turn (u : Upload) (o : Outside) (s : Scene) : Turn → Scene
  | .task => s.goOn u o
  | .delete => ⟨s.stage, ((delete u.id).runIn o s.world).2⟩

def Scene.run (u : Upload) (o : Outside) (s : Scene) (turns : List Turn) : Scene := turns.foldl (Scene.turn u o) s

/-- Where a task and its job are as long as nobody has deleted the job. -/
inductive Undisturbed (u : Upload) : Scene → Prop where
  | scheduled {w : World} (hwaits : u.Waits w) (hseen : seen u.id w = (true, none)) : Undisturbed u ⟨.scheduled, w⟩
  | paused {q : Pause} {w : World} (hq : q.IsStraight) (hwaits : u.Waits w) (hseen : seen u.id w = (true, none)) :
      Undisturbed u ⟨.paused q, w⟩
  | completed {w : World} (hseen : seen u.id w = (true, some u.resultPath)) (hdir : w.disk.isDir u.workDir = true) :
      Undisturbed u ⟨.finished (.ok ()), w⟩
  | failed {w : World} (hseen : seen u.id w = (true, none)) (hgone : w.disk.isThere u.workDir = false) :
      Undisturbed u ⟨.finished (.ok ()), w⟩

/-- Where a task is after its job was deleted, by the stage at which that was done. -/
inductive Deserted (u : Upload) : Stage → Scene → Prop where
  | scheduled {w : World} (hseen : seen u.id w = (false, none)) (hdir : w.disk.isDir u.workDir = true) :
      Deserted u .scheduled ⟨.scheduled, w⟩
  | refused {w : World} (hseen : seen u.id w = (false, none)) (hdir : w.disk.isDir u.workDir = true) :
      Deserted u .scheduled ⟨.finished (.error (.noJob u.id)), w⟩
  | paused {q₀ q : Pause} {w : World} (hq : q.IsStraight) (hwaits : u.Waits w)
      (hseen : seen u.id w = (false, none)) : Deserted u (.paused q₀) ⟨.paused q, w⟩
  | completed {q₀ : Pause} {w : World} (hseen : seen u.id w = (false, some u.resultPath))
      (hdir : w.disk.isDir u.workDir = true) : Deserted u (.paused q₀) ⟨.finished (.ok ()), w⟩
  | cleared {r : Except Failure Unit} {w : World} (hseen : seen u.id w = (false, none))
      (hgone : w.disk.isThere u.workDir = false) : Deserted u (.finished r) ⟨.finished (.ok ()), w⟩

section
variable {u : Upload} {o : Outside} {s : Scene} (hu : u.IsPlaced) {w : World} {x : Stage}
variable {stage : Stage}

theorem Reaches.undisturbed {q : Option Pause} (h : Reaches u w q w')
    (hseen : seen u.id w = (true, none)) : Undisturbed u (.ofRun (.ok q, w')) := by
  cases h with
  | pause hq hwaits hsame => exact .paused hq hwaits (hsame.trans hseen)
  | result hsame hdir =>
    rw [hseen] at hsame
    exact .completed hsame hdir

include hu in
theorem Undisturbed.goOn (h : Undisturbed u s) : Undisturbed u (s.goOn u o) := by
  cases h with
  | @scheduled w hwaits hseen =>
    have hbegun : seen u.id (begun u w) = (true, none) := hseen
    rw [Scene.goOn_scheduled, start_of_listed (Prod.mk.inj hseen).1]
    obtain ⟨q, w', hrun, hreaches⟩ | ⟨w', hrun, hsame, hgone⟩ := begin_reaches (w := begun u w) (o := o) hu hwaits
    · rw [hrun]
      exact hreaches.undisturbed hbegun
    · rw [hrun]
      exact .failed (hsame.trans hbegun) hgone
  | paused hq hwaits hseen =>
    obtain ⟨q', w', hrun, hreaches⟩ := resume_reaches (o := o) hu hwaits hq
    rw [Scene.goOn_paused, hrun]
    exact hreaches.undisturbed hseen
  | completed hseen hdir => exact .completed hseen hdir
  | failed hseen hgone => exact .failed hseen hgone

include hu in
theorem Undisturbed.iterate (h : Undisturbed u s) (k : Nat) : Undisturbed u ((Scene.goOn u o)^[k] s) := by
  induction k generalizing s with
  | zero => exact h
  | succ k ih =>
    rw [Function.iterate_succ_apply]
    exact ih (h.goOn hu)

theorem turn_delete_of_listed (hlisted : w.registry.has u.id = true) :
    Scene.turn u o ⟨stage, w⟩ .delete = ⟨stage, deleted u.id w⟩ := by
  rw [Scene.turn, delete_runIn, if_pos hlisted]

theorem turn_delete_of_unlisted (hlisted : w.registry.has u.id = false) :
    Scene.turn u o ⟨stage, w⟩ .delete = ⟨stage, w⟩ := by
  rw [Scene.turn, delete_runIn, hlisted]
  rfl

theorem deleted_disk_of_none (h : w.registry.results.lookup u.id = none) : (deleted u.id w).disk = w.disk := by
  rw [deleted, h]

theorem deleted_disk_of_some {path : FilePath} (h : w.registry.results.lookup u.id = some path) :
    (deleted u.id w).disk = (w.disk.removeDir path.parent).toOption.getD w.disk := by
  rw [deleted, h]

include hu in
/-- A deletion takes the directory with it only if there is a result. -/
theorem Undisturbed.delete (h : Undisturbed u s) : Deserted u s.stage (s.turn u o .delete) := by
  cases h with
  | @scheduled w hwaits hseen =>
    obtain ⟨hlisted, hresult⟩ := Prod.mk.inj hseen
    rw [turn_delete_of_listed hlisted]
    refine .scheduled (seen_deleted u.id w) ?_
    rw [deleted_disk_of_none hresult]
    exact Disk.Lacks.isDir hwaits hu.straight
  | @paused q w hq hwaits hseen =>
    obtain ⟨hlisted, hresult⟩ := Prod.mk.inj hseen
    rw [turn_delete_of_listed hlisted]
    refine .paused hq ?_ (seen_deleted u.id w)
    rw [Upload.Waits, deleted_disk_of_none hresult]
    exact hwaits
  | @completed w hseen hdir =>
    obtain ⟨hlisted, hresult⟩ := Prod.mk.inj hseen
    rw [turn_delete_of_listed hlisted]
    refine .cleared (seen_deleted u.id w) ?_
    rw [deleted_disk_of_some hresult, u.parent_resultPath]
    exact Disk.isThere_removeDir hdir hu.straight hu.named
  | @failed w hseen hgone =>
    obtain ⟨hlisted, hresult⟩ := Prod.mk.inj hseen
    rw [turn_delete_of_listed hlisted]
    refine .cleared (seen_deleted u.id w) ?_
    rw [deleted_disk_of_none hresult]
    exact hgone

theorem Deserted.unlisted (h : Deserted u x s) : s.world.registry.has u.id = false := by
  cases h with
  | scheduled hseen | refused hseen | paused _ _ hseen | completed hseen | cleared hseen => exact (Prod.mk.inj hseen).1

include hu in
/-- No turn leads away from what the first deletion has decided. -/
theorem Deserted.turn (h : Deserted u x s) (t : Turn) : Deserted u x (s.turn u o t) := by
  cases t with
  | delete =>
    rw [turn_delete_of_unlisted h.unlisted]
    exact h
  | task =>
    cases h with
    | scheduled hseen hdir =>
      rw [Scene.turn, Scene.goOn_scheduled, start_of_unlisted (Prod.mk.inj hseen).1]
      exact .refused hseen hdir
    | refused hseen hdir => exact .refused hseen hdir
    | paused hq hwaits hseen =>
      obtain ⟨q', w', hrun, hreaches⟩ := resume_reaches (o := o) hu hwaits hq
      rw [Scene.turn, Scene.goOn_paused, hrun]
      cases hreaches with
      | pause hq' hwaits' hsame => exact .paused hq' hwaits' (hsame.trans hseen)
      | result hsame hdir =>
        rw [hseen] at hsame
        exact .completed hsame hdir
    | completed hseen hdir => exact .completed hseen hdir
    | cleared hseen hgone => exact .cleared hseen hgone

include hu in
theorem Deserted.run (h : Deserted u x s) (turns : List Turn) : Deserted u x (s.run u o turns) := by
  induction turns generalizing s with
  | nil => exact h
  | cons t turns ih => exact ih (h.turn hu t)

end

/-- What is there in the end, by the stage at which the job was deleted. -/
def Remains (u : Upload) (r : Except Failure Unit) (w : World) : Stage → Prop
  | .scheduled => r = .error (.noJob u.id) ∧ seen u.id w = (false, none) ∧ w.disk.isDir u.workDir = true
  | .paused _ => r = .ok () ∧ seen u.id w = (false, some u.resultPath) ∧ w.disk.isDir u.workDir = true
  | .finished _ => r = .ok () ∧ seen u.id w = (false, none) ∧ w.disk.isThere u.workDir = false

theorem Deserted.remains {s : Scene} (h : Deserted u x s) {r : Except Failure Unit}
    (hfinished : s.stage = .finished r) : Remains u r s.world x := by
  cases h with
  | scheduled | paused => cases hfinished
  | refused hseen hdir | completed hseen hdir =>
    cases hfinished
    exact ⟨rfl, hseen, hdir⟩
  | cleared hseen hgone =>
    cases hfinished
    exact ⟨rfl, hseen, hgone⟩

theorem identifier_isName (n : Nat) : FilePath.IsName (Registry.identifier n) := by
  obtain ⟨hslash, hlength⟩ := Registry.identifier_isPlain n
  refine ⟨?_, ?_, hslash⟩ <;> intro heq <;> rw [heq] at hlength <;> exact absurd hlength (by decide)

theorem ofString_identifier (n : Nat) :
    FilePath.ofString ("/tmp/" ++ Registry.identifier n) = ⟨"/", ["tmp", Registry.identifier n]⟩ := by
  have hnormal : FilePath.IsNormal ⟨"/", ["tmp", Registry.identifier n]⟩ := by
    refine ⟨.inr (.inl rfl), ?_⟩
    exact List.forall_mem_cons.2 ⟨by decide, List.forall_mem_singleton.2 (identifier_isName n)⟩
  rw [← hnormal.ofString_toString]
  rfl

section
variable {content : Text.Bytes} {u : Upload} {o : Outside} {w₀ w : World}

theorem TakenIn.isPlaced (h : TakenIn content u w₀ w) : u.IsPlaced := by
  have hworkDir : u.workDir = ⟨"/", ["tmp", u.id]⟩ := by
    rw [h.workDir, h.id]
    exact ofString_identifier _
  have hback : ".." ≠ u.id := by
    rw [h.id]
    intro heq
    have hlength := (Registry.identifier_isPlain w₀.registry.jobs.length).2
    rw [← Registry.nextId, ← heq] at hlength
    exact absurd hlength (by decide)
  constructor
  · rw [hworkDir]
    simp [hback]
  · rw [hworkDir]
    exact List.cons_ne_nil _ _

theorem TakenIn.archive_eq (h : TakenIn content u w₀ w) : u.archive = u.below ["upload.zip"] := by
  rw [h.archive, child_of_isName (by decide), Upload.below]

/-- The directory of an archive that was taken in holds the archive, and nothing else. -/
theorem TakenIn.inside?_eq (h : TakenIn content u w₀ w) (hnew : w₀.disk.isThere u.workDir = false) :
    u.inside? w.disk [] = some (.dir [("upload.zip", .file content)]) := by
  have hu := h.isPlaced
  have hparent : u.archive.parent = u.below [] := by
    rw [h.archive_eq, u.below_nil, Upload.below, FilePath.parent, List.dropLast_concat]
  obtain ⟨d, hmade, hwrite⟩ := of_bind_eq_ok h.disk
  rw [hparent] at hmade
  rw [h.archive_eq] at hwrite
  obtain ⟨hdir, -⟩ := u.inside?_makeDirs hu List.not_mem_nil (u.inside?_nil_of_isThere hu hnew) hmade
  have hroot : (u.below ["upload.zip"]).root = u.workDir.root := rfl
  have htree := Disk.treeOf_of_update hroot (u.straight_below hu (by decide)) hwrite
  rw [Upload.inside?, List.append_nil] at hdir ⊢
  obtain ⟨v, hv, hfind⟩ := FileTree.update_append (FileTree.at?_eq_some.1 hdir) (List.cons_ne_nil _ _) htree
  have hwritten : FileTree.write content (.dir []) ["upload.zip"] = .ok (.dir [("upload.zip", .file content)]) := rfl
  obtain rfl := Except.ok.inj (hv.symm.trans hwritten)
  exact FileTree.at?_eq_some.2 hfind

theorem TakenIn.waits (h : TakenIn content u w₀ w) (hnew : w₀.disk.isThere u.workDir = false) : u.Waits w := by
  have hinside := h.inside?_eq hnew
  rw [Upload.inside?, List.append_nil] at hinside
  have hback : "upload.zip" ≠ ".." := by decide
  refine ⟨_, hinside, ?_, FileTree.named_dir.2 (List.forall_mem_singleton.2 ⟨hback, FileTree.named_file _⟩)⟩
  rw [lookup_cons_eq_ite, if_neg (by decide)]
  rfl

end

/-- What is left of an archive whose job is deleted is decided by where its task was at the first deletion. The task can
always be brought to its end, and if nobody deletes the job, its turns do what it does in one go. -/
theorem deleted_upload_leaves_by_stage {name kind : String} {content : Text.Bytes} {u : Upload} {o : Outside}
    {w₀ w : World} (hstart : (startUpload name content kind).runIn o w₀ = (.ok u, w))
    (hresult : w₀.registry.results.lookup w₀.registry.nextId = none)
    (hnew : w₀.disk.isThere (.ofString ("/tmp/" ++ w₀.registry.nextId)) = false) :
    (∃ n, (Scene.goOn u o)^[n] ⟨.scheduled, w⟩ = .ofEnd ((processUpload u).runIn o w)) ∧
    ∀ (k : Nat) (turns : List Turn),
      let s := (Scene.goOn u o)^[k] ⟨.scheduled, w⟩
      let e := s.run u o (.delete :: turns)
      (∃ n r, ((Scene.goOn u o)^[n] e).stage = .finished r) ∧
      ∀ r, e.stage = .finished r → Remains u r e.world s.stage := by
  obtain ⟨code, text, hrun⟩ | ⟨j, w', -, hregistry, ⟨u', hrun, htaken⟩ | ⟨fault, path, hrun⟩⟩ :=
    startUpload_runIn o w₀ name content kind
  · cases hstart.symm.trans hrun
  · cases hstart.symm.trans hrun
    have hu := htaken.isPlaced
    have hseen : seen u.id w = (true, none) := by
      rw [seen, hregistry, htaken.id, Registry.has_add, beq_self_eq_true, Bool.or_true]
      exact congrArg (Prod.mk true) hresult
    have hworkDir : w₀.disk.isThere u.workDir = false := by
      rw [htaken.workDir, htaken.id]
      exact hnew
    have hscheduled : Undisturbed u ⟨.scheduled, w⟩ := .scheduled (htaken.waits hworkDir) hseen
    refine ⟨exists_goOn_scheduled u o w, fun k turns => ⟨exists_goOn_finished u o _, fun r hfinished => ?_⟩⟩
    have hdeserted := ((hscheduled.iterate hu k (o := o)).delete hu (o := o)).run hu (o := o) turns
    exact hdeserted.remains hfinished
  · cases hstart.symm.trans hrun

/-- Whether a task that is over came to its end without an error. -/
def Stage.success? : Stage → Option Bool
  | finished (.ok _) => some true
  | finished (.error _) => some false
  | _ => none

theorem Stage.exists_finished (h : x.success?.isSome = true) : ∃ r, x = .finished r := by
  cases x with
  | finished r => exact ⟨r, rfl⟩
  | _ => cases h

def smallArchive : Text.Bytes := Archive.toBytes {} [⟨"a.py", Text.encode "x = 1\n"⟩]

/-- How the task of a small archive ends, what is to be seen of its job then, and whether its directory is there. -/
def endOfSmallArchive (turns : List Turn) : Option (Option Bool × (Bool × Option FilePath) × Bool) :=
  match (startUpload "a.zip" smallArchive "py2to3").runIn {} {} with
  | (.ok u, w) =>
    let e := Scene.run u {} ⟨.scheduled, w⟩ turns
    some (e.stage.success?, seen u.id e.world, e.world.disk.isThere u.workDir)
  | (.error _, _) => none

theorem endOfSmallArchive_eq
    (h : (startUpload "a.zip" smallArchive "py2to3").runIn {} {} = (.ok u, w)) (turns : List Turn) :
    endOfSmallArchive turns = some ((Scene.run u {} ⟨.scheduled, w⟩ turns).stage.success?,
      seen u.id (Scene.run u {} ⟨.scheduled, w⟩ turns).world,
      (Scene.run u {} ⟨.scheduled, w⟩ turns).world.disk.isThere u.workDir) := by
  rw [endOfSmallArchive, h]

theorem deleted_upload_leaves_by_stage_smallArchive : ∃ u w r,
    (startUpload "a.zip" smallArchive "py2to3").runIn {} {} = (.ok u, w) ∧
    (Scene.run u {} (Scene.goOn u {} ⟨.scheduled, w⟩) [.delete, .task]).stage = .finished r ∧
    Remains u r (Scene.run u {} (Scene.goOn u {} ⟨.scheduled, w⟩) [.delete, .task]).world
      (Scene.goOn u {} ⟨.scheduled, w⟩).stage := by
  obtain ⟨u, w, hstart⟩ : ∃ u w, (startUpload "a.zip" smallArchive "py2to3").runIn {} {} = (.ok u, w) :=
    exists_runIn_ok (by decide +kernel)
  have hends : (endOfSmallArchive [.task, .delete, .task]).any (·.1.isSome) = true := by decide +kernel
  rw [endOfSmallArchive_eq hstart, Option.any_some] at hends
  obtain ⟨r, hfinished⟩ := Stage.exists_finished hends
  obtain ⟨-, hdeleted⟩ := deleted_upload_leaves_by_stage hstart rfl (by decide +kernel)
  exact ⟨u, w, r, hstart, hfinished, (hdeleted 1 [.task]).2 r hfinished⟩

/-- A job that is deleted before its task starts makes the task fail, and one that is deleted while the task waits has a
result in the end. Both leave their directory. -/
theorem early_deletion_leaves_directory :
    endOfSmallArchive [.delete, .task] = some (some false, (false, none), true) ∧
    endOfSmallArchive [.task, .delete, .task] =
      some (some true, (false, some (.ofString ("/tmp/" ++ Registry.identifier 0 ++ "/result.zip"))), true) ∧
    endOfSmallArchive [.task, .task, .delete] = some (some true, (false, none), false) := by
  refine ⟨?_, ?_, ?_⟩ <;> decide +kernel

end Service

end CodeMigration
