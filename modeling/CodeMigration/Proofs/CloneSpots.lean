import CodeMigration.Proofs.KeptFiles
import CodeMigration.Proofs.PlainPaths

/-! # Where clones stand in the work directory

A repository is cloned to a directory of its own in the work directory. A migration that has cloned it touches nothing
else there; but before it clones, it clears the whole work directory, with everything that others have put there. -/

namespace CodeMigration

open Act

/-- A name that leads down. -/
def FilePath.IsPlain (s : String) : Prop := IsName s ∧ s ≠ ".."

instance (s : String) : Decidable (FilePath.IsPlain s) := inferInstanceAs (Decidable (_ ∧ _))

/-- The place of a clone: a name in a work directory. -/
structure CloneSpot where
  dir : FilePath
  name : String
  normal : dir.IsNormal
  straight : ".." ∉ dir.parts
  plain : FilePath.IsPlain name

namespace CloneSpot

def parts (s : CloneSpot) : List String := s.dir.parts ++ [s.name]

def path (s : CloneSpot) : FilePath := ⟨s.dir.root, s.parts⟩

def tree (s : CloneSpot) (d : Disk) : FileTree := d.treeOf s.dir

/-- A path that leads into a clone. -/
structure Owns (s : CloneSpot) (p : FilePath) : Prop where
  root : p.root = s.dir.root
  below : ∃ rest, rest ≠ [] ∧ p.parts = s.parts ++ rest ∧ ∀ name ∈ rest, FilePath.IsPlain name

section
variable {s : CloneSpot} {p : FilePath} {d d' : Disk}

theorem not_mem_append {rest : List String} (h : ∀ name ∈ rest, FilePath.IsPlain name) : ".." ∉ s.parts ++ rest := by
  intro hmem
  rcases List.mem_append.1 hmem with hmem | hmem
  · rcases List.mem_append.1 hmem with hmem | hmem
    · exact s.straight hmem
    · exact s.plain.2 (List.mem_singleton.1 hmem).symm
  · exact (h _ hmem).2 rfl

theorem not_mem_parts : ".." ∉ s.parts := by
  have h : ".." ∉ s.parts ++ [] := not_mem_append nofun
  rwa [List.append_nil] at h

theorem Owns.ofString_toString (h : s.Owns p) : FilePath.ofString p.toString = p := by
  obtain ⟨rest, -, hparts, hrest⟩ := h.below
  refine FilePath.IsNormal.ofString_toString ⟨h.root ▸ s.normal.root, fun name hname => ?_⟩
  rw [hparts, parts] at hname
  rcases List.mem_append.1 hname with hname | hname
  · rcases List.mem_append.1 hname with hname | hname
    · exact s.normal.parts name hname
    · exact List.mem_singleton.1 hname ▸ s.plain.1
  · exact (hrest name hname).1

theorem find_path : d.find s.path = (s.tree d).find s.parts := Disk.find_of_not_mem (p := s.path) not_mem_parts

theorem tree_of_update {f : FileTree → List String → Except FileFault FileTree} (hroot : p.root = s.dir.root)
    (hp : ".." ∉ p.parts) (h : d.update p f = .ok d') : f (s.tree d) p.parts = .ok (s.tree d') :=
  Disk.treeOf_of_update hroot hp h

/-- A path to another name in the work directory is none into the clone, and none above it. -/
theorem incomparable {other : String} (h : other ≠ s.name) (rest : List String) :
    ¬s.parts ++ rest <+: s.dir.parts ++ [other] ∧ ¬s.dir.parts ++ [other] <+: s.parts ++ rest := by
  rw [parts, List.append_assoc]
  simp only [List.prefix_append_right_inj]
  constructor
  · intro hp
    obtain ⟨hname, -⟩ := List.cons_prefix_cons.1 hp
    exact h hname.symm
  · intro hp
    obtain ⟨hname, -⟩ := List.cons_prefix_cons.1 hp
    exact h hname

end

/-- A change of the disk that leaves all other clones as they are, and brings none of its own. -/
structure Leaves (s : CloneSpot) (d d' : Disk) : Prop where
  others : ∀ other, other ≠ s.name →
    (s.tree d').find (s.dir.parts ++ [other]) = (s.tree d).find (s.dir.parts ++ [other])
  gone : (s.tree d).at? s.parts = none → (s.tree d').at? s.parts = none

/-- A migration that knows of no files but those of its clone. -/
structure KeepsTo (s : CloneSpot) (url : String) (h : Holdings) : Prop where
  url : h.repoUrl = url
  path : ∀ p, h.repoPath = some p → p = s.path
  files : ∀ p ∈ h.files, s.Owns p
  findings : ∀ f ∈ h.findings, s.Owns (.ofString f.place.file)

section
variable {s : CloneSpot} {url : String} {o : Outside} {d₀ d d' : Disk} {p : FilePath} {cloned : Option FilePath}

theorem Leaves.refl (s : CloneSpot) (d : Disk) : s.Leaves d d := ⟨fun _ _ => rfl, id⟩

theorem Leaves.write (h : s.Leaves d₀ d) (hp : s.Owns p) {content : Text.Bytes} (hd : d.write p content = .ok d') :
    s.Leaves d₀ d' := by
  obtain ⟨rest, hne, hparts, hrest⟩ := hp.below
  have htree := tree_of_update hp.root (hparts ▸ not_mem_append hrest) hd
  rw [hparts] at htree
  refine ⟨fun other hother => ?_, fun hgone => ?_⟩
  · obtain ⟨hdown, hup⟩ := incomparable hother rest
    rw [FileTree.find_update_of_incomparable htree hdown hup, h.others other hother]
  · -- Writing needs a directory to write in, and there is none.
    obtain ⟨⟨entries, hentries⟩, -⟩ := FileTree.find_of_update htree (List.prefix_append s.parts rest)
      (by simpa using hne)
    have hnone := h.gone hgone
    rw [FileTree.at?_eq_some.2 hentries] at hnone
    cases hnone

/-- A migration that keeps to its clone, and has left the others as they were. -/
structure KeepsLeaving (s : CloneSpot) (url : String) (d₀ : Disk) (cloned : Option FilePath) (d : Disk)
    (hs : Holdings) : Prop where
  keeps : s.KeepsTo url hs
  leaves : s.Leaves d₀ d
  cloned : hs.repoPath = cloned

theorem act_keeps (h : o.IsQuiet) (c : Workflow.Crew) {n : Workflow.Node} (hn : n ≠ .clone) :
    Keeps o (Held (s.KeepsLeaving url d₀ cloned)) (fun _ => True) (n.act c) := by
  have hrun {act : Act Unit} (hact : Keeps o (Held (s.KeepsLeaving url d₀ cloned)) (fun _ => True) act) :
      Keeps o (Held (s.KeepsLeaving url d₀ cloned)) (fun _ => True) (Workflow.unlessFailed act) :=
    .look fun _ _ => .ite hact (.pure trivial)
  cases n with
  | clone => exact absurd rfl hn
  | planner =>
    refine hrun (Planner.run_keeps h _ (fun file => s.Owns (.ofString file)) (fun d hs hheld p hp => ?_)
      fun d hs fs hheld hfs => ?_)
    · have hp := hheld.keeps.files p hp
      rw [hp.ofString_toString]
      exact hp
    · exact ⟨⟨hheld.keeps.url, hheld.keeps.path, hheld.keeps.files, hfs⟩, hheld.leaves, hheld.cloned⟩
  | coder =>
    refine hrun (Coder.run_keeps h _ _ (fun file => s.Owns (.ofString file))
      (fun d hs hheld => hheld.keeps.findings) ?_)
    exact fun d hs file content d' hheld hfile hd => ⟨hheld.keeps, hheld.leaves.write hfile hd, hheld.cloned⟩
  | tester => exact hrun (.bind (.minor (.perform .counted trivial)) fun _ _ => Tester.run_keeps h _)
  | createPull =>
    refine .of_madeOf (Workflow.createPull_madeOf c) fun d hd => ?_
    unfold Deed.OfPull at hd
    split at hd <;> trivial
  | finalize =>
    refine .of_madeOf Workflow.finalize_madeOf fun d hd => ?_
    unfold Deed.OfEnd at hd
    split at hd <;> trivial

end

/-- Nothing is in the work directory. -/
def Cleared (s : CloneSpot) (d : Disk) : Prop := ∀ rest, rest ≠ [] → (s.tree d).at? (s.dir.parts ++ rest) = none

/-- Nothing but the clone is in the work directory, and all names in it are plain. -/
structure Sole (s : CloneSpot) (d : Disk) : Prop where
  others : ∀ other, other ≠ s.name → (s.tree d).at? (s.dir.parts ++ [other]) = none
  names : ∀ t, (s.tree d).at? s.parts = some t → t.Named FilePath.IsPlain

section
variable {s : CloneSpot} {d d' : Disk} {p : FilePath} {rest : List String}

theorem Cleared.sole (h : s.Cleared d) : s.Sole d := by
  refine ⟨fun other _ => h [other] (List.cons_ne_nil _ _), fun t ht => ?_⟩
  rw [parts, h [s.name] (List.cons_ne_nil _ _)] at ht
  cases ht

theorem cleared_of_update {f : Option FileTree → Except FileFault (Option FileTree)}
    (hf : ∀ x r, f x = .ok r → r = none) (h : d.update s.dir (FileTree.update f) = .ok d') : s.Cleared d' := by
  intro rest hrest
  obtain ⟨r, hr, hat⟩ := FileTree.at?_update_self (tree_of_update rfl s.straight h)
  rw [FileTree.at?_append, hat, hf _ _ hr]
  obtain ⟨name, rest, rfl⟩ := List.exists_cons_of_ne_nil hrest
  split
  · exact FileTree.at?_empty_cons name rest
  · rfl

theorem cleared_of_removeDir (h : d.removeDir s.dir = .ok d') : s.Cleared d' := by
  refine cleared_of_update (fun x r hr => ?_) h
  split at hr <;> cases hr
  rfl

theorem cleared_of_removeFile (h : d.removeFile s.dir = .ok d') : s.Cleared d' := by
  refine cleared_of_update (fun x r hr => ?_) h
  split at hr <;> cases hr
  rfl

theorem cleared_of_removeDir_error {fault : FileFault} (h : d.removeDir s.dir = .error fault) : s.Cleared d := by
  intro rest hrest
  obtain ⟨name, rest, rfl⟩ := List.exists_cons_of_ne_nil hrest
  rw [FileTree.at?_append]
  cases hdir : (s.tree d).at? s.dir.parts with
  | none => rfl
  | some t =>
    cases t with
    | file content => rfl
    | dir entries =>
      obtain ⟨t', ht'⟩ := FileTree.exists_removeDir hdir
      have htree : FileTree.removeDir (d.treeOf s.dir) s.dir.parts = .ok t' := ht'
      rw [Disk.removeDir, Disk.update_of_not_mem s.straight, htree] at h
      cases h

theorem Sole.removeDir (h : s.Sole d) (hd : d.removeDir s.path = .ok d') : s.Sole d' := by
  have htree := tree_of_update (s := s) (p := s.path) rfl not_mem_parts hd
  refine ⟨fun other hother => ?_, fun t ht => ?_⟩
  · obtain ⟨hdown, hup⟩ := incomparable hother []
    rw [List.append_nil] at hdown hup
    rw [FileTree.at?, FileTree.find_update_of_incomparable htree hdown hup]
    exact h.others other hother
  · obtain ⟨r, hr, hat⟩ := FileTree.at?_update_self htree
    obtain rfl : r = none := by
      split at hr <;> cases hr
      rfl
    have hne : s.path.parts ≠ [] := by simp [path, parts]
    rw [if_neg hne] at hat
    cases hat.symm.trans ht

theorem Sole.makeDirs (h : s.Sole d) (hd : d.makeDirs p = .ok d') (hroot : p.root = s.dir.root)
    (hparts : p.parts = s.parts ++ rest) (hrest : ∀ name ∈ rest, FilePath.IsPlain name) : s.Sole d' := by
  have htree := tree_of_update hroot (hparts ▸ not_mem_append hrest) hd
  rw [hparts] at htree
  refine ⟨fun other hother => ?_, fun t ht => ?_⟩
  · rw [FileTree.at?_makeDirs htree (incomparable hother rest).2]
    exact h.others other hother
  · obtain ⟨u, hu, hat⟩ := FileTree.makeDirs_append htree
    cases hat.symm.trans ht
    refine (FileTree.hereditary_named _).makeDirs ?_ hrest hu
    cases hbefore : (s.tree d).at? s.parts with
    | none => exact FileTree.named_empty
    | some u => exact h.names u hbefore

theorem Sole.write (h : s.Sole d) (hp : s.Owns p) {content : Text.Bytes} (hd : d.write p content = .ok d') :
    s.Sole d' := by
  obtain ⟨rest, hne, hparts, hrest⟩ := hp.below
  have htree := tree_of_update hp.root (hparts ▸ not_mem_append hrest) hd
  rw [hparts] at htree
  refine ⟨fun other hother => ?_, fun t ht => ?_⟩
  · obtain ⟨hdown, hup⟩ := incomparable hother rest
    rw [FileTree.at?, FileTree.find_update_of_incomparable htree hdown hup]
    exact h.others other hother
  · obtain ⟨⟨entries, hentries⟩, -⟩ := FileTree.find_of_update htree (List.prefix_append s.parts rest)
      (by simpa using hne)
    obtain ⟨u, hu, hat⟩ := FileTree.update_append hentries hne htree
    rw [FileTree.at?_eq_some, hat] at ht
    cases ht
    exact (FileTree.hereditary_named _).write (h.names _ (FileTree.at?_eq_some.2 hentries)) hrest hu

theorem Sole.place {file : FilePath} (h : s.Sole d) (hroot : file.root = "") (hne : file.parts ≠ [])
    (hfile : ∀ name ∈ file.parts, FilePath.IsPlain name) {content : Text.Bytes}
    (hd : d.place (s.path.join file) content = .ok d') : s.Sole d' := by
  have hjoin : s.path.join file = ⟨s.dir.root, s.parts ++ file.parts⟩ := by
    rw [FilePath.join, hroot]
    rfl
  rw [hjoin] at hd
  obtain ⟨d₁, hmade, hwrite⟩ := of_bind_eq_ok hd
  have hsole : s.Sole d₁ :=
    h.makeDirs hmade rfl (List.dropLast_append_of_ne_nil hne) fun name hname =>
      hfile name (List.dropLast_subset _ hname)
  have howns : s.Owns ⟨s.dir.root, s.parts ++ file.parts⟩ := ⟨rfl, file.parts, hne, rfl, hfile⟩
  exact hsole.write howns hwrite

theorem Sole.owns_of_mem_discover (h : s.Sole d) (hp : p ∈ Workflow.discover d s.path) : s.Owns p := by
  obtain ⟨hp, -⟩ := List.mem_filter.1 hp
  obtain ⟨rest, hrest, rfl⟩ := List.mem_map.1 hp
  obtain ⟨hrest, hsource⟩ := List.mem_filter.1 hrest
  have hne : rest ≠ [] := by
    rintro rfl
    cases hsource
  rw [find_path] at hrest
  split at hrest
  case h_1 t hfind =>
    obtain ⟨e, he, rfl⟩ := List.mem_map.1 hrest
    exact ⟨rfl, e.1, hne, rfl, h.names t (FileTree.at?_eq_some.2 hfind) e (List.mem_mergeSort.1 he)⟩
  case h_2 => cases hrest

end

end CloneSpot

def PlainFiles (files : List (FilePath × Text.Bytes)) : Prop :=
  ∀ e ∈ files, e.1.root = "" ∧ e.1.parts ≠ [] ∧ ∀ name ∈ e.1.parts, FilePath.IsPlain name

instance (files : List (FilePath × Text.Bytes)) : Decidable (PlainFiles files) :=
  inferInstanceAs (Decidable (∀ e ∈ files, _))

def Outside.ClonesPlain (o : Outside) : Prop := ∀ log, PlainFiles (o.clonedFiles log)

namespace Repository

/-- What cloning does once nothing is at the path any more. -/
def fill (a : Access) (url : String) (path : FilePath) : Act FilePath := do
  failWith (← observe (.cloned (RemoteUrl.withToken a.token url) path) Outside.cloneFault)
  let files ← consult Outside.clonedFiles
  onDisk path.toString (·.makeDirs path)
  for (file, content) in files do
    onDisk (path.join file).toString (·.place (path.join file) content)
  return path

theorem clone_eq (a : Access) (url workDir : String) : clone a url workDir =
    (vacate (clonePath url workDir) >>= fun _ => fill a url (clonePath url workDir)) := rfl

theorem fill_keeps {o : Outside} {J : Disk → Holdings → Prop} {path : FilePath} {P : FilePath × Text.Bytes → Prop}
    (hfiles : ∀ log, ∀ e ∈ o.clonedFiles log, P e) (hmake : ∀ d d' hs, J d hs → d.makeDirs path = .ok d' → J d' hs)
    (hplace : ∀ e, P e → ∀ d d' hs, J d hs → d.place (path.join e.1) e.2 = .ok d' → J d' hs) (a : Access)
    (url : String) : Keeps o (Held J) (fun p => p = path) (fill a url path) := by
  refine .bind (.minor (.observe trivial fun _ _ _ _ => rfl)) fun fault _ => ?_
  refine .bind (.minor (.failWith fault)) fun _ _ => ?_
  refine .bind (Q := fun files => ∀ e ∈ files, P e) (.consult hfiles) fun files hfiles => ?_
  refine .bind (.onDisk fun w d hw hd => hmake _ _ _ hw hd) fun _ _ => ?_
  refine .bind (.forIn (fun e he _ => .bind (Q := fun _ => True) ?_ fun _ _ => .pure trivial) _) fun _ _ => .pure rfl
  exact .onDisk fun w d hw hd => hplace e (hfiles e he) _ _ _ hw hd

end Repository

namespace CloneSpot

section
variable {s : CloneSpot} {url : String} {o : Outside} {c : Workflow.Crew} {w : World}

theorem removeByCommand_keeps (m : Migration) : Keeps o (fun w => s.Cleared w.disk ∧ w.state = m) (fun _ => True)
    (Workflow.removeByCommand s.dir) := by
  refine .bind (Q := fun _ => True) (fun w hw => ⟨hw, fun _ _ => trivial⟩) fun removes _ => .ite ?_ (.pure trivial)
  exact .modifyDisk (·.removeFile s.dir) fun w d hw hd => ⟨cleared_of_removeFile hd, hw.2⟩

theorem removeQuietly_runIn (s : CloneSpot) (o : Outside) (w : World) :
    ∃ d, (Workflow.removeQuietly s.dir).runIn o w = (.ok (), { w with disk := d }) ∧ s.Cleared d := by
  rw [Workflow.removeQuietly, runIn_modify]
  cases hd : w.disk.removeDir s.dir with
  | error fault => exact ⟨w.disk, rfl, cleared_of_removeDir_error hd⟩
  | ok d => exact ⟨d, rfl, cleared_of_removeDir hd⟩

/-- Clearing leaves nothing in the work directory, whoever has put it there. -/
theorem clearWorkDir_runIn (s : CloneSpot) (o : Outside) (w : World) :
    s.Cleared ((Workflow.clearWorkDir s.dir).runIn o w).2.disk ∧
      ((Workflow.clearWorkDir s.dir).runIn o w).2.state = w.state := by
  rw [Workflow.clearWorkDir, runIn_bind_ok (runIn_get o w)]
  split
  case isFalse hthere =>
    refine ⟨fun rest _ => ?_, rfl⟩
    have hdir : (s.tree w.disk).at? s.dir.parts = none :=
      (Disk.isThere_eq_false_iff_at? s.straight).1 (Bool.eq_false_iff.2 hthere)
    change (s.tree w.disk).at? (s.dir.parts ++ rest) = none
    rw [FileTree.at?_append, hdir]
    rfl
  case isTrue =>
    obtain ⟨d, hrun, hcleared⟩ := s.removeQuietly_runIn o w
    rw [runIn_bind_ok hrun]
    have hrest : Keeps o (fun w' => s.Cleared w'.disk ∧ w'.state = w.state) (fun _ => True) (do
        if (← get).disk.isThere s.dir && (← read).platform == "Windows" then Workflow.removeByCommand s.dir) :=
      .look fun _ _ => .outside (.ite (removeByCommand_keeps w.state) (.pure trivial))
    exact (hrest { w with disk := d } ⟨hcleared, rfl⟩).1

/-- A migration that keeps to its clone, beside which nothing is in the work directory. -/
def KeepsSole (s : CloneSpot) (url : String) (d : Disk) (hs : Holdings) : Prop := s.KeepsTo url hs ∧ s.Sole d

/-- A repository is cloned to its spot, beside which nothing is put into the work directory. -/
theorem clone_keeps (h : o.ClonesPlain) {workDir : String} (hpath : Repository.clonePath url workDir = s.path)
    (a : Repository.Access) :
    Keeps o (Held (s.KeepsSole url)) (fun p => p = s.path) (Repository.clone a url workDir) := by
  have hremove : Keeps o (Held (s.KeepsSole url)) (fun _ => True) (onDisk s.path.toString (·.removeDir s.path)) :=
    .onDisk fun w d hw hd => ⟨hw.1, hw.2.removeDir hd⟩
  have hvacate : Keeps o (Held (s.KeepsSole url)) (fun _ => True) (Repository.vacate s.path) := by
    refine .look fun w _ => ?_
    split
    · exact .bind hremove fun _ _ => .ite (.minor (.fail _)) (.ite (.minor (.fail _)) (.pure trivial))
    · exact .minor (.fail _)
    · exact .minor (.fail _)
    · exact .pure trivial
  rw [Repository.clone_eq, hpath]
  refine .bind hvacate fun _ _ =>
    Repository.fill_keeps h (fun d d' hs hd hmade => ?_) (fun e he d d' hs hd hplaced => ?_) a url
  · exact ⟨hd.1, hd.2.makeDirs hmade rfl (List.append_nil _).symm nofun⟩
  · obtain ⟨hroot, hne, hnames⟩ := he
    exact ⟨hd.1, hd.2.place hroot hne hnames hplaced⟩

/-- What is done once the work directory is cleared. -/
def checkout (c : Workflow.Crew) : Act Unit := do
  let path ← Repository.clone c.access (← get).state.repoUrl c.settings.workDir
  updateMigration fun m => { m with repoPath := some path, branch := c.settings.branch }
  Repository.switchTo path c.settings.branch
  failWith (← consult Outside.searchFault)
  let files := Workflow.discover (← get).disk path
  updateMigration fun m => { m with files }
  say "system" ("Found " ++ toString files.length ++ " Python files to analyze.")

theorem cloneSources_eq (c : Workflow.Crew) :
    Workflow.cloneSources c = (Workflow.clearWorkDir (.ofString c.settings.workDir) >>= fun _ => checkout c) := rfl

theorem checkout_keeps (h : o.ClonesPlain) (hpath : Repository.clonePath url c.settings.workDir = s.path) :
    Keeps o (Held (s.KeepsSole url)) (fun _ => True) (checkout c) := by
  refine .look fun w hw => ?_
  have hurl : w.state.repoUrl = url := hw.1.url
  rw [hurl]
  refine .bind (clone_keeps h hpath c.access) fun p hp => ?_
  subst hp
  refine .bind (.perform (d := .cloned s.path c.settings.branch) fun w hw => ?_) fun _ _ => ?_
  · exact ⟨⟨hw.1.url, fun p hp => (Option.some.inj hp).symm, hw.1.files, hw.1.findings⟩, hw.2⟩
  refine .bind (.minor (Repository.switchTo_madeOf _ _ trivial trivial trivial)) fun _ _ => ?_
  refine .bind (.minor (.consult _ fun _ _ _ _ => rfl)) fun fault _ => .bind (.minor (.failWith fault)) fun _ _ => ?_
  refine .look fun w hw => .bind (.perform (d := .listed (Workflow.discover w.disk s.path)) fun w' hw' => ?_) fun _ _ =>
    .minor (.say trivial)
  exact ⟨⟨hw'.1.url, hw'.1.path, fun p hp => hw.2.owns_of_mem_discover hp, hw'.1.findings⟩, hw'.2⟩

/-- The first node keeps the migration to its clone, but removes all that others have in the work directory. -/
theorem clone_sole (h : o.ClonesPlain) (hdir : s.dir = .ofString c.settings.workDir)
    (hname : s.name = RemoteUrl.repoName url) (hw : s.KeepsTo url w.state.holdings) :
    Held (s.KeepsSole url) ((Workflow.clone c).runIn o w).2 := by
  have hpath : Repository.clonePath url c.settings.workDir = s.path := by
    rw [Repository.clonePath_eq (hname ▸ s.plain.1), path, parts, hdir, hname]
  have hsources : Held (s.KeepsSole url) ((Workflow.cloneSources c).runIn o (Workflow.cloning w)).2 := by
    obtain ⟨hcleared, hmigration⟩ := s.clearWorkDir_runIn o (Workflow.cloning w)
    rw [cloneSources_eq, ← hdir, runIn_bind]
    rcases hclear : (Workflow.clearWorkDir s.dir).runIn o (Workflow.cloning w) with ⟨e | u, w₁⟩
    all_goals
      rw [hclear] at hcleared hmigration
      have hsole : Held (s.KeepsSole url) w₁ := by
        refine ⟨?_, hcleared.sole⟩
        rw [hmigration]
        exact hw
    · exact hsole
    · exact (checkout_keeps h hpath w₁ hsole).1
  rw [Workflow.clone_runIn]
  rcases hrun : (Workflow.cloneSources c).runIn o (Workflow.cloning w) with ⟨e | u, w₁⟩
  all_goals
    rw [hrun] at hsources
    exact hsources

end

end CloneSpot

end CodeMigration
