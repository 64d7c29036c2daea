import CodeMigration.Proofs.CoderRuns
import CodeMigration.Proofs.TreeFiles

/-! # The books of the coder

Changes are made finding by finding, grouped by file, put into the texts, written file by file and then looked up by
file again. In the end each finding in a file that could be read has its change, each change counts as applied once if
its file was written, and there is a note for each finding that had no text and each file that was not written. No
other file is touched. -/

namespace CodeMigration

open Act

namespace FileTree

variable {t t' : FileTree} {p : List String} {content : Text.Bytes}

theorem exists_dir_write (h : write content t p = .ok t') (q : List String) :
    (∃ es, t'.at? q = some (dir es)) ↔ ∃ es, t.at? q = some (dir es) := by
  rcases at?_write h q with ⟨-, hnew, hold⟩ | ⟨-, hsame | ⟨es, es', hes, hes'⟩⟩
  · refine iff_of_false ?_ ?_
    · rintro ⟨es, hes⟩
      rw [hnew] at hes
      cases hes
    · rintro ⟨es, hes⟩
      exact hold es hes
  · rw [hsame]
  · exact iff_of_true ⟨es', hes'⟩ ⟨es, hes⟩

theorem straighten_back {done rest parts : List String} : t.straighten done (".." :: rest) = .ok parts ↔
    (∃ es, t.at? done = some (dir es)) ∧ done ≠ [] ∧ t.straighten done.dropLast rest = .ok parts := by
  rw [straighten, at?]
  cases t.find done with
  | error fault => simp [bind, Except.bind, Except.toOption]
  | ok u =>
    cases u with
    | file old => simp [bind, Except.bind, Except.toOption]
    | dir es => cases done <;> simp [bind, Except.bind, Except.toOption]

/-- A path leads where it led before, whether a file is written over or a new one is made. -/
theorem straighten_of_write (h : write content t p = .ok t') (done path parts : List String) :
    t'.straighten done path = .ok parts ↔ t.straighten done path = .ok parts := by
  induction path generalizing done with
  | nil => rw [straighten, straighten]
  | cons name rest ih =>
    by_cases hname : name = ".."
    · subst hname
      rw [straighten_back, straighten_back, exists_dir_write h, ih]
    · rw [straighten_cons hname, straighten_cons hname, ih]

end FileTree

namespace Disk

variable {d d' : Disk} {p : FilePath} {content : Text.Bytes}

/-- A file that is written leaves every other one as it is, and paths lead where they led. -/
theorem frame_of_write (h : d.write p content = .ok d') :
    (∀ q q', d'.Same q q' ↔ d.Same q q') ∧
      ∀ q, ¬d.Same p q → ∀ old, d'.readBytes q = .ok old ↔ d.readBytes q = .ok old := by
  obtain ⟨parts, hparts, hrest⟩ := of_bind_eq_ok h
  obtain ⟨t', ht', hd'⟩ := of_bind_eq_ok hrest
  obtain rfl : d.withTree p t' = d' := Except.ok.inj hd'
  have hstraighten (q : FilePath) (parts : List String) :
      ((d.withTree p t').treeOf q).straighten [] q.parts = .ok parts ↔
        (d.treeOf q).straighten [] q.parts = .ok parts := by
    by_cases hroot : p.root.isEmpty = q.root.isEmpty
    · rw [treeOf_withTree hroot, treeOf_eq hroot, FileTree.straighten_of_write ht']
    · rw [treeOf_withTree_of_ne hroot]
  refine ⟨fun q q' => ?_, fun q hq old => ?_⟩
  · simp only [Same, hstraighten]
  · rw [readBytes_eq_ok, readBytes_eq_ok]
    refine exists_congr fun parts' => ?_
    rw [hstraighten]
    refine and_congr_right fun hparts' => ?_
    by_cases hroot : p.root.isEmpty = q.root.isEmpty
    · have hne : parts' ≠ parts := by
        rintro rfl
        exact hq ⟨hroot, parts', hparts, hparts'⟩
      rw [treeOf_withTree hroot, treeOf_eq hroot, ← FileTree.fileAt?_eq_some, ← FileTree.fileAt?_eq_some,
        FileTree.fileAt?_write ht', if_neg hne]
    · rw [treeOf_withTree_of_ne hroot]

end Disk

namespace Coder

variable {assisted : Bool} {client : Docs.Client} {o : Outside} {w w' : World}

theorem readBytes_writeAll {texts : Texts} {d : Disk} {q : FilePath} (h : ∀ e ∈ texts, ¬d.Same (.ofString e.1) q)
    (content : Text.Bytes) : (writeAll o d texts).1.readBytes q = .ok content ↔ d.readBytes q = .ok content := by
  induction texts generalizing d with
  | nil => exact Iff.rfl
  | cons e texts ih =>
    obtain ⟨he, htexts⟩ := List.forall_mem_cons.1 h
    dsimp only [writeAll]
    obtain hleft | ⟨bytes, hwrite⟩ := o.write_cases d e.1 (Text.encode e.2)
    · rw [hleft]
      exact ih htexts
    · obtain ⟨hsame, hother⟩ := Disk.frame_of_write hwrite
      refine (ih fun e' he' => ?_).trans (hother q he content)
      rw [hsame]
      exact htexts e' he'

theorem has_foundTexts_iff (w : World) (file : String) : (foundTexts w).has file = true ↔
    file ∈ w.state.findings.map (·.place.file) ∧ (w.disk.readText (.ofString file)).isOk = true := by
  rw [has_eq_isSome, foundTexts, lookup_textsOn]
  cases w.disk.readText (.ofString file) <;> simp [Except.toOption, Except.isOk, Except.toBool]

/-- What comes of the changed texts that a run writes, if `d` is the disk then. -/
def written (o : Outside) (w : World) (d : Disk) (changes : List Change) : Disk × List (String × Option Failure) :=
  writeAll o d (applyChanges changes (foundTexts w))

/-- The books behind a run: those of `w` were open before it, and `d` is the disk that it wrote its texts to. -/
structure Balanced (o : Outside) (w : World) (d : Disk) (w' : World) : Prop where
  /-- Each finding whose file could be read has its change. -/
  changes : w'.state.changes.map mark =
    (w.state.findings.filter fun f => (w.disk.readText (.ofString f.place.file)).isOk).map markOf
  /-- Each file that could be read is written once, or there is a fault. -/
  files : ((written o w d w'.state.changes).2.map Prod.fst).Nodup ∧
    ∀ file, file ∈ (written o w d w'.state.changes).2.map Prod.fst ↔
      file ∈ w.state.findings.map (·.place.file) ∧ (w.disk.readText (.ofString file)).isOk = true
  disk : w'.disk = (written o w d w'.state.changes).1
  /-- A change counts as applied if its file was written. -/
  applied : ∃ added, w'.state.applied = w.state.applied ++ added ∧
    added.Perm (w'.state.changes.filter (·.file ∈ writtenFiles (written o w d w'.state.changes).2))
  errors : w'.state.errors = w.state.errors ++
    (w.state.findings.map (·.place.file)).filterMap (readNote? w.disk) ++
      (written o w d w'.state.changes).2.filterMap writeNote?
  untouched : ∀ q, (∀ f ∈ w.state.findings, ¬d.Same (.ofString f.place.file) q) →
    ∀ content, w'.disk.readBytes q = .ok content ↔ d.readBytes q = .ok content

/-- What is at hand in `w₂`, when all changes are made and nothing is written yet. -/
structure Ready (o : Outside) (w : World) (changes : List Change) (w₂ : World) : Prop where
  marks : changes.map mark = (w.state.findings.filter fun f => (foundTexts w).has f.place.file).map markOf
  has : ∀ c ∈ changes, (foundTexts w).has c.file = true
  applied : w₂.state.applied = w.state.applied
  errors : w₂.state.errors = w.state.errors ++
    (w.state.findings.map (·.place.file)).filterMap (readNote? w.disk)
  disk : ∃ dirs, (∀ dir ∈ dirs, ∃ log text, o.reply log = .removal dir text) ∧ w₂.disk = w.disk.without dirs

theorem exists_ready (hfound : w.state.findings ≠ []) (h : (run assisted client).runIn o w = (.ok (), w')) :
    ∃ changes w₂ said, Ready o w changes w₂ ∧ w' = (closed o changes (foundTexts w) w₂).after (.said "coder" said) := by
  obtain ⟨w₁, hload, hdisk, hwork⟩ := loadContext_runIn client o (w.begun .coder)
  have hstart : w₁.disk = w.disk := hdisk
  have htexts : textsOn w₁.disk (w.state.findings.map (·.place.file)) = foundTexts w := by
    rw [hstart, foundTexts]
  obtain ⟨finish, hrun, hfinish⟩ := @run_up_to_fixes assisted client o w w₁ _ hfound hload htexts
  rw [hrun] at h
  obtain ⟨changes, w₂, hfixes, h⟩ := runIn_bind_eq_ok.1 h
  obtain ⟨said, hend⟩ := hfinish changes w₂
  obtain ⟨hmarks, hmigration, hgone⟩ := marks_of_fixes hfixes
  rw [World.noting_eq, hstart] at hmigration hgone
  refine ⟨changes, w₂, said, ?_, (Prod.mk.inj (h.symm.trans hend)).2⟩
  exact {
    marks := hmarks
    has := fun c hc => has_of_fixes hfixes hc
    applied := by
      have hsame := congrArg Migration.applied hwork
      rw [hmigration]
      exact hsame
    errors := by
      have hsame := congrArg Migration.errors hwork
      rw [hmigration]
      exact congrArg (· ++ _) hsame
    disk := hgone }

/-- The books of a run that returns balance, whatever files could not be read or written. Between reading and writing
only directories are gone that the assistant took away. -/
theorem run_balanced (hfound : w.state.findings ≠ [])
    (h : (run assisted client).runIn o w = (.ok (), w')) :
    ∃ dirs, (∀ dir ∈ dirs, ∃ log text, o.reply log = .removal dir text) ∧ Balanced o w (w.disk.without dirs) w' := by
  obtain ⟨changes, w₂, said, hready, rfl⟩ := exists_ready hfound h
  obtain ⟨dirs, hdirs, hdisk⟩ := hready.disk
  have hreadable : (w.state.findings.filter fun f => (foundTexts w).has f.place.file) =
      w.state.findings.filter fun f => (w.disk.readText (.ofString f.place.file)).isOk := by
    refine List.filter_congr fun f hf => ?_
    rw [Bool.eq_iff_iff, has_foundTexts_iff]
    exact and_iff_right (List.mem_map_of_mem hf)
  have hmarks : (markApplied changes (foundTexts w)).map mark = changes.map mark := by
    rw [markApplied, List.map_map]
    refine List.map_congr_left fun c hc => ?_
    simp only [Function.comp_apply]
    split <;> rfl
  have hnames : (written o w w₂.disk (markApplied changes (foundTexts w))).2.map Prod.fst =
      (foundTexts w).map Prod.fst := by
    rw [written, map_fst_writeAll, map_fst_applyChanges _ (nodup_foundTexts w)]
  have hnodup : ((written o w w₂.disk (markApplied changes (foundTexts w))).2.map Prod.fst).Nodup := by
    rw [hnames]
    exact nodup_foundTexts w
  have hfile (file : String) : file ∈ (foundTexts w).map Prod.fst ↔
      file ∈ w.state.findings.map (·.place.file) ∧ (w.disk.readText (.ofString file)).isOk = true := by
    rw [← has_foundTexts_iff]
    simp [Texts.has]
  refine ⟨dirs, hdirs, ?_⟩
  rw [closed, wroteTexts_eq, ← hdisk]
  exact {
    changes := hmarks.trans (hready.marks.trans (congrArg _ hreadable))
    files := ⟨hnodup, fun file => (Iff.of_eq (congrArg (file ∈ ·) hnames)).trans (hfile file)⟩
    disk := rfl
    applied := ⟨_, congrArg (· ++ _) hready.applied,
      flatMap_applied_perm hready.has ((writtenFiles_sublist _).nodup hnodup)⟩
    errors := congrArg (· ++ _) hready.errors
    untouched := by
      intro q hq content
      refine readBytes_writeAll (fun e he => ?_) content
      have hname : e.1 ∈ (foundTexts w).map Prod.fst := by
        rw [← map_fst_applyChanges _ (nodup_foundTexts w)]
        exact List.mem_map_of_mem he
      obtain ⟨f, hf, hplace⟩ := List.mem_map.1 ((hfile e.1).1 hname).1
      rw [← hplace]
      exact hq f hf }

def findingIn (id file : String) : Finding :=
  { (default : Finding) with id, place := { file, startLine := 1, endLine := 1 } }

/-- Two findings in a file, one in a directory and two in a file that is not there. -/
def fiveFindings : World where
  disk := { here := .dir [("a.py", .file (Text.encode "x\n")), ("d", .dir [("b.py", .file (Text.encode "y\n"))])] }
  state := { repoUrl := "", findings := [findingIn "1" "a.py", findingIn "2" "d/b.py", findingIn "3" "c.py",
    findingIn "4" "a.py", findingIn "5" "c.py"] }

/-- An assistant that takes the directory `d` away whenever it is asked. -/
def takesDir : Outside where
  reply := fun _ => .removal (.ofString "d") "z"

def fiveFixed : Except Failure Unit × World :=
  (run true ⟨"", false⟩).runIn takesDir fiveFindings

theorem run_balanced_fiveFindings : ∃ w' dirs, fiveFixed = (.ok (), w') ∧ (∀ dir ∈ dirs, dir = .ofString "d") ∧
    Balanced takesDir fiveFindings (fiveFindings.disk.without dirs) w' ∧
    w'.state.changes.map (·.id) = ["change_1", "change_2", "change_4"] ∧
    w'.state.applied.map (·.id) = ["change_1", "change_4"] ∧ w'.state.errors.length = 3 := by
  have hleft : fiveFixed.1.isOk = true ∧
      fiveFixed.2.state.changes.map (·.id) = ["change_1", "change_2", "change_4"] ∧
      fiveFixed.2.state.applied.map (·.id) = ["change_1", "change_4"] ∧
      fiveFixed.2.state.errors.length = 3 := by
    decide +kernel
  obtain ⟨hok, hbooks⟩ := hleft
  obtain ⟨⟨⟩, w', hrun⟩ := exists_runIn_ok hok
  obtain ⟨dirs, hdirs, hbalanced⟩ := run_balanced (List.cons_ne_nil _ _) hrun
  have hd : ∀ dir ∈ dirs, dir = .ofString "d" := by
    intro dir hdir
    obtain ⟨log, text, hreply⟩ := hdirs dir hdir
    exact (Reply.removal.inj hreply).1.symm
  rw [fiveFixed, hrun] at hbooks
  exact ⟨w', dirs, hrun, hd, hbalanced, hbooks⟩

end Coder

end CodeMigration
