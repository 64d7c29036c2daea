import CodeMigration.Proofs.PatchedTexts
import CodeMigration.Proofs.UnpackedUploads

/-! # What comes back of an archive

The result of a completed job has all files of the code, and each of them once. Files that are no sources come back as
they were. Sources come back as texts: even where nothing is to be done in one, the carriage returns are lost, and so is
what is no text in it. -/

namespace CodeMigration.Service

open Act FileTree

section
variable {kind : String} {code : List (String × FileTree)} {copy : FileTree} {sources : List (List String)}
  {path : List String} {bytes : Text.Bytes}

theorem Renewed.isEntryName (h : Renewed kind (dir code) sources copy) (hfile : copy.fileAt? path = some bytes) :
    ∀ name ∈ path, IsEntryName name :=
  h.named.of_at? h.tidy (at?_eq_some.2 (fileAt?_eq_some.1 hfile))

theorem Renewed.filter_toArchive (h : Renewed kind (dir code) sources copy)
    (hfile : (dir code).fileAt? path = some bytes) :
    copy.toArchive.filter (·.name == "/".intercalate path) =
      [⟨"/".intercalate path, if path ∈ sources then migratedBytes kind bytes else bytes⟩] := by
  have hcopy := h.files path
  rw [hfile, Option.map_some] at hcopy
  have hne := ne_nil_of_fileAt? hfile
  have hnames : ∀ name ∈ path, FilePath.IsName name := fun name hname => (h.isEntryName hcopy name hname).1
  have hsame : copy.files.filter ((·.name == "/".intercalate path) ∘ fun file : List String × Text.Bytes =>
      (⟨"/".intercalate file.1, file.2⟩ : ArchiveEntry)) = copy.files.filter (·.1 == path) := by
    refine List.filter_congr fun file hfile => ?_
    have hother : ∀ name ∈ file.1, FilePath.IsName name := fun name hname =>
      (h.isEntryName ((mem_files h.tidy).1 hfile).2 name hname).1
    rw [Bool.eq_iff_iff, Function.comp_apply, beq_iff_eq, beq_iff_eq]
    exact FilePath.intercalate_injOn hother hnames
  rw [toArchive, List.filter_map, hsame, filter_files h.tidy hne, hcopy]
  rfl

theorem Renewed.exists_of_mem_toArchive (h : Renewed kind (dir code) sources copy) {e : ArchiveEntry}
    (he : e ∈ copy.toArchive) :
    ∃ path bytes, (dir code).fileAt? path = some bytes ∧ e.name = "/".intercalate path := by
  obtain ⟨file, hfile, rfl⟩ := List.mem_map.1 he
  obtain ⟨-, hcopy⟩ := (mem_files h.tidy).1 hfile
  rw [h.files] at hcopy
  obtain ⟨bytes, hbytes, -⟩ := Option.map_eq_some_iff.1 hcopy
  exact ⟨file.1, bytes, hbytes, rfl⟩

theorem Renewed.zero_not_mem_toArchive (h : Renewed kind (dir code) sources copy) :
    ∀ e ∈ copy.toArchive, Char.ofNat 0 ∉ e.name.toList := by
  refine List.forall_mem_map.2 fun file hfile => FilePath.not_mem_intercalate (by decide) fun name hname => ?_
  exact (h.isEntryName ((mem_files h.tidy).1 hfile).2 name hname).2.2

theorem mem_sources (htidy : (dir code).Tidy) (hfile : (dir code).fileAt? path = some bytes) :
    path ∈ ((dir code).contents.map Prod.fst).filter Workflow.isSource ↔
      RemoteUrl.endsWith ("/".intercalate path).toList ".py".toList = true := by
  have hne := ne_nil_of_fileAt? hfile
  have hlisted : path ∈ (dir code).contents.map Prod.fst :=
    List.mem_map.2 ⟨(path, file bytes), (mem_contents htidy).2 ⟨hne, at?_eq_some.2 (fileAt?_eq_some.1 hfile)⟩, rfl⟩
  rw [FilePath.endsWith_intercalate hne (by decide), List.mem_filter, Workflow.isSource]
  exact and_iff_right hlisted

end

theorem workOn_of_completed {u : Upload} {o : Outside} {w w' : World}
    (h : (processUpload u).runIn o w = (.ok (), w')) (hdone : (w'.registry.job u.id).status = "completed") :
    (workOn u).runIn o (begun u w) = (.ok (), w') := by
  cases hlisted : w.registry.has u.id with
  | false =>
    rw [processUpload_of_unlisted hlisted] at h
    cases h
  | true =>
    rw [processUpload_of_listed hlisted] at h
    rcases hrun : (workOn u).runIn o (begun u w) with ⟨f | ⟨⟩, w₁⟩
    · rw [guarded_error hrun, giveUp, runIn_bind_ok (updateJob_runIn o w₁ _ _), removeQuietly_runIn] at h
      cases h
      change Job.status ((((w₁.registry.update u.id _).jobs.lookup u.id)).getD default) = "completed" at hdone
      rw [Registry.lookup_update] at hdone
      cases hjob : w₁.registry.jobs.lookup u.id with
      | none =>
        rw [hjob, Option.map_none, Option.getD_none] at hdone
        exact absurd hdone (by decide)
      | some j =>
        rw [hjob, Option.map_some, if_pos rfl] at hdone
        change "failed" = "completed" at hdone
        exact absurd hdone (by decide)
    · rw [guarded_ok hrun] at h
      cases h
      rfl

section
variable {content : Text.Bytes} {u : Upload} {w₀ w : World}

theorem TakenIn.isFresh (h : TakenIn content u w₀ w) (hnew : w₀.disk.isThere u.workDir = false) :
    u.IsFresh content w.disk := by
  have hinside := h.inside?_eq hnew
  refine ⟨u.inside?_append hinside ["upload.zip"], fun name rest hname => ?_⟩
  refine (u.inside?_append hinside (name :: rest)).trans (at?_dir_cons_of_none ?_ rest)
  rw [lookup_cons_eq_ite, if_neg hname]
  rfl

end

/-- The code of an archive that was taken out. Its files are those that the archive holds for the directory with the
code. -/
structure CodeOf (packing : Archive.Packing) (content : Text.Bytes) (u : Upload) (d : Disk) (code : FileTree) : Prop where
  found : d.find (codeDir d u.sourceDir) = .ok code
  files : ∃ (sent : Archive) (top : List String), Archive.ofBytes packing content = ⟨sent, none⟩ ∧
    codeDir d u.sourceDir = u.below ("source" :: top) ∧ ∀ path, code.fileAt? path = sent.fileAt? (top ++ path)

/-- The result of a job for an archive. It can be read unless it is too large, if nothing is lost in packing. -/
structure ResultIs (packing : Archive.Packing) (u : Upload) (w : World) (result : Archive) : Prop where
  entered : w.registry.results.lookup u.id = some u.resultPath
  written : w.disk.readBytes u.resultPath = .ok (result.toBytes packing)
  readable : packing.Lossless → result.Fits packing → Archive.ofBytes packing (result.toBytes packing) = ⟨result, none⟩

section
variable {name kind : String} {content : Text.Bytes} {u : Upload} {o o₁ : Outside} {w₀ w w₁ w₂ : World}

/-- What a completed task leaves: the code as it was taken out, and a copy with its sources migrated as the result. -/
theorem exists_copy_of_completed (hstart : (startUpload name content kind).runIn o w₀ = (.ok u, w))
    (hnew : w₀.disk.isThere (.ofString ("/tmp/" ++ w₀.registry.nextId)) = false)
    (hkept : w₁.disk.find u.workDir = w.disk.find u.workDir)
    (hrun : (processUpload u).runIn o₁ w₁ = (.ok (), w₂)) (hdone : (w₂.registry.job u.id).status = "completed") :
    ∃ code copy, CodeOf o₁.packing content u w₂.disk (dir code) ∧ (dir code).Tidy ∧
      Renewed u.kind (dir code) (((dir code).contents.map Prod.fst).filter Workflow.isSource) copy ∧
      ResultIs o₁.packing u w₂ copy.toArchive := by
  obtain ⟨status, text, hstarted⟩ | ⟨j, w', -, -, ⟨u', hstarted, htaken⟩ | ⟨fault, path, hstarted⟩⟩ :=
    startUpload_runIn o w₀ name content kind
  · cases hstart.symm.trans hstarted
  · cases hstart.symm.trans hstarted
    have hu := htaken.isPlaced
    rw [← htaken.id, ← htaken.workDir] at hnew
    have hfresh := htaken.isFresh hnew
    have hsame (rel : List String) : u.inside? (begun u w₁).disk rel = u.inside? w.disk rel :=
      u.inside?_congr hu hkept rel
    have hfresh₁ : u.IsFresh content (begun u w₁).disk := by
      refine ⟨(hsame _).trans hfresh.archive, fun name rest hname => ?_⟩
      rw [hsame, hfresh.only name rest hname]
    obtain ⟨sent, t, code, copy, hsent, hholds, hcode, hsource, hrenewed, hwritten, hentered⟩ :=
      workOn_midway hu htaken.archive_eq hfresh₁ (workOn_of_completed hrun hdone)
    have hfiles (path : List String) : (dir code).fileAt? path = Archive.fileAt? sent (topOf t ++ path) := by
      rw [← hholds.files, fileAt?_append hcode]
    exact ⟨code, copy,
      ⟨find_codeDir hu hsource hholds hcode, sent, topOf t, hsent, codeDir_of_inside hu hsource, hfiles⟩,
      hholds.tidy.of_find (at?_eq_some.1 hcode), hrenewed,
      ⟨hentered, hwritten, fun hp hfits => Archive.ofBytes_toBytes hp hfits hrenewed.zero_not_mem_toArchive⟩⟩
  · cases hstart.symm.trans hstarted

/-- If a job for an archive is completed, its result has one entry for each file in the directory with the code, under
its path from there, and no others. A file that is no source comes back as it was, and each source as what it is
migrated to, whatever becomes of the others. -/
theorem result_has_each_file_once (hstart : (startUpload name content kind).runIn o w₀ = (.ok u, w))
    (hnew : w₀.disk.isThere (.ofString ("/tmp/" ++ w₀.registry.nextId)) = false)
    (hkept : w₁.disk.find u.workDir = w.disk.find u.workDir)
    (hrun : (processUpload u).runIn o₁ w₁ = (.ok (), w₂)) (hdone : (w₂.registry.job u.id).status = "completed") :
    ∃ code result, CodeOf o₁.packing content u w₂.disk code ∧ ResultIs o₁.packing u w₂ result ∧
      (∀ path bytes, code.fileAt? path = some bytes →
        result.filter (·.name == "/".intercalate path) = [⟨"/".intercalate path,
          if RemoteUrl.endsWith ("/".intercalate path).toList ".py".toList then migratedBytes u.kind bytes
          else bytes⟩]) ∧
      ∀ e ∈ result, ∃ path bytes, code.fileAt? path = some bytes ∧ e.name = "/".intercalate path := by
  obtain ⟨code, copy, hcode, htidy, hrenewed, hresult⟩ := exists_copy_of_completed hstart hnew hkept hrun hdone
  refine ⟨dir code, copy.toArchive, hcode, hresult, fun path bytes hfile => ?_, fun e he => ?_⟩
  · rw [hrenewed.filter_toArchive hfile]
    simp only [mem_sources htidy hfile]
  · exact hrenewed.exists_of_mem_toArchive he

end

/-- Whether the task of an archive, which nothing disturbs, completes the job and leaves something. -/
def leaves (content : Text.Bytes) (test : Upload → World → Bool) : Bool :=
  match (startUpload "a.zip" content "py2to3").runIn {} {} with
  | (.ok u, w) =>
    match (processUpload u).runIn {} w with
    | (.ok (), w') => (w'.registry.job u.id).status == "completed" && test u w'
    | (.error _, _) => false
  | (.error _, _) => false

theorem exists_of_leaves {content : Text.Bytes} {test : Upload → World → Bool} (h : leaves content test = true) :
    ∃ u w w', (startUpload "a.zip" content "py2to3").runIn {} {} = (.ok u, w) ∧
      (processUpload u).runIn {} w = (.ok (), w') ∧ (w'.registry.job u.id).status = "completed" ∧ test u w' = true := by
  unfold leaves at h
  rcases hstart : (startUpload "a.zip" content "py2to3").runIn {} {} with ⟨f | u, w⟩
  · rw [hstart] at h
    cases h
  · rw [hstart] at h
    dsimp only at h
    rcases hrun : (processUpload u).runIn {} w with ⟨f | ⟨⟩, w'⟩
    · rw [hrun] at h
      cases h
    · rw [hrun] at h
      obtain ⟨hdone, htest⟩ := Bool.and_eq_true_iff.1 h
      exact ⟨u, w, w', rfl, hrun, beq_iff_eq.1 hdone, htest⟩

theorem CodeOf.fileAt?_eq {packing : Archive.Packing} {content : Text.Bytes} {u : Upload} {d : Disk} {code : FileTree}
    (h : CodeOf packing content u d code) {sent : Archive} (hsent : Archive.ofBytes packing content = ⟨sent, none⟩)
    {top : List String} (htop : codeDir d u.sourceDir = u.below ("source" :: top)) (path : List String) :
    code.fileAt? path = sent.fileAt? (top ++ path) := by
  obtain ⟨sent', top', hsent', htop', hfiles⟩ := h.files
  cases hsent.symm.trans hsent'
  obtain rfl : top' = top := by simpa [Upload.below] using htop'.symm.trans htop
  exact hfiles path

def nestedArchive : Archive := [⟨"r/a.py", Text.encode "xrange(3)\n"⟩]

theorem nestedArchive_read : Archive.ofBytes {} (nestedArchive.toBytes {}) = ⟨nestedArchive, none⟩ :=
  Archive.ofBytes_toBytes (fun _ => rfl) ⟨by decide +kernel, by decide, by decide⟩ (by decide)

theorem result_has_each_file_once_nested : ∃ u w w' result,
    (startUpload "a.zip" (nestedArchive.toBytes {}) "py2to3").runIn {} {} = (.ok u, w) ∧
    (processUpload u).runIn {} w = (.ok (), w') ∧ (w'.registry.job u.id).status = "completed" ∧ ResultIs {} u w' result ∧
    result.filter (·.name == "a.py") = [⟨"a.py", Text.encode "range(3)"⟩] := by
  have hleaves : leaves (nestedArchive.toBytes {})
      (fun u w => codeDir w.disk u.sourceDir == u.below ["source", "r"] && u.kind == "py2to3") = true := by
    decide +kernel
  obtain ⟨u, w, w', hstart, hrun, hdone, htest⟩ := exists_of_leaves hleaves
  obtain ⟨htop, hkind⟩ := Bool.and_eq_true_iff.1 htest
  obtain ⟨code, result, hcode, hresult, heach, -⟩ :=
    result_has_each_file_once hstart (by decide +kernel) rfl hrun hdone
  have hfile : code.fileAt? ["a.py"] = some (Text.encode "xrange(3)\n") :=
    (hcode.fileAt?_eq nestedArchive_read (beq_iff_eq.1 htop) ["a.py"]).trans (by decide +kernel)
  have hentry := heach ["a.py"] _ hfile
  have hmigrated : migratedBytes "py2to3" (Text.encode "xrange(3)\n") = Text.encode "range(3)" := by decide +kernel
  refine ⟨u, w, w', result, hstart, hrun, hdone, hresult, ?_⟩
  rw [beq_iff_eq.1 hkind, hmigrated] at hentry
  exact hentry

/-- Nothing is found in a text, and nothing is noted that its tree would have changed. -/
def isSettled (kind text : String) : Bool :=
  (analyze (kindFor kind) text).toOption.all (·.isEmpty) &&
    (transform (kindFor kind) text).toOption.all (·.changes.isEmpty)

theorem code_of_isSettled {kind text : String} (h : isSettled kind text = true) : (fixText kind text).code = text := by
  obtain ⟨hfound, hchanges⟩ := Bool.and_eq_true_iff.1 h
  have hnone : ∀ t, transform (kindFor kind) text = .ok t → t.changes = [] := by
    intro t ht
    rw [ht] at hchanges
    exact List.isEmpty_iff.1 hchanges
  rcases fixText_of_no_changes hnone with ⟨-, hcode⟩ | ⟨fs, t, hfs, hne, -⟩
  · exact hcode
  · rw [hfs] at hfound
    exact absurd (List.isEmpty_iff.1 hfound) hne

def IsPlainText (bytes : Text.Bytes) : Prop := ∃ s : String, '\r' ∉ s.toList ∧ bytes = Text.encode s

theorem encode_looseText_iff (bytes : Text.Bytes) : Text.encode (looseText bytes) = bytes ↔ IsPlainText bytes := by
  constructor
  · intro h
    refine ⟨looseText bytes, ?_, h.symm⟩
    rw [looseText, String.toList_ofList]
    exact Text.return_not_mem_unifyLineEnds _
  · rintro ⟨s, hreturn, rfl⟩
    rw [looseText, Text.decodeOr_encode, Text.unifyLineEnds_of_not_mem hreturn, String.ofList_toList]

theorem migratedBytes_of_isSettled {kind : String} {bytes : Text.Bytes} (h : isSettled kind (looseText bytes) = true) :
    migratedBytes kind bytes = bytes ↔ looseText bytes = "" ∨ IsPlainText bytes := by
  rw [migratedBytes, code_of_isSettled h, ← encode_looseText_iff]
  split
  case isTrue hempty => exact iff_of_true rfl (.inl (String.isEmpty_iff.1 hempty))
  case isFalse hne => exact (or_iff_right fun hempty => hne (String.isEmpty_iff.2 hempty)).symm

section
variable {name kind : String} {content : Text.Bytes} {u : Upload} {o o₁ : Outside} {w₀ w w₁ w₂ : World}

/-- A source in which nothing is found and nothing is changed comes back, but it does so with the bytes that it had only
if these are a text without carriage returns, or if there is no text in them at all. -/
theorem settled_source_same_iff_plain (hstart : (startUpload name content kind).runIn o w₀ = (.ok u, w))
    (hnew : w₀.disk.isThere (.ofString ("/tmp/" ++ w₀.registry.nextId)) = false)
    (hkept : w₁.disk.find u.workDir = w.disk.find u.workDir)
    (hrun : (processUpload u).runIn o₁ w₁ = (.ok (), w₂)) (hdone : (w₂.registry.job u.id).status = "completed") :
    ∃ code result, CodeOf o₁.packing content u w₂.disk code ∧ ResultIs o₁.packing u w₂ result ∧
      ∀ path bytes, code.fileAt? path = some bytes →
        RemoteUrl.endsWith ("/".intercalate path).toList ".py".toList = true →
        isSettled u.kind (looseText bytes) = true →
        ∃ returned, result.filter (·.name == "/".intercalate path) = [⟨"/".intercalate path, returned⟩] ∧
          (returned = bytes ↔ looseText bytes = "" ∨ IsPlainText bytes) := by
  obtain ⟨code, copy, hcode, htidy, hrenewed, hresult⟩ := exists_copy_of_completed hstart hnew hkept hrun hdone
  refine ⟨dir code, copy.toArchive, hcode, hresult, fun path bytes hfile hsource hsettled => ?_⟩
  refine ⟨migratedBytes u.kind bytes, ?_, migratedBytes_of_isSettled hsettled⟩
  rw [hrenewed.filter_toArchive hfile, if_pos ((mem_sources htidy hfile).2 hsource)]

end

theorem smallArchive_read : Archive.ofBytes {} smallArchive = ⟨[⟨"a.py", Text.encode "x = 1\n"⟩], none⟩ :=
  Archive.ofBytes_toBytes (fun _ => rfl) ⟨by decide +kernel, by decide, by decide⟩ (by decide)

theorem settled_source_same_iff_plain_smallArchive : ∃ u w w' result,
    (startUpload "a.zip" smallArchive "py2to3").runIn {} {} = (.ok u, w) ∧
    (processUpload u).runIn {} w = (.ok (), w') ∧ (w'.registry.job u.id).status = "completed" ∧ ResultIs {} u w' result ∧
    result.filter (·.name == "a.py") = [⟨"a.py", Text.encode "x = 1\n"⟩] := by
  have hleaves : leaves smallArchive
      (fun u w => codeDir w.disk u.sourceDir == u.below ["source"] && u.kind == "py2to3") = true := by
    decide +kernel
  obtain ⟨u, w, w', hstart, hrun, hdone, htest⟩ := exists_of_leaves hleaves
  obtain ⟨htop, hkind⟩ := Bool.and_eq_true_iff.1 htest
  obtain ⟨code, result, hcode, hresult, hsettled⟩ :=
    settled_source_same_iff_plain hstart (by decide +kernel) rfl hrun hdone
  have hfile : code.fileAt? ["a.py"] = some (Text.encode "x = 1\n") :=
    (hcode.fileAt?_eq smallArchive_read (beq_iff_eq.1 htop) ["a.py"]).trans (by decide +kernel)
  have hnothing : isSettled u.kind (looseText (Text.encode "x = 1\n")) = true := by
    rw [beq_iff_eq.1 hkind]
    decide +kernel
  obtain ⟨returned, hentry, hsame⟩ := hsettled ["a.py"] _ hfile (by decide +kernel) hnothing
  rw [hsame.2 (.inr ⟨"x = 1\n", by decide, rfl⟩)] at hentry
  exact ⟨u, w, w', result, hstart, hrun, hdone, hresult, hentry⟩

/-- A carriage return is lost, though nothing is to be done in the source. -/
theorem carriage_return_lost :
    isSettled "py2to3" (looseText (Text.encode "x = 1\r\n")) = true ∧
    leaves (Archive.toBytes {} [⟨"a.py", Text.encode "x = 1\r\n"⟩]) (fun u w => (w.disk.readBytes u.resultPath).toOption ==
      some (Archive.toBytes {} [⟨"a.py", Text.encode "x = 1\n"⟩])) = true := by
  refine ⟨?_, ?_⟩ <;> decide +kernel

end CodeMigration.Service
