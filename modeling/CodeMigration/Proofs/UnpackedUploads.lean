import CodeMigration.Proofs.ArchiveBytes
import CodeMigration.Proofs.DeletedUploads

/-! # Archives that are unpacked, migrated and packed

The files of an archive are taken out, and those in the directory with the code are copied. Then the copy of one source
after the other is replaced by what the source was migrated to; a source that cannot be read, or of which no text is
left, keeps its copy. All files of the copy are packed. -/

namespace CodeMigration

open Act FileTree

/-- A name that an entry of an archive may have below the directory that it is taken out to. -/
def IsEntryName (s : String) : Prop := FilePath.IsName s ∧ s ≠ ".." ∧ Char.ofNat 0 ∉ s.toList

def ArchiveEntry.item (e : ArchiveEntry) : Item := (e.parts, if e.isDir then none else some e.content)

/-- The file that an archive holds for a path: of several entries the last one. -/
def Archive.fileAt? (a : Archive) (path : List String) : Option Text.Bytes :=
  ((a.filter fun e => !e.isDir && e.parts == path).getLast?).map (·.content)

theorem Archive.laid?_items (a : Archive) (path : List String) :
    laid? (a.map ArchiveEntry.item) path = a.fileAt? path := by
  have hsame : (fun item : Item => item.1 == path && item.2.isSome) ∘ ArchiveEntry.item =
      fun e => !e.isDir && e.parts == path := by
    funext e
    cases he : e.isDir <;> simp [ArchiveEntry.item, he]
  rw [laid?, List.filter_map, hsame, List.getLast?_map, fileAt?]
  cases hlast : (a.filter fun e => !e.isDir && e.parts == path).getLast? with
  | none => rfl
  | some e =>
    have he : (!e.isDir && e.parts == path) = true := (List.mem_filter.1 (List.mem_of_getLast? hlast)).2
    have hfile : e.isDir = false := by simpa using (Bool.and_eq_true_iff.1 he).1
    simp [ArchiveEntry.item, hfile]

def FileTree.toArchive (t : FileTree) : Archive := t.files.map fun file => ⟨"/".intercalate file.1, file.2⟩

theorem ArchiveEntry.isEntryName_of_mem_parts {e : ArchiveEntry} (h : Char.ofNat 0 ∉ e.name.toList) :
    ∀ s ∈ e.parts, IsEntryName s := by
  intro s hs
  obtain ⟨hs, hback⟩ := List.mem_filter.1 hs
  refine ⟨(FilePath.isNormal_ofString e.name).parts s hs, bne_iff_ne.1 hback, fun hzero => h ?_⟩
  exact FilePath.mem_of_mem_splitSlashes (List.mem_filter.1 hs).1 hzero

namespace Service

/-- A tree with the files of an archive. -/
structure Holds (sent : Archive) (t : FileTree) : Prop where
  tidy : t.Tidy
  named : t.Named IsEntryName
  files : ∀ path, t.fileAt? path = sent.fileAt? path

/-- The way from where an archive was taken out to its code. -/
def topOf : FileTree → List String
  | .dir [(name, .dir (_ :: _))] => [name]
  | _ => []

theorem exists_at?_topOf {entries : List (String × FileTree)} (h : (dir entries).Tidy) :
    ∃ code, (dir entries).at? (topOf (dir entries)) = some (dir code) := by
  unfold topOf
  split
  case h_1 name head tail heq =>
    cases heq
    obtain ⟨⟨-, hsize⟩, -⟩ := tidy_dir.1 h
    have hname : name.utf8ByteSize ≤ 255 := hsize _ List.mem_cons_self
    refine ⟨head :: tail, ?_⟩
    rw [at?_dir_cons hname, List.lookup_cons_self]
    rfl
  case h_2 => exact ⟨entries, at?_nil _⟩

theorem codeDir_of_find {d : Disk} {p : FilePath} {t : FileTree} (h : d.find p = .ok t) :
    codeDir d p = ⟨p.root, p.parts ++ topOf t⟩ := by
  unfold codeDir topOf
  rw [h]
  split
  case h_1 name head tail heq =>
    cases heq
    rfl
  case h_2 hother =>
    split
    case h_1 name head tail => exact absurd rfl (hother name head tail)
    case h_2 => rw [List.append_nil]

section
variable {u : Upload} {o : Outside} {w w' : World}

theorem disk_of_onDisk {path : String} {f : Disk → Except FileFault Disk}
    (h : (onDisk path f).runIn o w = (.ok (), w')) : f w.disk = .ok w'.disk := by
  cases hf : f w.disk with
  | error fault =>
    rw [runIn_onDisk_error hf] at h
    cases h
  | ok disk =>
    rw [runIn_onDisk_ok hf] at h
    cases h
    rfl

theorem disk_of_extract {dir : FilePath} {es : List ArchiveEntry} (h : (extract dir es).runIn o w = (.ok (), w')) :
    Disk.depositAll dir (es.map ArchiveEntry.item) w.disk = .ok w'.disk := by
  induction es generalizing w with
  | nil =>
    cases h
    rfl
  | cons e es ih =>
    obtain ⟨⟨⟩, w₁, hfirst, hrest⟩ := runIn_bind_eq_ok.1 h
    have hdeposit := disk_of_onDisk hfirst
    rw [List.map_cons, Disk.depositAll, List.foldlM_cons]
    have hitem : w.disk.deposit ⟨dir.root, dir.parts ++ e.item.1⟩ e.item.2 = .ok w₁.disk := by
      rw [← hdeposit, ArchiveEntry.item]
      cases e.isDir <;> rfl
    rw [hitem]
    exact ih hrest

theorem disk_of_copy {dir : FilePath} {n : Nat} {files : List (FilePath × Text.Bytes)} {r : PUnit}
    (h : (forIn files PUnit.unit fun file _ => do
      onDisk (⟨dir.root, dir.parts ++ file.1.parts.drop n⟩ : FilePath).toString
        (·.place ⟨dir.root, dir.parts ++ file.1.parts.drop n⟩ file.2)
      return ForInStep.yield PUnit.unit : Act PUnit).runIn o w = (.ok r, w')) :
    Disk.depositAll dir (files.map fun file => (file.1.parts.drop n, some file.2)) w.disk = .ok w'.disk := by
  induction files generalizing w with
  | nil =>
    cases h
    rfl
  | cons file files ih =>
    rw [List.forIn_cons, bind_assoc] at h
    obtain ⟨⟨⟩, w₁, hfirst, hrest⟩ := runIn_bind_eq_ok.1 h
    have hdeposit := disk_of_onDisk hfirst
    rw [List.map_cons, Disk.depositAll, List.foldlM_cons, Disk.deposit, hdeposit]
    exact ih hrest

def copiesOf (d : Disk) (code : FilePath) : List Item :=
  (d.filesBelow code).map fun file => (file.1.parts.drop code.parts.length, some file.2)

theorem disk_of_unpack {sources : List (List String)} {p : Progress}
    (h : (unpack u).runIn o w = (.ok (sources, p), w')) :
    ∃ bytes sent d₁ d₂ d₃ d₄, w.disk.makeDirs u.sourceDir = .ok d₁ ∧ d₁.readBytes u.archive = .ok bytes ∧
      Archive.ofBytes o.packing bytes = ⟨sent, none⟩ ∧
      Disk.depositAll u.sourceDir (sent.map ArchiveEntry.item) d₁ = .ok d₂ ∧ d₂.makeDirs u.outputDir = .ok d₃ ∧
      d₃.makeDirs u.migratedDir = .ok d₄ ∧
      Disk.depositAll u.migratedDir (copiesOf d₂ (codeDir d₂ u.sourceDir)) d₄ = .ok w'.disk ∧
      sources = sourcesBelow d₂ (codeDir d₂ u.sourceDir) ∧ p.code = codeDir d₂ u.sourceDir := by
  obtain ⟨⟨⟩, w₁, hsource, h⟩ := runIn_bind_eq_ok.1 h
  have hd₁ := disk_of_onDisk hsource
  rw [runIn_bind_ok (runIn_get o w₁)] at h
  cases hread : w₁.disk.readBytes u.archive with
  | error fault =>
    rw [hread] at h
    cases h
  | ok bytes =>
    rw [hread] at h
    dsimp only at h
    rw [runIn_bind_ok (runIn_read o w₁)] at h
    obtain ⟨⟨⟩, w₂, hextract, h⟩ := runIn_bind_eq_ok.1 h
    have hd₂ := disk_of_extract hextract
    cases hfailure : (Archive.ofBytes o.packing bytes).failure with
    | some f =>
      rw [hfailure] at h
      cases h
    | none =>
      rw [hfailure] at h
      dsimp only at h
      rw [runIn_bind_ok (runIn_get o w₂), runIn_bind_ok (updateJob_runIn o w₂ _ _)] at h
      obtain ⟨⟨⟩, w₃, houtput, h⟩ := runIn_bind_eq_ok.1 h
      obtain ⟨⟨⟩, w₄, hmigrated, h⟩ := runIn_bind_eq_ok.1 h
      obtain ⟨⟨⟩, w₅, hcopy, h⟩ := runIn_bind_eq_ok.1 h
      cases h
      refine ⟨bytes, (Archive.ofBytes o.packing bytes).items, w₁.disk, w₂.disk, w₃.disk, w₄.disk, hd₁, hread, ?_, hd₂,
        disk_of_onDisk houtput, disk_of_onDisk hmigrated, ?_, rfl, rfl⟩
      · rw [← hfailure]
      · exact disk_of_copy hcopy

theorem copiesOf_of_find {d : Disk} {code : FilePath} {t : FileTree} (h : d.find code = .ok t) :
    copiesOf d code = t.files.map fun file => (file.1, some file.2) := by
  rw [copiesOf, Disk.filesBelow, h]
  dsimp only
  rw [List.map_map]
  refine List.map_congr_left fun file _ => ?_
  simp

end

/-- The bytes of a source that was migrated. Where no text is left, nothing is written. -/
def migratedBytes (kind : String) (bytes : Text.Bytes) : Text.Bytes :=
  let r := fixText kind (looseText bytes)
  if r.code.isEmpty then bytes else Text.encode r.code

/-- A copy of some code in which some sources were migrated. -/
structure Renewed (kind : String) (code : FileTree) (done : List (List String)) (t : FileTree) : Prop where
  tidy : t.Tidy
  named : t.Named IsEntryName
  files : ∀ path, t.fileAt? path =
    (code.fileAt? path).map fun bytes => if path ∈ done then migratedBytes kind bytes else bytes

/-- The directory of an archive that was taken out, while its sources are migrated. -/
structure Midway (u : Upload) (t code : FileTree) (done : List (List String)) (d : Disk) : Prop where
  source : u.inside? d ["source"] = some t
  copy : ∃ entries, u.inside? d ["output", "migrated"] = some (dir entries) ∧ Renewed u.kind code done (dir entries)

/-- A directory with an archive in it, and nothing else. -/
structure Upload.IsFresh (u : Upload) (content : Text.Bytes) (d : Disk) : Prop where
  archive : u.inside? d ["upload.zip"] = some (file content)
  only : ∀ name rest, name ≠ "upload.zip" → u.inside? d (name :: rest) = none

section
variable {u : Upload} {o : Outside} {w w' : World} {content : Text.Bytes} (hu : u.IsPlaced) {d d' : Disk}
  {t code : FileTree} {p : Progress} {done : List (List String)} {sent : Archive} {bytes : Text.Bytes}
  {sources : List (List String)} {source : List String}

theorem back_not_mem {names : List String} (h : ∀ name ∈ names, IsEntryName name) : ".." ∉ names :=
  fun hback => (h ".." hback).2.1 rfl

include hu

theorem codeDir_of_inside (h : u.inside? d ["source"] = some t) :
    codeDir d u.sourceDir = u.below ("source" :: topOf t) := by
  rw [u.sourceDir_eq, codeDir_of_find ((u.find_below hu (by decide)).2 h), u.below_append]
  rfl

theorem find_codeDir (h : u.inside? d ["source"] = some t) (hholds : Holds sent t)
    (hcode : t.at? (topOf t) = some code) : d.find (codeDir d u.sourceDir) = .ok code := by
  have htop : ".." ∉ "source" :: topOf t :=
    List.not_mem_cons_of_ne_of_not_mem (by decide) (back_not_mem (hholds.named.of_at? hholds.tidy hcode))
  rw [codeDir_of_inside hu h, u.find_below hu htop]
  exact (u.inside?_append h _).trans hcode

theorem deposited {rel : List String} {items : List Item} (hback : ".." ∉ rel)
    (hnames : ∀ item ∈ items, ∀ name ∈ item.1, IsEntryName name) (hdir : u.inside? d rel = some (dir []))
    (h : Disk.depositAll (u.below rel) items d = .ok d') :
    (∃ entries, u.inside? d' rel = some (dir entries) ∧ (dir entries).Tidy ∧ (dir entries).Named IsEntryName ∧
        ∀ path, (dir entries).fileAt? path = laid? items path) ∧
      ∀ other, Apart rel other → u.inside? d' other = u.inside? d other := by
  obtain ⟨⟨entries, hentries, hdir'⟩, hother⟩ :=
    u.inside?_depositAll hu hback (fun item hitem => back_not_mem (hnames item hitem)) hdir h
  refine ⟨⟨entries, hdir', hereditary_tidy.deposits tidy_empty (by simp) hentries,
    (hereditary_named _).deposits named_empty hnames hentries, fun path => ?_⟩, hother⟩
  rw [fileAt?_deposits hentries, fileAt?_empty, Option.or_none]

theorem extracted_holds {packing : Archive.Packing} (hsent : Archive.ofBytes packing bytes = ⟨sent, none⟩)
    (hdir : u.inside? d ["source"] = some (dir []))
    (h : Disk.depositAll u.sourceDir (sent.map ArchiveEntry.item) d = .ok d') :
    (∃ entries, u.inside? d' ["source"] = some (dir entries) ∧ Holds sent (dir entries)) ∧
      ∀ other, Apart ["source"] other → u.inside? d' other = u.inside? d other := by
  have hnames : ∀ item ∈ sent.map ArchiveEntry.item, ∀ name ∈ item.1, IsEntryName name := by
    refine List.forall_mem_map.2 fun e he => ArchiveEntry.isEntryName_of_mem_parts ?_
    have hmem : e ∈ (Archive.ofBytes packing bytes).items := by
      rw [hsent]
      exact he
    exact Archive.zero_not_mem_of_mem_ofBytes e hmem
  rw [u.sourceDir_eq] at h
  obtain ⟨⟨entries, hdir', htidy, hnamed, hfiles⟩, hother⟩ := deposited hu (by decide) hnames hdir h
  exact ⟨⟨entries, hdir', htidy, hnamed, fun path => (hfiles path).trans (sent.laid?_items path)⟩, hother⟩

theorem copied_renewed (kind : String) {code : List (String × FileTree)} (htidy : (dir code).Tidy)
    (hnamed : (dir code).Named IsEntryName) (hdir : u.inside? d ["output", "migrated"] = some (dir []))
    (h : Disk.depositAll u.migratedDir ((dir code).files.map fun file => (file.1, some file.2)) d = .ok d') :
    (∃ entries, u.inside? d' ["output", "migrated"] = some (dir entries) ∧ Renewed kind (dir code) [] (dir entries)) ∧
      ∀ other, Apart ["output", "migrated"] other → u.inside? d' other = u.inside? d other := by
  have hnames : ∀ item ∈ (dir code).files.map fun file => ((file.1, some file.2) : Item), ∀ name ∈ item.1,
      IsEntryName name := by
    refine List.forall_mem_map.2 fun file hfile => ?_
    exact hnamed.of_at? htidy (at?_eq_some.2 (fileAt?_eq_some.1 ((mem_files htidy).1 hfile).2))
  rw [u.migratedDir_eq] at h
  obtain ⟨⟨entries, hdir', htidy', hnamed', hfiles⟩, hother⟩ := deposited hu (by decide) hnames hdir h
  refine ⟨⟨entries, hdir', htidy', hnamed', fun path => ?_⟩, hother⟩
  rw [hfiles, laid?_files htidy]
  simp

theorem unpack_midway (harchive : u.archive = u.below ["upload.zip"]) (hfresh : u.IsFresh content w.disk)
    (h : (unpack u).runIn o w = (.ok (sources, p), w')) :
    ∃ sent t code, Archive.ofBytes o.packing content = ⟨sent, none⟩ ∧ Holds sent t ∧ t.at? (topOf t) = some (dir code) ∧
      Midway u t (dir code) [] w'.disk ∧ p.code = u.below ("source" :: topOf t) ∧
      sources = ((sortPaths (dir code).contents).map Prod.fst).filter Workflow.isSource := by
  obtain ⟨bytes, sent, d₁, d₂, d₃, d₄, hsource, hread, hsent, hextract, houtput, hmigrated, hcopy, hsources, hp⟩ :=
    disk_of_unpack h
  rw [u.sourceDir_eq] at hsource
  rw [u.outputDir_eq] at houtput
  rw [u.migratedDir_eq] at hmigrated
  obtain ⟨hsource₁, hother₁⟩ := u.inside?_makeDirs hu (by decide) (hfresh.only _ _ (by decide)) hsource
  have hbytes : content = bytes := by
    rw [harchive, u.readBytes_below hu (by decide), hother₁ _ (by decide), hfresh.archive] at hread
    cases hread
    rfl
  subst hbytes
  obtain ⟨⟨entries, hsource₂, hholds⟩, hother₂⟩ := extracted_holds hu hsent hsource₁ hextract
  obtain ⟨code, hcode⟩ := exists_at?_topOf hholds.tidy
  have hnew (name : String) (rest : List String) (hapart : Apart ["source"] (name :: rest))
      (hleads : ¬name :: rest <+: ["source"]) (hname : name ≠ "upload.zip") :
      u.inside? d₂ (name :: rest) = none := by
    rw [hother₂ _ hapart, hother₁ _ hleads, hfresh.only _ _ hname]
  have houtput₂ : u.inside? d₂ ["output"] = none := hnew "output" [] (by decide) (by decide) (by decide)
  obtain ⟨-, hother₃⟩ := u.inside?_makeDirs hu (by decide) houtput₂ houtput
  have hmigrated₃ : u.inside? d₃ ["output", "migrated"] = none := by
    rw [hother₃ _ (by decide)]
    exact hnew "output" ["migrated"] (by decide) (by decide) (by decide)
  obtain ⟨hmigrated₄, hother₄⟩ := u.inside?_makeDirs hu (by decide) hmigrated₃ hmigrated
  -- The code is found where it was taken out to, and copied from there.
  have hcodeDir := codeDir_of_inside hu hsource₂
  have hfind := find_codeDir hu hsource₂ hholds hcode
  rw [copiesOf_of_find hfind] at hcopy
  have htidy := hholds.tidy.of_find (at?_eq_some.1 hcode)
  have hnamed := hholds.named.of_find (at?_eq_some.1 hcode)
  obtain ⟨hcopied, hother⟩ := copied_renewed hu u.kind htidy hnamed hmigrated₄ hcopy
  refine ⟨sent, dir entries, code, hsent, hholds, hcode, ⟨?_, hcopied⟩, hp.trans hcodeDir, ?_⟩
  · rw [hother _ (by decide), hother₄ _ (by decide), hother₃ _ (by decide), hsource₂]
  · rw [hsources, sourcesBelow, hfind]

theorem readBytes_code (h : Midway u t code done w.disk) (hcode : t.at? (topOf t) = some code)
    (hp : p.code = u.below ("source" :: topOf t)) (hback : ".." ∉ "source" :: (topOf t ++ source)) :
    w.disk.readBytes ⟨p.code.root, p.code.parts ++ source⟩ = .ok bytes ↔ code.fileAt? source = some bytes := by
  rw [hp, u.below_append, List.cons_append, u.readBytes_below hu hback, fileAt?_eq_some, ← at?_eq_some]
  have hinside := u.inside?_append h.source (topOf t ++ source)
  rw [at?_append, hcode] at hinside
  rw [← List.singleton_append, hinside]
  rfl

/-- A source that was read is taken up. What was read is replaced by what it was migrated to. -/
theorem settle_midway (h : Midway u t code done w.disk) {q : Pause} (hback : ".." ∉ q.source)
    (hread : code.fileAt? q.source = some q.bytes) (hnames : ∀ name ∈ q.source, IsEntryName name) :
    ∃ p w', (settle u q).runIn o w = (.ok p, w') ∧ p.code = q.progress.code ∧
      Midway u t code (q.source :: done) w'.disk := by
  obtain ⟨entries, hcopy, hrenewed⟩ := h.copy
  unfold settle
  dsimp only
  split
  case isFalse hempty =>
    -- No text is left, so the bytes of the source stay.
    have hsame : migratedBytes u.kind q.bytes = q.bytes := if_pos (by simpa using hempty)
    refine ⟨_, w, rfl, rfl, h.source, entries, hcopy, hrenewed.tidy, hrenewed.named, fun path => ?_⟩
    rw [hrenewed.files]
    by_cases hpath : path = q.source
    · subst hpath
      rw [hread]
      simp [hsame]
    · simp [hpath]
  case isTrue hcode =>
    have hbytes : migratedBytes u.kind q.bytes = Text.encode (fixText u.kind (looseText q.bytes)).code :=
      if_neg (by simpa using hcode)
    have hback' : ".." ∉ ["output", "migrated"] ++ q.source := by
      rw [List.mem_append]
      exact not_or_intro (by decide) hback
    obtain ⟨old, hold⟩ : ∃ old, (dir entries).fileAt? q.source = some old := by
      rw [hrenewed.files, hread]
      exact ⟨_, rfl⟩
    obtain ⟨d, hplace⟩ := u.exists_place_inside hu hback' hcopy hold (migratedBytes u.kind q.bytes)
    have hdeposit : w.disk.deposit (u.below (["output", "migrated"] ++ q.source))
        (some (migratedBytes u.kind q.bytes)) = .ok d := hplace
    obtain ⟨entries', hinside, hcopy'⟩ := u.inside?_deposit hu hback' hcopy hdeposit
    have hapart : Apart (["output", "migrated"] ++ q.source) ["source"] := Apart.append (by decide) _
    have hsource : u.inside? d ["source"] = some t := by
      rw [u.inside?_deposit_of_apart hu hback' hdeposit hapart, h.source]
    rw [hbytes, ← u.below_append, ← u.migratedDir_eq] at hplace
    have hrun (text : String) : (onDisk text (·.place ⟨u.migratedDir.root, u.migratedDir.parts ++ q.source⟩
        (Text.encode (fixText u.kind (looseText q.bytes)).code))).runIn o w = (.ok (), w.after (.disk d)) :=
      runIn_onDisk_ok hplace
    rw [runIn_bind_ok (runIn_attempt o w _), hrun]
    refine ⟨_, _, rfl, rfl, hsource, entries', hcopy', hereditary_tidy.deposit hrenewed.tidy (by simp) hinside,
      (hereditary_named _).deposit hrenewed.named hnames hinside, fun path => ?_⟩
    rw [fileAt?_deposit hinside, hrenewed.files]
    by_cases hpath : path = q.source
    · subst hpath
      rw [hread]
      simp
    · simp [hpath, Ne.symm hpath]

theorem migrateSource_midway (h : Midway u t code done w.disk) (hcode : t.at? (topOf t) = some code)
    (hp : p.code = u.below ("source" :: topOf t)) (htop : ".." ∉ topOf t) (hnames : ∀ name ∈ source, IsEntryName name) :
    ∃ p' w', (migrateSource u p source).runIn o w = (.ok p', w') ∧ p'.code = p.code ∧
      Midway u t code (source :: done) w'.disk := by
  have hback := back_not_mem hnames
  have hpath : ".." ∉ "source" :: (topOf t ++ source) := by
    refine List.not_mem_cons_of_ne_of_not_mem (by decide) ?_
    rw [List.mem_append]
    exact not_or_intro htop hback
  have hread (bytes : Text.Bytes) : w.disk.readBytes ⟨p.code.root, p.code.parts ++ source⟩ = .ok bytes ↔
      code.fileAt? source = some bytes := readBytes_code hu h hcode hp hpath
  cases hfile : w.disk.readBytes ⟨p.code.root, p.code.parts ++ source⟩ with
  | ok bytes =>
    rw [migrateSource_of_ok hfile []]
    exact settle_midway hu h hback ((hread bytes).1 hfile) hnames
  | error fault =>
    -- A directory with such a name is no file of the code.
    have hnone : code.fileAt? source = none := by
      rw [Option.eq_none_iff_forall_ne_some]
      intro bytes hbytes
      rw [(hread bytes).2 hbytes] at hfile
      cases hfile
    obtain ⟨entries, hcopy, hrenewed⟩ := h.copy
    refine ⟨p, w, migrateSource_of_error hfile, rfl, h.source, entries, hcopy, hrenewed.tidy, hrenewed.named,
      fun path => ?_⟩
    rw [hrenewed.files]
    by_cases hsame : path = source
    · rw [hsame, hnone]
      rfl
    · simp [hsame]

theorem migrateSources_midway (h : Midway u t code done w.disk) (hcode : t.at? (topOf t) = some code)
    (hp : p.code = u.below ("source" :: topOf t)) (htop : ".." ∉ topOf t)
    (hnames : ∀ source ∈ sources, ∀ name ∈ source, IsEntryName name) :
    ∃ p' w', (sources.foldlM (migrateSource u) p).runIn o w = (.ok p', w') ∧
      Midway u t code (sources.reverse ++ done) w'.disk := by
  induction sources generalizing done p w with
  | nil => exact ⟨p, w, rfl, h⟩
  | cons source sources ih =>
    obtain ⟨hsource, hrest⟩ := List.forall_mem_cons.1 hnames
    obtain ⟨p₁, w₁, hrun, hp₁, h₁⟩ := migrateSource_midway (o := o) hu h hcode hp htop hsource
    obtain ⟨p', w', hrun', h'⟩ := ih h₁ (hp₁.trans hp) hrest
    refine ⟨p', w', ?_, ?_⟩
    · rw [List.foldlM_cons, runIn_bind_ok hrun, hrun']
    · rw [List.reverse_cons, List.append_assoc]
      exact h'

theorem packed_of_inside {copy : FileTree} (h : u.inside? d ["output", "migrated"] = some copy) :
    packed d u.migratedDir = copy.toArchive := by
  have hfind : d.find u.migratedDir = .ok copy := by
    rw [u.migratedDir_eq]
    exact (u.find_below hu (by decide)).2 h
  rw [packed, hfind]
  rfl

/-- The work on an archive that was taken in ends with a result, if it does not break off. -/
theorem workOn_midway (harchive : u.archive = u.below ["upload.zip"]) (hfresh : u.IsFresh content w.disk)
    (h : (workOn u).runIn o w = (.ok (), w')) :
    ∃ sent t code copy, Archive.ofBytes o.packing content = ⟨sent, none⟩ ∧ Holds sent t ∧
      t.at? (topOf t) = some (dir code) ∧ u.inside? w'.disk ["source"] = some t ∧
      Renewed u.kind (dir code) (((dir code).contents.map Prod.fst).filter Workflow.isSource) copy ∧
      w'.disk.readBytes u.resultPath = .ok (copy.toArchive.toBytes o.packing) ∧
      w'.registry.results.lookup u.id = some u.resultPath := by
  obtain ⟨⟨sources, p⟩, w₁, hunpack, h⟩ := runIn_bind_eq_ok.1 h
  obtain ⟨sent, t, code, hsent, hholds, hcode, hmidway, hp, hsources⟩ := unpack_midway hu harchive hfresh hunpack
  have htop := back_not_mem (hholds.named.of_at? hholds.tidy hcode)
  have hmem (source : List String) : source ∈ sources.reverse ++ [] ↔
      source ∈ ((dir code).contents.map Prod.fst).filter Workflow.isSource := by
    simp [hsources, sortPaths]
  have hnamed := hholds.named.of_find (at?_eq_some.1 hcode)
  have hnames : ∀ source ∈ sources, ∀ name ∈ source, IsEntryName name := by
    intro source hsource
    have hlisted := (hmem source).1 (by simpa using hsource)
    obtain ⟨e, he, rfl⟩ := List.mem_map.1 (List.mem_filter.1 hlisted).1
    exact hnamed e he
  obtain ⟨q, w₂, hfold, hend⟩ := migrateSources_midway (o := o) hu hmidway hcode hp htop hnames
  dsimp only at h
  rw [runIn_bind_ok hfold] at h
  obtain ⟨copy, hcopy, hrenewed⟩ := hend.copy
  obtain ⟨fault, f, -, -, hpack⟩ | ⟨disk, f, hwrite, -, hpack⟩ := pack_runIn u q o w₂
  · rw [hpack] at h
    cases h
  · rw [hpack] at h
    cases h
    rw [packed_of_inside hu hcopy, u.resultPath_eq] at hwrite
    obtain ⟨hresult, hother⟩ := u.inside?_write hu (by decide) hwrite
    refine ⟨sent, t, code, dir copy, hsent, hholds, hcode, ?_, ⟨hrenewed.tidy, hrenewed.named, fun path => ?_⟩, ?_,
      lookup_setResult _ _ _⟩
    · rw [hother _ (by decide), hend.source]
    · rw [hrenewed.files]
      simp only [hmem]
    · rw [u.resultPath_eq]
      exact (u.readBytes_below hu (by decide)).2 hresult

end

end Service

end CodeMigration
