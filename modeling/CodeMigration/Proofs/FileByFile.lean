import CodeMigration.Proofs.CoderRuns
import CodeMigration.Proofs.PlainPaths
import Mathlib.Data.List.Nodup

/-! # Each file by itself

Without the assistant the planner and the coder treat every file by itself. What is found in a file, the changes for it
and what is in it in the end depend on its content and on the kind of migration only, and not on the other files of the
migration. Only in one thing the files depend on each other: if one of them cannot be transformed, the run breaks off
and none is written. -/

namespace CodeMigration

open Act

variable {c : Change} {cs : List Change} {o : Outside}

/-- A list of paths in their normal form, in which none is there twice. -/
structure IsListing (files : List FilePath) : Prop where
  normal : ∀ p ∈ files, p.IsNormal
  nodup : files.Nodup

variable {p : FilePath} {bytes : Text.Bytes} {w : World}

theorem IsListing.filter_toString {files : List FilePath} (h : IsListing files) (hp : p ∈ files) :
    files.filter (·.toString == p.toString) = [p] := by
  have hname : ∀ q ∈ files, (q.toString == p.toString) = (q == p) := by
    intro q hq
    rw [Bool.eq_iff_iff, beq_iff_eq, beq_iff_eq]
    refine ⟨fun heq => ?_, congrArg _⟩
    rw [← (h.normal q hq).ofString_toString, heq, (h.normal p hp).ofString_toString]
  rw [List.filter_congr hname, List.filter_beq, List.count_eq_one_of_mem h.nodup hp, List.replicate_one]

theorem Disk.readText_of_readBytes {d : Disk} (h : d.readBytes p = .ok bytes) : d.readText p = textOf bytes := by
  rw [readText, h]

namespace Migration

def findingsIn (m : Migration) (file : String) : List Finding := m.findings.filter (·.place.file == file)

def changesIn (m : Migration) (file : String) : List Change := m.changes.filter (·.file == file)

def appliedIn (m : Migration) (file : String) : List Change := m.applied.filter (·.file == file)

end Migration

namespace Planner

def foundIn (kind : MigrationKind) : Except Failure String → List Finding
  | .ok content => (analyze kind content).toOption.getD []
  | .error _ => []

def found (w : World) : List Finding :=
  w.state.files.flatMap fun p =>
    (foundIn w.state.kind (w.disk.readText p)).map (Finding.inFile p.toString)

theorem runIn_planFile (kind : MigrationKind) (p : FilePath) (o : Outside) (w : World) :
    ∃ notes, (planFile false kind p).runIn o w =
      (.ok ((foundIn kind (w.disk.readText p)).map (Finding.inFile p.toString)), w.noting notes) := by
  rw [planFile, runIn_bind_ok (runIn_get o w)]
  cases w.disk.readText p with
  | error f => exact ⟨["Error analyzing " ++ p.toString ++ ": " ++ f.message], rfl⟩
  | ok content =>
    have hfindings : (findings false kind p.toString content).runIn o w =
        (.ok (treeFindings kind p.toString content), w) := rfl
    dsimp only
    rw [runIn_bind_ok hfindings, treeFindings, foundIn]
    cases analyze kind content with
    | error f => exact ⟨["Error analyzing " ++ p.toString ++ ": " ++ f.message], rfl⟩
    | ok fs => exact ⟨[], rfl⟩

theorem runIn_planFiles (kind : MigrationKind) (files : List FilePath) (o : Outside) (w : World) :
    ∃ notes, (files.mapM (planFile false kind)).runIn o w =
      (.ok (files.map fun p => (foundIn kind (w.disk.readText p)).map (Finding.inFile p.toString)),
        w.noting notes) := by
  induction files generalizing w with
  | nil => exact ⟨[], rfl⟩
  | cons p files ih =>
    obtain ⟨notes, hfirst⟩ := runIn_planFile kind p o w
    obtain ⟨more, hrest⟩ := ih (w.noting notes)
    refine ⟨notes ++ more, ?_⟩
    rw [List.mapM_cons, runIn_bind_ok hfirst, runIn_bind_ok hrest]
    have hnotes : w.noting (notes ++ more) = (w.noting notes).noting more :=
      congrArg (fun state => { w with state }) List.foldl_append
    rw [hnotes]
    rfl

/-- Without the assistant the planner comes to an end. It touches no file, and of the migration it changes the findings
and what is said or noted. -/
theorem run_unassisted (o : Outside) (w : World) :
    ∃ w', (run false).runIn o w = (.ok (), w') ∧ w'.disk = w.disk ∧ w'.state.files = w.state.files ∧
      w'.state.kind = w.state.kind ∧ w'.state.findings = found w ∧
      w'.state.changes = w.state.changes ∧ w'.state.applied = w.state.applied := by
  have hstart : Agent.planner.start.runIn o w = (.ok (), w.begun .planner) := rfl
  obtain ⟨notes, hplan⟩ := runIn_planFiles w.state.kind w.state.files o (w.begun .planner)
  rw [World.noting_eq] at hplan
  rw [run, runIn_bind_ok hstart, runIn_bind_ok (runIn_get o _)]
  exact ⟨_, runIn_bind_ok hplan _, rfl, rfl, rfl, rfl, rfl, rfl⟩

end Planner

def Change.inFile (file : String) (c : Change) : Change := { c with file }

theorem patch_inFile (file : String) (cs : List Change) (text : String) :
    patch (cs.map (Change.inFile file)) text = patch cs text := by
  have hsort : lastFirst (cs.map (Change.inFile file)) = (lastFirst cs).map (Change.inFile file) := by
    refine (List.map_mergeSort ?_).symm
    exact fun _ _ _ _ => rfl
  rw [patch, patch, hsort, List.foldl_map]
  rfl

namespace Coder

def appliedFix (content : String) (t : Transformed) (f : Finding) : Change :=
  { fixBy content t f with applied := true }

/-- The same if there is a text and it can be transformed. -/
def fixIn? (kind : MigrationKind) (text : Option String) (f : Finding) : Option Change :=
  text.bind fun content => (transform kind content).toOption.map (appliedFix content · f)

section
variable {kind : MigrationKind} {f : Finding}

theorem fixBy_inFile (content : String) (t : Transformed) (f : Finding) (file : String) :
    fixBy content t (f.inFile file) = (fixBy content t f).inFile file := by
  have hwhole : isWholeFile (f.inFile file) = isWholeFile f := rfl
  rw [fixBy, fixBy, hwhole]
  cases isWholeFile f <;> rfl

@[simp] theorem file_fixBy (content : String) (t : Transformed) (f : Finding) :
    (fixBy content t f).file = f.place.file := by
  rw [fixBy]
  cases isWholeFile f <;> rfl

theorem fixIn?_inFile (text : Option String) (f : Finding) (file : String) :
    fixIn? kind text (f.inFile file) = (fixIn? kind text f).map (Change.inFile file) := by
  have hfix (content : String) :
      (appliedFix content · (f.inFile file)) = Change.inFile file ∘ (appliedFix content · f) := by
    funext t
    simp only [appliedFix, fixBy_inFile]
    rfl
  simp only [fixIn?, hfix, ← Option.map_map, Option.map_bind]
  rfl

theorem of_fixIn?_eq_some {text : Option String} (h : fixIn? kind text f = some c) :
    c.file = f.place.file ∧ c.applied = true := by
  obtain ⟨content, -, h⟩ := Option.bind_eq_some_iff.1 h
  obtain ⟨t, -, rfl⟩ := Option.map_eq_some_iff.1 h
  exact ⟨file_fixBy content t f, rfl⟩

end

section
variable {kind : MigrationKind} {texts : Texts} {f : Finding} {fs : List Finding} {content : String}

theorem treeFixes_cons_of_none (h : texts.lookup f.place.file = none) :
    treeFixes kind texts (f :: fs) = treeFixes kind texts fs := by
  rw [treeFixes, h]

theorem treeFixes_cons_of_some (h : texts.lookup f.place.file = some content) : treeFixes kind texts (f :: fs) = (do
      let t ← transform kind content
      return fixBy content t f :: (← treeFixes kind texts fs)) := by
  rw [treeFixes, h]
  dsimp only
  rw [treeFix_eq_map]
  cases transform kind content <;> rfl

theorem markApplied_treeFixes (h : treeFixes kind texts fs = .ok cs) :
    markApplied cs texts = fs.filterMap fun f => fixIn? kind (texts.lookup f.place.file) f := by
  induction fs generalizing cs with
  | nil =>
    obtain rfl := Except.ok.inj h
    rfl
  | cons f fs ih =>
    cases hlookup : texts.lookup f.place.file with
    | none =>
      rw [treeFixes_cons_of_none hlookup] at h
      rw [ih h, List.filterMap_cons, hlookup]
      rfl
    | some content =>
      rw [treeFixes_cons_of_some hlookup] at h
      obtain ⟨t, ht, h⟩ := of_bind_eq_ok h
      obtain ⟨more, hrest, h⟩ := of_bind_eq_ok h
      obtain rfl := Except.ok.inj h
      have hhas : texts.has (fixBy content t f).file = true := by
        rw [has_eq_isSome, file_fixBy, hlookup]
        rfl
      rw [List.filterMap_cons, hlookup, fixIn?, Option.bind_some, ht, ← ih hrest, markApplied, List.map_cons,
        if_pos hhas]
      rfl

/-- All changes can be made exactly if every text with findings can be transformed. -/
theorem exists_treeFixes_iff : (∃ cs, treeFixes kind texts fs = .ok cs) ↔
    ∀ f ∈ fs, ∀ content, texts.lookup f.place.file = some content → ∃ t, transform kind content = .ok t := by
  induction fs with
  | nil => exact ⟨fun _ => nofun, fun _ => ⟨[], rfl⟩⟩
  | cons f fs ih =>
    rw [List.forall_mem_cons, ← ih]
    cases hlookup : texts.lookup f.place.file with
    | none =>
      rw [treeFixes_cons_of_none hlookup]
      exact ⟨fun h => ⟨nofun, h⟩, fun h => h.2⟩
    | some content =>
      rw [treeFixes_cons_of_some hlookup]
      constructor
      · rintro ⟨cs, hcs⟩
        obtain ⟨t, ht, hcs⟩ := of_bind_eq_ok hcs
        obtain ⟨more, hmore, -⟩ := of_bind_eq_ok hcs
        exact ⟨fun text htext => ⟨t, Option.some.inj htext ▸ ht⟩, more, hmore⟩
      · rintro ⟨hfirst, more, hmore⟩
        obtain ⟨t, ht⟩ := hfirst content rfl
        rw [ht, hmore]
        exact ⟨_, rfl⟩

end

end Coder

namespace Coder

variable {changes : List Change} {texts : Texts} {w : World}

def changesFor (kind : MigrationKind) (found : List Finding) (text : Except Failure String) : List Change :=
  found.filterMap (fixIn? kind text.toOption)

/-- The same for what is found in the text itself. -/
def ownChanges (kind : MigrationKind) (text : Except Failure String) : List Change :=
  (Planner.foundIn kind text).filterMap (fixIn? kind text.toOption)

/-- What becomes of the content of a file by the changes for findings. -/
def bytesBy (kind : MigrationKind) (found : List Finding) (bytes : Text.Bytes) : Text.Bytes :=
  match textOf bytes with
  | .ok content => if found.isEmpty then bytes else Text.encode (patch (changesFor kind found (.ok content)) content)
  | .error _ => bytes

/-- The same by the changes for what is found in the content itself. -/
def bytesAfter (kind : MigrationKind) (bytes : Text.Bytes) : Text.Bytes :=
  match textOf bytes with
  | .ok content =>
    if (Planner.foundIn kind (.ok content)).isEmpty then bytes
    else Text.encode (patch (ownChanges kind (.ok content)) content)
  | .error _ => bytes

theorem bytesAfter_eq (kind : MigrationKind) (bytes : Text.Bytes) :
    bytesAfter kind bytes = bytesBy kind (Planner.foundIn kind (textOf bytes)) bytes := by
  rw [bytesAfter, bytesBy]
  cases textOf bytes <;> rfl

theorem bytesBy_nil (kind : MigrationKind) (bytes : Text.Bytes) : bytesBy kind [] bytes = bytes := by
  rw [bytesBy]
  cases textOf bytes <;> rfl

def allChanges (w : World) : List Change :=
  w.state.findings.filterMap fun f => fixIn? w.state.kind ((foundTexts w).lookup f.place.file) f

/-- The texts that come of all changes, each with its file. -/
def fixedTexts (w : World) : Texts := applyChanges (allChanges w) (foundTexts w)

theorem filter_allChanges (w : World) (file : String) : (allChanges w).filter (·.file == file) =
    (w.state.findingsIn file).filterMap (fixIn? w.state.kind ((foundTexts w).lookup file)) := by
  rw [allChanges, Migration.findingsIn, List.filter_filterMap, List.filterMap_filter]
  refine List.filterMap_congr fun f _ => ?_
  by_cases hfile : f.place.file = file
  · rw [hfile, if_pos BEq.rfl]
    cases hc : fixIn? w.state.kind ((foundTexts w).lookup file) f with
    | none => rfl
    | some c =>
      obtain ⟨hc, -⟩ := of_fixIn?_eq_some hc
      exact Option.filter_some_pos (beq_iff_eq.2 (hc.trans hfile))
  · rw [if_neg (mt beq_iff_eq.1 hfile), Option.filter_eq_none_iff]
    intro c hc
    rw [(of_fixIn?_eq_some hc).1]
    exact mt beq_iff_eq.1 hfile

theorem applied_of_mem_allChanges (hc : c ∈ allChanges w) : c.applied = true := by
  obtain ⟨f, -, hf⟩ := List.mem_filterMap.1 hc
  exact (of_fixIn?_eq_some hf).2

end Coder

/-- A migration with findings for each of its files, the same ones where two paths lead to one file. -/
structure World.Finds (w : World) (found : FilePath → List Finding) : Prop where
  listing : IsListing w.state.files
  findings : w.state.findings = w.state.files.flatMap fun p => (found p).map (Finding.inFile p.toString)
  alike : ∀ p ∈ w.state.files, ∀ q ∈ w.state.files, w.disk.Same p q → found p = found q

namespace World.Finds

open Coder (fixedTexts changesFor allChanges)

variable {w : World} {found : FilePath → List Finding} (h : w.Finds found) {p : FilePath}
variable {e : String × String}
include h

theorem exists_file {f : Finding} (hf : f ∈ w.state.findings) :
    ∃ p ∈ w.state.files, f.place.file = p.toString ∧ found p ≠ [] := by
  rw [h.findings] at hf
  obtain ⟨p, hp, hf⟩ := List.mem_flatMap.1 hf
  obtain ⟨g, hg, rfl⟩ := List.mem_map.1 hf
  exact ⟨p, hp, rfl, List.ne_nil_of_mem hg⟩

variable (hp : p ∈ w.state.files)
include hp

theorem findingsIn_eq : w.state.findingsIn p.toString = (found p).map (Finding.inFile p.toString) := by
  have hkey (q : FilePath) (f : Finding) (hf : f ∈ (found q).map (Finding.inFile q.toString)) :
      f.place.file = q.toString := by
    obtain ⟨g, -, rfl⟩ := List.mem_map.1 hf
    rfl
  rw [Migration.findingsIn, h.findings, filter_flatMap_key hkey, h.listing.filter_toString hp,
    List.flatMap_singleton]

theorem exists_finding (hfound : found p ≠ []) : ∃ f ∈ w.state.findings, f.place.file = p.toString := by
  obtain ⟨f, hf⟩ := List.exists_mem_of_ne_nil _ hfound
  have hmem : f.inFile p.toString ∈ w.state.findingsIn p.toString := by
    rw [h.findingsIn_eq hp]
    exact List.mem_map_of_mem hf
  exact ⟨_, (List.mem_filter.1 hmem).1, rfl⟩

theorem lookup_foundTexts (hfound : found p ≠ []) :
    (foundTexts w).lookup p.toString = (w.disk.readText p).toOption := by
  have hname : p.toString ∈ w.state.findings.map (·.place.file) := List.mem_map.2 (h.exists_finding hp hfound)
  rw [foundTexts, Coder.lookup_textsOn, if_pos hname, (h.listing.normal p hp).ofString_toString]

theorem filter_allChanges : (allChanges w).filter (·.file == p.toString) =
    (changesFor w.state.kind (found p) (w.disk.readText p)).map (Change.inFile p.toString) := by
  rw [Coder.filter_allChanges, h.findingsIn_eq hp, changesFor, List.filterMap_map, List.map_filterMap]
  by_cases hfound : found p = []
  · rw [hfound]
    rfl
  · rw [h.lookup_foundTexts hp hfound]
    exact List.filterMap_congr fun f _ => Coder.fixIn?_inFile _ f _

omit hp

theorem mem_applyChanges : e ∈ fixedTexts w ↔ ∃ p ∈ w.state.files, ∃ content,
      w.disk.readText p = .ok content ∧ found p ≠ [] ∧
        e = (p.toString, patch (changesFor w.state.kind (found p) (.ok content)) content) := by
  have hpatch {p : FilePath} (hp : p ∈ w.state.files) {content : String} (htext : w.disk.readText p = .ok content) :
      patch ((allChanges w).filter (·.file == p.toString)) content =
        patch (changesFor w.state.kind (found p) (.ok content)) content := by
    rw [h.filter_allChanges hp, patch_inFile, htext]
  rw [fixedTexts, applyChanges_eq_map _ (nodup_foundTexts w), List.mem_map]
  constructor
  · rintro ⟨⟨name, content⟩, hmem, rfl⟩
    rw [mem_iff_lookup (nodup_foundTexts w)] at hmem
    have hname : name ∈ w.state.findings.map (·.place.file) := by
      by_contra hname
      rw [foundTexts, Coder.lookup_textsOn, if_neg hname] at hmem
      cases hmem
    obtain ⟨f, hf, rfl⟩ := List.mem_map.1 hname
    obtain ⟨p, hp, hfile, hfound⟩ := h.exists_file hf
    rw [hfile, h.lookup_foundTexts hp hfound] at hmem
    have htext := eq_ok_of_toOption hmem
    refine ⟨p, hp, content, htext, hfound, ?_⟩
    rw [hfile, hpatch hp htext]
  · rintro ⟨p, hp, content, htext, hfound, rfl⟩
    refine ⟨(p.toString, content), ?_, ?_⟩
    · rw [mem_iff_lookup (nodup_foundTexts w), h.lookup_foundTexts hp hfound, htext]
      rfl
    · rw [hpatch hp htext]

theorem exists_readBytes (he : e ∈ fixedTexts w) :
    ∃ old, w.disk.readBytes (.ofString e.1) = .ok old := by
  obtain ⟨p, hp, content, htext, -, rfl⟩ := h.mem_applyChanges.1 he
  obtain ⟨-, bytes, hbytes, -⟩ := Disk.readText_eq_ok htext
  rw [(h.listing.normal p hp).ofString_toString]
  exact ⟨bytes, hbytes⟩

include hp

theorem filter_applied :
    ((fixedTexts w).flatMap fun e => (allChanges w).filter fun c => c.file == e.1 && c.applied).filter
        (·.file == p.toString) =
        (changesFor w.state.kind (found p) (w.disk.readText p)).map (Change.inFile p.toString) := by
  have hkey (e : String × String) (c : Change)
      (hc : c ∈ (allChanges w).filter fun c => c.file == e.1 && c.applied) : c.file = e.1 :=
    beq_iff_eq.1 (Bool.and_eq_true_iff.1 (List.mem_filter.1 hc).2).1
  have hnodup : ((fixedTexts w).map Prod.fst).Nodup := by
    rw [fixedTexts, Coder.map_fst_applyChanges _ (nodup_foundTexts w)]
    exact nodup_foundTexts w
  rw [filter_flatMap_key hkey, filter_name hnodup, ← h.filter_allChanges hp]
  cases hlookup : (fixedTexts w).lookup p.toString with
  | some text =>
    refine (List.flatMap_singleton _ _).trans (List.filter_congr fun c hc => ?_)
    rw [Coder.applied_of_mem_allChanges hc, Bool.and_true]
  | none =>
    -- Without a text there is no change for the file, and a text would be written.
    have hnone : (foundTexts w).lookup p.toString = none := by
      rw [fixedTexts, applyChanges_eq_map _ (nodup_foundTexts w), List.lookup_eq_none_iff] at hlookup
      rw [List.lookup_eq_none_iff]
      intro e he
      have hwritten := hlookup _ (List.mem_map.2 ⟨e, he, rfl⟩)
      exact hwritten
    rw [Coder.filter_allChanges, hnone]
    exact (List.filterMap_eq_nil_iff.2 fun f _ => rfl).symm

theorem readBytes_written (ho : o.WritesAll) {bytes : Text.Bytes}
    (hbytes : w.disk.readBytes p = .ok bytes) :
    (Coder.writeAll o w.disk (fixedTexts w)).1.readBytes p =
      .ok (Coder.bytesBy w.state.kind (found p) bytes) := by
  have htext := Disk.readText_of_readBytes hbytes
  obtain ⟨-, -, hwrites⟩ := Coder.writeAll_over ho fun e he => h.exists_readBytes he
  obtain ⟨hout, hin⟩ := hwrites p
  -- What is written to the file under any of its names comes of its own text and findings.
  have hwritten : ∀ e ∈ fixedTexts w, w.disk.Same (.ofString e.1) p →
      ∃ content, textOf bytes = .ok content ∧ found p ≠ [] ∧
        e.2 = patch (changesFor w.state.kind (found p) (.ok content)) content := by
    intro e he hsame
    obtain ⟨q, hq, content, hcontent, hfound, rfl⟩ := h.mem_applyChanges.1 he
    rw [(h.listing.normal q hq).ofString_toString] at hsame
    rw [h.alike q hq p hp hsame] at hfound
    exact ⟨content, htext.symm.trans (hsame.readText_eq hcontent), hfound, by rw [h.alike q hq p hp hsame]⟩
  rw [Coder.bytesBy]
  cases hcontent : textOf bytes with
  | error failure =>
    refine (hout fun e he hsame => ?_).trans hbytes
    obtain ⟨content, hok, -⟩ := hwritten e he hsame
    rw [hcontent] at hok
    cases hok
  | ok content =>
    dsimp only
    by_cases hfound : found p = []
    · rw [if_pos (List.isEmpty_iff.2 hfound)]
      refine (hout fun e he hsame => ?_).trans hbytes
      obtain ⟨text, -, hne, -⟩ := hwritten e he hsame
      exact hne hfound
    · rw [if_neg (mt List.isEmpty_iff.1 hfound)]
      have hmem := h.mem_applyChanges.2 ⟨p, hp, content, htext.trans hcontent, hfound, rfl⟩
      refine hin _ ⟨_, hmem, ?_⟩ fun e he hsame => ?_
      · rw [(h.listing.normal p hp).ofString_toString]
        exact Disk.same_self hbytes
      · obtain ⟨text, hok, -, htext⟩ := hwritten e he hsame
        rw [hcontent] at hok
        rw [htext, Except.ok.inj hok]

end World.Finds

/-- A migration whose findings are those of the planner in its files. -/
structure World.IsPlanned (w : World) : Prop where
  listing : IsListing w.state.files
  findings : w.state.findings = Planner.found w

theorem Planner.run_isPlanned (hlist : IsListing w.state.files) (o : Outside) :
    ∃ w', (run false).runIn o w = (.ok (), w') ∧ w'.IsPlanned ∧ w'.disk = w.disk ∧
      w'.state.files = w.state.files ∧ w'.state.kind = w.state.kind ∧
      w'.state.changes = w.state.changes ∧ w'.state.applied = w.state.applied := by
  obtain ⟨w', hrun, hdisk, hfiles, hkind, hfindings, hchanges, happlied⟩ := run_unassisted o w
  refine ⟨w', hrun, ⟨hfiles ▸ hlist, ?_⟩, hdisk, hfiles, hkind, hchanges, happlied⟩
  rw [hfindings, found, found, hdisk, hfiles, hkind]

theorem World.IsPlanned.finds (h : w.IsPlanned) :
    w.Finds fun p => Planner.foundIn w.state.kind (w.disk.readText p) where
  listing := h.listing
  findings := h.findings
  alike p _ q _ hsame := by
    rw [Disk.readText, Disk.readText, hsame.readBytes_eq]
    cases w.disk.readBytes q <;> rfl

theorem World.IsPlanned.findingsIn_eq (h : w.IsPlanned) (hp : p ∈ w.state.files) :
    w.state.findingsIn p.toString =
      (Planner.foundIn w.state.kind (w.disk.readText p)).map (Finding.inFile p.toString) :=
  h.finds.findingsIn_eq hp

namespace Coder

/-- A file gains changes: behind those that were applied before come the new ones, and they are all the changes for it.
Only where nothing was found at all the changes stay as they were. -/
structure Gains (m m' : Migration) (file : String) (cs : List Change) : Prop where
  applied : m'.appliedIn file = m.appliedIn file ++ cs
  changes : m'.findings ≠ [] → m'.changesIn file = cs
  unchanged : m'.findings = [] → m'.changes = m.changes ∧ cs = []

theorem Gains.changesIn_eq {m m' : Migration} {file : String} (h : Gains m m' file cs)
    (hnone : m.changesIn file = []) : m'.changesIn file = cs := by
  by_cases hfound : m'.findings = []
  · obtain ⟨hsame, rfl⟩ := h.unchanged hfound
    rw [Migration.changesIn, hsame]
    exact hnone
  · exact h.changes hfound

/-- A run, as far as a file is concerned: what is found in it, the changes that it gains and what it holds in the end
are told by the content that it had. -/
structure Treats (w w' : World) (p : FilePath) (bytes : Text.Bytes) : Prop where
  content : w'.disk.readBytes p = .ok (bytesAfter w.state.kind bytes)
  findings : w'.state.findingsIn p.toString =
    (Planner.foundIn w.state.kind (textOf bytes)).map (Finding.inFile p.toString)
  gains : Gains w.state w'.state p.toString
    ((ownChanges w.state.kind (textOf bytes)).map (Change.inFile p.toString))

variable {w w' : World} {client : Docs.Client} {o : Outside} {found : FilePath → List Finding}

theorem exists_treeFixes_of_run (hfound : w.state.findings ≠ [])
    (hrun : (run false client).runIn o w = (.ok (), w')) :
    ∃ cs, treeFixes w.state.kind (foundTexts w) w.state.findings = .ok cs := by
  cases hfixes : treeFixes w.state.kind (foundTexts w) w.state.findings with
  | error failure =>
    obtain ⟨w'', hfails, -⟩ := (run_unassisted hfound client o).1 failure hfixes
    rw [hrun] at hfails
    cases hfails
  | ok cs => exact ⟨cs, rfl⟩

theorem run_sameTask {assisted : Bool} {r : Except Failure Unit} (hrun : (run assisted client).runIn o w = (r, w')) :
    w'.state.findings = w.state.findings ∧ w'.state.files = w.state.files ∧
      w'.state.kind = w.state.kind := by
  have hthrough := (run_leads assisted client).through o w
  rw [hrun] at hthrough
  refine ⟨hthrough.keeps (·.state.findings) ?_, hthrough.keeps (·.state.files) ?_,
    hthrough.keeps (·.state.kind) ?_⟩
  all_goals
    intro d hd w
    cases d <;> first | rfl | cases hd

/-- A run that comes to an end has written the changed texts of all files with findings, and holds their changes. -/
theorem run_wrote (ho : o.WritesAll) (h : w.Finds found) (hfound : w.state.findings ≠ [])
    (hrun : (run false client).runIn o w = (.ok (), w')) :
    w'.disk = (writeAll o w.disk (fixedTexts w)).1 ∧ w'.state.changes = allChanges w ∧
      w'.state.applied = w.state.applied ++
        (fixedTexts w).flatMap fun e => (allChanges w).filter fun c => c.file == e.1 && c.applied := by
  obtain ⟨cs, hfixes⟩ := exists_treeFixes_of_run hfound hrun
  obtain ⟨w'', hrun', halike⟩ := (run_unassisted hfound client o).2 cs hfixes
  rw [hrun] at hrun'
  cases hrun'
  rw [closed, markApplied_treeFixes hfixes, ← allChanges, wroteTexts_eq, ← fixedTexts] at halike
  obtain ⟨hdisk, hwork⟩ := halike
  have hopened : (opened w).disk = w.disk ∧ (opened w).state.applied = w.state.applied := by
    rw [opened, World.noting_eq]
    exact ⟨rfl, rfl⟩
  obtain ⟨hopen, happlied⟩ := hopened
  replace hopen : ((opened w).after (.changed (allChanges w))).disk = w.disk := hopen
  rw [hopen] at hdisk hwork
  refine ⟨hdisk, (congrArg Migration.changes hwork :), (congrArg Migration.applied hwork :).trans ?_⟩
  obtain ⟨hfiles, -⟩ := writeAll_over ho fun e he => h.exists_readBytes he
  refine congrArg₂ (· ++ ·) happlied ?_
  simp [hfiles, writtenFiles, List.flatMap_map]

/-- The coder comes to an end exactly if the text of every finding can be transformed, as far as there is one. -/
theorem run_ok_iff (w : World) (client : Docs.Client) (o : Outside) :
    (∃ w', (run false client).runIn o w = (.ok (), w')) ↔
      ∀ f ∈ w.state.findings, ∀ content, w.disk.readText (.ofString f.place.file) = .ok content →
        ∃ t, transform w.state.kind content = .ok t := by
  have hlookup : ∀ f ∈ w.state.findings, ∀ content,
      (foundTexts w).lookup f.place.file = some content ↔ w.disk.readText (.ofString f.place.file) = .ok content := by
    intro f hf content
    rw [foundTexts, lookup_textsOn, if_pos (List.mem_map_of_mem hf)]
    exact ⟨eq_ok_of_toOption, fun htext => by rw [htext]; rfl⟩
  have hfixes : (∃ cs, treeFixes w.state.kind (foundTexts w) w.state.findings = .ok cs) ↔
      ∀ f ∈ w.state.findings, ∀ content, w.disk.readText (.ofString f.place.file) = .ok content →
        ∃ t, transform w.state.kind content = .ok t := by
    rw [exists_treeFixes_iff]
    exact forall₂_congr fun f hf => forall_congr' fun content => imp_congr_left (hlookup f hf content)
  rw [← hfixes]
  by_cases hfound : w.state.findings = []
  · rw [run_of_no_findings false client o hfound, hfound]
    exact ⟨fun _ => ⟨[], rfl⟩, fun _ => ⟨_, rfl⟩⟩
  · constructor
    · rintro ⟨w', hrun⟩
      exact exists_treeFixes_of_run hfound hrun
    · rintro ⟨cs, hcs⟩
      obtain ⟨w', hrun, -⟩ := (run_unassisted hfound client o).2 cs hcs
      exact ⟨w', hrun⟩

theorem run_returns_iff (h : w.IsPlanned) (client : Docs.Client) (o : Outside) :
    (∃ w', (run false client).runIn o w = (.ok (), w')) ↔
      ∀ p ∈ w.state.files, ∀ content, w.disk.readText p = .ok content →
        Planner.foundIn w.state.kind (.ok content) ≠ [] → ∃ t, transform w.state.kind content = .ok t := by
  rw [run_ok_iff]
  constructor
  · intro hall p hp content htext hfound
    obtain ⟨f, hf, hfile⟩ := h.finds.exists_finding hp (by rwa [htext])
    refine hall f hf content ?_
    rw [hfile, (h.listing.normal p hp).ofString_toString, htext]
  · intro hall f hf content htext
    obtain ⟨p, hp, hfile, hfound⟩ := h.finds.exists_file hf
    rw [hfile, (h.listing.normal p hp).ofString_toString] at htext
    exact hall p hp content htext (htext ▸ hfound)

/-- Where each file has its findings, a run that comes to an end has written the changed texts of those that have
any. -/
theorem run_disk (ho : o.WritesAll) (h : w.Finds found) (hrun : (run false client).runIn o w = (.ok (), w')) :
    w'.disk = (writeAll o w.disk (fixedTexts w)).1 := by
  by_cases hfound : w.state.findings = []
  · have hnone : foundTexts w = [] := by
      rw [foundTexts, hfound]
      rfl
    rw [run_of_no_findings false client o hfound] at hrun
    cases hrun
    rw [fixedTexts, allChanges, hfound, hnone]
    rfl
  · exact (run_wrote ho h hfound hrun).1

theorem readBytes_run (ho : o.WritesAll) (h : w.Finds found)
    (hrun : (run false client).runIn o w = (.ok (), w')) {p : FilePath} (hp : p ∈ w.state.files)
    {bytes : Text.Bytes} (hbytes : w.disk.readBytes p = .ok bytes) :
    w'.disk.readBytes p = .ok (bytesBy w.state.kind (found p) bytes) := by
  rw [run_disk ho h hrun]
  exact h.readBytes_written hp ho hbytes

theorem run_treats (ho : o.WritesAll) (h : w.IsPlanned) (hrun : (run false client).runIn o w = (.ok (), w'))
    {p : FilePath} (hp : p ∈ w.state.files) {bytes : Text.Bytes} (hbytes : w.disk.readBytes p = .ok bytes) :
    Treats w w' p bytes := by
  have htext := Disk.readText_of_readBytes hbytes
  have hfile := h.findingsIn_eq hp
  have hcontent := readBytes_run ho h.finds hrun hp hbytes
  rw [htext] at hfile
  rw [htext, ← bytesAfter_eq] at hcontent
  by_cases hfound : w.state.findings = []
  · have hnone : Planner.foundIn w.state.kind (textOf bytes) = [] := by
      rw [Migration.findingsIn, hfound] at hfile
      exact List.map_eq_nil_iff.1 hfile.symm
    rw [run_of_no_findings false client o hfound] at hrun
    cases hrun
    refine ⟨hcontent, hfile, ?_⟩
    rw [ownChanges, hnone]
    exact ⟨(List.append_nil _).symm, fun hne => absurd hfound hne, fun _ => ⟨rfl, rfl⟩⟩
  · obtain ⟨hfindings, -⟩ := run_sameTask hrun
    obtain ⟨-, hchanges, happlied⟩ := run_wrote ho h.finds hfound hrun
    refine ⟨hcontent, ?_, ?_, fun _ => ?_, fun hnone => absurd (hfindings ▸ hnone) hfound⟩
    · rw [Migration.findingsIn, hfindings]
      exact hfile
    · rw [Migration.appliedIn, happlied, List.filter_append, h.finds.filter_applied hp, htext]
      rfl
    · rw [Migration.changesIn, hchanges, h.finds.filter_allChanges hp, htext]
      rfl

end Coder

/-- The planner and behind it the coder, both without the assistant. -/
def planAndCode (client : Docs.Client) : Act Unit := do
  Planner.run false
  Coder.run false client

theorem planAndCode_treats {w' : World} (hlist : IsListing w.state.files) {client : Docs.Client}
    (ho : o.WritesAll) (hrun : (planAndCode client).runIn o w = (.ok (), w')) (hp : p ∈ w.state.files)
    (hbytes : w.disk.readBytes p = .ok bytes) : Coder.Treats w w' p bytes := by
  obtain ⟨w₁, hplan, hplanned, hdisk, hfiles, hkind, hchanges, happlied⟩ := Planner.run_isPlanned hlist o
  rw [planAndCode, runIn_bind_ok hplan] at hrun
  obtain ⟨hcontent, hfindings, hgains⟩ := Coder.run_treats ho hplanned hrun (hfiles ▸ hp) (hdisk ▸ hbytes)
  rw [hkind] at hcontent hfindings hgains
  refine ⟨hcontent, hfindings, ?_, hgains.changes, ?_⟩
  · rw [hgains.applied, Migration.appliedIn, happlied, Migration.appliedIn]
  · rw [← hchanges]
    exact hgains.unchanged

/-- Without the assistant each file is treated by itself. Take two migrations of one kind that both list a file, with
the same content in both, and let both come to an end. Then the file holds the same in the end, the same was found in
it, and it gained the same changes. So all changes for it are the same in both, as long as the same ones were applied
to it before and none was left from before. -/
theorem planAndCode_file_by_file {w v : World} (hkind : w.state.kind = v.state.kind)
    (hw : IsListing w.state.files) (hv : IsListing v.state.files) {p : FilePath}
    (hpw : p ∈ w.state.files) (hpv : p ∈ v.state.files) {bytes : Text.Bytes}
    (hbytesw : w.disk.readBytes p = .ok bytes) (hbytesv : v.disk.readBytes p = .ok bytes)
    {client client' : Docs.Client} {o o' : Outside} (ho : o.WritesAll) (ho' : o'.WritesAll) {w' v' : World}
    (hrunw : (planAndCode client).runIn o w = (.ok (), w')) (hrunv : (planAndCode client').runIn o' v = (.ok (), v')) :
    (∃ bytes', w'.disk.readBytes p = .ok bytes' ∧ v'.disk.readBytes p = .ok bytes') ∧
      w'.state.findingsIn p.toString = v'.state.findingsIn p.toString ∧
      (∃ cs, Coder.Gains w.state w'.state p.toString cs ∧
        Coder.Gains v.state v'.state p.toString cs) ∧
      (w.state.appliedIn p.toString = v.state.appliedIn p.toString →
        w.state.changesIn p.toString = [] → v.state.changesIn p.toString = [] →
        w'.state.appliedIn p.toString = v'.state.appliedIn p.toString ∧
          w'.state.changesIn p.toString = v'.state.changesIn p.toString) := by
  obtain ⟨hcontentw, hfindingsw, hgainsw⟩ := planAndCode_treats hw ho hrunw hpw hbytesw
  obtain ⟨hcontentv, hfindingsv, hgainsv⟩ := planAndCode_treats hv ho' hrunv hpv hbytesv
  rw [hkind] at hcontentw hfindingsw hgainsw
  refine ⟨⟨_, hcontentw, hcontentv⟩, hfindingsw.trans hfindingsv.symm, ⟨_, hgainsw, hgainsv⟩, ?_⟩
  intro happlied hnonew hnonev
  constructor
  · rw [hgainsw.applied, hgainsv.applied, happlied]
  · rw [hgainsw.changesIn_eq hnonew, hgainsv.changesIn_eq hnonev]

theorem isListing_ofStrings {names : List String} (h : (names.map FilePath.ofString).Nodup) :
    IsListing (names.map FilePath.ofString) := by
  refine ⟨fun p hp => ?_, h⟩
  obtain ⟨name, -, rfl⟩ := List.mem_map.1 hp
  exact FilePath.isNormal_ofString name

theorem toString_ofString_a : (FilePath.ofString "a.py").toString = "a.py" := by decide +kernel

/-- A migration of some files, of which two can be there: one with a call, and another that cannot be read as text. -/
def callAmong (names : List String) (applied : List Change) : World where
  disk := { here := .dir [("a.py", .file (Text.encode "xrange(3)\n")), ("b.py", .file [0xFF])] }
  state := { repoUrl := "", files := names.map FilePath.ofString, applied }

/-- A change of the file with the call, applied before. -/
def earlierChange : Change :=
  { id := "c0", findingId := "p", file := "a.py", before := "", after := "", startLine := 1, endLine := 1,
    explanation := "" }

theorem planAndCode_file_by_file_callAmong :
    ∃ w' v', (planAndCode ⟨"", false⟩).runIn {} (callAmong ["a.py"] []) = (.ok (), w') ∧
      (planAndCode ⟨"", false⟩).runIn {} (callAmong ["missing.py", "b.py", "a.py"] []) = (.ok (), v') ∧
      w'.disk.readText (.ofString "a.py") = .ok "range(3)\n" ∧
      w'.disk.readBytes (.ofString "a.py") = v'.disk.readBytes (.ofString "a.py") ∧
      w'.state.findingsIn "a.py" = v'.state.findingsIn "a.py" ∧
      w'.state.appliedIn "a.py" = v'.state.appliedIn "a.py" ∧
      w'.state.changesIn "a.py" = v'.state.changesIn "a.py" := by
  have hends : endsWith ((planAndCode ⟨"", false⟩).runIn {} (callAmong ["a.py"] [])) "range(3)\n" = true := by
    decide +kernel
  have hok : ((planAndCode ⟨"", false⟩).runIn {} (callAmong ["missing.py", "b.py", "a.py"] [])).1.isOk = true := by
    decide +kernel
  have hw : (["a.py"].map FilePath.ofString).Nodup := by decide +kernel
  have hv : (["missing.py", "b.py", "a.py"].map FilePath.ofString).Nodup := by decide +kernel
  have hbytes : (callAmong ["a.py"] []).disk.readBytes (.ofString "a.py") = .ok (Text.encode "xrange(3)\n") := by
    decide +kernel
  obtain ⟨w', hrunw, htext⟩ := exists_of_endsWith hends
  obtain ⟨⟨⟩, v', hrunv⟩ := exists_runIn_ok hok
  have hpw : FilePath.ofString "a.py" ∈ ["a.py"].map FilePath.ofString := List.mem_map_of_mem (by decide)
  have hpv : FilePath.ofString "a.py" ∈ ["missing.py", "b.py", "a.py"].map FilePath.ofString :=
    List.mem_map_of_mem (by decide)
  obtain ⟨⟨bytes, hcontentw, hcontentv⟩, hfindings, -, hchanges⟩ :=
    @planAndCode_file_by_file (callAmong ["a.py"] []) (callAmong ["missing.py", "b.py", "a.py"] []) rfl
      (isListing_ofStrings hw) (isListing_ofStrings hv) _ hpw hpv _ hbytes hbytes _ _ {} {} (fun _ _ => rfl)
        (fun _ _ => rfl) _ _ hrunw hrunv
  rw [toString_ofString_a] at hfindings hchanges
  obtain ⟨happlied, hchanges⟩ := hchanges rfl rfl rfl
  exact ⟨w', v', hrunw, hrunv, htext, hcontentw.trans hcontentv.symm, hfindings, happlied, hchanges⟩

/-- A change applied before stays, so that a file with one and the same file without it differ in the end. -/
theorem earlier_change_stays_applied :
    ∃ w' v', (planAndCode ⟨"", false⟩).runIn {} (callAmong ["a.py"] []) = (.ok (), w') ∧
      (planAndCode ⟨"", false⟩).runIn {} (callAmong ["a.py"] [earlierChange]) = (.ok (), v') ∧
      w'.state.appliedIn "a.py" ≠ v'.state.appliedIn "a.py" := by
  have hokw : ((planAndCode ⟨"", false⟩).runIn {} (callAmong ["a.py"] [])).1.isOk = true := by decide +kernel
  have hokv : ((planAndCode ⟨"", false⟩).runIn {} (callAmong ["a.py"] [earlierChange])).1.isOk = true := by
    decide +kernel
  have hne : ((planAndCode ⟨"", false⟩).runIn {} (callAmong ["a.py"] [])).2.state.appliedIn "a.py" ≠
      ((planAndCode ⟨"", false⟩).runIn {} (callAmong ["a.py"] [earlierChange])).2.state.appliedIn "a.py" := by
    decide +kernel
  obtain ⟨⟨⟩, w', hrunw⟩ := exists_runIn_ok hokw
  obtain ⟨⟨⟩, v', hrunv⟩ := exists_runIn_ok hokv
  rw [hrunw, hrunv] at hne
  exact ⟨w', v', hrunw, hrunv, hne⟩

end CodeMigration
