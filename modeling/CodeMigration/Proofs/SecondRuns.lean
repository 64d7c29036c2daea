import CodeMigration.Proofs.RejectedFiles
import CodeMigration.Proofs.TransformableTexts

/-! # Second runs of the coder

A second run works on the findings that the planner made for the first, though the files have changed since. Each file is
transformed once more, and the lines with the numbers of the old findings are copied again, out of a text with a layout
of its own. So a file stays as the first run left it exactly if these lines are the same in the file and in what it is
transformed to now. -/

namespace CodeMigration

open Act

namespace Coder

section
variable {w w' : World} {found : FilePath → List Finding} (h : w.Finds found) {client : Docs.Client} {o : Outside}
  (ho : o.WritesAll) (hrun : (run false client).runIn o w = (.ok (), w'))
include h ho hrun

theorem same_run (p q : FilePath) : w'.disk.Same p q ↔ w.disk.Same p q := by
  rw [run_disk ho h hrun]
  exact (writeAll_over ho fun e he => h.exists_readBytes he).2.1 p q

theorem run_finds : w'.Finds found := by
  obtain ⟨hfindings, hfiles, -⟩ := run_sameTask hrun
  refine ⟨hfiles ▸ h.listing, ?_, ?_⟩
  · rw [hfindings, hfiles]
    exact h.findings
  · rw [hfiles]
    intro p hp q hq hsame
    exact h.alike p hp q hq ((same_run h ho hrun p q).1 hsame)

theorem readBytes_run_of_not_same {q : FilePath} (hq : ∀ p ∈ w.state.files, w.disk.Same p q →
    ∀ bytes, w.disk.readBytes p ≠ .ok bytes) : w'.disk.readBytes q = w.disk.readBytes q := by
  rw [run_disk ho h hrun]
  refine ((writeAll_over ho fun e he => h.exists_readBytes he).2.2 q).1 fun e he hleads => ?_
  obtain ⟨p, hp, content, htext, -, rfl⟩ := h.mem_applyChanges.1 he
  obtain ⟨-, bytes, hbytes, -⟩ := Disk.readText_eq_ok htext
  rw [(h.listing.normal p hp).ofString_toString] at hleads
  exact hq p hp hleads bytes hbytes

end

/-- A content that the changes for findings leave as it is. -/
def IsSettled (kind : MigrationKind) (found : List Finding) (bytes : Text.Bytes) : Prop :=
  bytesBy kind found bytes = bytes

theorem patch_appliedFix (found : List Finding) (content : String) (t : Transformed) (text : String) :
    patch (found.map (appliedFix content t)) text = patch (found.map (fixBy content t)) text := by
  have hsort : lastFirst (found.map (appliedFix content t)) =
      (lastFirst (found.map (fixBy content t))).map fun c => { c with applied := true } := by
    have hmap : found.map (appliedFix content t) =
        (found.map (fixBy content t)).map fun c => { c with applied := true } := by
      rw [List.map_map]
      rfl
    rw [hmap]
    refine (List.map_mergeSort ?_).symm
    exact fun _ _ _ _ => rfl
  rw [patch, patch, hsort, List.foldl_map]
  rfl

section
variable {kind : MigrationKind} {found : List Finding} {text : String} {t : Transformed}
  (hreturn : '\r' ∉ text.toList) (ht : transform kind text = .ok t)
include hreturn ht

theorem isSettled_iff (hfound : found ≠ []) :
    IsSettled kind found (Text.encode text) ↔ patch (found.map (fixBy text t)) text = text := by
  have hchanges : changesFor kind found (.ok text) = found.map (appliedFix text t) := by
    rw [changesFor, ← List.filterMap_eq_map]
    refine List.filterMap_congr fun f _ => ?_
    rw [fixIn?, Except.toOption, Option.bind_some, ht]
    rfl
  rw [IsSettled, bytesBy, textOf_encode hreturn]
  dsimp only
  rw [if_neg (mt List.isEmpty_iff.1 hfound), hchanges, patch_appliedFix]
  refine ⟨fun h => ?_, congrArg _⟩
  have hdecode := congrArg Text.decode h
  rw [Text.decode_encode, Text.decode_encode] at hdecode
  exact Except.ok.inj hdecode

theorem isSettled_whole_iff {f : Finding} (hwhole : isWholeFile f = true) :
    IsSettled kind [f] (Text.encode text) ↔ t.code = text := by
  have hfix : fixBy text t f = wholeFileFix f text t := if_pos hwhole
  rw [isSettled_iff hreturn ht (List.cons_ne_nil _ _), List.map_singleton, hfix, patch_whole rfl rfl]
  rfl

theorem isSettled_copied_iff (hfound : found ≠ []) (hlines : ∀ f ∈ found, isWholeFile f = false) {n : Nat}
    (hplaces : ∀ f ∈ found, f.place.Within n) : IsSettled kind found (Text.encode text) ↔
      copied found (Text.lines t.code) (Text.lines text) = Text.lines text := by
  have hfixes : found.map (fixBy text t) = found.map (linesFix · t) := by
    refine List.map_congr_left fun f hf => ?_
    rw [fixBy, hlines f hf]
    rfl
  rw [isSettled_iff hreturn ht hfound, hfixes, patch_linesFix hplaces, ← Text.lines_inj, lines_unlines_copied]

end

end Coder

theorem Coder.not_isWholeFile_of_told {f : Finding} {site : Flask.Site} {told : Flask.Told}
    (htold : site.told = .ok told) (h : f.kind = told.kind) : isWholeFile f = false := by
  rw [isWholeFile, h]
  cases site with
  | imported what =>
    cases htold
    cases what <;> decide
  | appCreation name =>
    cases htold
    rfl
  | route function keywords =>
    obtain ⟨methods, -, htold⟩ := of_bind_eq_ok htold
    obtain ⟨fix, -, htold⟩ := of_bind_eq_ok htold
    cases htold
    rfl
  | verb name =>
    cases htold
    rfl
  | requestPart part function =>
    cases htold
    cases part <;> rfl
  | helper helper function =>
    cases htold
    cases helper <;> rfl

namespace Planner

variable {kind : MigrationKind} {text : String}

theorem foundIn_module (hreturn : '\r' ∉ text.toList) {m : Source.Module} (hm : Source.Module.ofString text = .ok m) :
    ∀ f ∈ foundIn kind (.ok text), Coder.isWholeFile f = false ∧ f.place.Within (Text.lines text).length := by
  intro f hf
  rw [foundIn] at hf
  cases hfs : analyze kind text with
  | error failure =>
    rw [hfs] at hf
    cases hf
  | ok fs =>
    rw [hfs] at hf
    have hf : f ∈ fs := hf
    refine ⟨?_, within_of_analyze hreturn hm hfs f hf⟩
    cases kind with
    | legacy =>
      obtain ⟨gs, hgs, hfound⟩ := Legacy.exists_analyze hreturn hm
      cases hgs.symm.trans hfs
      obtain ⟨u, hu⟩ := (hfound f hf).2
      exact Coder.not_isWholeFile_of_use hu
    | flask =>
      rw [analyze, hm] at hfs
      obtain ⟨q, -, ⟨told, htold, hkind, -⟩, -⟩ := Flask.exists_tells_of_report hfs hf
      exact Coder.not_isWholeFile_of_told htold hkind

theorem foundIn_rejected {fault : Source.Fault} (hm : Source.Module.ofString text = .error fault)
    (hfound : foundIn kind (.ok text) ≠ []) : ∃ f, foundIn kind (.ok text) = [f] ∧ Coder.isWholeFile f = true := by
  have hanalyze : analyze kind text = (do return [← faultFinding text fault]) := by
    rw [analyze, hm]
  rw [foundIn, hanalyze] at hfound ⊢
  cases hfault : faultFinding text fault with
  | error failure =>
    rw [hfault] at hfound
    exact absurd rfl hfound
  | ok f =>
    refine ⟨f, rfl, ?_⟩
    rw [faultFinding] at hfault
    split at hfault
    · cases hfault
      rfl
    · split at hfault
      · cases hfault
        rfl
      · cases hfault

end Planner

namespace Coder

section
variable {kind : MigrationKind} {text text₁ : String} {t : Transformed}
  (hfound : Planner.foundIn kind (.ok text) ≠ []) (hreturn : '\r' ∉ text₁.toList) (ht : transform kind text₁ = .ok t)
include hfound hreturn ht

theorem isSettled_rejected_iff {fault : Source.Fault} (hm : Source.Module.ofString text = .error fault) :
    IsSettled kind (Planner.foundIn kind (.ok text)) (Text.encode text₁) ↔ t.code = text₁ := by
  obtain ⟨f, hf, hwhole⟩ := Planner.foundIn_rejected hm hfound
  rw [hf, isSettled_whole_iff hreturn ht hwhole]

theorem isSettled_module_iff (hreturn₀ : '\r' ∉ text.toList) {m : Source.Module}
    (hm : Source.Module.ofString text = .ok m) :
    (IsSettled kind (Planner.foundIn kind (.ok text)) (Text.encode text₁) ↔
      copied (Planner.foundIn kind (.ok text)) (Text.lines t.code) (Text.lines text₁) = Text.lines text₁) ∧
    ((∀ f ∈ Planner.foundIn kind (.ok text), f.place.Within (Text.lines text₁).length ∧ f.EndsIn (Text.lines t.code)) →
      (IsSettled kind (Planner.foundIn kind (.ok text)) (Text.encode text₁) ↔
        ∀ i < (Text.lines text₁).length, (Planner.foundIn kind (.ok text)).any (·.place.covers i) = true →
          (Text.lines text₁)[i]? = some ((Text.lines t.code).getD i ""))) := by
  have hlines := @Planner.foundIn_module kind text hreturn₀ m hm
  have hcopied := isSettled_copied_iff hreturn ht hfound (fun f hf => (hlines f hf).1) fun f hf => (hlines f hf).2
  refine ⟨hcopied, fun hends => ?_⟩
  rw [hcopied, copied_eq_woven (fun f hf => (hends f hf).1) fun f hf => (hends f hf).2, woven_eq_old_iff]

end

end Coder

section
variable {w w₀ w₁ w₂ : World} (hlist : IsListing w.state.files) {client client' : Docs.Client}
  {o o' o'' : Outside} (hplan : (Planner.run false).runIn o w = (.ok (), w₀))
  (ho' : o'.WritesAll) (hfirst : (Coder.run false client).runIn o' w₀ = (.ok (), w₁)) (ho'' : o''.WritesAll)
  (hsecond : (Coder.run false client').runIn o'' w₁ = (.ok (), w₂))
include hlist hplan ho' hfirst

theorem finds_of_first_run : w₁.Finds (fun p => Planner.foundIn w.state.kind (w.disk.readText p)) ∧
    w₁.state.files = w.state.files ∧ w₁.state.kind = w.state.kind := by
  obtain ⟨v, hrun, hplanned, hdisk, hfiles, hkind, -⟩ := Planner.run_isPlanned hlist o
  obtain ⟨-, rfl⟩ := Prod.mk.inj (hplan.symm.trans hrun)
  have hfinds := hplanned.finds
  rw [hkind, hdisk] at hfinds
  obtain ⟨-, hfiles₁, hkind₁⟩ := Coder.run_sameTask hfirst
  exact ⟨Coder.run_finds hfinds ho' hfirst, hfiles₁.trans hfiles, hkind₁.trans hkind⟩

include hsecond

/-- A second run that comes to an end can transform every text in which something was found at first. -/
theorem exists_transform_of_second_run {p : FilePath} (hp : p ∈ w.state.files)
    (hfound : Planner.foundIn w.state.kind (w.disk.readText p) ≠ []) {text : String}
    (htext : w₁.disk.readText p = .ok text) : ∃ t, transform w.state.kind text = .ok t := by
  obtain ⟨hfinds, hfiles, hkind⟩ := finds_of_first_run hlist hplan ho' hfirst
  obtain ⟨f, hf, hfile⟩ := hfinds.exists_finding (hfiles ▸ hp) hfound
  rw [← hkind]
  refine (Coder.run_ok_iff w₁ client' o'').1 ⟨w₂, hsecond⟩ f hf text ?_
  rw [hfile, (hlist.normal p hp).ofString_toString, htext]

include ho''

theorem second_run_leaves_iff {p : FilePath} (hp : p ∈ w.state.files) {bytes : Text.Bytes}
    (hbytes : w₁.disk.readBytes p = .ok bytes) : w₂.disk.readBytes p = w₁.disk.readBytes p ↔
      Coder.IsSettled w.state.kind (Planner.foundIn w.state.kind (w.disk.readText p)) bytes := by
  obtain ⟨hfinds, hfiles, hkind⟩ := finds_of_first_run hlist hplan ho' hfirst
  have hagain := Coder.readBytes_run ho'' hfinds hsecond (hfiles ▸ hp) hbytes
  rw [hagain, hbytes, hkind, Except.ok.injEq, Coder.IsSettled]

end

/-- Behind a plan and two runs that came to an end, with no write that failed, all files are as the first run left them
exactly if each is settled for what the planner found in it at first. A file that was no module then is left alone
exactly if its text is transformed to itself now. One that was a module is left alone exactly if the lines copied into
it are its own: with lines enough to copy, if wherever the planner found something the text and what it is transformed
to have the same line. -/
theorem second_run_changes_nothing_iff {w w₀ w₁ w₂ : World} (hlist : IsListing w.state.files)
    {client client' : Docs.Client} {o o' o'' : Outside} (hplan : (Planner.run false).runIn o w = (.ok (), w₀))
    (ho' : o'.WritesAll) (hfirst : (Coder.run false client).runIn o' w₀ = (.ok (), w₁)) (ho'' : o''.WritesAll)
    (hsecond : (Coder.run false client').runIn o'' w₁ = (.ok (), w₂)) :
    ((∀ q, w₂.disk.readBytes q = w₁.disk.readBytes q) ↔
      ∀ p ∈ w.state.files, ∀ bytes, w₁.disk.readBytes p = .ok bytes →
        Coder.IsSettled w.state.kind (Planner.foundIn w.state.kind (w.disk.readText p)) bytes) ∧
      ∀ p ∈ w.state.files, ∀ text text₁, w.disk.readText p = .ok text →
        w₁.disk.readBytes p = .ok (Text.encode text₁) → '\r' ∉ text₁.toList →
        (Planner.foundIn w.state.kind (.ok text) = [] → w₂.disk.readBytes p = w₁.disk.readBytes p) ∧
        (Planner.foundIn w.state.kind (.ok text) ≠ [] → ∃ t, transform w.state.kind text₁ = .ok t ∧
          (∀ fault, Source.Module.ofString text = .error fault →
            (w₂.disk.readBytes p = w₁.disk.readBytes p ↔ t.code = text₁)) ∧
          ∀ m, Source.Module.ofString text = .ok m →
            (w₂.disk.readBytes p = w₁.disk.readBytes p ↔
              copied (Planner.foundIn w.state.kind (.ok text)) (Text.lines t.code) (Text.lines text₁) =
                Text.lines text₁) ∧
            ((∀ f ∈ Planner.foundIn w.state.kind (.ok text),
                f.place.Within (Text.lines text₁).length ∧ f.EndsIn (Text.lines t.code)) →
              (w₂.disk.readBytes p = w₁.disk.readBytes p ↔
                ∀ i < (Text.lines text₁).length,
                  (Planner.foundIn w.state.kind (.ok text)).any (·.place.covers i) = true →
                    (Text.lines text₁)[i]? = some ((Text.lines t.code).getD i "")))) := by
  have hleaves {p : FilePath} (hp : p ∈ w.state.files) {bytes : Text.Bytes} :=
    @second_run_leaves_iff w w₀ w₁ w₂ hlist client client' o o' o'' hplan ho' hfirst ho'' hsecond p hp bytes
  refine ⟨⟨fun hsame p hp bytes hbytes => (hleaves hp hbytes).1 (hsame p), fun hsettled q => ?_⟩, ?_⟩
  · obtain ⟨hfinds, hfiles, -⟩ := finds_of_first_run hlist hplan ho' hfirst
    by_cases hq : ∃ p ∈ w.state.files, w₁.disk.Same p q ∧ ∃ bytes, w₁.disk.readBytes p = .ok bytes
    · obtain ⟨p, hp, hleads, bytes, hbytes⟩ := hq
      have hleads₂ := (Coder.same_run hfinds ho'' hsecond p q).2 hleads
      rw [← hleads.readBytes_eq, ← hleads₂.readBytes_eq, hleaves hp hbytes]
      exact hsettled p hp bytes hbytes
    · refine Coder.readBytes_run_of_not_same hfinds ho'' hsecond fun p hp hleads bytes hbytes => hq ?_
      exact ⟨p, hfiles ▸ hp, hleads, bytes, hbytes⟩
  · intro p hp text text₁ htext hbytes hreturn
    have hiff := hleaves hp hbytes
    rw [htext] at hiff
    rw [hiff]
    refine ⟨fun hnone => ?_, fun hfound => ?_⟩
    · rw [hnone]
      exact Coder.bytesBy_nil _ _
    · have htext₁ : w₁.disk.readText p = .ok text₁ := by
        rw [Disk.readText_of_readBytes hbytes, textOf_encode hreturn]
      obtain ⟨t, ht⟩ := exists_transform_of_second_run hlist hplan ho' hfirst hsecond hp (by rwa [htext]) htext₁
      obtain ⟨-, old, -, hold⟩ := Disk.readText_eq_ok htext
      refine ⟨t, ht, fun fault hm => ?_, fun m hm => ?_⟩
      · exact Coder.isSettled_rejected_iff hfound hreturn ht hm
      · exact Coder.isSettled_module_iff hfound hreturn ht (return_not_mem_of_textOf hold) hm

def oneFile (text : String) : World where
  disk := { here := .dir [("a.py", .file (Text.encode text))] }
  state := { repoUrl := "", files := ["a.py"].map FilePath.ofString }

theorem isListing_oneFile (text : String) : IsListing (oneFile text).state.files :=
  isListing_ofStrings (by decide +kernel)

def planAndCodeTwice : Act Unit := do
  planAndCode ⟨"", false⟩
  Coder.run false ⟨"", false⟩

theorem exists_runs_oneFile {text : String} (hok : (planAndCodeTwice.runIn {} (oneFile text)).1.isOk = true) :
    ∃ w₀ w₁ w₂, (Planner.run false).runIn {} (oneFile text) = (.ok (), w₀) ∧
      (Coder.run false ⟨"", false⟩).runIn {} w₀ = (.ok (), w₁) ∧
      (Coder.run false ⟨"", false⟩).runIn {} w₁ = (.ok (), w₂) ∧
      w₁ = ((planAndCode ⟨"", false⟩).runIn {} (oneFile text)).2 ∧
      w₂ = (planAndCodeTwice.runIn {} (oneFile text)).2 := by
  obtain ⟨⟨⟩, w₂, hruns⟩ := exists_runIn_ok hok
  obtain ⟨⟨⟩, w₁, hboth, hsecond⟩ := runIn_bind_eq_ok.1 hruns
  obtain ⟨⟨⟩, w₀, hplan, hfirst⟩ := runIn_bind_eq_ok.1 hboth
  exact ⟨w₀, w₁, w₂, hplan, hfirst, hsecond, by rw [hboth], by rw [hruns]⟩

/-- A call over two lines below a comment. The comment and one of the lines are lost in the transformed text. -/
def splitCall : String := "# c\nxrange(\n1)\ny\nz\n"

theorem exists_runs_splitCall : ∃ w₀ w₁ w₂, (Planner.run false).runIn {} (oneFile splitCall) = (.ok (), w₀) ∧
    (Coder.run false ⟨"", false⟩).runIn {} w₀ = (.ok (), w₁) ∧
    (Coder.run false ⟨"", false⟩).runIn {} w₁ = (.ok (), w₂) ∧
    w₁.disk.readBytes (.ofString "a.py") = .ok (Text.encode "# c\ny\nz\ny\nz\n") ∧
    w₂.disk.readBytes (.ofString "a.py") = .ok (Text.encode "# c\nz\ny\ny\nz\n") := by
  have hok : (planAndCodeTwice.runIn {} (oneFile splitCall)).1.isOk = true := by decide +kernel
  have htext₁ : (((planAndCode ⟨"", false⟩).runIn {} (oneFile splitCall)).2.disk.readBytes
      (.ofString "a.py")).toOption = some (Text.encode "# c\ny\nz\ny\nz\n") := by decide +kernel
  have htext₂ : ((planAndCodeTwice.runIn {} (oneFile splitCall)).2.disk.readBytes
      (.ofString "a.py")).toOption = some (Text.encode "# c\nz\ny\ny\nz\n") := by decide +kernel
  obtain ⟨w₀, w₁, w₂, hplan, hfirst, hsecond, hw₁, hw₂⟩ := exists_runs_oneFile hok
  rw [← hw₁] at htext₁
  rw [← hw₂] at htext₂
  exact ⟨w₀, w₁, w₂, hplan, hfirst, hsecond, eq_ok_of_toOption htext₁, eq_ok_of_toOption htext₂⟩

/-- A call on one line is settled by the first run, a call on two is not. -/
theorem second_run_changes_nothing_iff_calls :
    (∃ w₀ w₁ w₂, (Planner.run false).runIn {} (oneFile "xrange(3)\n") = (.ok (), w₀) ∧
      (Coder.run false ⟨"", false⟩).runIn {} w₀ = (.ok (), w₁) ∧
      (Coder.run false ⟨"", false⟩).runIn {} w₁ = (.ok (), w₂) ∧
      w₁.disk.readBytes (.ofString "a.py") = .ok (Text.encode "range(3)\n") ∧
      ∀ q, w₂.disk.readBytes q = w₁.disk.readBytes q) ∧
    ∃ w₀ w₁ w₂, (Planner.run false).runIn {} (oneFile splitCall) = (.ok (), w₀) ∧
      (Coder.run false ⟨"", false⟩).runIn {} w₀ = (.ok (), w₁) ∧
      (Coder.run false ⟨"", false⟩).runIn {} w₁ = (.ok (), w₂) ∧
      ∃ p ∈ (oneFile splitCall).state.files, ∃ bytes, w₁.disk.readBytes p = .ok bytes ∧
        ¬Coder.IsSettled .legacy (Planner.foundIn .legacy ((oneFile splitCall).disk.readText p)) bytes := by
  constructor
  · have hok : (planAndCodeTwice.runIn {} (oneFile "xrange(3)\n")).1.isOk = true := by decide +kernel
    have htext : (((planAndCode ⟨"", false⟩).runIn {} (oneFile "xrange(3)\n")).2.disk.readBytes
        (.ofString "a.py")).toOption = some (Text.encode "range(3)\n") := by decide +kernel
    have hsettled : Coder.bytesBy .legacy (Planner.foundIn .legacy
        ((oneFile "xrange(3)\n").disk.readText (.ofString "a.py"))) (Text.encode "range(3)\n") =
          Text.encode "range(3)\n" := by decide +kernel
    obtain ⟨w₀, w₁, w₂, hplan, hfirst, hsecond, hw₁, -⟩ := exists_runs_oneFile hok
    rw [← hw₁] at htext
    have hbytes := eq_ok_of_toOption htext
    obtain ⟨hiff, -⟩ := second_run_changes_nothing_iff (isListing_oneFile _) hplan (fun _ _ => rfl) hfirst
      (fun _ _ => rfl) hsecond
    refine ⟨w₀, w₁, w₂, hplan, hfirst, hsecond, hbytes, hiff.2 fun p hp bytes hread => ?_⟩
    obtain rfl : p = .ofString "a.py" := List.mem_singleton.1 hp
    cases hbytes.symm.trans hread
    exact hsettled
  · obtain ⟨w₀, w₁, w₂, hplan, hfirst, hsecond, htext₁, htext₂⟩ := exists_runs_splitCall
    obtain ⟨hiff, -⟩ := second_run_changes_nothing_iff (isListing_oneFile _) hplan (fun _ _ => rfl) hfirst
      (fun _ _ => rfl) hsecond
    have hnot := mt hiff.2 fun hsame => by
      have hsame := (htext₂.symm.trans (hsame _)).trans htext₁
      exact absurd (Except.ok.inj hsame) (by decide +kernel)
    push Not at hnot
    exact ⟨w₀, w₁, w₂, hplan, hfirst, hsecond, hnot⟩

/-- The second run changes the file that the first one left. -/
theorem splitCall_changed_again : ∃ w₀ w₁ w₂,
    (Planner.run false).runIn {} (oneFile splitCall) = (.ok (), w₀) ∧
      (Coder.run false ⟨"", false⟩).runIn {} w₀ = (.ok (), w₁) ∧
      (Coder.run false ⟨"", false⟩).runIn {} w₁ = (.ok (), w₂) ∧
      w₂.disk.readBytes (.ofString "a.py") ≠ w₁.disk.readBytes (.ofString "a.py") := by
  obtain ⟨w₀, w₁, w₂, hplan, hfirst, hsecond, htext₁, htext₂⟩ := exists_runs_splitCall
  refine ⟨w₀, w₁, w₂, hplan, hfirst, hsecond, fun hsame => ?_⟩
  rw [htext₁, htext₂] at hsame
  exact absurd (Except.ok.inj hsame) (by decide +kernel)

end CodeMigration
