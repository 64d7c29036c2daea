import CodeMigration.Proofs.CoderFiles
import CodeMigration.Proofs.Utf8
import Mathlib.Data.List.Basic

/-! # Fixes that repeat the code found

A finding holds the code of its place from column to column, and the assistant is asked for code to put in its stead.
But the lines of the place give way to the answer as a whole. An assistant that changes nothing, and answers with the
code that it was shown, therefore loses all that stands before and behind this code on its lines. Each line is
decided by the last change upon it, and the file stays as it was exactly if all lines decided so were there. -/

namespace CodeMigration

open Act

/-- The lines that the coder takes from an answer that repeats the code of a finding. -/
def Finding.echo (f : Finding) : List String := Text.lines (Assistant.unfence f.code)

/-- A text in which the lines of each finding have given way to its code, from the last finding to the first. -/
def echoed (fs : List Finding) (content : String) : String :=
  Text.unlines ((fromLast fs).foldl (fun ls f =>
    ls.take (f.place.startLine - 1).toNat ++ f.echo ++ ls.drop f.place.endLine.toNat) (Text.lines content))

/-- The finding whose code comes last upon a line. -/
def lastOn (fs : List Finding) (i : Nat) : Option Finding := (fromLast fs).findRev? (·.place.covers i)

/-- The change that repeats the code of a finding, once it is applied. -/
def echoFix (f : Finding) : Change := { Coder.answeredFix f f.code with applied := true }

@[simp] theorem lines_after_echoFix (f : Finding) : Text.lines (echoFix f).after = f.echo := by
  simp only [echoFix, Coder.answeredFix, Finding.echo]

@[simp] theorem startLine_echoFix (f : Finding) : (echoFix f).startLine = f.place.startLine := rfl

@[simp] theorem endLine_echoFix (f : Finding) : (echoFix f).endLine = f.place.endLine := rfl

theorem findRev?_map {α β : Type} (g : α → β) (p : β → Bool) (xs : List α) :
    (xs.map g).findRev? p = (xs.findRev? fun x => p (g x)).map g := by
  induction xs with
  | nil => rfl
  | cons x xs ih =>
    rw [List.map_cons, List.findRev?, List.findRev?, ih]
    cases xs.findRev? fun x => p (g x) with
    | some y => rfl
    | none => cases p (g x) <;> rfl

theorem lastFirst_echoFix (fs : List Finding) : lastFirst (fs.map echoFix) = (fromLast fs).map echoFix := by
  refine (List.map_mergeSort ?_).symm
  exact fun _ _ _ _ => rfl

section
variable {fs : List Finding} {content file : String} (h : ∀ f ∈ fs, f.place.Within (Text.lines content).length)
include h

theorem within_echoFix : ∀ c ∈ (fromLast fs).map echoFix, c.place.Within (Text.lines content).length := by
  intro c hc
  obtain ⟨f, hf, rfl⟩ := List.mem_map.1 hc
  have ⟨hfirst, horder, hlast⟩ := h f (List.mem_mergeSort.1 hf)
  exact ⟨hfirst, horder, hlast⟩

theorem patch_echoFix : patch (fs.map echoFix) content = echoed fs content := by
  have hwithin := within_echoFix h
  rw [patch, lastFirst_echoFix, echoed, List.foldl_map]
  refine congrArg Text.unlines (List.foldl_ext _ _ _ fun ls f hf => ?_)
  rw [Change.applyTo_eq (hwithin _ (List.mem_map_of_mem hf)), lines_after_echoFix, startLine_echoFix, endLine_echoFix]

/-- Where the code of each finding is all there is on its lines, the text comes out as it was. -/
theorem echoed_eq_of_whole (hwhole : ∀ f ∈ fs,
      f.echo = ((Text.lines content).take f.place.endLine.toNat).drop (f.place.startLine - 1).toNat) :
    echoed fs content = content := by
  rw [← patch_echoFix h, ← Text.lines_inj, lines_patch, lastFirst_echoFix]
  refine Change.foldl_applyTo_same (within_echoFix h) fun c hc => ?_
  obtain ⟨f, hf, rfl⟩ := List.mem_map.1 hc
  rw [lines_after_echoFix, startLine_echoFix, endLine_echoFix]
  exact hwhole f (List.mem_mergeSort.1 hf)

/-- Where the code of each finding has as many lines as its place, the text comes out as it was exactly if every line
upon which there are findings is the one that the last of them puts there. -/
theorem echoed_eq_iff (hcount : ∀ f ∈ fs, (f.echo.length : Int) = f.place.endLine - f.place.startLine + 1) :
    echoed fs content = content ↔ ∀ i f, lastOn fs i = some f →
      f.echo[i - (f.place.startLine - 1).toNat]? = (Text.lines content)[i]? := by
  have hcounts : ∀ c ∈ (fromLast fs).map echoFix, c.KeepsCount := by
    intro c hc
    obtain ⟨f, hf, rfl⟩ := List.mem_map.1 hc
    rw [Change.KeepsCount, lines_after_echoFix, startLine_echoFix, endLine_echoFix]
    exact hcount f (List.mem_mergeSort.1 hf)
  obtain ⟨-, hget⟩ := Change.foldl_applyTo (within_echoFix h) hcounts rfl
  rw [← patch_echoFix h, ← Text.lines_inj, lines_patch, lastFirst_echoFix]
  have hline (i : Nat) : (((fromLast fs).map echoFix).foldl (fun ls c => c.applyTo ls) (Text.lines content))[i]? =
      (lastOn fs i).elim (Text.lines content)[i]? fun f => f.echo[i - (f.place.startLine - 1).toNat]? := by
    rw [hget, findRev?_map]
    have hlast : ((fromLast fs).findRev? fun f => (echoFix f).place.covers i) = lastOn fs i := rfl
    rw [hlast]
    cases lastOn fs i with
    | none => rfl
    | some f => exact congrArg (·[i - (f.place.startLine - 1).toNat]?) (lines_after_echoFix f)
  constructor
  · intro heq i f hf
    have hi := hline i
    rw [heq, hf] at hi
    exact hi.symm
  · intro hsame
    apply List.ext_getElem?
    intro i
    rw [hline]
    cases hf : lastOn fs i with
    | none => rfl
    | some f => exact hsame i f hf

end

theorem echoed_inFile (fs : List Finding) (file content : String) :
    echoed (fs.map (Finding.inFile file)) content = echoed fs content := by
  rw [echoed, echoed, fromLast_inFile, List.foldl_map]
  rfl

variable {text content : String} {d : Disk} {p : FilePath}

theorem return_not_mem_of_textOf {bytes : Text.Bytes} (h : textOf bytes = .ok text) : '\r' ∉ text.toList := by
  unfold textOf at h
  split at h
  case h_1 s _ =>
    cases h
    rw [String.toList_ofList]
    exact Text.return_not_mem_unifyLineEnds s.toList
  case h_2 => cases h

theorem Disk.readText_eq_ok (h : d.readText p = .ok text) :
    '\r' ∉ text.toList ∧ ∃ bytes, d.readBytes p = .ok bytes ∧ textOf bytes = .ok text := by
  unfold readText at h
  split at h
  case h_1 bytes hbytes => exact ⟨return_not_mem_of_textOf h, bytes, hbytes, h⟩
  case h_2 => cases h

theorem Disk.Same.readText_eq {q : FilePath} (h : d.Same p q) (hp : d.readText p = .ok text) :
    d.readText q = .ok text := by
  obtain ⟨-, bytes, hbytes, htext⟩ := Disk.readText_eq_ok hp
  rw [readText, ← h.readBytes_eq, hbytes]
  exact htext

/-- A file that holds a module, and whose findings are those of the analysis. -/
structure FoundIn (w : World) (file content : String) (fs : List Finding) : Prop where
  text : w.disk.readText (.ofString file) = .ok content
  isModule : ∃ m, Source.Module.ofString content = .ok m
  analysis : analyze w.state.kind content = .ok fs
  findings : w.state.findings.filter (·.place.file == file) = fs.map (Finding.inFile file)

/-- An assistant that answers with the code of the finding, whenever it is asked for a fix. -/
def Echoes (o : Outside) (w : World) : Prop :=
  ∀ f ∈ w.state.findings, ∀ content, w.disk.readText (.ofString f.place.file) = .ok content → ∀ log style,
    o.reply (log ++ [.asked (Assistant.fixPrompt w.state.kind style f content)]) = .answer f.code

namespace FoundIn

variable {w : World} {file content : String} {fs : List Finding} (h : FoundIn w file content fs)
include h

theorem within : ∀ f ∈ fs, f.place.Within (Text.lines content).length := by
  obtain ⟨m, hm⟩ := h.isModule
  exact within_of_analyze (Disk.readText_eq_ok h.text).1 hm h.analysis

theorem patch_filter : patch ((w.state.findings.map echoFix).filter (·.file == file)) content =
    echoed fs content := by
  have hfilter : (w.state.findings.map echoFix).filter (·.file == file) =
      (fs.map (Finding.inFile file)).map echoFix := by
    rw [← h.findings, List.filter_map]
    rfl
  rw [hfilter, patch_echoFix, echoed_inFile]
  intro f hf
  obtain ⟨g, hg, rfl⟩ := List.mem_map.1 hf
  have ⟨hfirst, horder, hlast⟩ := h.within g hg
  exact ⟨hfirst, horder, hlast⟩

theorem echoed_eq {name text : String} {gs : List Finding} (hname : FoundIn w name text gs)
    (hsame : w.disk.Same (.ofString name) (.ofString file)) : echoed gs text = echoed fs content := by
  obtain rfl := Except.ok.inj ((hsame.readText_eq hname.text).symm.trans h.text)
  obtain rfl := Except.ok.inj (hname.analysis.symm.trans h.analysis)
  rfl

theorem exists_finding (hfs : fs ≠ []) : ∃ f ∈ w.state.findings, f.place.file = file := by
  obtain ⟨f, hf⟩ := List.exists_mem_of_ne_nil fs hfs
  have hmem : f.inFile file ∈ w.state.findings.filter (·.place.file == file) := by
    rw [h.findings]
    exact List.mem_map_of_mem hf
  exact ⟨_, (List.mem_filter.1 hmem).1, rfl⟩

end FoundIn

def foundTexts (w : World) : Texts := Coder.textsOn w.disk (w.state.findings.map (·.place.file))

theorem nodup_foundTexts (w : World) : ((foundTexts w).map Prod.fst).Nodup := Coder.nodup_textsOn _ _

theorem FoundIn.lookup_foundTexts {w : World} {f : Finding} {fs : List Finding} (h : FoundIn w f.place.file content fs)
    (hf : f ∈ w.state.findings) : (foundTexts w).lookup f.place.file = some content := by
  rw [foundTexts, Coder.lookup_textsOn, if_pos (List.mem_map_of_mem hf), h.text]
  rfl

section
variable {o : Outside} {w : World} (hechoes : Echoes o w)
  (hfound : ∀ f ∈ w.state.findings, ∃ content fs, FoundIn w f.place.file content fs)
include hfound

theorem has_foundTexts {f : Finding} (hf : f ∈ w.state.findings) :
    (foundTexts w).has f.place.file = true := by
  obtain ⟨content, fs, h⟩ := hfound f hf
  rw [Coder.has_eq_isSome, h.lookup_foundTexts hf]
  rfl

theorem markApplied_answered :
    markApplied ((w.state.findings.filter fun f => (foundTexts w).has f.place.file).map
      fun f => Coder.answeredFix f f.code) (foundTexts w) = w.state.findings.map echoFix := by
  rw [List.filter_eq_self.2 fun f hf => has_foundTexts hfound hf, markApplied, List.map_map]
  refine List.map_congr_left fun f hf => ?_
  exact if_pos (has_foundTexts hfound hf)

/-- Every text is read from its file, and what comes out of it is told by the findings there. -/
theorem applied_of_mem {e : String × String}
    (he : e ∈ applyChanges (w.state.findings.map echoFix) (foundTexts w)) :
    ∃ content fs, FoundIn w e.1 content fs ∧ e.2 = echoed fs content ∧
      ∃ f ∈ w.state.findings, f.place.file = e.1 := by
  rw [applyChanges_eq_map _ (nodup_foundTexts w)] at he
  obtain ⟨⟨file, text⟩, hmem, rfl⟩ := List.mem_map.1 he
  have hlookup := lookup_of_mem (nodup_foundTexts w) hmem
  rw [foundTexts, Coder.lookup_textsOn] at hlookup
  split at hlookup
  case isFalse => cases hlookup
  case isTrue hfile =>
    obtain ⟨f, hf, rfl⟩ := List.mem_map.1 hfile
    obtain ⟨content, fs, h⟩ := hfound f hf
    rw [h.text] at hlookup
    obtain rfl : content = text := Option.some.inj hlookup
    exact ⟨content, fs, h, h.patch_filter, f, hf, rfl⟩

theorem exists_applied {f : Finding} (hf : f ∈ w.state.findings) :
    ∃ text, (f.place.file, text) ∈ applyChanges (w.state.findings.map echoFix) (foundTexts w) := by
  obtain ⟨⟨name, text⟩, hmem, hname⟩ := List.any_eq_true.1 (has_foundTexts hfound hf)
  obtain rfl : name = f.place.file := beq_iff_eq.1 hname
  rw [applyChanges_eq_map _ (nodup_foundTexts w)]
  exact ⟨_, List.mem_map.2 ⟨_, hmem, rfl⟩⟩

include hechoes

/-- A run with an assistant that changes nothing comes to an end, and the texts it has written are those in which
the code of the findings stands alone on their lines. -/
theorem run_writes_applied (client : Docs.Client) (hne : w.state.findings ≠ []) :
    ∃ w', (Coder.run true client).runIn o w = (.ok (), w') ∧
      w'.disk = (Coder.writeAll o w.disk (applyChanges (w.state.findings.map echoFix) (foundTexts w))).1 := by
  obtain ⟨w₁, hload, hdisk, hwork⟩ := Coder.loadContext_runIn client o (w.begun .coder)
  replace hdisk : w₁.disk = w.disk := hdisk
  have hkind : w₁.state.kind = w.state.kind := (congrArg Migration.kind hwork :)
  have hanswers : ∀ f ∈ w.state.findings, ∀ content,
      (foundTexts w).lookup f.place.file = some content → ∀ log,
        o.reply (log ++ [.asked (Assistant.fixPrompt w₁.state.kind w₁.state.styleGuide f content)]) =
          .answer f.code := by
    intro f hf content hcontent log
    obtain ⟨text, fs, h⟩ := hfound f hf
    obtain rfl : text = content := Option.some.inj ((h.lookup_foundTexts hf).symm.trans hcontent)
    rw [hkind]
    exact hechoes f hf text h.text log _
  obtain ⟨log, hfixes⟩ := Coder.runIn_fixes_answered hanswers
    (w₁.noting ((w.state.findings.map (·.place.file)).filterMap (Coder.readNote? w₁.disk)))
  have htexts : Coder.textsOn w₁.disk (w.state.findings.map (·.place.file)) = foundTexts w := by
    rw [hdisk, foundTexts]
  obtain ⟨said, hrun⟩ := Coder.run_of_fixes hne hload htexts hfixes
  rw [Coder.closed, Coder.wroteTexts_eq, markApplied_answered hfound] at hrun
  exact ⟨_, hrun, congrArg (fun d => (Coder.writeAll o d _).1) hdisk⟩

end

/-- With an assistant that answers with the code of the finding, the coder comes to an end, and every file with
findings holds its text with the code of each finding in the place of whole lines. It holds what it held before if
this code is all there is on the lines of each finding; and if each has as many lines of code as its place, exactly if
every line with findings is what the last of them puts there. All other files are left alone. -/
theorem run_puts_code_on_whole_lines {o : Outside} (ho : o.WritesAll) {w : World} (hechoes : Echoes o w)
    (hfound : ∀ f ∈ w.state.findings, ∃ content fs, FoundIn w f.place.file content fs) (client : Docs.Client) :
    ∃ w', (Coder.run true client).runIn o w = (.ok (), w') ∧
      (∀ file content fs, FoundIn w file content fs → fs ≠ [] →
        w'.disk.readBytes (.ofString file) = .ok (Text.encode (echoed fs content)) ∧
        ((∀ f ∈ fs, f.echo = ((Text.lines content).take f.place.endLine.toNat).drop (f.place.startLine - 1).toNat) →
          echoed fs content = content) ∧
        ((∀ f ∈ fs, (f.echo.length : Int) = f.place.endLine - f.place.startLine + 1) →
          (echoed fs content = content ↔ ∀ i f, lastOn fs i = some f →
            f.echo[i - (f.place.startLine - 1).toNat]? = (Text.lines content)[i]?))) ∧
      ∀ p, (∀ f ∈ w.state.findings, ¬w.disk.Same (.ofString f.place.file) p) →
        w'.disk.readBytes p = w.disk.readBytes p := by
  by_cases hne : w.state.findings = []
  · refine ⟨_, Coder.run_of_no_findings true client o hne, fun file content fs h hfs => ?_, fun p _ => rfl⟩
    obtain ⟨f, hf, -⟩ := h.exists_finding hfs
    rw [hne] at hf
    cases hf
  · obtain ⟨w', hrun, hdisk⟩ := run_writes_applied hechoes hfound client hne
    have hread : ∀ e ∈ applyChanges (w.state.findings.map echoFix) (foundTexts w),
        ∃ old, w.disk.readBytes (.ofString e.1) = .ok old := by
      intro e he
      obtain ⟨content, fs, h, -⟩ := applied_of_mem hfound he
      obtain ⟨-, bytes, hbytes, -⟩ := Disk.readText_eq_ok h.text
      exact ⟨bytes, hbytes⟩
    obtain ⟨-, -, hfinal⟩ := Coder.writeAll_over ho hread
    rw [← hdisk] at hfinal
    refine ⟨w', hrun, fun file content fs h hfs => ⟨?_, echoed_eq_of_whole h.within, echoed_eq_iff h.within⟩,
      fun p hp => (hfinal p).1 fun e he => ?_⟩
    · refine (hfinal (.ofString file)).2 _ ?_ fun e he hpath => ?_
      · obtain ⟨f, hf, rfl⟩ := h.exists_finding hfs
        obtain ⟨text, hmem⟩ := exists_applied hfound hf
        obtain ⟨-, bytes, hbytes, -⟩ := Disk.readText_eq_ok h.text
        exact ⟨_, hmem, Disk.same_self hbytes⟩
      · obtain ⟨text, gs, hname, htext, -⟩ := applied_of_mem hfound he
        rw [htext, h.echoed_eq hname hpath]
    · obtain ⟨content, fs, -, -, f, hf, hfile⟩ := applied_of_mem hfound he
      exact hfile ▸ hp f hf

def analyzedWorld (content : String) : World where
  disk := { here := .dir [("a.py", .file (Text.encode content))] }
  state :=
    { repoUrl := "", findings := ((analyze .legacy content).toOption.getD []).map (Finding.inFile "a.py") }

def answering (code : String) : Outside where
  reply _ := .answer code

/-- A text that is a module, in which the findings have all the same code. -/
def onlyCode (content code : String) : Bool :=
  (Source.Module.ofString content).isOk &&
    ((analyzedWorld content).disk.readText (.ofString "a.py")).toOption == some content &&
      (analyze .legacy content).toOption.any fun fs => fs.all (·.code == code)

theorem foundIn_of_onlyCode {code : String} (h : onlyCode content code = true) :
    Echoes (answering code) (analyzedWorld content) ∧
      ∃ fs, FoundIn (analyzedWorld content) "a.py" content fs ∧
        (analyzedWorld content).state.findings = fs.map (Finding.inFile "a.py") := by
  obtain ⟨h, hcode⟩ := Bool.and_eq_true_iff.1 h
  obtain ⟨hmodule, htext⟩ := Bool.and_eq_true_iff.1 h
  obtain ⟨fs, hsome, hall⟩ := (Option.any_eq_true _ _).1 hcode
  have hfs := eq_ok_of_toOption hsome
  have hfindings : (analyzedWorld content).state.findings = fs.map (Finding.inFile "a.py") := by
    rw [analyzedWorld, hfs]
    rfl
  refine ⟨fun f hf _ _ _ _ => ?_, fs, ⟨eq_ok_of_toOption (beq_iff_eq.1 htext), ?_, hfs, ?_⟩, hfindings⟩
  · rw [hfindings] at hf
    obtain ⟨g, hg, rfl⟩ := List.mem_map.1 hf
    exact congrArg Reply.answer (beq_iff_eq.1 (List.all_eq_true.1 hall g hg)).symm
  · cases hm : Source.Module.ofString content with
    | error fault =>
      rw [hm] at hmodule
      cases hmodule
    | ok m => exact ⟨m, rfl⟩
  · rw [hfindings]
    refine List.filter_eq_self.2 fun f hf => ?_
    obtain ⟨g, -, rfl⟩ := List.mem_map.1 hf
    exact beq_iff_eq.2 rfl

/-- A call that has two lines for itself. -/
def loneCall : String := "xrange(\n    3)\n"

theorem run_puts_code_on_whole_lines_loneCall :
    (answering "xrange(\n    3)").WritesAll ∧ Echoes (answering "xrange(\n    3)") (analyzedWorld loneCall) ∧
      (∀ f ∈ (analyzedWorld loneCall).state.findings,
        ∃ content fs, FoundIn (analyzedWorld loneCall) f.place.file content fs) ∧
      ∃ w', (Coder.run true ⟨"", false⟩).runIn (answering "xrange(\n    3)") (analyzedWorld loneCall) = (.ok (), w') ∧
        w'.disk.readBytes (.ofString "a.py") = .ok (Text.encode loneCall) := by
  have hcode : onlyCode loneCall "xrange(\n    3)" = true := by decide +kernel
  obtain ⟨hechoes, fs, h, hfindings⟩ := foundIn_of_onlyCode hcode
  have hfound : ∀ f ∈ (analyzedWorld loneCall).state.findings,
      ∃ content fs, FoundIn (analyzedWorld loneCall) f.place.file content fs := by
    intro f hf
    rw [hfindings] at hf
    obtain ⟨g, -, rfl⟩ := List.mem_map.1 hf
    exact ⟨loneCall, fs, h⟩
  refine ⟨fun _ _ => rfl, hechoes, hfound, ?_⟩
  obtain ⟨w', hrun, hfiles, -⟩ := run_puts_code_on_whole_lines (fun _ _ => rfl) hechoes hfound ⟨"", false⟩
  have hall : ((analyze .legacy loneCall).toOption.any fun fs => !fs.isEmpty && fs.all fun f =>
      f.echo == ((Text.lines loneCall).take f.place.endLine.toNat).drop (f.place.startLine - 1).toNat) = true := by
    decide +kernel
  have hfs : analyze .legacy loneCall = .ok fs := h.analysis
  rw [hfs] at hall
  obtain ⟨hne, hwhole⟩ := Bool.and_eq_true_iff.1 hall
  have hfs' : fs ≠ [] := by
    rintro rfl
    cases hne
  obtain ⟨hfile, hkept, -⟩ := hfiles "a.py" loneCall fs h hfs'
  rw [hkept fun f hf => beq_iff_eq.1 (List.all_eq_true.1 hwhole f hf)] at hfile
  exact ⟨w', hrun, hfile⟩

/-- A call with something before it on its line. -/
def assignedCall : String := "x = xrange(3)\n"

def endsWith (r : Except Failure Unit × World) (text : String) : Bool :=
  r.1.isOk && (r.2.disk.readText (.ofString "a.py")).toOption == some text

theorem exists_of_endsWith {r : Except Failure Unit × World} (h : endsWith r text = true) :
    ∃ w', r = (.ok (), w') ∧ w'.disk.readText (.ofString "a.py") = .ok text := by
  obtain ⟨hok, htext⟩ := Bool.and_eq_true_iff.1 h
  obtain ⟨_ | _, w'⟩ := r
  · cases hok
  · refine ⟨w', rfl, ?_⟩
    cases hread : w'.disk.readText (.ofString "a.py") with
    | error failure => simp [hread, Except.toOption] at htext
    | ok s => simpa [hread, Except.toOption] using htext

/-- Only the call is left of the statement. -/
theorem assignedCall_cut_to_call :
    Echoes (answering "xrange(3)") (analyzedWorld assignedCall) ∧
      (∃ fs, FoundIn (analyzedWorld assignedCall) "a.py" assignedCall fs) ∧
      ∃ w', (Coder.run true ⟨"", false⟩).runIn (answering "xrange(3)") (analyzedWorld assignedCall) = (.ok (), w') ∧
        w'.disk.readText (.ofString "a.py") = .ok "xrange(3)\n" := by
  have hcode : onlyCode assignedCall "xrange(3)" = true := by decide +kernel
  obtain ⟨hechoes, fs, h, -⟩ := foundIn_of_onlyCode hcode
  have hends : endsWith ((Coder.run true ⟨"", false⟩).runIn (answering "xrange(3)") (analyzedWorld assignedCall))
      "xrange(3)\n" = true := by decide +kernel
  exact ⟨hechoes, ⟨fs, h⟩, exists_of_endsWith hends⟩

end CodeMigration
