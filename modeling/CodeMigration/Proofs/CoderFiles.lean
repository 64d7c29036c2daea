import CodeMigration.Proofs.AgentDeeds
import CodeMigration.Proofs.LineFixes

/-! # What the coder does with files

The coder reads the texts of all files with findings before it asks for the first change, and writes the changed
texts back when it has all changes. In between nothing is written. -/

namespace CodeMigration

open Act

variable {o : Outside} {d : Disk}

/-- An act that comes to a result, whatever the outside does. -/
def Act.Returns {α : Type} (t : Act α) : Prop := ∀ o w, ∃ a w', t.runIn o w = (.ok a, w')

namespace Act.Returns

variable {α β : Type}

theorem pure (a : α) : Returns (Pure.pure a : Act α) := fun _ w => ⟨a, w, rfl⟩

theorem bind {t : Act α} {f : α → Act β} (first : Returns t) (next : ∀ a, Returns (f a)) : Returns (t >>= f) := by
  intro o w
  obtain ⟨a, w₁, hrun⟩ := first o w
  rw [runIn_bind_ok hrun]
  exact next a o w₁

theorem perform (d : Deed) : Returns (Act.perform d) := fun _ w => ⟨(), w.after d, rfl⟩

theorem look {f : World → Act α} (next : ∀ w, Returns (f w)) : Returns (get >>= f) := by
  intro o w
  rw [runIn_bind_ok (runIn_get o w)]
  exact next w o w

theorem outside {f : Outside → Act α} (next : ∀ o, Returns (f o)) : Returns (read >>= f) := by
  intro o w
  rw [runIn_bind_ok (runIn_read o w)]
  exact next o o w

theorem observe (e : Event) (f : Outside → Log → α) : Returns (Act.observe e f) :=
  fun o w => ⟨_, _, runIn_observe o w e f⟩

theorem ite {c : Prop} [Decidable c] {t e : Act α} (ht : Returns t) (he : Returns e) :
    Returns (if c then t else e) := by
  split
  · exact ht
  · exact he

end Act.Returns

theorem Docs.Client.request_returns (c : Client) (path : String) (params : Params) (sent : Option Json.Value) :
    Returns (c.request path params sent) := by
  refine .ite ?_ (.pure none)
  dsimp only
  split
  · exact .pure none
  · refine .bind (.observe _ _) fun reply => ?_
    cases reply with
    | unreachable => exact .pure none
    | fixed status body => exact .pure _
    | library => exact .ite (.pure none) (.look fun w => .pure _)

theorem Docs.Client.style_returns (c : Client) : Returns c.style := by
  refine .bind (c.request_returns _ _ _) fun answer => ?_
  split <;> exact .pure _

def World.noting (w : World) (notes : List String) : World :=
  { w with state := notes.foldl Migration.addError w.state }

theorem World.noting_eq (w : World) (notes : List String) :
    w.noting notes = { w with state := { w.state with errors := w.state.errors ++ notes } } := by
  induction notes generalizing w with
  | nil =>
    rw [List.append_nil]
    rfl
  | cons note notes ih =>
    have hone : w.noting (note :: notes) = (w.after (.erred note)).noting notes := rfl
    rw [hone, ih]
    simp [World.after, Migration.after, Migration.addError]

/-- A disk from which directories were removed, as far as they were there. -/
def Disk.without (d : Disk) (dirs : List FilePath) : Disk :=
  dirs.foldl (fun d dir => (d.removeDir dir).toOption.getD d) d

/-- A migration apart from what was said and from the style guide. -/
def Migration.work (m : Migration) : Migration := { m with messages := [], styleGuide := "" }

theorem Disk.tryWrite_cases (d : Disk) (file : String) (content : Text.Bytes) :
    (d.tryWrite file content).1 = d ∨ ∃ bytes, d.write (.ofString file) bytes = .ok (d.tryWrite file content).1 := by
  rw [Disk.tryWrite]
  cases hwrite : d.write (.ofString file) content with
  | ok d' => exact .inr ⟨content, hwrite⟩
  | error fault => exact .inl rfl

theorem Outside.write_cases (o : Outside) (d : Disk) (file : String) (content : Text.Bytes) :
    (o.write d file content).1 = d ∨ ∃ bytes, d.write (.ofString file) bytes = .ok (o.write d file content).1 := by
  unfold Outside.write
  split
  · exact d.tryWrite_cases file content
  · exact .inl rfl
  · exact d.tryWrite_cases file _

/-- Nothing outside keeps a file from being written where it could be. -/
def Outside.WritesAll (o : Outside) : Prop := ∀ d path, o.writeFault d path = none

theorem Outside.WritesAll.write_eq (ho : o.WritesAll) {d' : Disk} {file : String} {content : Text.Bytes}
    (h : d.write (.ofString file) content = .ok d') : o.write d file content = (d', none) := by
  rw [Outside.write, ho d (.ofString file)]
  simp only [Disk.tryWrite, h]

namespace Coder

variable {f : Finding} {content text : String} {fs : List Finding} {changes : List Change} {names : List String}

theorem fetchContext_returns (client : Docs.Client) (kind : MigrationKind) : Returns (fetchContext client kind) := by
  refine .bind client.style_returns fun style => .bind (.bind (client.request_returns _ _ _) fun _ => .pure _) ?_
  intro guide
  rcases addGuide (addStyle {} style) guide with ⟨c, _ | f⟩
  · exact .pure c
  · exact .bind (.perform (.event _)) fun _ => .pure c

theorem loadContext_returns (client : Docs.Client) : Returns (loadContext client) := by
  refine .look fun w => .ite (.outside fun o => .ite (.perform (.said _ _)) ?_) (.pure ())
  refine .bind (fetchContext_returns client _) fun c => .bind (.perform (.styled c.text)) fun _ => ?_
  exact .ite (.perform (.said _ _)) (.pure ())

/-- Learning what the documentation says changes no file, and of the migration only what was said and the style
guide. -/
theorem loadContext_runIn (client : Docs.Client) (o : Outside) (w : World) :
    ∃ w', (loadContext client).runIn o w = (.ok (), w') ∧ w'.disk = w.disk ∧
      w'.state.work = w.state.work := by
  obtain ⟨⟨⟩, w', hrun⟩ := loadContext_returns client o w
  have hthrough := (loadContext_madeOf client).through o w
  rw [hrun] at hthrough
  refine ⟨w', hrun, hthrough.keeps _ ?_, hthrough.keeps (·.state.work) ?_⟩
  all_goals
    intro d hd w
    cases d <;> first | rfl | cases hd

def addText (d : Disk) (texts : Texts) (file : String) : Texts :=
  if texts.has file then texts else
    match d.readText (.ofString file) with
    | .ok text => texts ++ [(file, text)]
    | .error _ => texts

def textsOn (d : Disk) (files : List String) : Texts := files.foldl (addText d) []

def readNote? (d : Disk) (file : String) : Option String :=
  match d.readText (.ofString file) with
  | .ok _ => none
  | .error f => some ("Error reading " ++ file ++ ": " ++ f.message)

theorem has_eq_isSome (texts : Texts) (file : String) : texts.has file = (texts.lookup file).isSome := by
  induction texts with
  | nil => rfl
  | cons e texts ih =>
    obtain ⟨name, text⟩ := e
    rw [lookup_cons_eq_ite]
    by_cases h : file = name
    · simp [Texts.has, h]
    · rw [if_neg h, ← ih]
      simp [Texts.has, Ne.symm h]

theorem lookup_addText (d : Disk) (texts : Texts) (file name : String) :
    (addText d texts file).lookup name =
      (texts.lookup name).or (if name = file then (d.readText (.ofString file)).toOption else none) := by
  rw [addText, has_eq_isSome]
  by_cases hname : name = file
  · subst hname
    cases hlookup : texts.lookup name with
    | some text => rw [Option.isSome_some, if_pos rfl, hlookup]; rfl
    | none =>
      rw [Option.isSome_none, if_neg Bool.false_ne_true, if_pos rfl]
      cases d.readText (.ofString name) with
      | error f => exact hlookup
      | ok text =>
        rw [List.lookup_append, hlookup]
        exact List.lookup_cons_self
  · rw [if_neg hname, Option.or_none]
    split
    · rfl
    · cases d.readText (.ofString file) with
      | error f => rfl
      | ok text =>
        rw [List.lookup_append, lookup_cons_eq_ite, if_neg hname]
        exact Option.or_none

theorem lookup_textsOn (d : Disk) (files : List String) (file : String) :
    (textsOn d files).lookup file =
      if file ∈ files then (d.readText (.ofString file)).toOption else none := by
  have hfold (texts : Texts) : (files.foldl (addText d) texts).lookup file =
      (texts.lookup file).or (if file ∈ files then (d.readText (.ofString file)).toOption else none) := by
    induction files generalizing texts with
    | nil => simp
    | cons name files ih =>
      rw [List.foldl_cons, ih, lookup_addText, Option.or_assoc]
      congr 1
      by_cases hname : file = name
      · subst hname
        cases (d.readText (.ofString file)).toOption <;> simp
      · simp [hname]
  exact (hfold []).trans Option.none_or

theorem nodup_textsOn (d : Disk) (files : List String) : ((textsOn d files).map Prod.fst).Nodup := by
  have hadd (texts : Texts) (h : (texts.map Prod.fst).Nodup) (file : String) :
      ((addText d texts file).map Prod.fst).Nodup := by
    rw [addText]
    split
    · exact h
    case isFalse hhas =>
      cases d.readText (.ofString file) with
      | error f => exact h
      | ok text =>
        have hfile : file ∉ texts.map Prod.fst := by simpa [Texts.has] using hhas
        rw [List.map_append, List.nodup_append]
        refine ⟨h, List.pairwise_singleton _ _, fun x hx y hy hxy => hfile ?_⟩
        obtain rfl : y = file := List.mem_singleton.1 hy
        exact hxy ▸ hx
  have hfold (texts : Texts) (h : (texts.map Prod.fst).Nodup) :
      ((files.foldl (addText d) texts).map Prod.fst).Nodup := by
    induction files generalizing texts with
    | nil => exact h
    | cons file files ih => exact ih _ (hadd texts h file)
  exact hfold [] List.nodup_nil

def readOne (texts : Texts) (file : String) : Act Texts := do
  if texts.has file then return texts
  match (← get).disk.readText (.ofString file) with
  | .ok text => return texts ++ [(file, text)]
  | .error f =>
    addError ("Error reading " ++ file ++ ": " ++ f.message)
    return texts

variable {texts : Texts} {w : World}

theorem runIn_readOne (h : ∀ name, (texts.lookup name).isSome → readNote? w.disk name = none) (file : String)
    (o : Outside) :
    (readOne texts file).runIn o w = (.ok (addText w.disk texts file), w.noting (readNote? w.disk file).toList) := by
  rw [readOne, addText, has_eq_isSome]
  by_cases hfile : (texts.lookup file).isSome = true
  · rw [if_pos hfile, if_pos hfile, h file hfile]
    rfl
  · rw [if_neg hfile, if_neg hfile, runIn_bind_ok (runIn_get o w), readNote?]
    cases w.disk.readText (.ofString file) with
    | ok text => rfl
    | error f => rfl

theorem runIn_readTexts (files : List String) (o : Outside) (w : World) :
    (readTexts files).runIn o w = (.ok (textsOn w.disk files), w.noting (files.filterMap (readNote? w.disk))) := by
  have hfold (texts : Texts) (w : World) (h : ∀ name, (texts.lookup name).isSome → readNote? w.disk name = none) :
      (files.foldlM readOne texts).runIn o w =
        (.ok (files.foldl (addText w.disk) texts), w.noting (files.filterMap (readNote? w.disk))) := by
    induction files generalizing texts w with
    | nil => rfl
    | cons file files ih =>
      have hnext : ∀ name, ((addText w.disk texts file).lookup name).isSome → readNote? w.disk name = none := by
        intro name hname
        rw [lookup_addText] at hname
        cases hlookup : texts.lookup name with
        | some text => exact h name (by rw [hlookup]; rfl)
        | none =>
          rw [hlookup, Option.none_or] at hname
          split at hname
          case isTrue heq =>
            rw [heq, readNote?]
            cases htext : w.disk.readText (.ofString file) with
            | ok text => rfl
            | error f =>
              rw [htext] at hname
              cases hname
          case isFalse => cases hname
      rw [List.foldlM_cons, runIn_bind_ok (runIn_readOne h file o)]
      refine (ih _ (w.noting (readNote? w.disk file).toList) hnext).trans ?_
      rw [List.filterMap_cons]
      cases readNote? w.disk file <;> rfl
  exact hfold [] w nofun

def answeredFix (f : Finding) (answer : String) : Change :=
  { id := "change_" ++ f.id, findingId := f.id, file := f.place.file, before := f.code,
    after := Assistant.unfence answer, startLine := f.place.startLine, endLine := f.place.endLine,
    explanation := "Migration fix for " ++ f.kind ++ ": " ++ f.description, confidence := 90 }

section
variable {kind : MigrationKind} {style : String} {texts : Texts} {o : Outside}

theorem runIn_assistedFix {w : World}
    (h : o.reply (w.log ++ [.asked (Assistant.fixPrompt kind style f content)]) = .answer text) :
    (assistedFix kind style f content).runIn o w =
      (.ok (answeredFix f text), w.after (.event (.asked (Assistant.fixPrompt kind style f content)))) := by
  have hask : (ask (Assistant.fixPrompt kind style f content)).runIn o w =
      (.ok text, w.after (.event (.asked (Assistant.fixPrompt kind style f content)))) := by
    rw [ask, runIn_bind_ok (runIn_observe o w _ _), h]
    rfl
  rw [assistedFix, runIn_bind_ok hask]
  rfl

/-- An assistant that answers for every finding gives a change for each that has a text. Only the log is longer then. -/
theorem runIn_fixes_answered {answer : Finding → String}
    (h : ∀ f ∈ fs, ∀ content, texts.lookup f.place.file = some content → ∀ log,
      o.reply (log ++ [.asked (Assistant.fixPrompt kind style f content)]) = .answer (answer f)) (w : World) :
    ∃ log, (fixes true kind style texts fs).runIn o w =
      (.ok ((fs.filter fun f => texts.has f.place.file).map fun f => answeredFix f (answer f)), { w with log }) := by
  induction fs generalizing w with
  | nil => exact ⟨w.log, rfl⟩
  | cons f fs ih =>
    obtain ⟨hf, hfs⟩ := List.forall_mem_cons.1 h
    rw [List.filter_cons, has_eq_isSome]
    cases hlookup : texts.lookup f.place.file with
    | none =>
      rw [fixes_cons_none hlookup]
      exact ih hfs w
    | some content =>
      have hfix : (fix true kind style f content).runIn o w = _ := runIn_assistedFix (hf content hlookup w.log)
      obtain ⟨log, hlog⟩ := ih hfs (w.after (.event (.asked (Assistant.fixPrompt kind style f content))))
      rw [fixes_cons_some hlookup, runIn_bind_ok hfix, runIn_map, hlog]
      exact ⟨log, rfl⟩

end

section
variable {assisted : Bool} {kind : MigrationKind} {style : String} {texts : Texts} {o : Outside} {w w' : World}
variable {c : Change}

/-- An assistant that is asked and answers leaves the migration as it was, and takes away directories at most. -/
def Leaves (o : Outside) (w w' : World) : Prop :=
  w'.state = w.state ∧
    ∃ dirs, (∀ dir ∈ dirs, ∃ log text, o.reply log = .removal dir text) ∧ w'.disk = w.disk.without dirs

theorem Leaves.refl (o : Outside) (w : World) : Leaves o w w := by
  refine ⟨rfl, [], ?_, rfl⟩
  simp

theorem Leaves.trans {w₁ : World} (h : Leaves o w w₁) (h' : Leaves o w₁ w') : Leaves o w w' := by
  obtain ⟨hmigration, dirs, hdirs, hdisk⟩ := h
  obtain ⟨hmigration', dirs', hdirs', hdisk'⟩ := h'
  refine ⟨hmigration'.trans hmigration, dirs ++ dirs', List.forall_mem_append.2 ⟨hdirs, hdirs'⟩, ?_⟩
  rw [hdisk', hdisk, Disk.without, Disk.without, Disk.without, List.foldl_append]

theorem leaves_of_ask {prompt : Assistant.Prompt} (h : (ask prompt).runIn o w = (.ok text, w')) :
    Leaves o w w' := by
  rw [ask, runIn_bind_ok (runIn_observe o w _ _)] at h
  cases hreply : o.reply (w.log ++ [.asked prompt]) with
  | answer _ =>
    rw [hreply] at h
    cases h
    exact .refl o w
  | failure _ =>
    rw [hreply] at h
    cases h
  | removal dir _ =>
    rw [hreply] at h
    obtain ⟨-, rfl⟩ := Prod.mk.inj h
    have hdir : ∀ d ∈ [dir], ∃ log text, o.reply log = .removal d text := by
      rw [List.forall_mem_singleton]
      exact ⟨_, _, hreply⟩
    refine ⟨?_, [dir], hdir, ?_⟩
    all_goals
      simp only [Disk.without, List.foldl_cons, List.foldl_nil]
      cases w.disk.removeDir dir <;> rfl

/-- A change is that of a finding if it has its id and its file. -/
def mark (c : Change) : String × String × String := (c.id, c.findingId, c.file)

def markOf (f : Finding) : String × String × String := ("change_" ++ f.id, f.id, f.place.file)

theorem mark_of_fix
    (h : (fix assisted kind style f content).runIn o w = (.ok c, w')) : mark c = markOf f ∧ Leaves o w w' := by
  unfold fix at h
  split at h
  · obtain ⟨answer, w₁, hask, hpure⟩ := runIn_bind_eq_ok.1 h
    cases hpure
    exact ⟨rfl, leaves_of_ask hask⟩
  · obtain ⟨hfix, rfl⟩ := Prod.mk.inj h
    obtain ⟨t, -, hchange⟩ := of_bind_eq_ok hfix
    cases hchange
    refine ⟨?_, .refl o _⟩
    split <;> rfl

/-- There is one change for each finding that has a text, in their order. -/
theorem marks_of_fixes
    (h : (fixes assisted kind style texts fs).runIn o w = (.ok changes, w')) :
    changes.map mark = (fs.filter fun f => texts.has f.place.file).map markOf ∧ Leaves o w w' := by
  induction fs generalizing w changes with
  | nil =>
    cases h
    exact ⟨rfl, .refl o _⟩
  | cons f fs ih =>
    rw [List.filter_cons, has_eq_isSome]
    cases hlookup : texts.lookup f.place.file with
    | none =>
      rw [fixes_cons_none hlookup] at h
      exact ih h
    | some content =>
      rw [fixes_cons_some hlookup] at h
      obtain ⟨change, w₁, hchange, h⟩ := runIn_bind_eq_ok.1 h
      rw [map_eq_pure_bind] at h
      obtain ⟨more, w₂, hmore, h⟩ := runIn_bind_eq_ok.1 h
      cases h
      obtain ⟨hmark, hleaves⟩ := mark_of_fix hchange
      obtain ⟨hmarks, hleaves'⟩ := ih hmore
      exact ⟨congrArg₂ List.cons hmark hmarks, hleaves.trans hleaves'⟩

theorem has_of_fixes
    (h : (fixes assisted kind style texts fs).runIn o w = (.ok changes, w')) (hc : c ∈ changes) :
    texts.has c.file = true := by
  have hmark : mark c ∈ changes.map mark := List.mem_map_of_mem hc
  rw [(marks_of_fixes h).1] at hmark
  obtain ⟨f, hf, hfile⟩ := List.mem_map.1 hmark
  have hfile : f.place.file = c.file := congrArg (·.2.2) hfile
  exact hfile ▸ (List.mem_filter.1 hf).2

end

def wroteText (o : Outside) (changes : List Change) (w : World) (e : String × String) : World :=
  let (disk, failure) := o.write w.disk e.1 (Text.encode e.2)
  match failure with
  | none =>
    { w with
      disk
      state := { w.state with
        applied := w.state.applied ++ changes.filter fun c => c.file == e.1 && c.applied } }
  | some f =>
    { w with disk, state := w.state.addError ("Error writing " ++ e.1 ++ ": " ++ f.message) }

theorem runIn_writeText (changes : List Change) (file text : String) (o : Outside) (w : World) :
    (writeText changes file text).runIn o w = (.ok (), wroteText o changes w (file, text)) := by
  rw [writeText, runIn_bind_ok (runIn_writeFile o w _ _), wroteText]
  rcases o.write w.disk file (Text.encode text) with ⟨d, _ | f⟩ <;> rfl

def wroteTexts (o : Outside) (changes : List Change) (texts : Texts) (w : World) : World :=
  texts.foldl (wroteText o changes) w

/-- The disk behind texts that are written one after the other, and each file with the failure if it is not written. -/
def writeAll (o : Outside) (d : Disk) : Texts → Disk × List (String × Option Failure)
  | [] => (d, [])
  | e :: texts =>
    let (d', failure) := o.write d e.1 (Text.encode e.2)
    ((writeAll o d' texts).1, (e.1, failure) :: (writeAll o d' texts).2)

def writtenFiles (outcomes : List (String × Option Failure)) : List String :=
  outcomes.filterMap fun e => if e.2.isNone then some e.1 else none

def writeNote? (e : String × Option Failure) : Option String :=
  e.2.map fun f => "Error writing " ++ e.1 ++ ": " ++ f.message

theorem map_fst_writeAll (o : Outside) (d : Disk) (texts : Texts) :
    (writeAll o d texts).2.map Prod.fst = texts.map Prod.fst := by
  induction texts generalizing d with
  | nil => rfl
  | cons e texts ih => simp [writeAll, ih]

theorem map_fst_applyChanges (changes : List Change) (h : (texts.map Prod.fst).Nodup) :
    (applyChanges changes texts).map Prod.fst = texts.map Prod.fst := by
  rw [applyChanges_eq_map changes h, List.map_map]
  rfl

/-- What is written leaves the changes of its files as applied ones, what is not a note. -/
theorem wroteTexts_eq (o : Outside) (changes : List Change) (texts : Texts) (w : World) : wroteTexts o changes texts w =
    { w with
      disk := (writeAll o w.disk texts).1
      state := { w.state with
        applied := w.state.applied ++ (writtenFiles (writeAll o w.disk texts).2).flatMap fun file =>
          changes.filter fun c => c.file == file && c.applied
        errors := w.state.errors ++ (writeAll o w.disk texts).2.filterMap writeNote? } } := by
  induction texts generalizing w with
  | nil => simp [wroteTexts, writeAll, writtenFiles]
  | cons e texts ih =>
    have hcons : wroteTexts o changes (e :: texts) w = wroteTexts o changes texts (wroteText o changes w e) := rfl
    rw [hcons, ih, wroteText, writeAll]
    rcases o.write w.disk e.1 (Text.encode e.2) with ⟨d, _ | f⟩
    · simp [writtenFiles, List.filterMap_cons, writeNote?]
    · simp [writtenFiles, writeNote?, Migration.addError]

theorem writtenFiles_sublist (outcomes : List (String × Option Failure)) :
    (writtenFiles outcomes).Sublist (outcomes.map Prod.fst) := by
  induction outcomes with
  | nil => exact .slnil
  | cons e outcomes ih =>
    rw [writtenFiles, List.filterMap_cons]
    split
    · exact ih.cons _
    case h_2 name hname =>
      split at hname <;> cases hname
      exact ih.cons_cons _

theorem flatMap_filter_perm {α : Type} (key : α → String) (xs : List α) (h : names.Nodup) :
    (names.flatMap fun name => xs.filter (key · == name)).Perm (xs.filter (key · ∈ names)) := by
  induction names with
  | nil => simp
  | cons name names ih =>
    obtain ⟨hname, hnames⟩ := List.nodup_cons.1 h
    have hfirst : (xs.filter (key · ∈ name :: names)).filter (key · == name) = xs.filter (key · == name) := by
      rw [List.filter_filter]
      refine List.filter_congr fun x _ => ?_
      by_cases hx : key x = name <;> simp [hx]
    have hothers : (xs.filter (key · ∈ name :: names)).filter (fun x => !(key x == name)) =
        xs.filter (key · ∈ names) := by
      rw [List.filter_filter]
      refine List.filter_congr fun x _ => ?_
      by_cases hx : key x = name <;> simp [hx, hname]
    rw [List.flatMap_cons, ← hfirst]
    refine ((ih hnames).append_left _).trans ?_
    rw [← hothers]
    exact List.filter_append_perm _ _

theorem flatMap_applied_perm (hfiles : ∀ c ∈ changes, texts.has c.file = true) (h : names.Nodup) :
    (names.flatMap fun file => (markApplied changes texts).filter fun c => c.file == file && c.applied).Perm
      ((markApplied changes texts).filter (·.file ∈ names)) := by
  have hone (file : String) : (markApplied changes texts).filter (fun c => c.file == file && c.applied) =
      (markApplied changes texts).filter (·.file == file) := by
    refine List.filter_congr fun marked hmarked => ?_
    obtain ⟨c, hc, rfl⟩ := List.mem_map.1 hmarked
    simp [hfiles c hc]
  simp only [hone]
  exact flatMap_filter_perm _ _ h

theorem runIn_writeTexts (changes : List Change) (texts : Texts) (o : Outside) (w : World) :
    (forIn texts PUnit.unit fun e _ => do
      writeText changes e.1 e.2
      pure (ForInStep.yield PUnit.unit) : Act PUnit).runIn o w = (.ok ⟨⟩, wroteTexts o changes texts w) := by
  induction texts generalizing w with
  | nil => rfl
  | cons e texts ih =>
    have hstep : (do writeText changes e.1 e.2; pure (ForInStep.yield PUnit.unit) : Act (ForInStep PUnit)).runIn o w =
        (.ok (.yield ⟨⟩), wroteText o changes w e) := runIn_bind_ok (runIn_writeText changes e.1 e.2 o w) _
    rw [List.forIn_cons, runIn_bind_ok hstep]
    exact ih _

/-- The changes, with all of them marked that are of a file with a text, once they are applied and written. -/
def closed (o : Outside) (changes : List Change) (texts : Texts) (w : World) : World :=
  wroteTexts o (markApplied changes texts) (applyChanges (markApplied changes texts) texts)
    (w.after (.changed (markApplied changes texts)))

section
variable {assisted : Bool} {client : Docs.Client} {o : Outside} {w w₁ w₂ : World} {texts : Texts}
  (hfound : w.state.findings ≠ []) (hload : (loadContext client).runIn o (w.begun .coder) = (.ok (), w₁))
  (htexts : textsOn w₁.disk (w.state.findings.map (·.place.file)) = texts)
include hfound hload htexts

/-- Where there are findings, the coder loads what the documentation says, reads the texts and asks for the changes.
With all of them at hand it comes to an end, whatever happens to the texts that it writes. -/
theorem run_up_to_fixes : ∃ finish : List Change → Act Unit,
    (run assisted client).runIn o w =
      (fixes assisted w₁.state.kind w₁.state.styleGuide texts w.state.findings >>= finish).runIn o
        (w₁.noting ((w.state.findings.map (·.place.file)).filterMap (readNote? w₁.disk))) ∧
    ∀ changes w₂, ∃ said,
      (finish changes).runIn o w₂ = (.ok (), (closed o changes texts w₂).after (.said "coder" said)) := by
  have hstart : Agent.coder.start.runIn o w = (.ok (), w.begun .coder) := rfl
  have hfindings : (w.begun .coder).state.findings = w.state.findings := rfl
  have hempty : w.state.findings.isEmpty = false := by
    simpa using hfound
  rw [run, runIn_bind_ok hstart, runIn_bind_ok (runIn_get o _)]
  dsimp only
  rw [hfindings, hempty, if_neg Bool.false_ne_true, runIn_bind_ok hload, runIn_bind_ok (runIn_readTexts _ o w₁),
    runIn_bind_ok (runIn_get o _), World.noting_eq, htexts]
  refine ⟨_, rfl, fun changes w₂ => ?_⟩
  rw [runIn_bind_ok (runIn_updateMigration o w₂ _)]
  exact ⟨_, (runIn_bind_ok (runIn_writeTexts _ _ o _) _).trans (runIn_bind_ok (runIn_get o _) _)⟩

theorem run_of_fixes
    (hfixes : (fixes assisted w₁.state.kind w₁.state.styleGuide texts w.state.findings).runIn o
      (w₁.noting ((w.state.findings.map (·.place.file)).filterMap (readNote? w₁.disk))) = (.ok changes, w₂)) :
    ∃ said, (run assisted client).runIn o w = (.ok (), (closed o changes texts w₂).after (.said "coder" said)) := by
  obtain ⟨finish, hrun, hfinish⟩ := @run_up_to_fixes assisted client o w w₁ texts hfound hload htexts
  rw [hrun, runIn_bind_ok hfixes]
  exact hfinish changes w₂

/-- Where a change cannot be made, the run breaks off before anything is written. -/
theorem run_of_failed_fixes {failure : Failure}
    (hfixes : (fixes assisted w₁.state.kind w₁.state.styleGuide texts w.state.findings).runIn o
      (w₁.noting ((w.state.findings.map (·.place.file)).filterMap (readNote? w₁.disk))) = (.error failure, w₂)) :
    (run assisted client).runIn o w = (.error failure, w₂) := by
  obtain ⟨finish, hrun, -⟩ := @run_up_to_fixes assisted client o w w₁ texts hfound hload htexts
  rw [hrun, runIn_bind_error hfixes]

end

theorem run_of_no_findings (assisted : Bool) (client : Docs.Client) (o : Outside) (hfound : w.state.findings = []) :
    (run assisted client).runIn o w = (.ok (), (w.begun .coder).after (.said "coder" "No patterns to fix.")) := by
  have hstart : Agent.coder.start.runIn o w = (.ok (), w.begun .coder) := rfl
  have hempty : (w.begun .coder).state.findings = [] := hfound
  rw [run, runIn_bind_ok hstart, runIn_bind_ok (runIn_get o _)]
  dsimp only
  rw [hempty]
  rfl

/-- Texts for files that can be read are all written, and paths lead where they led. A file that was written over
holds the new text then, whatever path leads to it, and any other file what it held before. -/
theorem writeAll_over (ho : o.WritesAll)
    (hread : ∀ e ∈ texts, ∃ old, d.readBytes (.ofString e.1) = .ok old) :
    (writeAll o d texts).2 = texts.map (fun e => (e.1, none)) ∧ (∀ p q, (writeAll o d texts).1.Same p q ↔ d.Same p q) ∧
    ∀ p, ((∀ e ∈ texts, ¬d.Same (.ofString e.1) p) → (writeAll o d texts).1.readBytes p = d.readBytes p) ∧
      ∀ content, (∃ e ∈ texts, d.Same (.ofString e.1) p) →
        (∀ e ∈ texts, d.Same (.ofString e.1) p → Text.encode e.2 = content) →
        (writeAll o d texts).1.readBytes p = .ok content := by
  induction texts generalizing d with
  | nil => exact ⟨rfl, fun _ _ => Iff.rfl, fun p => ⟨fun _ => rfl, fun content ⟨e, he, _⟩ => absurd he List.not_mem_nil⟩⟩
  | cons e texts ih =>
    obtain ⟨⟨old, hold⟩, hrest⟩ := List.forall_mem_cons.1 hread
    obtain ⟨d', hwrite, hsame, hother, hpaths⟩ := Disk.exists_write_over hold (Text.encode e.2)
    have hread' : ∀ e' ∈ texts, ∃ old, d'.readBytes (.ofString e'.1) = .ok old := by
      intro e' he'
      by_cases h : d.Same (.ofString e.1) (.ofString e'.1)
      · exact ⟨_, hsame _ h⟩
      · rw [hother _ h]
        exact hrest e' he'
    obtain ⟨hfiles, hpaths', hcontents⟩ := ih hread'
    rw [writeAll, ho.write_eq hwrite]
    refine ⟨congrArg _ hfiles, fun p q => (hpaths' p q).trans (hpaths p q), fun p => ?_⟩
    obtain ⟨hout, hin⟩ := hcontents p
    simp only [hpaths] at hout hin
    refine ⟨fun h => ?_, fun content hp hcontent => ?_⟩
    · obtain ⟨he, htexts⟩ := List.forall_mem_cons.1 h
      exact (hout htexts).trans (hother p he)
    · obtain ⟨he, htexts⟩ := List.forall_mem_cons.1 hcontent
      by_cases hlater : ∃ e' ∈ texts, d.Same (.ofString e'.1) p
      · exact hin content hlater htexts
      · have hlater' : ∀ e' ∈ texts, ¬d.Same (.ofString e'.1) p := fun e' he' h => hlater ⟨e', he', h⟩
        obtain ⟨e', he', hp⟩ := hp
        rcases List.mem_cons.1 he' with rfl | he'
        · rw [← he hp]
          exact (hout hlater').trans (hsame p hp)
        · exact absurd hp (hlater' e' he')

end Coder

end CodeMigration
