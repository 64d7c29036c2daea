import CodeMigration.Fixes
import CodeMigration.Proofs.LegacyEdits
import CodeMigration.Proofs.Patches

/-! # Edits that are not noted

A pass edits the parts of a node first, so whether it keeps a node can only be told from what it notes once its parts
are known to be kept. Going up from the parts, a pass that notes each edit leaves a tree as it is if it notes nothing.
Lines of a text are mended one kind of use after another, and each kind is noted in its own way. -/

namespace CodeMigration

namespace Source

variable {ε : Type} {p : Pass ε} {Q : ε → Prop}

theorem Outline.All.imp {P R : Label → Prop} {o : Outline} (h : o.All P) (himp : ∀ l, P l → R l) : o.All R :=
  fun q hq => himp _ (h q hq)

theorem Outline.Alls.imp {P R : Label → Prop} {os : List Outline} (h : Outline.Alls P os) (himp : ∀ l, P l → R l) :
    Outline.Alls R os := fun o ho => (h o ho).imp himp

/-- A pass keeps every node about which it notes nothing but notes of some kind. An import without names is no
concern of it. -/
structure Pass.Tells (p : Pass ε) (Q : ε → Prop) : Prop where
  call : ∀ {s func args keywords}, (∀ n ∈ (p.call s func args keywords).2, Q n) →
    (p.call s func args keywords).1 = .call s func args keywords
  decorator : ∀ {e}, (∀ n ∈ (p.decorator e).2, Q n) → (p.decorator e).1 = e
  assign : ∀ {s targets value}, (∀ n ∈ (p.assign s targets value).2, Q n) →
    (p.assign s targets value).1 = .assign s targets value
  importModules : ∀ {s names}, (∀ n ∈ (p.importModules s names).2, Q n) →
    (p.importModules s names).1 = .importModules s names
  importFrom : ∀ {s source names level}, names ≠ [] → (∀ n ∈ (p.importFrom s source names level).2, Q n) →
    (p.importFrom s source names level).1 = some (.importFrom s source names level)

/-- What a pass would note about a node itself, if it kept the parts of the node, is of some kind. -/
def Pass.Silent (p : Pass ε) (Q : ε → Prop) : Label → Prop
  | .expr (.call s func args keywords) => ∀ n ∈ (p.call s func args keywords).2, Q n
  | .stmt (.assign s targets value) => ∀ n ∈ (p.assign s targets value).2, Q n
  | .stmt (.importModules s names) => ∀ n ∈ (p.importModules s names).2, Q n
  | .stmt (.importFrom s source names level) => ∀ n ∈ (p.importFrom s source names level).2, Q n
  | .stmt (.functionDef _ async _ _ _ decorators _) => ∀ n ∈ decoratorNotes p async decorators, Q n
  | _ => True

/-- A node that is kept and about which nothing else is noted. -/
def Pass.Spares (p : Pass ε) (Q : ε → Prop) (l : Label) : Prop := p.Silent Q l ∧ p.Keeps l

theorem Expr.edit_of_spares {e : Expr} (h : e.outline.All (p.Spares Q)) : e.edit p = e :=
  Expr.edit_of_keeps (h.imp fun _ => And.right)

theorem editExprs_of_spares {es : List Expr} (h : Outline.Alls (p.Spares Q) (exprOutlines es)) :
    editExprs p es = es :=
  editExprs_of_keeps (h.imp fun _ => And.right)

theorem editKeywords_of_spares {ks : List Keyword} (h : Outline.Alls (p.Spares Q) (keywordOutlines ks)) :
    editKeywords p ks = ks :=
  editKeywords_of_keeps (h.imp fun _ => And.right)

theorem replaceDecorators_of_notes (hp : p.Tells Q) {async : Bool} {decorators : List Expr}
    (h : ∀ n ∈ decoratorNotes p async decorators, Q n) : replaceDecorators p async decorators = decorators := by
  cases async with
  | true => rfl
  | false =>
    have hall : ∀ e ∈ decorators, ∀ n ∈ (p.decorator e).2, Q n := fun e he n hn =>
      h n (List.mem_flatMap.2 ⟨e, he, hn⟩)
    calc decorators.map (fun e => (p.decorator e).1) = decorators.map id :=
          List.map_congr_left fun e he => hp.decorator (hall e he)
      _ = decorators := List.map_id _

/-- Where no statement stands, what a pass notes tells what it does. -/
theorem Outline.Inside.spares (hp : p.Tells Q) {o : Outline} (ho : o.Inside) (h : ∀ n ∈ o.gather p.notesAt, Q n) :
    o.All (p.Spares Q) := by
  have hparts {ps : List Outline} (ih : ∀ o ∈ ps, (∀ n ∈ o.gather p.notesAt, Q n) → o.All (p.Spares Q))
      (h : ∀ n ∈ gathers p.notesAt ps, Q n) : Outline.Alls (p.Spares Q) ps := fun o ho =>
    ih o ho fun n hn => h n ((mem_gathers _).2 ⟨o, ho, hn⟩)
  induction ho with
  | @expr e ps he _ ih =>
    rw [he, Outline.gather, List.forall_mem_append] at h
    have hps := hparts ih h.1
    have hnode : p.Spares Q (.expr e) := by
      cases e with
      | call s func args keywords =>
        -- What is noted is about the call of the edited parts, and these are the parts themselves.
        rw [Expr.outline] at he
        cases he
        simp only [Outline.alls_cons, Outline.alls_append] at hps
        obtain ⟨⟨hfunc, hargs⟩, hkeywords⟩ := hps
        have hcall := h.2
        rw [Pass.notesAt, Expr.edit_of_spares hfunc, editExprs_of_spares hargs, editKeywords_of_spares hkeywords] at hcall
        exact ⟨hcall, hp.call hcall⟩
      | _ => exact ⟨trivial, trivial⟩
    rw [he]
    exact Outline.all_node.2 ⟨hnode, hps⟩
  | inner _ ih =>
    rw [Outline.gather, List.forall_mem_append] at h
    exact Outline.all_node.2 ⟨⟨trivial, trivial⟩, hparts ih h.1⟩

theorem Outline.Insides.spare (hp : p.Tells Q) {os : List Outline} (hos : Insides os)
    (h : ∀ n ∈ gathers p.notesAt os, Q n) : Outline.Alls (p.Spares Q) os := fun o ho =>
  (hos o ho).spares hp fun n hn => h n ((mem_gathers _).2 ⟨o, ho, hn⟩)

section

attribute [local simp] Pass.Spares Pass.Silent Pass.Keeps or_imp forall_and Stmt.notes Stmt.outline notesOf
  Pass.notesAt Outline.gather Outline.gathers

mutual

theorem Stmt.spares_of_notes (hp : p.Tells Q) {s : Stmt} (hcomplete : s.Complete) (h : ∀ n ∈ s.notes p, Q n) :
    s.outline.All (p.Spares Q) := by
  have hexpr := @Outline.Inside.spares _ _ _ hp
  have hexprs := @Outline.Insides.spare _ _ _ hp
  cases s with
  | assign s targets value =>
    simp at h
    obtain ⟨htargets, hvalue, hassign⟩ := h
    have htargets := hexprs (insides_exprOutlines targets) htargets
    have hvalue := hexpr value.inside hvalue
    rw [editExprs_of_spares htargets, Expr.edit_of_spares hvalue] at hassign
    have hnode : p.Spares Q (.stmt (.assign s targets value)) := ⟨hassign, hp.assign hassign⟩
    exact Outline.all_node.2 ⟨hnode, by simp [htargets, hvalue]⟩
  | importModules s names =>
    simp at h
    exact Outline.all_node.2 ⟨⟨h, hp.importModules h⟩, Outline.alls_nil⟩
  | importFrom s source names level =>
    simp at h
    exact Outline.all_node.2 ⟨⟨h, hp.importFrom hcomplete h⟩, Outline.alls_nil⟩
  | functionDef s async name params body decorators returns =>
    simp at h
    obtain ⟨hreplaced, hparams, hbody, hdecorators, hreturns⟩ := h
    -- Decorators are replaced before their parts are edited, and none of them is.
    have hkept := replaceDecorators_of_notes hp hreplaced
    rw [hkept] at hdecorators
    have hnode : p.Spares Q (.stmt (.functionDef s async name params body decorators returns)) := ⟨hreplaced, hkept⟩
    exact Outline.all_node.2 ⟨hnode, by
      simp [hexpr params.inside hparams, stmtsSpare_of_notes hp hcomplete hbody,
        hexprs (insides_exprOutlines _) hdecorators, hexprs (insides_optOutline _) hreturns]⟩
  | _ =>
    simp at h
    simp_all [Stmt.Complete, stmtsSpare_of_notes hp, handlersSpare_of_notes hp, casesSpare_of_notes hp]

theorem stmtsSpare_of_notes (hp : p.Tells Q) {ss : List Stmt} (hcomplete : CompleteStmts ss)
    (h : ∀ n ∈ notesStmts p ss, Q n) : Outline.Alls (p.Spares Q) (stmtOutlines ss) := by
  cases ss <;> simp [notesStmts] at h <;>
    simp_all [CompleteStmts, stmtOutlines, Stmt.spares_of_notes hp, stmtsSpare_of_notes hp]

theorem handlersSpare_of_notes (hp : p.Tells Q) {hs : List Handler} (hcomplete : CompleteHandlers hs)
    (h : ∀ n ∈ notesHandlers p hs, Q n) : Outline.Alls (p.Spares Q) (handlerOutlines hs) := by
  rcases hs with _ | ⟨⟨⟩, hs⟩ <;> simp [notesHandlers] at h <;> simp_all [CompleteHandlers, handlerOutlines,
    Outline.Insides.spare hp, stmtsSpare_of_notes hp, handlersSpare_of_notes hp]

theorem casesSpare_of_notes (hp : p.Tells Q) {cs : List Case} (hcomplete : CompleteCases cs)
    (h : ∀ n ∈ notesCases p cs, Q n) : Outline.Alls (p.Spares Q) (caseOutlines cs) := by
  rcases cs with _ | ⟨⟨⟩, cs⟩ <;> simp [notesCases] at h <;> simp_all [CompleteCases, caseOutlines,
    Outline.Inside.spares hp, Outline.Insides.spare hp, stmtsSpare_of_notes hp, casesSpare_of_notes hp]

end

/-- A pass that tells of its edits spares every node of a module about which it notes nothing else. -/
theorem Module.spares_of_notes (hp : p.Tells Q) {m : Module} (hm : m.Complete) (h : ∀ n ∈ m.notes p, Q n) :
    m.outline.All (p.Spares Q) := by
  simp [Module.outline, stmtsSpare_of_notes hp hm h]

theorem Module.edit_of_notes (hp : p.Tells Q) {m : Module} (hm : m.Complete) (h : ∀ n ∈ m.notes p, Q n) :
    m.edit p = m :=
  Module.edit_of_keeps ((Module.spares_of_notes hp hm h).imp fun _ => And.right)

end

end Source

namespace Legacy

open Source

/-- A node about which nothing is noted is kept: editing what is called does not change what is called. -/
theorem keeps_of_notesAt {l : Label} (h : pass.notesAt l = []) : pass.Keeps l := by
  cases l with
  | expr e =>
    cases e with
    | call s func args keywords =>
      cases func with
      | name ns id =>
        simp only [Pass.notesAt, pass, Expr.edit, editCall] at h
        simp only [Pass.Keeps, pass, editCall]
        cases hid : newFunction? id with
        | none => rfl
        | some new => simp [hid] at h
      | member ms value attr =>
        simp only [Pass.notesAt, pass, Expr.edit, editCall] at h
        simp only [Pass.Keeps, pass, editCall]
        cases hattr : newMethod? attr with
        | none =>
          rw [hattr] at h
          cases args <;> by_cases hkey : attr = "has_key" <;> simp [hkey, editExprs] at h ⊢
        | some new => simp [hattr] at h
      | _ => rfl
    | _ => trivial
  | stmt t =>
    cases t with
    | assign s targets value => rfl
    | importModules s names =>
      have hkept : ∀ a ∈ names, editAlias a = a := by
        intro a ha
        have hnone := List.filterMap_eq_nil_iff.1 h a ha
        rw [editAlias, Option.map_eq_none_iff.1 hnone]
      exact congrArg (Stmt.importModules s) ((List.map_congr_left hkept).trans (List.map_id _))
    | importFrom s source names level =>
      simp only [Pass.notesAt, pass, editImportFrom] at h
      simp only [Pass.Keeps, pass, editImportFrom]
      split
      · rename_i hsource
        simp only [hsource, List.cons_ne_nil] at h
      · rfl
    | functionDef s async name params body decorators returns =>
      exact replaceDecorators_eq pass_sparesDecorators async decorators
    | _ => trivial
  | handler s name => trivial
  | inner => trivial

theorem edit_of_changes_nil {m : Module} (h : changes m = []) : edit m = m := by
  apply Module.edit_of_keeps
  intro q hq
  apply keeps_of_notesAt
  have hgather : (m.outline.preorder.flatMap fun q => pass.notesAt q.label) = [] := by
    rw [changes, Module.notes_eq pass_sparesDecorators] at h
    exact List.Perm.nil_eq (h ▸ Outline.gather_perm pass.notesAt m.outline) |>.symm
  exact List.flatMap_eq_nil_iff.1 hgather q hq

end Legacy

namespace Flask

open Source

/-- What is noted beside changes and faults. -/
def Event.IsName : Event → Prop
  | app _ => True
  | _ => False

/-- Names that are not to be imported from the old framework. -/
def movedNames : List String := ["Flask", "Blueprint", "request", "jsonify", "redirect", "abort"]

theorem ofName?_eq_none_iff (name : String) : Renamed.ofName? name = none ↔ name ∉ movedNames := by
  unfold Renamed.ofName? movedNames
  split <;> simp_all

/-- No moved name but `jsonify`, which is the one without a successor. -/
def MovesJsonifyOnly (names : List Alias) : Prop := ∀ a ∈ names, a.name ∈ movedNames → a.name = "jsonify"

instance (names : List Alias) : Decidable (MovesJsonifyOnly names) := List.decidableBAll _ names

def stayingNames (names : List Alias) : List Alias := names.filter (·.name ∉ movedNames)

theorem successors_eq_nil_iff (names : List Alias) :
    (names.filterMap fun a => Renamed.ofName? a.name).flatMap Renamed.successors = [] ↔ MovesJsonifyOnly names := by
  rw [List.flatMap_eq_nil_iff, List.forall_mem_filterMap]
  refine forall₂_congr fun a _ => ?_
  unfold Renamed.ofName? movedNames
  split <;> simp_all [Renamed.successors]

/-- An import from the old framework gives way to one of the successors, if there are any. -/
theorem editImportFrom_of_flask {name : String} (hflask : isFlaskModule name = true) (s : Span) (names : List Alias)
    (level : Nat) :
    editImportFrom s (some name) names level =
      (if ¬MovesJsonifyOnly names then
          some (.importFrom .unknown (some "fastapi")
            (((names.filterMap fun a => Renamed.ofName? a.name).flatMap Renamed.successors).map (⟨·, none⟩)) 0)
        else if stayingNames names ≠ [] then some (.importFrom s (some name) (stayingNames names) level)
        else none,
      (names.filterMap fun a => Renamed.ofName? a.name).map fun what => .change (.imported what)) := by
  have hstaying : (names.filter fun a => (Renamed.ofName? a.name).isNone) = stayingNames names :=
    List.filter_congr fun a _ => Bool.eq_iff_iff.2 (by simp [← ofName?_eq_none_iff])
  simp only [editImportFrom, if_pos hflask, hstaying, ← successors_eq_nil_iff]
  simp only [Bool.not_eq_true', List.isEmpty_eq_false_iff]
  split
  · rfl
  · split <;> rfl

theorem editImportFrom_of_staying (s : Span) {source : Option String} {names : List Alias} (level : Nat)
    (h : ∀ name ∈ source, isFlaskModule name = true → ∀ a ∈ names, a.name ∉ movedNames) (hnames : names ≠ []) :
    (editImportFrom s source names level).1 = some (.importFrom s source names level) := by
  cases source with
  | none => rfl
  | some name =>
    by_cases hflask : isFlaskModule name = true
    · have hstay := h name rfl hflask
      have hall : stayingNames names = names := List.filter_eq_self.2 (by simpa using hstay)
      have honly : MovesJsonifyOnly names := fun a ha hmoved => absurd hmoved (hstay a ha)
      rw [editImportFrom_of_flask hflask, hall, if_neg (not_not_intro honly), if_pos hnames]
    · rw [editImportFrom, if_neg hflask]

theorem not_mem_movedNames_of_notes {s : Span} {name : String} {names : List Alias} {level : Nat}
    (hflask : isFlaskModule name = true) (h : ∀ n ∈ (editImportFrom s (some name) names level).2, n.IsName) :
    ∀ a ∈ names, a.name ∉ movedNames := by
  intro a ha
  rw [← ofName?_eq_none_iff, Option.eq_none_iff_forall_ne_some]
  intro what hwhat
  rw [editImportFrom_of_flask hflask] at h
  exact h _ (List.mem_map_of_mem (List.mem_filterMap.2 ⟨a, ha, hwhat⟩))

theorem pass_tells : pass.Tells Event.IsName where
  call := by
    intro s func args keywords h
    simp only [pass, editCall] at h ⊢
    split at h
    · exact (h _ List.mem_cons_self).elim
    · exact (h _ List.mem_cons_self).elim
    · rfl
  decorator := by
    intro e h
    simp only [pass, editDecorator] at h ⊢
    split at h
    · split at h
      · exact (h _ List.mem_cons_self).elim
      · exact (h _ List.mem_cons_self).elim
    · rfl
  assign := by
    intro s targets value h
    simp only [pass, editAssign] at h ⊢
    split at h
    · exact (h _ List.mem_concat_self).elim
    · exact (h _ List.mem_cons_self).elim
    · rfl
  importModules _ := rfl
  importFrom := by
    intro s source names level hnames h
    refine editImportFrom_of_staying s level ?_ hnames
    rintro name ⟨⟩ hflask
    simp only [pass] at h
    exact not_mem_movedNames_of_notes hflask h

theorem isName_of_changes {m : Module} (h : changes m = .ok []) : ∀ n ∈ events m, n.IsName := by
  have hnames : ∀ es : List Event, faultOf? es = none → changesOf es = [] → ∀ n ∈ es, n.IsName := by
    intro es hfault hchanges
    induction es with
    | nil => exact List.forall_mem_nil _
    | cons e es ih =>
      cases e with
      | change c => cases hchanges
      | fault f => cases hfault
      | app name => exact List.forall_mem_cons.2 ⟨trivial, ih hfault hchanges⟩
  rw [changes] at h
  cases hfault : faultOf? (events m) with
  | some f =>
    rw [hfault] at h
    cases h
  | none =>
    rw [hfault] at h
    exact hnames _ hfault (Except.ok.inj h)

theorem edit_of_changes_nil {m : Module} (hm : m.Complete) (h : changes m = .ok []) : edit m = m :=
  Module.edit_of_notes pass_tells hm (isName_of_changes h)

end Flask

namespace Legacy

/-- A step that leaves a text as it is unless it notes a change. -/
def Mended.Tells (step : Mended → Mended) : Prop := ∀ m, (step m).2 = [] → step m = m

theorem Mended.Tells.comp {step later : Mended → Mended} (hlater : Mended.Tells later) (hstep : Mended.Tells step) :
    Mended.Tells fun m => later (step m) := by
  intro m h
  have hsame : later (step m) = step m := hlater _ h
  have hnone : (step m).2 = [] := hsame ▸ h
  exact hsame.trans (hstep m hnone)

theorem mendLine_of_notes {line indent operand : List Char} (h : (mendLine line indent operand).2 = []) :
    (mendLine line indent operand).1 = String.ofList line := by
  simp only [mendLine] at h ⊢
  split at h
  · split at h
    · cases h
    · rfl
  · split at h <;> cases h

theorem mendBlock_notes (indent operand : List Char) : (mendBlock indent operand).2 = [.printBlock] := by
  rw [mendBlock]
  split <;> rfl

/-- An open statement is noted when it comes to its end, so without a note no statement was opened. -/
theorem mendPrints_of_notes {o : Option Open} {lines : List (List Char)}
    (h : (mendPrints o lines).flatMap Prod.snd = []) :
    o = none ∧ (mendPrints o lines).map Prod.fst = lines.map String.ofList := by
  fun_induction mendPrints o lines with
  | case1 => exact ⟨rfl, rfl⟩
  | case2 o =>
    rw [List.flatMap_cons, mendBlock_notes] at h
    cases h
  | case3 o line rest o' hopen ih => cases (ih h).1
  | case4 o line rest o' hclosed ih =>
    rw [List.flatMap_cons, mendBlock_notes] at h
    cases h
  | case5 line rest hplain ih => exact ⟨rfl, congrArg (String.ofList line :: ·) (ih h).2⟩
  | case6 line rest indent operand hprint hopen ih => cases (ih h).1
  | case7 line rest indent operand hprint hclosed ih =>
    rw [List.flatMap_cons, List.append_eq_nil_iff] at h
    rw [List.map_cons, List.map_cons, mendLine_of_notes h.1, (ih h.2).2]
    exact ⟨rfl, rfl⟩

theorem replaceMatches_of_notes {α : Type} {match? : Bool → List Char → Option (Nat × List Char × α)} {before : Bool}
    {cs : List Char} (h : (replaceMatches match? before 0 cs).2 = []) : (replaceMatches match? before 0 cs).1 = cs := by
  induction cs generalizing before with
  | nil => rw [replaceMatches]
  | cons c cs ih =>
    rw [replaceMatches] at h ⊢
    split at h
    · cases h
    · exact congrArg (c :: ·) (ih h)

theorem mendHandlers_tells : Mended.Tells mendHandlers := by
  intro m h
  obtain ⟨hm, hfound⟩ := List.append_eq_nil_iff.1 h
  exact Prod.ext (replaceMatches_of_notes hfound) (h.trans hm.symm)

theorem mendFunction_tells (old new : String) : Mended.Tells (mendFunction old new) := by
  intro m h
  rw [mendFunction] at h ⊢
  split at h
  · rfl
  · exact absurd h (List.append_ne_nil_of_right_ne_nil _ (List.cons_ne_nil _ _))

theorem Mended.tells_ite {p : Mended → Prop} [DecidablePred p] {text : Mended → List Char} {note : LineChange} :
    Mended.Tells fun m => if p m then (text m, m.2 ++ [note]) else m := by
  intro m h
  by_cases hp : p m
  · simp [hp] at h
  · exact if_neg hp

theorem mendMethod_tells (old new : String) : Mended.Tells (mendMethod old new) := Mended.tells_ite

theorem mendKeyTests_tells : Mended.Tells mendKeyTests := Mended.tells_ite

/-- The steps between those for print statements and for tests for a key. -/
def mendCalls (m : Mended) : Mended :=
  mendMethod "itervalues" "values" (mendMethod "iterkeys" "keys" (mendMethod "iteritems" "items"
    (mendFunction "long" "int" (mendFunction "xrange" "range" (mendFunction "raw_input" "input"
      (mendFunction "unicode" "str" (mendHandlers m)))))))

theorem mendCalls_tells : Mended.Tells mendCalls :=
  (mendMethod_tells _ _).comp <| (mendMethod_tells _ _).comp <| (mendMethod_tells _ _).comp <|
    (mendFunction_tells _ _).comp <| (mendFunction_tells _ _).comp <| (mendFunction_tells _ _).comp <|
    (mendFunction_tells _ _).comp mendHandlers_tells

/-- The steps behind the one for print statements. -/
def mendUses (m : Mended) : Mended := mendKeyTests (mendCalls m)

theorem mendUses_tells : Mended.Tells mendUses := mendKeyTests_tells.comp mendCalls_tells

def mendedPrints (text : String) : Mended :=
  ((Text.unlines ((mendPrints none (Text.splitChars '\n' text.toList)).map Prod.fst)).toList,
    (mendPrints none (Text.splitChars '\n' text.toList)).flatMap Prod.snd)

theorem mendText_eq (text : String) :
    mendText text = (String.ofList (mendUses (mendedPrints text)).1, (mendUses (mendedPrints text)).2) := by
  unfold mendText
  extract_lets mended start
  have hstart : start = mendedPrints text := rfl
  rw [← mendCalls, ← mendUses, hstart]

theorem mendText_of_changes_nil {text : String} (h : (mendText text).2 = []) : (mendText text).1 = text := by
  rw [mendText_eq] at h ⊢
  dsimp only at h ⊢
  have hsame : mendUses (mendedPrints text) = mendedPrints text := mendUses_tells _ h
  rw [hsame, mendedPrints] at h ⊢
  rw [(mendPrints_of_notes h).2, ← Text.lines, String.ofList_toList, Text.unlines_lines]

end Legacy

/-- The migration that is taken for a name. -/
def kindFor (name : String) : MigrationKind := if name == MigrationKind.legacy.name then .legacy else .flask

/-- What a text that can be analysed and transformed becomes. -/
def fixedText (name source : String) (fs : List Finding) (t : Transformed) : FixedText :=
  if t.changes = [] then ⟨fs.length, fs.length, if fs = [] then source else Fix.applyAll (Fix.forName name) source⟩
  else ⟨fs.length, t.changes.length, t.code⟩

theorem fixText_cases (name source : String) :
    ((∃ failure, analyze (kindFor name) source = .error failure) ∧ fixText name source = ⟨0, 0, source⟩) ∨
    ∃ fs, analyze (kindFor name) source = .ok fs ∧
      ((∃ failure, transform (kindFor name) source = .error failure) ∧ fixText name source = ⟨fs.length, 0, source⟩ ∨
        ∃ t, transform (kindFor name) source = .ok t ∧ fixText name source = fixedText name source fs t) := by
  unfold fixText
  extract_lets kind
  have hkind : kind = kindFor name := rfl
  rw [hkind]
  cases analyze (kindFor name) source with
  | error failure => exact .inl ⟨⟨failure, rfl⟩, rfl⟩
  | ok fs =>
    refine .inr ⟨fs, rfl, ?_⟩
    cases transform (kindFor name) source with
    | error failure => exact .inl ⟨⟨failure, rfl⟩, rfl⟩
    | ok t =>
      refine .inr ⟨t, rfl, ?_⟩
      by_cases hchanges : t.changes = [] <;> by_cases hfound : fs = [] <;> simp [fixedText, hchanges, hfound]

theorem fixed_pos_of_code_ne {name source : String} (h : (fixText name source).code ≠ source) :
    1 ≤ (fixText name source).fixed := by
  rw [Nat.one_le_iff_ne_zero]
  contrapose! h
  obtain ⟨-, hr⟩ | ⟨fs, -, ⟨-, hr⟩ | ⟨t, -, hr⟩⟩ := fixText_cases name source
  · rw [hr]
  · rw [hr]
  · rw [hr, fixedText] at h ⊢
    split at h <;> simp_all

/-- Nothing is edited without a note. A tree stays as it is, places and all, if no change of it is noted; for the new
web framework this takes that no import of names is without names, and no tree read from a text has such an import. A
text whose lines are mended stays as it is if no change of it is noted, and a migrated text differs from the one that
was given only if at least one fix is counted. -/
theorem edits_are_noted :
    (∀ m, Legacy.changes m = [] → Legacy.edit m = m) ∧
      (∀ m : Source.Module, m.Complete → Flask.changes m = .ok [] → Flask.edit m = m) ∧
      (∀ text m, Source.Module.ofString text = .ok m → m.Complete) ∧
      (∀ text, (Legacy.mendText text).2 = [] → (Legacy.mendText text).1 = text) ∧
      ∀ name source, (fixText name source).code ≠ source → 1 ≤ (fixText name source).fixed :=
  ⟨fun _ => Legacy.edit_of_changes_nil, fun _ => Flask.edit_of_changes_nil, fun _ _ => Source.Module.complete_of_ofString,
    fun _ => Legacy.mendText_of_changes_nil, fun _ _ => fixed_pos_of_code_ne⟩

/-- A name of the old web framework that stays, a decorator that is no call, and an old function without a successor. -/
def keptImport : String := "from flask import g\n@g.route\ndef f():\n    return execfile(g)\n"

theorem edits_are_noted_keptImport :
    (∃ m, Source.Module.ofString keptImport = .ok m ∧ Legacy.changes m = [] ∧ Legacy.edit m = m ∧
      Flask.changes m = .ok [] ∧ Flask.edit m = m) ∧
    (Legacy.mendText "print >>f\n").2 = [] ∧ (Legacy.mendText "print >>f\n").1 = "print >>f\n" ∧
    (fixText "py2to3" "4 / 2; u'xrange(3)'\n").code ≠ "4 / 2; u'xrange(3)'\n" ∧
    1 ≤ (fixText "py2to3" "4 / 2; u'xrange(3)'\n").fixed := by
  obtain ⟨hlegacy, hflask, hcomplete, hlines, hfixed⟩ := edits_are_noted
  have hread : (Source.Module.ofString keptImport).toOption.any (fun m =>
      Legacy.changes m == [] && (Flask.changes m).toOption.any List.isEmpty) = true := by decide +kernel
  obtain ⟨m, hm, hnone⟩ := Legacy.exists_ok_of_any hread
  rw [Bool.and_eq_true, beq_iff_eq] at hnone
  obtain ⟨cs, hcs, hempty⟩ := Legacy.exists_ok_of_any hnone.2
  rw [List.isEmpty_iff.1 hempty] at hcs
  have hsilent : (Legacy.mendText "print >>f\n").2 = [] := by decide +kernel
  have hcode : (fixText "py2to3" "4 / 2; u'xrange(3)'\n").code ≠ "4 / 2; u'xrange(3)'\n" := by decide +kernel
  exact ⟨⟨m, hm, hnone.1, hlegacy m hnone.1, hcs, hflask m (hcomplete _ m hm) hcs⟩, hsilent, hlines _ hsilent, hcode,
    hfixed _ _ hcode⟩

end CodeMigration
