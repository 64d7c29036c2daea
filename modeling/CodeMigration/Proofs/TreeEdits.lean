import CodeMigration.Proofs.Outlines
import CodeMigration.Source.Edit

/-! # What a pass makes of a tree

A pass edits the parts of a node before the node itself. So what it notes stands in the order in which nodes follow
their parts, and each node of the edited tree was a node of the tree before or was put there in the place of one. A
tree whose nodes a pass would keep, one by one, stays as it is. -/

namespace CodeMigration.Source

variable {ε : Type} {p : Pass ε}
variable {os : List Outline} {o : Outline} {items : List WithItem} {m : Module}

namespace Outline

variable {α : Type} (f : Label → List α)

theorem gathers_eq (os : List Outline) : gathers f os = os.flatMap (gather f) := by
  induction os with
  | nil => rfl
  | cons o os ih => rw [gathers, ih, List.flatMap_cons]

theorem mem_gathers {n : α} : n ∈ gathers f os ↔ ∃ o ∈ os, n ∈ o.gather f := by
  rw [gathers_eq, List.mem_flatMap]

@[simp] theorem gathers_append (os qs : List Outline) : gathers f (os ++ qs) = gathers f os ++ gathers f qs := by
  simp [gathers_eq]

mutual

theorem gather_perm : ∀ o : Outline, (o.gather f).Perm (o.preorder.flatMap fun q => f q.label)
  | node l ps => by
    rw [gather, preorder, List.flatMap_cons]
    exact List.perm_append_comm.trans ((gathers_perm ps).append_left _)

theorem gathers_perm : ∀ os : List Outline, (gathers f os).Perm ((preorders os).flatMap fun q => f q.label)
  | [] => .refl _
  | o :: os => by
    rw [gathers, preorders, List.flatMap_append]
    exact (gather_perm o).append (gathers_perm os)

end

end Outline

/-- A pass that leaves decorators to be edited as what they are. -/
def Pass.SparesDecorators (p : Pass ε) : Prop := ∀ e, p.decorator e = (e, [])

theorem replaceDecorators_eq (hp : p.SparesDecorators) (async : Bool) (decorators : List Expr) :
    replaceDecorators p async decorators = decorators := by
  simp [replaceDecorators, hp _]

theorem decoratorNotes_eq (hp : p.SparesDecorators) (async : Bool) (decorators : List Expr) :
    decoratorNotes p async decorators = [] := by
  simp [decoratorNotes, hp _]

attribute [local simp] Stmt.notes Stmt.outline notesOf Pass.notesAt Outline.gather Outline.gathers

mutual

theorem Stmt.notes_eq (hp : p.SparesDecorators) (s : Stmt) : s.notes p = s.outline.gather p.notesAt := by
  cases s <;> simp [decoratorNotes_eq hp, replaceDecorators_eq hp, notesStmts_eq hp, notesHandlers_eq hp,
    notesCases_eq hp]

theorem notesStmts_eq (hp : p.SparesDecorators) (ss : List Stmt) :
    notesStmts p ss = Outline.gathers p.notesAt (stmtOutlines ss) := by
  cases ss <;> simp [notesStmts, stmtOutlines, Stmt.notes_eq hp, notesStmts_eq hp]

theorem notesHandlers_eq (hp : p.SparesDecorators) (hs : List Handler) :
    notesHandlers p hs = Outline.gathers p.notesAt (handlerOutlines hs) := by
  rcases hs with _ | ⟨⟨⟩, hs⟩ <;> simp [notesHandlers, handlerOutlines, notesStmts_eq hp, notesHandlers_eq hp]

theorem notesCases_eq (hp : p.SparesDecorators) (cs : List Case) :
    notesCases p cs = Outline.gathers p.notesAt (caseOutlines cs) := by
  rcases cs with _ | ⟨⟨⟩, cs⟩ <;> simp [notesCases, caseOutlines, notesStmts_eq hp, notesCases_eq hp]

end

/-- A pass notes what it notes about each node, and a node behind its parts. -/
theorem Module.notes_eq (hp : p.SparesDecorators) (m : Module) : m.notes p = m.outline.gather p.notesAt := by
  simp [Module.notes, Module.outline, notesStmts_eq hp]

namespace Outline

def All (P : Label → Prop) (o : Outline) : Prop := ∀ q ∈ o.preorder, P q.label

def Alls (P : Label → Prop) (os : List Outline) : Prop := ∀ o ∈ os, o.All P

section
variable {P : Label → Prop}

@[simp] theorem alls_nil : Alls P [] := nofun

@[simp] theorem alls_cons : Alls P (o :: os) ↔ o.All P ∧ Alls P os :=
  List.forall_mem_cons

@[simp] theorem alls_append {qs : List Outline} : Alls P (os ++ qs) ↔ Alls P os ∧ Alls P qs :=
  List.forall_mem_append

@[simp] theorem all_node {l : Label} {ps : List Outline} : (node l ps).All P ↔ P l ∧ Alls P ps :=
  forall_mem_preorder

end

end Outline

open Outline (Alls)

/-- A pass would keep a node as it is if it kept the parts of the node. -/
def Pass.Keeps (p : Pass ε) : Label → Prop
  | .expr (.call s func args keywords) => (p.call s func args keywords).1 = .call s func args keywords
  | .stmt (.assign s targets value) => (p.assign s targets value).1 = .assign s targets value
  | .stmt (.importModules s names) => (p.importModules s names).1 = .importModules s names
  | .stmt (.importFrom s source names level) =>
    (p.importFrom s source names level).1 = some (.importFrom s source names level)
  | .stmt (.functionDef _ async _ _ _ decorators _) => replaceDecorators p async decorators = decorators
  | _ => True

-- How the lists in a tree are edited and outlined, for the proofs about passes that follow.
attribute [local simp] Expr.edit Expr.outline editExprs exprOutlines editOpt optOutline editKeywords keywordOutlines
  editItems keyOutlines valueOutlines editClauses clauseOutlines editParams paramOutlines defaultOutlines Param.edit
  Param.outline Param.defaultOutline editOptParam optParamOutline Params.edit Params.outline Pattern.edit
  Pattern.outline editPatterns patternOutlines editOptPattern optPatternOutline WithItem.edit WithItem.outline editHandlers
  handlerOutlines editCases caseOutlines Stmt.edit Stmt.outline stmtOutlines

section

attribute [local simp] Pass.Keeps

mutual

theorem Expr.edit_of_keeps {e : Expr} (h : e.outline.All p.Keeps) : e.edit p = e := by
  cases e <;> simp at h <;> simp [h, Expr.edit_of_keeps, editExprs_of_keeps, editOpt_of_keeps, editKeywords_of_keeps,
    editItems_of_keeps, editClauses_of_keeps, Params.edit_of_keeps]

theorem editExprs_of_keeps {es : List Expr} (h : Alls p.Keeps (exprOutlines es)) : editExprs p es = es := by
  cases es <;> simp at h <;> simp [h, Expr.edit_of_keeps, editExprs_of_keeps]

theorem editOpt_of_keeps {e : Option Expr} (h : Alls p.Keeps (optOutline e)) : editOpt p e = e := by
  cases e <;> simp at h <;> simp [h, Expr.edit_of_keeps]

theorem editKeywords_of_keeps : ∀ {ks : List Keyword}, Alls p.Keeps (keywordOutlines ks) → editKeywords p ks = ks
  | [], _ => by simp
  | .mk .. :: ks, h => by
    simp at h
    simp [h, Expr.edit_of_keeps, editKeywords_of_keeps]

theorem editItems_of_keeps : ∀ {items : List DictItem}, Alls p.Keeps (keyOutlines items) →
    Alls p.Keeps (valueOutlines items) → editItems p items = items
  | [], _, _ => by simp
  | .pair .. :: items, hk, hv | .spread .. :: items, hk, hv => by
    simp at hk hv
    simp [hk, hv, Expr.edit_of_keeps, editItems_of_keeps]

theorem editClauses_of_keeps : ∀ {cs : List Clause}, Alls p.Keeps (clauseOutlines cs) → editClauses p cs = cs
  | [], _ => by simp
  | .mk .. :: cs, h => by
    simp at h
    simp [h, Expr.edit_of_keeps, editExprs_of_keeps, editClauses_of_keeps]

theorem editParams_of_keeps : ∀ {qs : List Param}, Alls p.Keeps (paramOutlines qs) →
    Alls p.Keeps (defaultOutlines qs) → editParams p qs = qs
  | [], _, _ => by simp
  | .mk .. :: qs, hh, hd => by
    simp at hh hd
    simp [hh, hd, editOpt_of_keeps, editParams_of_keeps]

theorem editOptParam_of_keeps : ∀ {q : Option Param}, Alls p.Keeps (optParamOutline q) → editOptParam p q = q
  | none, _ => by simp
  | some (.mk ..), h => by
    simp at h
    simp [h, editOpt_of_keeps]

theorem Params.edit_of_keeps : ∀ {qs : Params}, qs.outline.All p.Keeps → qs.edit p = qs
  | .mk .., h => by
    simp at h
    simp [h, editParams_of_keeps, editOptParam_of_keeps]

end

mutual

theorem Pattern.edit_of_keeps {q : Pattern} (h : q.outline.All p.Keeps) : q.edit p = q := by
  cases q <;> simp at h <;> simp [h, Expr.edit_of_keeps, editExprs_of_keeps, editPatterns_of_keeps,
    editOptPattern_of_keeps]

theorem editPatterns_of_keeps {qs : List Pattern} (h : Alls p.Keeps (patternOutlines qs)) : editPatterns p qs = qs := by
  cases qs <;> simp at h <;> simp [h, Pattern.edit_of_keeps, editPatterns_of_keeps]

theorem editOptPattern_of_keeps {q : Option Pattern} (h : Alls p.Keeps (optPatternOutline q)) :
    editOptPattern p q = q := by
  cases q <;> simp at h <;> simp [h, Pattern.edit_of_keeps]

end

theorem editWithItems_of_keeps (h : Alls p.Keeps (items.map WithItem.outline)) :
    items.map (WithItem.edit p) = items := by
  induction items with
  | nil => rfl
  | cons item items ih =>
    simp at h
    simp [Expr.edit_of_keeps h.1.1, editOpt_of_keeps h.1.2, ih h.2]

mutual

theorem Stmt.edit_of_keeps {s : Stmt} (h : s.outline.All p.Keeps) : s.edit p = some s := by
  cases s <;> simp at h <;> simp [h, Expr.edit_of_keeps, editExprs_of_keeps, editOpt_of_keeps, editKeywords_of_keeps,
    editWithItems_of_keeps, Params.edit_of_keeps, editStmts_of_keeps, editHandlers_of_keeps, editCases_of_keeps]

theorem editStmts_of_keeps {ss : List Stmt} (h : Alls p.Keeps (stmtOutlines ss)) : editStmts p ss = ss := by
  cases ss <;> simp at h <;> simp [h, editStmts, Stmt.edit_of_keeps, editStmts_of_keeps]

theorem editHandlers_of_keeps : ∀ {hs : List Handler}, Alls p.Keeps (handlerOutlines hs) → editHandlers p hs = hs
  | [], _ => by simp
  | .mk .. :: hs, h => by
    simp at h
    simp [h, editOpt_of_keeps, editStmts_of_keeps, editHandlers_of_keeps]

theorem editCases_of_keeps : ∀ {cs : List Case}, Alls p.Keeps (caseOutlines cs) → editCases p cs = cs
  | [], _ => by simp
  | .mk .. :: cs, h => by
    simp at h
    simp [h, Pattern.edit_of_keeps, editOpt_of_keeps, editStmts_of_keeps, editCases_of_keeps]

end

theorem Module.edit_of_keeps (h : m.outline.All p.Keeps) : m.edit p = m := by
  have hbody : Alls p.Keeps (stmtOutlines m.body) := (Outline.all_node.1 h).2
  rw [Module.edit, editStmts_of_keeps hbody]

end

/-- The expressions and statements whose parts are edited and that are then put together as before. -/
def Label.IsPlain : Label → Prop
  | .expr (.call ..) | .stmt (.assign ..) | .stmt (.importModules ..) | .stmt (.importFrom ..) => False
  | _ => True

/-- Of nodes with one property a pass makes nodes with another, where it does so in one step. -/
structure Pass.Turns (p : Pass ε) (P Q : Label → Prop) : Prop where
  inner : P .inner → Q .inner
  handler : ∀ s name, P (.handler s name) → Q (.handler s name)
  expr : ∀ e, (Label.expr e).IsPlain → P (.expr e) → Q (.expr (e.edit p))
  stmt : ∀ s s', (Label.stmt s).IsPlain → P (.stmt s) → s.edit p = some s' → Q (.stmt s')
  call : ∀ s func args keywords, P (.expr (.call s func args keywords)) → (func.edit p).outline.All Q →
    Alls Q (exprOutlines (editExprs p args)) → Alls Q (keywordOutlines (editKeywords p keywords)) →
    (p.call s (func.edit p) (editExprs p args) (editKeywords p keywords)).1.outline.All Q
  assign : ∀ s targets value, P (.stmt (.assign s targets value)) →
    Alls Q (exprOutlines (editExprs p targets)) → (value.edit p).outline.All Q →
    (p.assign s (editExprs p targets) (value.edit p)).1.outline.All Q
  importModules : ∀ s names, P (.stmt (.importModules s names)) → (p.importModules s names).1.outline.All Q
  importFrom : ∀ s source names level, P (.stmt (.importFrom s source names level)) →
    ∀ t ∈ (p.importFrom s source names level).1, t.outline.All Q
  decorator : ∀ e, e.outline.All P → (p.decorator e).1.outline.All P

section
variable {P Q : Label → Prop}

theorem Outline.all_iff : o.All P ↔ P o.label ∧ Alls P o.parts := by
  cases o
  exact all_node

theorem Pass.Turns.plain (ht : p.Turns P Q) {e : Expr} (he : (Label.expr e).IsPlain) (h : e.outline.All P)
    (hparts : Alls P e.outline.parts → Alls Q (e.edit p).outline.parts) :
    (e.edit p).outline.All Q := by
  obtain ⟨hl, hps⟩ := Outline.all_iff.1 h
  rw [Expr.outline_label] at hl
  refine Outline.all_iff.2 ⟨?_, hparts hps⟩
  rw [Expr.outline_label]
  exact ht.expr e he hl

theorem Pass.Turns.plainStmt (ht : p.Turns P Q) {s s' : Stmt} (hs : (Label.stmt s).IsPlain) (h : s.outline.All P)
    (hedit : s.edit p = some s') (hparts : Alls P s.outline.parts → Alls Q s'.outline.parts) :
    ∀ t ∈ s.edit p, t.outline.All Q := by
  obtain ⟨hl, hps⟩ := Outline.all_iff.1 h
  rw [Stmt.outline_label] at hl
  rw [hedit]
  rintro t ⟨⟩
  refine Outline.all_iff.2 ⟨?_, hparts hps⟩
  rw [Stmt.outline_label]
  exact ht.stmt s s' hs hl hedit

attribute [local simp] Outline.parts

mutual

theorem Expr.all_edit (ht : p.Turns P Q) {e : Expr} (h : e.outline.All P) : (e.edit p).outline.All Q := by
  cases e with
  | call s func args keywords =>
    simp at h
    rw [Expr.edit]
    exact ht.call s func args keywords h.1 (Expr.all_edit ht h.2.1) (alls_editExprs ht h.2.2.1)
      (alls_editKeywords ht h.2.2.2)
  | _ =>
    refine ht.plain trivial h fun hs => ?_
    simp at hs
    simp [hs, Expr.all_edit ht, alls_editExprs ht, alls_editOpt ht, alls_editItems ht, alls_editClauses ht,
      Params.all_edit ht]

theorem alls_editExprs (ht : p.Turns P Q) {es : List Expr} (h : Alls P (exprOutlines es)) :
    Alls Q (exprOutlines (editExprs p es)) := by
  cases es <;> simp at h <;> simp [h, Expr.all_edit ht, alls_editExprs ht]

theorem alls_editOpt (ht : p.Turns P Q) {e : Option Expr} (h : Alls P (optOutline e)) :
    Alls Q (optOutline (editOpt p e)) := by
  cases e <;> simp at h <;> simp [h, Expr.all_edit ht]

theorem alls_editKeywords (ht : p.Turns P Q) : ∀ {ks : List Keyword}, Alls P (keywordOutlines ks) →
    Alls Q (keywordOutlines (editKeywords p ks))
  | [], _ => by simp
  | .mk .. :: ks, h => by
    simp at h
    simp [h, ht.inner, Expr.all_edit ht, alls_editKeywords ht]

theorem alls_editItems (ht : p.Turns P Q) : ∀ {items : List DictItem}, Alls P (keyOutlines items) →
    Alls P (valueOutlines items) → Alls Q (keyOutlines (editItems p items)) ∧ Alls Q (valueOutlines (editItems p items))
  | [], _, _ => by simp
  | .pair .. :: items, hk, hv | .spread .. :: items, hk, hv => by
    simp at hk hv
    simp [hk, hv, Expr.all_edit ht, alls_editItems ht]

theorem alls_editClauses (ht : p.Turns P Q) : ∀ {cs : List Clause}, Alls P (clauseOutlines cs) →
    Alls Q (clauseOutlines (editClauses p cs))
  | [], _ => by simp
  | .mk .. :: cs, h => by
    simp at h
    simp [h, ht.inner, Expr.all_edit ht, alls_editExprs ht, alls_editClauses ht]

theorem alls_editParams (ht : p.Turns P Q) : ∀ {qs : List Param}, Alls P (paramOutlines qs) →
    Alls Q (paramOutlines (editParams p qs))
  | [], _ => by simp
  | .mk .. :: qs, h => by
    simp at h
    simp [h, ht.inner, alls_editOpt ht, alls_editParams ht]

theorem alls_editDefaults (ht : p.Turns P Q) : ∀ {qs : List Param}, Alls P (defaultOutlines qs) →
    Alls Q (defaultOutlines (editParams p qs))
  | [], _ => by simp
  | .mk .. :: qs, h => by
    simp at h
    simp [h, alls_editOpt ht, alls_editDefaults ht]

theorem alls_editOptParam (ht : p.Turns P Q) : ∀ {q : Option Param}, Alls P (optParamOutline q) →
    Alls Q (optParamOutline (editOptParam p q))
  | none, _ => by simp
  | some (.mk ..), h => by
    simp at h
    simp [h, ht.inner, alls_editOpt ht]

theorem Params.all_edit (ht : p.Turns P Q) : ∀ {qs : Params}, qs.outline.All P → (qs.edit p).outline.All Q
  | .mk .., h => by
    simp at h
    simp [ht.inner, h, alls_editParams ht, alls_editOptParam ht, alls_editDefaults ht]

end

mutual

theorem Pattern.all_edit (ht : p.Turns P Q) {q : Pattern} (h : q.outline.All P) : (q.edit p).outline.All Q := by
  cases q <;> simp at h <;> simp [ht.inner, h, Expr.all_edit ht, alls_editExprs ht, alls_editPatterns ht,
    alls_editOptPattern ht]

theorem alls_editPatterns (ht : p.Turns P Q) {qs : List Pattern} (h : Alls P (patternOutlines qs)) :
    Alls Q (patternOutlines (editPatterns p qs)) := by
  cases qs <;> simp at h <;> simp [h, Pattern.all_edit ht, alls_editPatterns ht]

theorem alls_editOptPattern (ht : p.Turns P Q) {q : Option Pattern} (h : Alls P (optPatternOutline q)) :
    Alls Q (optPatternOutline (editOptPattern p q)) := by
  cases q <;> simp at h <;> simp [h, Pattern.all_edit ht]

end

theorem alls_editWithItems (ht : p.Turns P Q) (h : Alls P (items.map WithItem.outline)) :
    Alls Q ((items.map (WithItem.edit p)).map WithItem.outline) := by
  induction items with
  | nil => exact Outline.alls_nil
  | cons item items ih =>
    simp at h
    obtain ⟨⟨hl, hcontext, htarget⟩, hitems⟩ := h
    refine Outline.alls_cons.2 ⟨?_, ih hitems⟩
    simp [ht.inner hl, Expr.all_edit ht hcontext, alls_editOpt ht htarget]

theorem Pass.Turns.decorators (ht : p.Turns P Q) (async : Bool) {es : List Expr}
    (h : Alls P (exprOutlines es)) : Alls P (exprOutlines (replaceDecorators p async es)) := by
  unfold replaceDecorators
  split
  · exact h
  · induction es with
    | nil => exact Outline.alls_nil
    | cons e es ih =>
      obtain ⟨he, hes⟩ := Outline.alls_cons.1 h
      exact Outline.alls_cons.2 ⟨ht.decorator e he, ih hes⟩

mutual

theorem Stmt.all_edit (ht : p.Turns P Q) {s : Stmt} (h : s.outline.All P) : ∀ t ∈ s.edit p, t.outline.All Q := by
  cases s with
  | assign s targets value =>
    simp at h
    rw [Stmt.edit]
    rintro t ⟨⟩
    exact ht.assign s targets value h.1 (alls_editExprs ht h.2.1) (Expr.all_edit ht h.2.2)
  | importModules s names =>
    simp at h
    rw [Stmt.edit]
    rintro t ⟨⟩
    exact ht.importModules s names h
  | importFrom s source names level =>
    simp at h
    rw [Stmt.edit]
    exact ht.importFrom s source names level h
  | withBlock s async items body =>
    refine ht.plainStmt trivial h rfl fun hs => ?_
    simp only [Stmt.outline, Outline.parts, Outline.alls_append] at hs ⊢
    exact ⟨alls_editWithItems ht hs.1, alls_editStmts ht hs.2⟩
  | _ =>
    refine ht.plainStmt trivial h rfl fun hs => ?_
    simp at hs
    simp [hs, ht.decorators, Expr.all_edit ht, alls_editExprs ht, alls_editOpt ht, alls_editKeywords ht,
      Params.all_edit ht, alls_editStmts ht, alls_editHandlers ht, alls_editCases ht]

theorem alls_editStmts (ht : p.Turns P Q) : ∀ {ss : List Stmt}, Alls P (stmtOutlines ss) →
    Alls Q (stmtOutlines (editStmts p ss))
  | [], _ => by simp [editStmts]
  | s :: ss, h => by
    simp at h
    have hs := Stmt.all_edit ht h.1
    rw [editStmts]
    cases he : s.edit p with
    | none => exact alls_editStmts ht h.2
    | some t => simp [hs t he, alls_editStmts ht h.2]

theorem alls_editHandlers (ht : p.Turns P Q) : ∀ {hs : List Handler}, Alls P (handlerOutlines hs) →
    Alls Q (handlerOutlines (editHandlers p hs))
  | [], _ => by simp
  | .mk .. :: hs, h => by
    simp at h
    simp [h, ht.handler, alls_editOpt ht, alls_editStmts ht, alls_editHandlers ht]

theorem alls_editCases (ht : p.Turns P Q) : ∀ {cs : List Case}, Alls P (caseOutlines cs) →
    Alls Q (caseOutlines (editCases p cs))
  | [], _ => by simp
  | .mk .. :: cs, h => by
    simp at h
    simp [h, ht.inner, Pattern.all_edit ht, alls_editOpt ht, alls_editStmts ht, alls_editCases ht]

end

/-- What a pass does with each node, once its parts are edited, it does with all nodes of a module. -/
theorem Module.all_edit (ht : p.Turns P Q) (h : m.outline.All P) : (m.edit p).outline.All Q := by
  obtain ⟨hl, hbody⟩ := Outline.all_node.1 h
  exact Outline.all_node.2 ⟨ht.inner hl, alls_editStmts ht hbody⟩

end

end CodeMigration.Source
