import CodeMigration.Proofs.Places.Tree

/-! # Nodes of an outline

An expression or a statement stands in an outline with its own outline below it. So what is said of a tree by its
labels can be said by the trees themselves, and every way to walk through an outline comes by the same nodes. -/

namespace CodeMigration.Source

namespace Outline

variable {o : Outline} {os ps : List Outline}

theorem mem_preorder_trans {p : Outline} (ho : o ∈ p.preorder) : ∀ {q : Outline}, p ∈ q.preorder → o ∈ q.preorder
  | node l ps, hp => by
    rw [preorder, List.mem_cons] at hp
    rcases hp with rfl | hp
    · exact ho
    · obtain ⟨part, hpart, hp⟩ := mem_preorders.1 hp
      have hlt : sizeOf part < sizeOf ps := List.sizeOf_lt_of_mem hpart
      rw [preorder, List.mem_cons, mem_preorders]
      exact .inr ⟨part, hpart, mem_preorder_trans ho hp⟩
termination_by q => sizeOf q
decreasing_by
  simp_wf
  omega

theorem flatten_joinLevels_perm {α : Type} (xs ys : List (List α)) :
    (joinLevels xs ys).flatten.Perm (xs.flatten ++ ys.flatten) := by
  induction xs generalizing ys with
  | nil => simp [joinLevels]
  | cons x xs ih =>
    cases ys with
    | nil => simp [joinLevels]
    | cons y ys =>
      simp only [joinLevels, List.flatten_cons, List.append_assoc]
      exact ((ih ys).append_left y |>.trans (List.perm_append_comm_assoc ..)).append_left x

mutual

theorem levels_perm : ∀ o : Outline, o.levels.flatten.Perm (o.preorder.map label)
  | node l ps => by
    rw [levels, preorder, List.flatten_cons, List.map_cons]
    exact (levelsOf_perm ps).cons l

theorem levelsOf_perm : ∀ os : List Outline, (levelsOf os).flatten.Perm ((preorders os).map label)
  | [] => .refl _
  | o :: os => by
    rw [levelsOf, preorders, List.map_append]
    exact (flatten_joinLevels_perm ..).trans ((levels_perm o).append (levelsOf_perm os))

end

theorem mem_breadthFirst {l : Label} (h : l ∈ o.breadthFirst) : ∃ q ∈ o.preorder, q.label = l :=
  List.mem_map.1 ((levels_perm o).mem_iff.1 h)

/-- A node whose label is a tree is the outline of that tree. -/
def IsOwn (o : Outline) : Prop :=
  match o.label with
  | .expr e => o = e.outline
  | .stmt s => o = s.outline
  | .handler .. | .inner => True

def Own (o : Outline) : Prop := ∀ q ∈ o.preorder, q.IsOwn

def Owns (os : List Outline) : Prop := ∀ o ∈ os, o.Own

@[simp] theorem owns_cons : Owns (o :: os) ↔ o.Own ∧ Owns os :=
  List.forall_mem_cons

@[simp] theorem owns_append {qs : List Outline} : Owns (os ++ qs) ↔ Owns os ∧ Owns qs :=
  List.forall_mem_append

theorem own_node {l : Label} : (node l ps).Own ↔ (node l ps).IsOwn ∧ Owns ps := forall_mem_preorder

@[simp] theorem own_inner : (node .inner ps).Own ↔ Owns ps := by
  rw [own_node]
  exact ⟨And.right, fun h => ⟨trivial, h⟩⟩

@[simp] theorem own_handler {s : Span} {name : Option String} : (node (.handler s name) ps).Own ↔ Owns ps := by
  rw [own_node]
  exact ⟨And.right, fun h => ⟨trivial, h⟩⟩

theorem own_expr {e : Expr} (he : e.outline = node (.expr e) ps) (hps : Owns ps) : e.outline.Own := by
  rw [he, own_node]
  exact ⟨he.symm, hps⟩

theorem own_stmt {s : Stmt} (hs : s.outline = node (.stmt s) ps) (hps : Owns ps) : s.outline.Own := by
  rw [hs, own_node]
  exact ⟨hs.symm, hps⟩

/-- An outline of an expression or of a group of its parts: no statement stands in it. -/
inductive Inside : Outline → Prop
  | expr {e : Expr} {ps : List Outline} (he : e.outline = node (.expr e) ps) (hps : ∀ o ∈ ps, Inside o) :
    Inside e.outline
  | inner {ps : List Outline} (hps : ∀ o ∈ ps, Inside o) : Inside (node .inner ps)

def Insides (os : List Outline) : Prop := ∀ o ∈ os, o.Inside

@[simp] theorem insides_nil : Insides [] := nofun

@[simp] theorem insides_cons : Insides (o :: os) ↔ o.Inside ∧ Insides os :=
  List.forall_mem_cons

@[simp] theorem insides_append {qs : List Outline} : Insides (os ++ qs) ↔ Insides os ∧ Insides qs :=
  List.forall_mem_append

@[simp] theorem Insides.inner (hps : Insides ps) : (node .inner ps).Inside := .inner hps

theorem Inside.own (ho : o.Inside) : o.Own := by
  induction ho with
  | expr he _ ih => exact own_expr he ih
  | inner _ ih => exact own_inner.2 ih

theorem Insides.owns (hos : Insides os) : Owns os := fun o ho => (hos o ho).own

end Outline

theorem Expr.outline_label (e : Expr) : e.outline.label = .expr e := by
  cases e <;> rfl

theorem Stmt.outline_label (s : Stmt) : s.outline.label = .stmt s := by
  cases s <;> rfl

open Outline (own_stmt Owns Insides)

mutual

@[simp] theorem Expr.inside (e : Expr) : e.outline.Inside := by
  cases e <;> refine .expr (by rw [Expr.outline]) (?_ : Insides _) <;> simp [Expr.inside, insides_exprOutlines,
    insides_optOutline, insides_keywordOutlines, insides_keyOutlines, insides_valueOutlines, insides_clauseOutlines,
    Params.inside]

@[simp] theorem insides_exprOutlines (es : List Expr) : Insides (exprOutlines es) := by
  cases es <;> simp [exprOutlines, Expr.inside, insides_exprOutlines]

@[simp] theorem insides_optOutline (e : Option Expr) : Insides (optOutline e) := by
  cases e <;> simp [optOutline, Expr.inside]

@[simp] theorem insides_keywordOutlines (ks : List Keyword) : Insides (keywordOutlines ks) := by
  rcases ks with _ | ⟨⟨⟩, ks⟩ <;> simp [keywordOutlines, Expr.inside, insides_keywordOutlines]

theorem insides_keyOutlines (items : List DictItem) : Insides (keyOutlines items) := by
  rcases items with _ | ⟨_ | _, items⟩ <;> simp [keyOutlines, Expr.inside, insides_keyOutlines]

theorem insides_valueOutlines (items : List DictItem) : Insides (valueOutlines items) := by
  rcases items with _ | ⟨_ | _, items⟩ <;> simp [valueOutlines, Expr.inside, insides_valueOutlines]

theorem insides_clauseOutlines (cs : List Clause) : Insides (clauseOutlines cs) := by
  rcases cs with _ | ⟨⟨⟩, cs⟩ <;> simp [clauseOutlines, Expr.inside, insides_exprOutlines, insides_clauseOutlines]

theorem insides_paramOutlines (ps : List Param) : Insides (paramOutlines ps) := by
  rcases ps with _ | ⟨⟨⟩, ps⟩ <;> simp [paramOutlines, Param.outline, insides_optOutline, insides_paramOutlines]

theorem insides_defaultOutlines (ps : List Param) : Insides (defaultOutlines ps) := by
  rcases ps with _ | ⟨⟨⟩, ps⟩ <;>
    simp [defaultOutlines, Param.defaultOutline, insides_optOutline, insides_defaultOutlines]

theorem insides_optParamOutline (p : Option Param) : Insides (optParamOutline p) := by
  rcases p with _ | ⟨⟨⟩⟩ <;> simp [optParamOutline, Param.outline, insides_optOutline]

@[simp] theorem Params.inside (ps : Params) : ps.outline.Inside := by
  cases ps
  simp [Params.outline, insides_paramOutlines, insides_optParamOutline, insides_defaultOutlines]

end

mutual

@[simp] theorem Pattern.inside (p : Pattern) : p.outline.Inside := by
  cases p <;> simp [Pattern.outline, insides_patternOutlines, insides_optPatternOutline]

theorem insides_patternOutlines (ps : List Pattern) : Insides (patternOutlines ps) := by
  cases ps <;> simp [patternOutlines, Pattern.inside, insides_patternOutlines]

theorem insides_optPatternOutline (p : Option Pattern) : Insides (optPatternOutline p) := by
  cases p <;> simp [optPatternOutline, Pattern.inside]

end

@[simp] theorem insides_withItems (items : List WithItem) : Insides (items.map WithItem.outline) := by
  intro o ho
  obtain ⟨item, -, rfl⟩ := List.mem_map.1 ho
  simp [WithItem.outline]

section
attribute [local simp] Outline.Inside.own Outline.Insides.owns

mutual

theorem Stmt.own (s : Stmt) : s.outline.Own := by
  cases s <;> refine own_stmt (by rw [Stmt.outline]) ?_ <;>
    simp [owns_stmtOutlines, owns_handlerOutlines, owns_caseOutlines]

theorem owns_stmtOutlines (ss : List Stmt) : Owns (stmtOutlines ss) := by
  cases ss <;> simp [stmtOutlines, Stmt.own, owns_stmtOutlines]

theorem owns_handlerOutlines (hs : List Handler) : Owns (handlerOutlines hs) := by
  rcases hs with _ | ⟨⟨⟩, hs⟩ <;> simp [handlerOutlines, owns_stmtOutlines, owns_handlerOutlines]

theorem owns_caseOutlines (cs : List Case) : Owns (caseOutlines cs) := by
  rcases cs with _ | ⟨⟨⟩, cs⟩ <;> simp [caseOutlines, owns_stmtOutlines, owns_caseOutlines]

end

end

theorem Module.own (m : Module) : m.outline.Own := Outline.own_inner.2 (owns_stmtOutlines m.body)

end CodeMigration.Source
