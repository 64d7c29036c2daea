import CodeMigration.Source.Grammar.Rule
import CodeMigration.Source.Outline

/-! # Trees within the lines of a text

Every node of a tree has its place in a text of a given number of lines. The nodes are those of the outline, so
that whatever is found by walking over it is covered. Beside its place, an import of names has names in a tree that is
read from a text. -/

namespace CodeMigration.Source

/-- A place in a text of so many lines. -/
structure Span.Within (n : Nat) (s : Span) : Prop where
  first : 1 ≤ s.line
  order : s.line ≤ s.endLine
  last : s.endLine ≤ n

def Stmt.span : Stmt → Span
  | expr s .. | assign s .. | augAssign s .. | annAssign s .. | ret s .. | delete s .. | assert s .. | raise s ..
  | pass s | breakLoop s | continueLoop s | global s .. | nonlocal s .. | importModules s .. | importFrom s ..
  | functionDef s .. | classDef s .. | ifElse s .. | whileLoop s .. | forLoop s .. | withBlock s ..
  | tryBlock s .. | matchCases s .. => s

/-- The place of a node, if it has one of its own. -/
def Label.span? : Label → Option Span
  | expr e => some e.span
  | stmt s => some s.span
  | handler s _ => some s
  | inner => none

namespace Outline

theorem mem_preorders {p : Outline} {os : List Outline} : p ∈ preorders os ↔ ∃ o ∈ os, p ∈ o.preorder := by
  induction os with
  | nil => simp [preorders]
  | cons o os ih => simp [preorders, ih]

theorem forall_mem_preorder {P : Outline → Prop} {l : Label} {ps : List Outline} :
    (∀ q ∈ (node l ps).preorder, P q) ↔ P (node l ps) ∧ ∀ o ∈ ps, ∀ q ∈ o.preorder, P q := by
  rw [preorder, List.forall_mem_cons]
  refine and_congr_right' ⟨fun h o ho q hq => h q (mem_preorders.2 ⟨o, ho, hq⟩), fun h q hq => ?_⟩
  obtain ⟨o, ho, hq⟩ := mem_preorders.1 hq
  exact h o ho q hq

/-- All nodes of an outline have their places in so many lines. -/
def Within (n : Nat) (o : Outline) : Prop := ∀ p ∈ o.preorder, ∀ s ∈ p.label.span?, s.Within n

@[simp] theorem within_node {n : Nat} {l : Label} {ps : List Outline} :
    (node l ps).Within n ↔ (∀ s ∈ l.span?, s.Within n) ∧ ∀ p ∈ ps, p.Within n := forall_mem_preorder

end Outline

section
variable {n : Nat}

attribute [local simp] Expr.outline Pattern.outline Stmt.outline Label.span? Expr.span Stmt.span or_imp forall_and

def Expr.Within (n : Nat) (e : Expr) : Prop := e.outline.Within n

def Keyword.Within (n : Nat) : Keyword → Prop
  | .mk _ value => value.Within n

def DictItem.Within (n : Nat) : DictItem → Prop
  | .pair key value => key.Within n ∧ value.Within n
  | .spread value => value.Within n

def Clause.Within (n : Nat) : Clause → Prop
  | .mk _ target iter conditions => target.Within n ∧ iter.Within n ∧ ∀ e ∈ conditions, e.Within n

def Param.Within (n : Nat) : Param → Prop
  | .mk _ hint default => (∀ e ∈ hint, e.Within n) ∧ ∀ e ∈ default, e.Within n

def Params.Within (n : Nat) : Params → Prop
  | .mk positional plain rest keywordOnly keywords =>
    (∀ p ∈ positional, p.Within n) ∧ (∀ p ∈ plain, p.Within n) ∧ (∀ p ∈ rest, p.Within n) ∧
      (∀ p ∈ keywordOnly, p.Within n) ∧ ∀ p ∈ keywords, p.Within n

@[simp] theorem forall_mem_exprOutlines {es : List Expr} :
    (∀ o ∈ exprOutlines es, o.Within n) ↔ ∀ e ∈ es, e.Within n := by
  induction es with
  | nil => simp [exprOutlines]
  | cons e es ih => simp [exprOutlines, ih, Expr.Within]

@[simp] theorem forall_mem_optOutline {e : Option Expr} : (∀ o ∈ optOutline e, o.Within n) ↔ ∀ e' ∈ e, e'.Within n := by
  cases e <;> simp [optOutline, Expr.Within]

@[simp] theorem forall_mem_keywordOutlines {ks : List Keyword} :
    (∀ o ∈ keywordOutlines ks, o.Within n) ↔ ∀ k ∈ ks, k.Within n := by
  induction ks with
  | nil => simp [keywordOutlines]
  | cons k ks ih =>
    obtain ⟨name, value⟩ := k
    simp [keywordOutlines, ih, Keyword.Within, Expr.Within]

@[simp] theorem forall_mem_dictOutlines {items : List DictItem} :
    ((∀ o ∈ keyOutlines items, o.Within n) ∧ ∀ o ∈ valueOutlines items, o.Within n) ↔
      ∀ item ∈ items, item.Within n := by
  induction items with
  | nil => simp [keyOutlines, valueOutlines]
  | cons item items ih =>
    rw [List.forall_mem_cons, ← ih]
    cases item with
    | pair key value =>
      simp only [keyOutlines, valueOutlines, List.forall_mem_cons, DictItem.Within, Expr.Within]
      exact and_and_and_comm
    | spread value =>
      simp only [keyOutlines, valueOutlines, List.forall_mem_cons, DictItem.Within, Expr.Within]
      exact and_left_comm

@[simp] theorem forall_mem_clauseOutlines {cs : List Clause} :
    (∀ o ∈ clauseOutlines cs, o.Within n) ↔ ∀ c ∈ cs, c.Within n := by
  induction cs with
  | nil => simp [clauseOutlines]
  | cons c cs ih =>
    obtain ⟨async, target, iter, conditions⟩ := c
    simp [clauseOutlines, ih, Clause.Within, Expr.Within, and_assoc]

theorem forall_mem_paramOutlines {ps : List Param} (h : ∀ p ∈ ps, p.Within n) :
    ∀ o ∈ paramOutlines ps, o.Within n := by
  induction ps with
  | nil => simp [paramOutlines]
  | cons p ps ih =>
    obtain ⟨name, hint, default⟩ := p
    rw [List.forall_mem_cons] at h
    rw [paramOutlines, List.forall_mem_cons]
    exact ⟨by simpa [Param.outline] using h.1.1, ih h.2⟩

theorem forall_mem_defaultOutlines {ps : List Param} (h : ∀ p ∈ ps, p.Within n) :
    ∀ o ∈ defaultOutlines ps, o.Within n := by
  induction ps with
  | nil => simp [defaultOutlines]
  | cons p ps ih =>
    obtain ⟨name, hint, default⟩ := p
    rw [List.forall_mem_cons] at h
    rw [defaultOutlines, List.forall_mem_append]
    exact ⟨by simpa [Param.defaultOutline] using h.1.2, ih h.2⟩

theorem forall_mem_optParamOutline {p : Option Param} (h : ∀ p' ∈ p, p'.Within n) :
    ∀ o ∈ optParamOutline p, o.Within n := by
  cases p with
  | none => simp [optParamOutline]
  | some p =>
    obtain ⟨name, hint, default⟩ := p
    simpa [optParamOutline, Param.outline] using (h _ rfl).1

theorem Params.Within.outline {ps : Params} (h : ps.Within n) : ps.outline.Within n := by
  obtain ⟨positional, plain, rest, keywordOnly, keywords⟩ := ps
  obtain ⟨hpositional, hplain, hrest, hkeywordOnly, hkeywords⟩ := h
  simp only [Params.outline, Outline.within_node, List.forall_mem_append]
  refine ⟨by simp, ⟨⟨⟨⟨⟨⟨?_, ?_⟩, ?_⟩, ?_⟩, ?_⟩, ?_⟩, ?_⟩, ?_⟩
  · exact forall_mem_paramOutlines hpositional
  · exact forall_mem_paramOutlines hplain
  · exact forall_mem_optParamOutline hrest
  · exact forall_mem_paramOutlines hkeywordOnly
  · exact forall_mem_defaultOutlines hkeywordOnly
  · exact forall_mem_optParamOutline hkeywords
  · exact forall_mem_defaultOutlines hpositional
  · exact forall_mem_defaultOutlines hplain

/-- The place of an expression itself and those of its parts. -/
def Expr.PartsWithin (n : Nat) : Expr → Prop
  | name s _ | literal s _ => s.Within n
  | member s e _ | byteMember s e _ | starred s e | unary s _ e | await s e | yieldFrom s e => s.Within n ∧ e.Within n
  | subscript s e e' | binary s _ e e' | walrus s e e' => s.Within n ∧ e.Within n ∧ e'.Within n
  | conditional s test body orelse => s.Within n ∧ test.Within n ∧ body.Within n ∧ orelse.Within n
  | slice s lower upper step =>
    s.Within n ∧ (∀ e ∈ lower, e.Within n) ∧ (∀ e ∈ upper, e.Within n) ∧ ∀ e ∈ step, e.Within n
  | call s func args keywords =>
    s.Within n ∧ func.Within n ∧ (∀ e ∈ args, e.Within n) ∧ ∀ k ∈ keywords, k.Within n
  | logical s _ es | display s _ es | fstring s es => s.Within n ∧ ∀ e ∈ es, e.Within n
  | compare s left _ rights => s.Within n ∧ left.Within n ∧ ∀ e ∈ rights, e.Within n
  | lambda s params body => s.Within n ∧ params.outline.Within n ∧ body.Within n
  | yield s value => s.Within n ∧ ∀ e ∈ value, e.Within n
  | dict s items => s.Within n ∧ ∀ item ∈ items, item.Within n
  | comprehension s _ element clauses => s.Within n ∧ element.Within n ∧ ∀ c ∈ clauses, c.Within n
  | dictComprehension s key value clauses =>
    s.Within n ∧ key.Within n ∧ value.Within n ∧ ∀ c ∈ clauses, c.Within n
  | formatted s value _ spec => s.Within n ∧ value.Within n ∧ ∀ e ∈ spec, e.Within n

theorem Expr.within_iff {e : Expr} : e.Within n ↔ e.PartsWithin n := by
  cases e <;> simp [Expr.Within, Expr.PartsWithin]

theorem Params.within_default : (default : Params).Within n := by simp [default, Params.Within]

def Pattern.Within (n : Nat) (p : Pattern) : Prop := p.outline.Within n

def WithItem.Within (n : Nat) (item : WithItem) : Prop :=
  item.context.Within n ∧ ∀ e ∈ item.target, e.Within n

def Stmt.Within (n : Nat) (s : Stmt) : Prop := s.outline.Within n

def Handler.Within (n : Nat) : Handler → Prop
  | .mk s type _ body => s.Within n ∧ (∀ e ∈ type, e.Within n) ∧ ∀ b ∈ body, b.Within n

def Case.Within (n : Nat) : Case → Prop
  | .mk p guard body => p.Within n ∧ (∀ e ∈ guard, e.Within n) ∧ ∀ b ∈ body, b.Within n

@[simp] theorem forall_mem_patternOutlines {ps : List Pattern} :
    (∀ o ∈ patternOutlines ps, o.Within n) ↔ ∀ p ∈ ps, p.Within n := by
  induction ps with
  | nil => simp [patternOutlines]
  | cons p ps ih => simp [patternOutlines, ih, Pattern.Within]

@[simp] theorem forall_mem_optPatternOutline {p : Option Pattern} :
    (∀ o ∈ optPatternOutline p, o.Within n) ↔ ∀ p' ∈ p, p'.Within n := by
  cases p <;> simp [optPatternOutline, Pattern.Within]

@[simp] theorem WithItem.within_outline {item : WithItem} : item.outline.Within n ↔ item.Within n := by
  simp [WithItem.outline, WithItem.Within, Expr.Within]

@[simp] theorem forall_mem_stmtOutlines {ss : List Stmt} :
    (∀ o ∈ stmtOutlines ss, o.Within n) ↔ ∀ s ∈ ss, s.Within n := by
  induction ss with
  | nil => simp [stmtOutlines]
  | cons s ss ih => simp [stmtOutlines, ih, Stmt.Within]

@[simp] theorem forall_mem_handlerOutlines {hs : List Handler} :
    (∀ o ∈ handlerOutlines hs, o.Within n) ↔ ∀ h ∈ hs, h.Within n := by
  induction hs with
  | nil => simp [handlerOutlines]
  | cons h hs ih =>
    obtain ⟨s, type, name, body⟩ := h
    simp [handlerOutlines, ih, Handler.Within, and_assoc]

@[simp] theorem forall_mem_caseOutlines {cs : List Case} :
    (∀ o ∈ caseOutlines cs, o.Within n) ↔ ∀ c ∈ cs, c.Within n := by
  induction cs with
  | nil => simp [caseOutlines]
  | cons c cs ih =>
    obtain ⟨p, guard, body⟩ := c
    simp [caseOutlines, ih, Case.Within, Pattern.Within, and_assoc]

def Pattern.PartsWithin (n : Nat) : Pattern → Prop
  | value e => e.Within n
  | singleton _ | star _ => True
  | sequence ps | anyOf ps => ∀ p ∈ ps, p.Within n
  | mapping keys items _ => (∀ e ∈ keys, e.Within n) ∧ ∀ p ∈ items, p.Within n
  | classOf cls items _ named => cls.Within n ∧ (∀ p ∈ items, p.Within n) ∧ ∀ p ∈ named, p.Within n
  | capture p _ => ∀ p' ∈ p, p'.Within n

theorem Pattern.within_iff {p : Pattern} : p.Within n ↔ p.PartsWithin n := by
  cases p <;> simp [Pattern.Within, Pattern.PartsWithin, Expr.Within]

def Stmt.PartsWithin (n : Nat) : Stmt → Prop
  | pass s | breakLoop s | continueLoop s | global s _ | nonlocal s _ | importModules s _ | importFrom s _ _ _ =>
    s.Within n
  | expr s value => s.Within n ∧ value.Within n
  | assign s targets value => s.Within n ∧ (∀ e ∈ targets, e.Within n) ∧ value.Within n
  | augAssign s target _ value => s.Within n ∧ target.Within n ∧ value.Within n
  | annAssign s target hint value _ => s.Within n ∧ target.Within n ∧ hint.Within n ∧ ∀ e ∈ value, e.Within n
  | ret s value => s.Within n ∧ ∀ e ∈ value, e.Within n
  | delete s targets => s.Within n ∧ ∀ e ∈ targets, e.Within n
  | assert s test message => s.Within n ∧ test.Within n ∧ ∀ e ∈ message, e.Within n
  | raise s exc cause => s.Within n ∧ (∀ e ∈ exc, e.Within n) ∧ ∀ e ∈ cause, e.Within n
  | functionDef s _ _ params body decorators returns =>
    s.Within n ∧ params.outline.Within n ∧ (∀ b ∈ body, b.Within n) ∧ (∀ e ∈ decorators, e.Within n) ∧
      ∀ e ∈ returns, e.Within n
  | classDef s _ bases keywords body decorators =>
    s.Within n ∧ (∀ e ∈ bases, e.Within n) ∧ (∀ k ∈ keywords, k.Within n) ∧ (∀ b ∈ body, b.Within n) ∧
      ∀ e ∈ decorators, e.Within n
  | ifElse s test body orelse | whileLoop s test body orelse =>
    s.Within n ∧ test.Within n ∧ (∀ b ∈ body, b.Within n) ∧ ∀ b ∈ orelse, b.Within n
  | forLoop s _ target iter body orelse =>
    s.Within n ∧ target.Within n ∧ iter.Within n ∧ (∀ b ∈ body, b.Within n) ∧ ∀ b ∈ orelse, b.Within n
  | withBlock s _ items body => s.Within n ∧ (∀ item ∈ items, item.Within n) ∧ ∀ b ∈ body, b.Within n
  | tryBlock s _ body handlers orelse cleanup =>
    s.Within n ∧ (∀ b ∈ body, b.Within n) ∧ (∀ h ∈ handlers, h.Within n) ∧ (∀ b ∈ orelse, b.Within n) ∧
      ∀ b ∈ cleanup, b.Within n
  | matchCases s subject cases => s.Within n ∧ subject.Within n ∧ ∀ c ∈ cases, c.Within n

theorem Stmt.within_iff {s : Stmt} : s.Within n ↔ s.PartsWithin n := by
  cases s <;> simp [Stmt.Within, Stmt.PartsWithin, Expr.Within]

end

mutual

/-- Every import of names in a statement has names. -/
def Stmt.Complete : Stmt → Prop
  | .importFrom _ _ names _ => names ≠ []
  | .functionDef _ _ _ _ body _ _ => CompleteStmts body
  | .classDef _ _ _ _ body _ => CompleteStmts body
  | .ifElse _ _ body orelse => CompleteStmts body ∧ CompleteStmts orelse
  | .whileLoop _ _ body orelse => CompleteStmts body ∧ CompleteStmts orelse
  | .forLoop _ _ _ _ body orelse => CompleteStmts body ∧ CompleteStmts orelse
  | .withBlock _ _ _ body => CompleteStmts body
  | .tryBlock _ _ body handlers orelse cleanup =>
    CompleteStmts body ∧ CompleteHandlers handlers ∧ CompleteStmts orelse ∧ CompleteStmts cleanup
  | .matchCases _ _ cases => CompleteCases cases
  | _ => True

def CompleteStmts : List Stmt → Prop
  | [] => True
  | s :: rest => s.Complete ∧ CompleteStmts rest

def CompleteHandlers : List Handler → Prop
  | [] => True
  | .mk _ _ _ body :: rest => CompleteStmts body ∧ CompleteHandlers rest

def CompleteCases : List Case → Prop
  | [] => True
  | .mk _ _ body :: rest => CompleteStmts body ∧ CompleteCases rest

end

def Module.Complete (m : Module) : Prop := CompleteStmts m.body

/-- A statement within so many lines whose imports have names. -/
structure Stmt.Sound (n : Nat) (s : Stmt) : Prop where
  within : s.Within n
  complete : s.Complete

structure Handler.Sound (n : Nat) (h : Handler) : Prop where
  within : h.Within n
  complete : CompleteHandlers [h]

structure Case.Sound (n : Nat) (c : Case) : Prop where
  within : c.Within n
  complete : CompleteCases [c]

section
variable {n : Nat} {ss : List Stmt} {test : Expr} {async : Bool}

theorem within_of_sound (h : ∀ s ∈ ss, s.Sound n) : ∀ s ∈ ss, s.Within n :=
  fun s hs => (h s hs).within

theorem completeStmts_of_sound (h : ∀ s ∈ ss, s.Sound n) : CompleteStmts ss := by
  induction ss with
  | nil => trivial
  | cons s ss ih => exact ⟨(h s List.mem_cons_self).complete, ih fun b hb => h b (List.mem_cons_of_mem s hb)⟩

theorem completeHandlers_of_sound {hs : List Handler} (h : ∀ a ∈ hs, a.Sound n) : CompleteHandlers hs := by
  induction hs with
  | nil => trivial
  | cons a hs ih =>
    obtain ⟨s, type, name, body⟩ := a
    exact ⟨(h _ List.mem_cons_self).complete.1, ih fun b hb => h b (List.mem_cons_of_mem _ hb)⟩

theorem completeCases_of_sound {cs : List Case} (h : ∀ c ∈ cs, c.Sound n) : CompleteCases cs := by
  induction cs with
  | nil => trivial
  | cons c cs ih =>
    obtain ⟨p, guard, body⟩ := c
    exact ⟨(h _ List.mem_cons_self).complete.1, ih fun b hb => h b (List.mem_cons_of_mem _ hb)⟩

variable {s : Span} {body orelse : List Stmt} (hs : s.Within n) (hbody : ∀ b ∈ body, b.Sound n)
include hs hbody

theorem Stmt.sound_ifElse (htest : test.Within n) (horelse : ∀ b ∈ orelse, b.Sound n) :
    (Stmt.ifElse s test body orelse).Sound n where
  within := Stmt.within_iff.2 ⟨hs, htest, within_of_sound hbody, within_of_sound horelse⟩
  complete := ⟨completeStmts_of_sound hbody, completeStmts_of_sound horelse⟩

theorem Stmt.sound_withBlock {items : List WithItem} (hitems : ∀ item ∈ items, item.Within n) :
    (Stmt.withBlock s async items body).Sound n where
  within := Stmt.within_iff.2 ⟨hs, hitems, within_of_sound hbody⟩
  complete := completeStmts_of_sound hbody

theorem Stmt.sound_tryBlock {star : Bool} {handlers : List Handler} {cleanup : List Stmt}
    (hhandlers : ∀ h ∈ handlers, h.Sound n) (horelse : ∀ b ∈ orelse, b.Sound n) (hcleanup : ∀ b ∈ cleanup, b.Sound n) :
    (Stmt.tryBlock s star body handlers orelse cleanup).Sound n where
  within := Stmt.within_iff.2 ⟨hs, within_of_sound hbody, fun h hh => (hhandlers h hh).within,
    within_of_sound horelse, within_of_sound hcleanup⟩
  complete := ⟨completeStmts_of_sound hbody, completeHandlers_of_sound hhandlers, completeStmts_of_sound horelse,
    completeStmts_of_sound hcleanup⟩

theorem Handler.sound {type : Option Expr} {name : Option String} (htype : ∀ e ∈ type, e.Within n) :
    (Handler.mk s type name body).Sound n where
  within := ⟨hs, htype, within_of_sound hbody⟩
  complete := ⟨completeStmts_of_sound hbody, trivial⟩

end

end CodeMigration.Source
