import CodeMigration.Proofs.SilentEdits

/-! # Texts that can be transformed

A text that is no module is always transformed. A module is not if its edited tree cannot be printed, and for the new
web framework if one of its routes leaves open which method it has: the pass gives up at the first such decorator. What
a pass notes about decorators can be told from the functions of the module as they are, since decorators are replaced
before anything around them is edited. -/

namespace CodeMigration

theorem not_exists_ok_of_error {ε α : Type} (failure : ε) : ¬∃ a, (.error failure : Except ε α) = .ok a := by
  rintro ⟨a, h⟩
  cases h

namespace Source

variable {ε α : Type} {p : Pass ε} {Q : ε → Prop} {keep : ε → Bool}

namespace Outline

/-- What is said of the nodes of an outline, each node before its parts. -/
def tell (f : Label → List α) (o : Outline) : List α := o.preorder.flatMap fun q => f q.label

def tells (f : Label → List α) (os : List Outline) : List α := os.flatMap (tell f)

section
variable (f : Label → List α)

@[simp] theorem tells_nil : tells f [] = [] := rfl

@[simp] theorem tells_cons (o : Outline) (os : List Outline) : tells f (o :: os) = o.tell f ++ tells f os :=
  List.flatMap_cons

@[simp] theorem tells_append (os qs : List Outline) : tells f (os ++ qs) = tells f os ++ tells f qs :=
  List.flatMap_append

@[simp] theorem tell_node (l : Label) (ps : List Outline) : (node l ps).tell f = f l ++ tells f ps := by
  have hps : ∀ os : List Outline, ((preorders os).flatMap fun q => f q.label) = tells f os := by
    intro os
    induction os with
    | nil => rfl
    | cons o os ih =>
      rw [preorders, List.flatMap_append, ih]
      rfl
  rw [tell, preorder, List.flatMap_cons, hps, label]

variable {f}

/-- Something that is said of statements and handlers only. -/
def OfStmts (f : Label → List α) : Prop := (∀ e, f (.expr e) = []) ∧ f .inner = []

theorem Inside.tell (hf : OfStmts f) {o : Outline} (ho : o.Inside) : o.tell f = [] := by
  induction ho with
  | expr he _ ih => rw [he, tell_node, Outline.tells, List.flatMap_eq_nil_iff.2 ih, hf.1, List.append_nil]
  | inner _ ih => rw [tell_node, Outline.tells, List.flatMap_eq_nil_iff.2 ih, hf.2, List.append_nil]

theorem Insides.tells (hf : OfStmts f) {os : List Outline} (hos : Insides os) : Outline.tells f os = [] :=
  List.flatMap_eq_nil_iff.2 fun o ho => (hos o ho).tell hf

end

end Outline

/-- All that a pass notes is of some kind, but for what it notes about decorators. -/
structure Pass.NotesOnly (p : Pass ε) (Q : ε → Prop) : Prop where
  call : ∀ s func args keywords, ∀ n ∈ (p.call s func args keywords).2, Q n
  assign : ∀ s targets value, ∀ n ∈ (p.assign s targets value).2, Q n
  importModules : ∀ s names, ∀ n ∈ (p.importModules s names).2, Q n
  importFrom : ∀ s source names level, ∀ n ∈ (p.importFrom s source names level).2, Q n

theorem Pass.NotesOnly.imp {R : ε → Prop} (hp : p.NotesOnly Q) (h : ∀ n, Q n → R n) : p.NotesOnly R where
  call s func args keywords n hn := h n (hp.call s func args keywords n hn)
  assign s targets value n hn := h n (hp.assign s targets value n hn)
  importModules s names n hn := h n (hp.importModules s names n hn)
  importFrom s source names level n hn := h n (hp.importFrom s source names level n hn)

def Pass.decoratorNotesAt (p : Pass ε) : Label → List ε
  | .stmt (.functionDef _ async _ _ _ decorators _) => decoratorNotes p async decorators
  | _ => []

@[simp] theorem Pass.decoratorNotesAt_ofStmts : Outline.OfStmts p.decoratorNotesAt := ⟨fun _ => rfl, rfl⟩

theorem Pass.NotesOnly.filter_gathers (hp : p.NotesOnly fun n => keep n = false) (os : List Outline) :
    (Outline.gathers p.notesAt os).filter keep = [] := by
  have hat : ∀ l, ∀ n ∈ p.notesAt l, keep n = false := by
    intro l
    unfold Pass.notesAt
    split
    · exact hp.call _ _ _ _
    · exact hp.assign _ _ _
    · exact hp.importModules _ _
    · exact hp.importFrom _ _ _ _
    · exact List.forall_mem_nil _
  rw [List.filter_eq_nil_iff]
  intro n hn
  obtain ⟨q, -, hn⟩ := List.mem_flatMap.1 ((Outline.gathers_perm _ os).mem_iff.1 hn)
  exact Bool.eq_false_iff.1 (hat q.label n hn)

attribute [local simp] Stmt.notes Stmt.outline Pass.decoratorNotesAt notesOf Outline.Inside.tell Outline.Insides.tells

mutual

theorem Stmt.filter_notes (hp : p.NotesOnly fun n => keep n = false) (s : Stmt) :
    (s.notes p).filter keep = (s.outline.tell p.decoratorNotesAt).filter keep := by
  cases s <;> simp [hp.filter_gathers, filter_notesStmts hp, filter_notesHandlers hp, filter_notesCases hp]

theorem filter_notesStmts (hp : p.NotesOnly fun n => keep n = false) (ss : List Stmt) :
    (notesStmts p ss).filter keep = (Outline.tells p.decoratorNotesAt (stmtOutlines ss)).filter keep := by
  cases ss <;> simp [notesStmts, stmtOutlines, Stmt.filter_notes hp, filter_notesStmts hp]

theorem filter_notesHandlers (hp : p.NotesOnly fun n => keep n = false) (hs : List Handler) :
    (notesHandlers p hs).filter keep = (Outline.tells p.decoratorNotesAt (handlerOutlines hs)).filter keep := by
  rcases hs with _ | ⟨⟨⟩, hs⟩ <;>
    simp [notesHandlers, handlerOutlines, hp.filter_gathers, filter_notesStmts hp, filter_notesHandlers hp]

theorem filter_notesCases (hp : p.NotesOnly fun n => keep n = false) (cs : List Case) :
    (notesCases p cs).filter keep = (Outline.tells p.decoratorNotesAt (caseOutlines cs)).filter keep := by
  rcases cs with _ | ⟨⟨⟩, cs⟩ <;>
    simp [notesCases, caseOutlines, hp.filter_gathers, filter_notesStmts hp, filter_notesCases hp]

end

/-- Notes that are made about decorators only come in the order of the functions, each function before what it holds. -/
theorem Module.filter_notes (hp : p.NotesOnly fun n => keep n = false) (m : Module) :
    (m.notes p).filter keep = (m.outline.tell p.decoratorNotesAt).filter keep := by
  refine (filter_notesStmts hp m.body).trans ?_
  simp [Module.outline, Pass.decoratorNotesAt]

/-- All notes about a module are of some kind exactly if those about the decorators of its functions are. -/
theorem Module.forall_notes_iff (hp : p.NotesOnly Q) (m : Module) :
    (∀ n ∈ m.notes p, Q n) ↔ ∀ n ∈ m.outline.tell p.decoratorNotesAt, Q n := by
  classical
  have hall (l : List ε) : (∀ n ∈ l, Q n) ↔ l.filter (fun n => !decide (Q n)) = [] := by
    simp [List.filter_eq_nil_iff]
  rw [hall, hall, Module.filter_notes (hp.imp fun n hn => by simp [hn])]

end Source

namespace Flask

open Source

/-- An item that can name a method: no literal but a text or bytes. What is no literal stands for one. -/
def NamesMethod : Expr → Prop
  | .literal _ (.text ..) | .literal _ (.bytes _) => True
  | .literal .. => False
  | _ => True

def methodLists : List Keyword → List (List Expr)
  | [] => []
  | .mk (some "methods") (.display _ .list items) :: rest => items :: methodLists rest
  | _ :: rest => methodLists rest

/-- Keywords of a route that tell its method: all items of all lists are names of methods, and the last list, which is
the one that counts, is not empty. -/
def TellMethod (keywords : List Keyword) : Prop :=
  (∀ items ∈ methodLists keywords, ∀ e ∈ items, NamesMethod e) ∧ (methodLists keywords).getLast? ≠ some []

theorem exists_ofExpr_iff (e : Expr) : (∃ m, Method.ofExpr e = .ok m) ↔ NamesMethod e := by
  cases e with
  | literal s value => cases value <;> simp [Method.ofExpr, NamesMethod]
  | _ => simp [Method.ofExpr, NamesMethod]

theorem ofExprs_eq_ok {es : List Expr} (h : ∀ e ∈ es, NamesMethod e) :
    ∃ ms, Method.ofExprs es = .ok ms ∧ (ms = [] ↔ es = []) := by
  induction es with
  | nil => exact ⟨[], rfl, iff_of_true rfl rfl⟩
  | cons e es ih =>
    obtain ⟨he, hes⟩ := List.forall_mem_cons.1 h
    obtain ⟨m, hm⟩ := (exists_ofExpr_iff e).2 he
    obtain ⟨ms, hms, -⟩ := ih hes
    refine ⟨m :: ms, ?_, by simp⟩
    rw [Method.ofExprs, hm, hms]
    rfl

theorem namesMethod_of_ofExprs {es : List Expr} {ms : List Method} (h : Method.ofExprs es = .ok ms) :
    ∀ e ∈ es, NamesMethod e := by
  induction es generalizing ms with
  | nil => exact List.forall_mem_nil _
  | cons e es ih =>
    rw [Method.ofExprs] at h
    obtain ⟨m, hm, h⟩ := of_bind_eq_ok h
    obtain ⟨ms', hms, -⟩ := of_bind_eq_ok h
    exact List.forall_mem_cons.2 ⟨(exists_ofExpr_iff e).1 ⟨m, hm⟩, ih hms⟩

theorem exists_fromKeywords_iff (found : List Method) (ks : List Keyword) :
    (∃ m ms, Method.fromKeywords found ks = .ok (m :: ms)) ↔
      (∀ items ∈ methodLists ks, ∀ e ∈ items, NamesMethod e) ∧
        (methodLists ks).getLast?.elim (found ≠ []) (· ≠ []) := by
  fun_induction methodLists ks generalizing found with
  | case1 => cases found <;> simp [Method.fromKeywords]
  | case2 span items rest ih =>
    rw [Method.fromKeywords, List.forall_mem_cons]
    by_cases hitems : ∀ e ∈ items, NamesMethod e
    · obtain ⟨ms, hms, hnil⟩ := ofExprs_eq_ok hitems
      rw [hms, List.getLast?_cons]
      refine (ih ms).trans ?_
      rw [and_iff_right hitems]
      cases (methodLists rest).getLast? <;> simp [hnil]
    · refine iff_of_false ?_ fun h => hitems h.1.1
      rintro ⟨m, ms, h⟩
      obtain ⟨ms', hms, -⟩ := of_bind_eq_ok h
      exact hitems (namesMethod_of_ofExprs hms)
  | case3 k rest hk ih =>
    rw [← ih, Method.fromKeywords]
    exact hk

theorem exists_routeMethod_iff (ks : List Keyword) : (∃ m, routeMethod ks = .ok m) ↔ TellMethod ks := by
  have hlast : (methodLists ks).getLast?.elim ([Method.get] ≠ []) (· ≠ []) ↔
      (methodLists ks).getLast? ≠ some [] := by
    cases (methodLists ks).getLast? <;> simp
  rw [TellMethod, ← hlast, ← exists_fromKeywords_iff, ← Method.ofKeywords, routeMethod]
  cases Method.ofKeywords ks with
  | error failure => exact iff_of_false nofun nofun
  | ok found =>
    cases found with
    | nil => exact iff_of_false nofun nofun
    | cons m ms => exact iff_of_true ⟨m.lower, rfl⟩ ⟨m, ms, rfl⟩

/-- A decorator that is no route, or one that tells its method. -/
def IsRoutable : Expr → Prop
  | .call _ (.member _ _ "route") _ keywords => TellMethod keywords
  | _ => True

/-- A node that is no plain function, or one all of whose routes tell their methods. -/
def AreRoutable : Label → Prop
  | .stmt (.functionDef _ false _ _ _ decorators _) => ∀ e ∈ decorators, IsRoutable e
  | _ => True

def Event.IsFault : Event → Prop
  | fault _ => True
  | _ => False

def Event.isOfRoute : Event → Bool
  | change (.route _) | fault _ => true
  | _ => false

theorem imported_of_mem_notes {s : Span} {source : Option String} {names : List Alias} {level : Nat} {n : Event}
    (h : n ∈ (editImportFrom s source names level).2) : ∃ what, n = .change (.imported what) := by
  cases source with
  | none => cases h
  | some name =>
    by_cases hflask : isFlaskModule name = true
    · rw [editImportFrom_of_flask hflask] at h
      obtain ⟨what, -, rfl⟩ := List.mem_map.1 h
      exact ⟨what, rfl⟩
    · rw [editImportFrom, if_neg hflask] at h
      cases h

theorem pass_notesOnly_isOfRoute : pass.NotesOnly fun n => n.isOfRoute = false where
  call s func args keywords := by
    simp only [pass, editCall]
    split <;> simp [Event.isOfRoute]
  assign s targets value := by
    simp only [pass, editAssign]
    split
    · intro n hn
      rcases List.mem_append.1 hn with hn | hn
      · obtain ⟨name, -, rfl⟩ := List.mem_map.1 hn
        rfl
      · obtain rfl := List.mem_singleton.1 hn
        rfl
    · simp [Event.isOfRoute]
    · simp
  importModules s names := List.forall_mem_nil _
  importFrom s source names level := by
    intro n hn
    obtain ⟨what, rfl⟩ := imported_of_mem_notes hn
    rfl

theorem pass_notesOnly : pass.NotesOnly (¬·.IsFault) :=
  pass_notesOnly_isOfRoute.imp fun n hn => by cases n <;> simp_all [Event.IsFault, Event.isOfRoute]

theorem editDecorator_notes_iff (e : Expr) : (∀ n ∈ (editDecorator e).2, ¬n.IsFault) ↔ IsRoutable e := by
  unfold editDecorator
  split
  · rename_i keywords
    refine Iff.trans ?_ (exists_routeMethod_iff keywords)
    cases routeMethod keywords <;> simp [Event.IsFault]
  · rename_i hroute
    refine iff_of_true (List.forall_mem_nil _) ?_
    unfold IsRoutable
    split
    · exact absurd rfl (hroute _ _ _ _ _)
    · trivial

theorem decoratorNotesAt_iff (l : Label) : (∀ n ∈ pass.decoratorNotesAt l, ¬n.IsFault) ↔ AreRoutable l := by
  cases l with
  | stmt s =>
    cases s with
    | functionDef s async name params body decorators returns =>
      cases async with
      | true => exact iff_of_true (List.forall_mem_nil _) trivial
      | false =>
        rw [AreRoutable, Pass.decoratorNotesAt, decoratorNotes, if_neg Bool.false_ne_true, List.forall_mem_flatMap]
        exact forall₂_congr fun e _ => editDecorator_notes_iff e
    | _ => exact iff_of_true (List.forall_mem_nil _) trivial
  | _ => exact iff_of_true (List.forall_mem_nil _) trivial

theorem faultOf?_eq_none_iff (es : List Event) : faultOf? es = none ↔ ∀ n ∈ es, ¬n.IsFault := by
  induction es with
  | nil => simp [faultOf?]
  | cons e es ih => cases e <;> simp [faultOf?, Event.IsFault, ih]

/-- The changes of a module can be told exactly if its routes tell their methods. -/
theorem exists_changes_iff (m : Module) : (∃ cs, changes m = .ok cs) ↔ m.outline.All AreRoutable := by
  have hall : (∀ n ∈ m.outline.tell pass.decoratorNotesAt, ¬n.IsFault) ↔ m.outline.All AreRoutable :=
    List.forall_mem_flatMap.trans (forall₂_congr fun q _ => decoratorNotesAt_iff q.label)
  rw [← hall, ← Module.forall_notes_iff pass_notesOnly, ← events, ← faultOf?_eq_none_iff, changes]
  cases faultOf? (events m) <;> simp

end Flask

def edited : MigrationKind → Source.Module → Source.Module
  | .legacy => Legacy.edit
  | .flask => Flask.edit

/-- A text that is no module, or a module with routes that tell their methods, as far as they matter, whose edited tree
can be printed. -/
def IsTransformable (kind : MigrationKind) (text : String) : Prop :=
  ∀ m, Source.Module.ofString text = .ok m →
    (kind = .flask → m.outline.All Flask.AreRoutable) ∧ ∃ code, (edited kind m).print = .ok code

theorem exists_printed_iff (m : Source.Module) : (∃ code, printed m = .ok code) ↔ ∃ code, m.print = .ok code := by
  rw [printed]
  cases m.print <;> simp

theorem exists_transform_iff (kind : MigrationKind) (text : String) :
    (∃ t, transform kind text = .ok t) ↔ IsTransformable kind text := by
  cases hm : Source.Module.ofString text with
  | error fault =>
    refine iff_of_true ?_ fun m h => ?_
    · cases kind with
      | legacy =>
        rw [transform, Legacy.transform, hm]
        exact ⟨_, rfl⟩
      | flask =>
        rw [transform, Flask.transform, hm]
        exact ⟨_, rfl⟩
    · rw [hm] at h
      cases h
  | ok m =>
    have hkind : IsTransformable kind text ↔
        (kind = .flask → m.outline.All Flask.AreRoutable) ∧ ∃ code, (edited kind m).print = .ok code := by
      simp [IsTransformable, hm]
    rw [hkind]
    cases kind with
    | legacy =>
      have hlegacy : MigrationKind.legacy ≠ .flask := by decide
      rw [transform, Legacy.transform, hm, and_iff_right fun h => absurd h hlegacy, edited, ← exists_printed_iff]
      dsimp only
      cases printed (Legacy.edit m) with
      | error failure => exact iff_of_false (not_exists_ok_of_error failure) (not_exists_ok_of_error failure)
      | ok code => exact iff_of_true ⟨_, rfl⟩ ⟨code, rfl⟩
    | flask =>
      rw [transform, Flask.transform, hm, forall_prop_of_true rfl, edited, ← exists_printed_iff,
        ← Flask.exists_changes_iff]
      dsimp only
      cases Flask.changes m with
      | error failure =>
        exact iff_of_false (not_exists_ok_of_error failure) fun h => not_exists_ok_of_error failure h.1
      | ok changes =>
        cases printed (Flask.edit m) with
        | error failure =>
          exact iff_of_false (not_exists_ok_of_error failure) fun h => not_exists_ok_of_error failure h.2
        | ok code => exact iff_of_true ⟨_, rfl⟩ ⟨⟨changes, rfl⟩, code, rfl⟩

end CodeMigration
