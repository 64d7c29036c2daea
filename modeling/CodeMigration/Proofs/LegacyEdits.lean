import CodeMigration.Proofs.Places.Findings
import CodeMigration.Proofs.TreeEdits

/-! # Old uses, found and replaced

A scan looks at a node before its parts, and an edit at a node whose parts are edited already. Editing what is called
never changes which old use a call is, so both see the same uses: the replacements made are those that the findings
ask for, except for the few kinds that no edit replaces. After one edit nothing is left to replace but tests for a key
that do not say which key. -/

namespace CodeMigration.Legacy

open Source

def Use.change? : Use → Option Change
  | function f => f.successor?.map (.function f.name)
  | method m => some (m.successor?.elim .keyTest (.method m.name))
  | importModule name new => if name == "tkFileDialog" then none else some (.importModule name new)
  | importFrom name new => some (.importFrom name new)
  | division | exceptComma => none

/-- A handler is never replaced, however its line looks. -/
def Site.change? : Site → Option Change
  | use u => u.change?
  | namedHandler => none

theorem OldFunction.ofName?_eq_some {id : String} {f : OldFunction} : ofName? id = some f ↔ id = f.name := by
  constructor
  · intro h
    unfold ofName? at h
    split at h <;> cases h <;> rfl
  · rintro rfl
    cases f <;> rfl

theorem OldMethod.ofName?_eq_some {attr : String} {m : OldMethod} : ofName? attr = some m ↔ attr = m.name := by
  constructor
  · intro h
    unfold ofName? at h
    split at h <;> cases h <;> rfl
  · rintro rfl
    cases m <;> rfl

theorem OldMethod.ne_hasKey {attr : String} (h : ofName? attr = none) : attr ≠ "has_key" := by
  rintro rfl
  cases h

/-- The functions that are replaced are those that are reported with a new name. -/
theorem newFunction?_eq (id : String) : newFunction? id = (OldFunction.ofName? id).bind OldFunction.successor? := by
  cases h : OldFunction.ofName? id with
  | some f =>
    obtain rfl := OldFunction.ofName?_eq_some.1 h
    cases f <;> rfl
  | none =>
    unfold newFunction?
    split <;> first | rfl | cases h

theorem newMethod?_eq (attr : String) : newMethod? attr = (OldMethod.ofName? attr).bind OldMethod.successor? := by
  cases h : OldMethod.ofName? attr with
  | some m =>
    obtain rfl := OldMethod.ofName?_eq_some.1 h
    cases m <;> rfl
  | none =>
    unfold newMethod?
    split <;> first | rfl | cases h

/-- One module more is reported than is replaced. -/
theorem renamedModule?_eq (name : String) :
    renamedModule? name = if name = "tkFileDialog" then none else reportedModule? name := by
  unfold renamedModule? reportedModule?
  split <;> simp_all

theorem renamedSource?_eq (name : String) : renamedSource? name = reportedSource? name := rfl

theorem pass_sparesDecorators : pass.SparesDecorators := fun _ => rfl

variable (s : Span) (func : Expr) (args : List Expr) (keywords : List Keyword)

theorem calleeUse?_editCall : calleeUse? (editCall s func args keywords).1 = none := by
  simp only [editCall]
  repeat' split
  all_goals rfl

theorem calleeUse?_edit (func : Expr) : calleeUse? (func.edit pass) = calleeUse? func := by
  cases func with
  | call s f args keywords => exact calleeUse?_editCall ..
  | _ => simp only [Expr.edit, calleeUse?]

theorem editCall_notes : (editCall s func args keywords).2 = ((calleeUse? func).bind Use.change?).toList := by
  cases func with
  | name ns id =>
    simp only [editCall, newFunction?_eq, calleeUse?]
    cases hid : OldFunction.ofName? id with
    | none => rfl
    | some f =>
      obtain rfl := OldFunction.ofName?_eq_some.1 hid
      cases f <;> rfl
  | member ms value attr =>
    simp only [editCall, newMethod?_eq, calleeUse?]
    cases hattr : OldMethod.ofName? attr with
    | none => simp [OldMethod.ne_hasKey hattr]
    | some m =>
      obtain rfl := OldMethod.ofName?_eq_some.1 hattr
      cases m <;> cases args <;> rfl
  | _ => rfl

theorem bind_reportedModule? (name : String) : ((reportedModule? name).map (Use.importModule name)).bind Use.change? =
      (renamedModule? name).map (Change.importModule name) := by
  rw [renamedModule?_eq]
  by_cases hname : name = "tkFileDialog"
  · subst hname
    rfl
  · cases reportedModule? name <;> simp [hname, Use.change?]

/-- What an edit notes about a node is what the scan finds there, before any part is edited. -/
theorem pass_notesAt (l : Label) : pass.notesAt l = (sitesOf l).filterMap fun q => q.2.change? := by
  cases l with
  | expr e =>
    cases e with
    | call s func args keywords =>
      calc pass.notesAt (.expr (.call s func args keywords))
          = ((calleeUse? (func.edit pass)).bind Use.change?).toList := editCall_notes ..
        _ = ((calleeUse? func).bind Use.change?).toList := by rw [calleeUse?_edit]
        _ = _ := by cases h : calleeUse? func <;> simp [sitesOf, h, Site.change?, Option.toList]; rfl
    | binary s op left right =>
      cases op <;> simp only [sitesOf, Pass.notesAt, List.filterMap_nil]
      split <;> rfl
    | _ => rfl
  | stmt t =>
    cases t with
    | importModules s names =>
      have hname (a : Alias) :
          ((reportedModule? a.name).map fun new => (s, Site.use (.importModule a.name new))).bind
            (fun q => q.2.change?) = (renamedModule? a.name).map (Change.importModule a.name) := by
        rw [← bind_reportedModule?]
        cases reportedModule? a.name <;> rfl
      simp only [Pass.notesAt, pass, editImport, sitesOf, List.filterMap_filterMap, hname]
    | importFrom s source names level =>
      cases source with
      | none => rfl
      | some name =>
        simp only [Pass.notesAt, pass, editImportFrom, sitesOf, Option.bind_some, renamedSource?_eq]
        cases reportedSource? name <;> rfl
    | _ => rfl
  | handler s name => cases name <;> rfl
  | inner => rfl

theorem changes_perm_sites (m : Module) : (changes m).Perm ((sites m).filterMap fun q => q.2.change?) := by
  rw [changes, Module.notes_eq pass_sparesDecorators, sites, List.filterMap_flatMap]
  simp only [← pass_notesAt]
  exact Outline.gather_perm _ _

/-- A use that a scan can report: a module of an import is one of those that are listed. -/
def Use.Listed : Use → Prop
  | importModule name new => reportedModule? name = some new
  | importFrom name new => reportedSource? name = some new
  | _ => True

variable {s func args keywords} {l : Label} {u : Use} {lines : List String} {m : Module} {ps : List (Span × Site)}
  {fs : List Finding} {names : List Alias} {n : Nat}

theorem listed_of_mem_sitesOf (h : (s, .use u) ∈ sitesOf l) : u.Listed := by
  unfold sitesOf at h
  split at h
  case h_1 func _ _ =>
    obtain ⟨v, hv, heq⟩ := Option.map_eq_some_iff.1 (Option.mem_toList.1 h)
    cases heq
    cases func with
    | name ns id | member ms value attr =>
      obtain ⟨f, -, rfl⟩ := Option.map_eq_some_iff.1 hv
      trivial
    | _ => cases hv
  case h_2 =>
    split at h
    · cases List.mem_singleton.1 h
      trivial
    · cases h
  case h_3 =>
    obtain ⟨a, -, ha⟩ := List.mem_filterMap.1 h
    obtain ⟨new, hnew, heq⟩ := Option.map_eq_some_iff.1 ha
    cases heq
    exact hnew
  case h_4 =>
    obtain ⟨new, hnew, heq⟩ := Option.map_eq_some_iff.1 (Option.mem_toList.1 h)
    cases heq
    exact hnew
  case h_5 => cases List.mem_singleton.1 h
  case h_6 => cases h

/-- A finding says that a use stands at a place of a text. -/
structure Reports (src : SourceText) (q : Span × Use) (f : Finding) : Prop where
  kind : f.kind = q.2.kind
  description : f.description = q.2.description
  place : f.place = .ofSpan q.1
  code : src.segment? q.1 = some f.code
  severity : f.severity = q.2.severity
  fix : f.fix = q.2.fix

/-- The uses among sites. Nothing is said about a handler whose line is missing. -/
def usesAt (lines : List String) (ps : List (Span × Site)) : List (Span × Use) :=
  ps.filterMap fun p => (resolve lines p).toOption.join

theorem forall₂_reports {src : SourceText} {count : Nat} (h : report src count ps = .ok fs) :
    List.Forall₂ (Reports src) (usesAt src.plain ps) fs := by
  induction ps generalizing count fs with
  | nil =>
    cases h
    exact .nil
  | cons p ps ih =>
    rw [report] at h
    obtain ⟨q, hp, h⟩ := of_bind_eq_ok h
    cases q with
    | none =>
      rw [usesAt, List.filterMap_cons_none (by rw [hp]; rfl)]
      exact ih h
    | some q =>
      obtain ⟨s, u⟩ := q
      rw [usesAt, List.filterMap_cons_some (by rw [hp]; rfl)]
      dsimp only at h
      split at h
      · cases h
      case h_2 code hcode =>
        obtain ⟨more, hrest, h⟩ := of_bind_eq_ok h
        cases h
        exact .cons ⟨rfl, rfl, rfl, hcode, rfl, rfl⟩ (ih hrest)

/-- What there is a replacement for. -/
def replaceable : List Use :=
  [.function .xrange, .function .rawInput, .function .unicode, .function .long,
    .method .iteritems, .method .iterkeys, .method .itervalues, .method .hasKey,
    .importModule "ConfigParser" "configparser", .importModule "Queue" "queue",
    .importModule "SocketServer" "socketserver", .importModule "repr" "reprlib", .importModule "Tkinter" "tkinter",
    .importFrom "ConfigParser" "configparser", .importFrom "Queue" "queue",
    .importFrom "SocketServer" "socketserver", .importFrom "urllib2" "urllib.request",
    .importFrom "urlparse" "urllib.parse", .importFrom "StringIO" "io", .importFrom "cStringIO" "io"]

/-- The replacement that a finding asks for, told by its kind and description alone. -/
def replacementFor? (kind description : String) : Option Change :=
  (replaceable.find? fun u => u.kind == kind && u.description == description).bind Use.change?

def IsUnfixed (kind description : String) : Prop :=
  kind ∈ ["execfile_usage", "division_behavior", "old_except_syntax"] ∨
    kind = "renamed_module" ∧ description = "Module 'tkFileDialog' is renamed in Python 3"

instance (kind description : String) : Decidable (IsUnfixed kind description) :=
  inferInstanceAs (Decidable (_ ∨ _))

/-- All that a scan can report. -/
def Use.all : List Use :=
  [.function .execfile, .division, .exceptComma, .importModule "tkFileDialog" "tkinter.filedialog"] ++ replaceable

theorem Use.Listed.mem_all (h : u.Listed) : u ∈ Use.all := by
  cases u with
  | function f => cases f <;> decide
  | method m => cases m <;> decide
  | importModule name new =>
    simp only [Use.Listed] at h
    unfold reportedModule? at h
    split at h <;> cases h <;> decide +kernel
  | importFrom name new =>
    simp only [Use.Listed] at h
    unfold reportedSource? at h
    split at h <;> cases h <;> decide +kernel
  | division | exceptComma => decide

theorem Use.Listed.replacementFor? (h : u.Listed) :
    Legacy.replacementFor? u.kind u.description = u.change? ∧ (u.change? = none ↔ IsUnfixed u.kind u.description) := by
  have hall : ∀ v ∈ Use.all, Legacy.replacementFor? v.kind v.description = v.change? ∧
      (v.change? = none ↔ IsUnfixed v.kind v.description) := by decide +kernel
  exact hall u h.mem_all

/-- A use among sites is at a site of its own, or it is a handler that looks old. -/
theorem of_mem_usesAt (h : (s, u) ∈ usesAt lines ps) : (s, .use u) ∈ ps ∨ u = .exceptComma := by
  obtain ⟨⟨t, site⟩, hp, hresolve⟩ := List.mem_filterMap.1 h
  cases site with
  | use v =>
    cases hresolve
    exact .inl hp
  | namedHandler =>
    right
    rw [resolve] at hresolve
    split at hresolve
    · cases hresolve
    · split at hresolve
      · cases hresolve
        rfl
      · cases hresolve

theorem listed_of_mem_usesAt : ∀ q ∈ usesAt lines (sites m), q.2.Listed := by
  rintro ⟨s, u⟩ hq
  rcases of_mem_usesAt hq with hsite | rfl
  · obtain ⟨o, -, ho⟩ := List.mem_flatMap.1 hsite
    exact listed_of_mem_sitesOf ho
  · trivial

theorem usesAt_filterMap (lines : List String) (ps : List (Span × Site)) :
    ((usesAt lines ps).filterMap fun q => q.2.change?) = ps.filterMap fun p => p.2.change? := by
  rw [usesAt, List.filterMap_filterMap]
  apply List.filterMap_congr
  rintro ⟨s, site⟩ -
  cases site with
  | use u => rfl
  | namedHandler =>
    rw [resolve]
    split
    · rfl
    · split <;> rfl

section
variable {src : SourceText} {us : List (Span × Use)} {fs : List Finding}

theorem filterMap_reports {α : Type} (h : List.Forall₂ (Reports src) us fs) {g : Finding → Option α}
    {k : Span × Use → Option α} (hg : ∀ q ∈ us, ∀ f, Reports src q f → g f = k q) :
    fs.filterMap g = us.filterMap k := by
  induction h with
  | nil => rfl
  | @cons q f us fs hq _ ih =>
    obtain ⟨hhead, htail⟩ := List.forall_mem_cons.1 hg
    rw [List.filterMap_cons, List.filterMap_cons, ih htail, hhead f hq]

theorem exists_reports_of_mem (h : List.Forall₂ (Reports src) us fs) {f : Finding} (hf : f ∈ fs) :
    ∃ q ∈ us, Reports src q f := by
  induction h with
  | nil => cases hf
  | @cons q g us fs hq _ ih =>
    rcases List.mem_cons.1 hf with rfl | hf
    · exact ⟨q, List.mem_cons_self, hq⟩
    · obtain ⟨r, hr, hreports⟩ := ih hf
      exact ⟨r, List.mem_cons_of_mem _ hr, hreports⟩

end

/-- The replacements made in a tree are those that the findings in it ask for: as many of each, in another order. Only
the findings of a few kinds ask for none. And there are findings to compare with wherever the text has all lines in
which nodes of the tree stand. -/
theorem changes_perm_findings (source : String) (m : Module) :
    (∀ fs, scan source m = .ok fs →
      (changes m).Perm (fs.filterMap fun f => replacementFor? f.kind f.description) ∧
      (∀ f ∈ fs, replacementFor? f.kind f.description = none ↔ IsUnfixed f.kind f.description) ∧
      (changes m).length ≤ fs.length) ∧
    (m.outline.Within (Text.lines source).length → ∃ fs, scan source m = .ok fs) := by
  refine ⟨fun fs hfs => ?_, fun hm => ?_⟩
  · have hreports := forall₂_reports hfs
    have hperm : (changes m).Perm (fs.filterMap fun f => replacementFor? f.kind f.description) := by
      rw [filterMap_reports (k := fun q => q.2.change?) hreports fun q hq f hf => ?_, usesAt_filterMap]
      · exact changes_perm_sites m
      · rw [hf.kind, hf.description]
        exact (listed_of_mem_usesAt q hq).replacementFor?.1
    refine ⟨hperm, fun f hf => ?_, ?_⟩
    · obtain ⟨q, hq, hqf⟩ := exists_reports_of_mem hreports hf
      obtain ⟨hreplacement, hunfixed⟩ := (listed_of_mem_usesAt q hq).replacementFor?
      rw [hqf.kind, hqf.description, hreplacement, hunfixed]
    · rw [hperm.length_eq]
      exact List.length_filterMap_le _ _
  · obtain ⟨fs, hfs, -⟩ := @exists_report (.ofString source) _ (sites_within hm) 0
    exact ⟨fs, hfs⟩

theorem exists_ok_of_any {ε α : Type} {r : Except ε α} {p : α → Bool} (h : r.toOption.any p = true) :
    ∃ a, r = .ok a ∧ p a = true := by
  cases r with
  | error failure => cases h
  | ok a => exact ⟨a, rfl, h⟩

/-- Uses within uses: among what a test for a key is given, in what it is called on and in what is done with it. -/
def nestedUses : String :=
  "import Queue, tkFileDialog\nx = d.iteritems().has_key(xrange(3), e.has_key())(unicode(4 / 2))\n"

theorem changes_perm_findings_nestedUses :
    ∃ m fs, Module.ofString nestedUses = .ok m ∧ scan nestedUses m = .ok fs ∧
      (changes m).Perm (fs.filterMap fun f => replacementFor? f.kind f.description) ∧
      (changes m).length = 6 ∧ fs.length = 8 := by
  have hcount : ((Module.ofString nestedUses).toOption.any fun m => (scan nestedUses m).toOption.any fun fs =>
      (changes m).length == 6 && fs.length == 8) = true := by decide +kernel
  obtain ⟨m, hm, hcount⟩ := exists_ok_of_any hcount
  obtain ⟨fs, hfs, hcount⟩ := exists_ok_of_any hcount
  rw [Bool.and_eq_true, beq_iff_eq, beq_iff_eq] at hcount
  exact ⟨m, fs, hm, hfs, ((changes_perm_findings nestedUses m).1 fs hfs).1, hcount⟩

def bareKeyTest? : Label → Option Span
  | .expr (.call s (.member _ _ attr) [] _) => if attr == "has_key" then some s else none
  | _ => none

/-- The tests for a key without a key, each call before its parts. -/
def bareKeyTests (m : Module) : List Span := m.outline.preorder.filterMap fun o => bareKeyTest? o.label

/-- Nothing is left to replace at a node, unless the node is a test for a key without a key. -/
def Settled (l : Label) : Prop :=
  ((sitesOf l).filter fun q => q.2.change?.isSome) = (bareKeyTest? l).toList.map fun s => (s, .use (.method .hasKey))

theorem settled_call : Settled (.expr (.call s func args keywords)) ↔
      (calleeUse? func).bind Use.change? = none ∨ calleeUse? func = some (.method .hasKey) ∧ args = [] := by
  cases func with
  | name ns id =>
    simp only [Settled, sitesOf, calleeUse?, bareKeyTest?]
    cases OldFunction.ofName? id with
    | none => simp
    | some f => cases f <;> simp [Site.change?, Use.change?, OldFunction.successor?]
  | member ms value attr =>
    simp only [Settled, sitesOf, calleeUse?]
    cases hm : OldMethod.ofName? attr with
    | none => cases args <;> simp [bareKeyTest?, OldMethod.ne_hasKey hm]
    | some m =>
      obtain rfl := OldMethod.ofName?_eq_some.1 hm
      cases m <;> cases args <;> simp [bareKeyTest?, Site.change?, Use.change?, OldMethod.name]
  | _ => simp [Settled, sitesOf, calleeUse?, bareKeyTest?]

/-- What becomes of a call: it stays and is settled, its callee gets a new name, or it becomes a comparison. -/
theorem editCall_cases (s : Span) (func : Expr) (args : List Expr) (keywords : List Keyword) :
    ((editCall s func args keywords).1 = .call s func args keywords ∧
      Settled (.expr (.call s func args keywords))) ∨
    (∃ ns id new, func = .name ns id ∧ calleeUse? (.name ns new) = none ∧
      (editCall s func args keywords).1 = .call s (.name ns new) args keywords) ∨
    (∃ ms value attr new, func = .member ms value attr ∧ calleeUse? (.member ms value new) = none ∧
      (editCall s func args keywords).1 = .call s (.member ms value new) args keywords) ∨
    ∃ ms value key rest, func = .member ms value "has_key" ∧ args = key :: rest ∧
      (editCall s func args keywords).1 = .compare .unknown key [.inside] [value] := by
  cases func with
  | name ns id =>
    simp only [editCall, newFunction?_eq]
    cases hid : OldFunction.ofName? id with
    | none => exact .inl ⟨rfl, settled_call.2 (.inl (by simp [calleeUse?, hid]))⟩
    | some f =>
      cases f with
      | execfile => exact .inl ⟨rfl, settled_call.2 (.inl (by simp [calleeUse?, hid]; rfl))⟩
      | _ => exact .inr (.inl ⟨ns, id, _, rfl, rfl, rfl⟩)
  | member ms value attr =>
    simp only [editCall, newMethod?_eq]
    cases hattr : OldMethod.ofName? attr with
    | none =>
      exact .inl ⟨by simp [OldMethod.ne_hasKey hattr], settled_call.2 (.inl (by simp [calleeUse?, hattr]))⟩
    | some m =>
      obtain rfl := OldMethod.ofName?_eq_some.1 hattr
      cases m with
      | hasKey =>
        cases args with
        | nil => exact .inl ⟨rfl, settled_call.2 (.inr ⟨by simp [calleeUse?, hattr], rfl⟩)⟩
        | cons key rest => exact .inr (.inr (.inr ⟨ms, value, key, rest, rfl, rfl, rfl⟩))
      | _ => exact .inr (.inr (.inl ⟨ms, value, _, _, rfl, rfl, rfl⟩))
  | _ => exact .inl ⟨rfl, settled_call.2 (.inl rfl)⟩

/-- What takes the place of a call has a property at all its nodes if the parts of the call have it, and the nodes put
there have it. -/
theorem all_editCall {P : Label → Prop} (hfunc : func.outline.All P) (hargs : Outline.Alls P (exprOutlines args))
    (hkeywords : Outline.Alls P (keywordOutlines keywords))
    (hcall : ∀ func', Settled (.expr (.call s func' args keywords)) → P (.expr (.call s func' args keywords)))
    (hname : ∀ ns id new, P (.expr (.name ns id)) → P (.expr (.name ns new)))
    (hmember : ∀ ms value attr new, P (.expr (.member ms value attr)) → P (.expr (.member ms value new)))
    (hcompare : ∀ key value, P (.expr (.compare .unknown key [.inside] [value]))) :
    (editCall s func args keywords).1.outline.All P := by
  have hall (func' : Expr) (hfunc' : func'.outline.All P) (hsettled : Settled (.expr (.call s func' args keywords))) :
      (Expr.call s func' args keywords).outline.All P := by
    rw [Expr.outline, Outline.all_node]
    simp [hcall func' hsettled, hfunc', hargs, hkeywords]
  rcases editCall_cases s func args keywords with ⟨h, hsettled⟩ | ⟨ns, id, new, rfl, huse, h⟩ |
    ⟨ms, value, attr, new, rfl, huse, h⟩ | ⟨ms, value, key, rest, rfl, rfl, h⟩
  · rw [h]
    exact hall func hfunc hsettled
  · rw [h]
    rw [Expr.outline, Outline.all_node] at hfunc
    refine hall _ ?_ (settled_call.2 (.inl (by rw [huse]; rfl)))
    rw [Expr.outline, Outline.all_node]
    exact ⟨hname ns id new hfunc.1, hfunc.2⟩
  · rw [h]
    rw [Expr.outline, Outline.all_node] at hfunc
    refine hall _ ?_ (settled_call.2 (.inl (by rw [huse]; rfl)))
    rw [Expr.outline, Outline.all_node]
    exact ⟨hmember ms value attr new hfunc.1, hfunc.2⟩
  · rw [h]
    rw [Expr.outline, Outline.all_node] at hfunc
    have hkey : key.outline.All P := (Outline.alls_cons.1 hargs).1
    rw [Expr.outline, Outline.all_node]
    exact ⟨hcompare key value, Outline.alls_cons.2 ⟨hkey, hfunc.2⟩⟩

theorem renamedModule?_editAlias (a : Alias) : renamedModule? (editAlias a).name = none := by
  rw [editAlias]
  split
  case h_1 new h =>
    unfold renamedModule? at h
    split at h <;> cases h <;> rfl
  case h_2 h => exact h

theorem settled_of_unchanged (hl : bareKeyTest? l = none) (h : ∀ q ∈ sitesOf l, q.2.change? = none) : Settled l := by
  rw [Settled, hl, Option.toList, List.map_nil, List.filter_eq_nil_iff]
  intro q hq
  rw [h q hq]
  exact Bool.false_ne_true

theorem settled_importModules (h : ∀ a ∈ names, renamedModule? a.name = none) :
    Settled (.stmt (.importModules s names)) := by
  apply settled_of_unchanged rfl
  intro q hq
  obtain ⟨a, ha, hqa⟩ := List.mem_filterMap.1 hq
  obtain ⟨new, hnew, rfl⟩ := Option.map_eq_some_iff.1 hqa
  have hchange := bind_reportedModule? a.name
  rw [h a ha, hnew] at hchange
  exact hchange

theorem settled_importFrom {source : Option String} {level : Nat} (h : source.bind renamedSource? = none) :
    Settled (.stmt (.importFrom s source names level)) := by
  cases source with
  | none => rfl
  | some name =>
    apply settled_of_unchanged rfl
    intro q hq
    rw [sitesOf, ← renamedSource?_eq, show renamedSource? name = none from h] at hq
    cases hq

theorem settled_editImportFrom (s : Span) (source : Option String) (names : List Alias) (level : Nat) :
    ∀ t ∈ (editImportFrom s source names level).1, t.outline.All Settled := by
  rw [editImportFrom]
  split
  case h_1 name new h =>
    rintro t ⟨⟩
    obtain ⟨old, -, hold⟩ := Option.bind_eq_some_iff.1 h
    obtain ⟨new', hnew, heq⟩ := Option.map_eq_some_iff.1 hold
    cases heq
    have hnew' : renamedSource? new = none := by
      unfold renamedSource? at hnew
      split at hnew <;> cases hnew <;> rfl
    rw [Stmt.outline, Outline.all_node]
    exact ⟨settled_importFrom hnew', Outline.alls_nil⟩
  case h_2 h =>
    rintro t ⟨⟩
    have hsource : source.bind renamedSource? = none := by
      cases source with
      | none => rfl
      | some name => exact Option.map_eq_none_iff.1 h
    rw [Stmt.outline, Outline.all_node]
    exact ⟨settled_importFrom hsource, Outline.alls_nil⟩

theorem pass_turns_settled : pass.Turns (fun _ => True) Settled where
  inner _ := rfl
  handler _ name _ := by cases name <;> rfl
  expr e he _ := by
    cases e with
    | call => cases he
    | binary s op left right =>
      refine settled_of_unchanged rfl fun q hq => ?_
      rw [Expr.edit] at hq
      cases op <;> try cases hq
      rw [sitesOf] at hq
      split at hq
      · cases List.mem_singleton.1 hq
        rfl
      · cases hq
    | _ => rfl
  stmt s s' hs _ h := by
    cases s with
    | assign | importModules | importFrom => cases hs
    | _ =>
      cases h
      rfl
  call _ _ _ _ _ hfunc hargs hkeywords :=
    all_editCall hfunc hargs hkeywords (fun _ h => h) (fun _ _ _ _ => rfl) (fun _ _ _ _ _ => rfl) fun _ _ => rfl
  assign s targets value _ htargets hvalue := by
    simp only [pass, Stmt.outline, Outline.all_node, Outline.alls_append, Outline.alls_cons]
    exact ⟨rfl, htargets, hvalue, Outline.alls_nil⟩
  importModules s names _ := by
    simp only [pass, editImport, Stmt.outline, Outline.all_node]
    refine ⟨settled_importModules fun a ha => ?_, Outline.alls_nil⟩
    obtain ⟨b, -, rfl⟩ := List.mem_map.1 ha
    exact renamedModule?_editAlias b
  importFrom s source names level _ := settled_editImportFrom s source names level
  decorator _ h := h

theorem all_settled_edit (m : Module) : (edit m).outline.All Settled :=
  Module.all_edit pass_turns_settled fun _ _ => trivial

theorem filterMap_change? (ps : List (Span × Site)) : (ps.filterMap fun q => q.2.change?) =
      (ps.filter fun q => q.2.change?.isSome).filterMap fun q => q.2.change? := by
  rw [List.filterMap_filter]
  apply List.filterMap_congr
  intro q _
  cases q.2.change? <;> rfl

theorem Settled.keeps (h : Settled l) : pass.Keeps l := by
  have hnotes : pass.notesAt l = (bareKeyTest? l).toList.map fun _ => .keyTest := by
    rw [pass_notesAt, filterMap_change?, h]
    cases bareKeyTest? l <;> rfl
  cases l with
  | expr e =>
    cases e with
    | call s func args keywords =>
      rw [settled_call] at h
      simp only [Pass.Keeps, pass]
      cases func with
      | name ns id =>
        simp only [editCall, newFunction?_eq]
        simp only [calleeUse?] at h
        cases hid : OldFunction.ofName? id with
        | none => rfl
        | some f => cases f <;> simp [hid, Use.change?, OldFunction.successor?] at h ⊢
      | member ms value attr =>
        simp only [editCall, newMethod?_eq]
        simp only [calleeUse?] at h
        cases hattr : OldMethod.ofName? attr with
        | none => simp [OldMethod.ne_hasKey hattr]
        | some m =>
          obtain rfl := OldMethod.ofName?_eq_some.1 hattr
          cases m <;> simp [hattr, Use.change?] at h
          rw [h]
          rfl
      | _ => rfl
    | _ => trivial
  | stmt s =>
    cases s with
    | importModules s names =>
      have hnone : ∀ a ∈ names, renamedModule? a.name = none := fun a ha => by
        simpa using List.filterMap_eq_nil_iff.1 hnotes a ha
      have hsame : names.map editAlias = names := by
        rw [List.map_congr_left fun a ha => show editAlias a = id a by rw [editAlias, hnone a ha]; rfl, List.map_id]
      simp only [Pass.Keeps, pass, editImport, hsame]
    | importFrom s source names level =>
      simp only [Pass.Keeps, pass, editImportFrom]
      split
      case h_1 hsource =>
        simp only [Pass.notesAt, pass, editImportFrom, hsource] at hnotes
        cases hnotes
      case h_2 => rfl
    | functionDef => exact replaceDecorators_eq pass_sparesDecorators ..
    | _ => trivial
  | _ => trivial

theorem edit_edit (m : Module) : edit (edit m) = edit m :=
  Module.edit_of_keeps fun o ho => (all_settled_edit m o ho).keeps

/-- The sites of an edited tree for which there is a replacement are the tests for a key without a key. -/
theorem sites_edit_filter (m : Module) : ((sites (edit m)).filter fun q => q.2.change?.isSome) =
      (bareKeyTests (edit m)).map fun s => (s, .use (.method .hasKey)) := by
  rw [sites, bareKeyTests, List.filter_flatMap, List.filterMap_eq_flatMap_toList, List.map_flatMap]
  exact List.flatMap_congr fun o ho => all_settled_edit m o ho

theorem changes_edit (m : Module) :
    changes (edit m) = List.replicate (bareKeyTests (edit m)).length .keyTest := by
  have hperm : (changes (edit m)).Perm ((bareKeyTests (edit m)).map fun _ => .keyTest) := by
    refine (changes_perm_sites (edit m)).trans (.of_eq ?_)
    rw [filterMap_change?, sites_edit_filter, List.filterMap_map, ← List.filterMap_eq_map]
    rfl
  rw [List.map_const'] at hperm
  exact List.perm_replicate.1 hperm

/-- A use in an edited tree is of a kind that no edit replaces, or it is a test for a key without a key. -/
theorem unfixed_or_hasKey {q : Span × Use} (hq : q ∈ usesAt lines (sites (edit m))) :
    IsUnfixed q.2.kind q.2.description ∨ q.2 = .method .hasKey := by
  rw [← (listed_of_mem_usesAt q hq).replacementFor?.2]
  rcases of_mem_usesAt hq with hsite | hcomma
  · cases hchange : q.2.change? with
    | none => exact .inl rfl
    | some c =>
      right
      have hmem : (q.1, Site.use q.2) ∈ (sites (edit m)).filter fun p => p.2.change?.isSome :=
        List.mem_filter.2 ⟨hsite, by simp [Site.change?, hchange]⟩
      rw [sites_edit_filter] at hmem
      obtain ⟨s, -, hs⟩ := List.mem_map.1 hmem
      cases q
      cases hs
      rfl
  · left
    rw [hcomma]
    rfl

theorem Use.Listed.kind_eq_hasKey (h : u.Listed) : u.kind = "has_key_usage" ↔ u = .method .hasKey := by
  have hall : ∀ v ∈ Use.all, v.kind = "has_key_usage" ↔ v = .method .hasKey := by decide +kernel
  exact hall u h.mem_all

def keyTestPlace? (p : Span × Site) : Option Location :=
  if p.2 = .use (.method .hasKey) then some (.ofSpan p.1) else none

theorem map_place_hasKey {source : String} (h : scan source m = .ok fs) :
    (fs.filter fun f => f.kind == "has_key_usage").map Finding.place = (sites m).filterMap keyTestPlace? := by
  have huses : (fs.filter fun f => f.kind == "has_key_usage").map Finding.place =
      (usesAt (Text.lines source) (sites m)).filterMap fun q => keyTestPlace? (q.1, .use q.2) := by
    rw [← List.filterMap_eq_map, List.filterMap_filter]
    refine filterMap_reports (forall₂_reports h) fun q hq f hf => ?_
    have hkind := (listed_of_mem_usesAt q hq).kind_eq_hasKey
    by_cases hu : q.2 = .method .hasKey
    · have hkey : f.kind = "has_key_usage" := hf.kind.trans (hkind.2 hu)
      simp [keyTestPlace?, hkey, hf.place, hu]
    · simp [keyTestPlace?, hf.kind, mt hkind.1 hu, hu]
  rw [huses, usesAt, List.filterMap_filterMap]
  apply List.filterMap_congr
  rintro ⟨s, site⟩ -
  cases site with
  | use u => rfl
  | namedHandler =>
    rw [resolve]
    split
    · rfl
    · split <;> rfl

theorem filterMap_keyTestPlace? (m : Module) :
    (sites (edit m)).filterMap keyTestPlace? = (bareKeyTests (edit m)).map Location.ofSpan := by
  have hsome : (sites (edit m)).filterMap keyTestPlace? =
      ((sites (edit m)).filter fun q => q.2.change?.isSome).filterMap keyTestPlace? := by
    rw [List.filterMap_filter]
    apply List.filterMap_congr
    intro q _
    by_cases hq : q.2 = .use (.method .hasKey)
    · simp [hq, Site.change?, Use.change?]
    · simp [keyTestPlace?, hq]
  rw [hsome, sites_edit_filter, List.filterMap_map, ← List.filterMap_eq_map]
  rfl

theorem pass_turns_within (hn : 1 ≤ n) :
    pass.Turns (fun l => ∀ s ∈ l.span?, s.Within n) (fun l => ∀ s ∈ l.span?, s.Within n) where
  inner h := h
  handler _ _ h := h
  expr e he h := by
    cases e with
    | call => cases he
    | _ => exact h
  stmt s s' hs h hedit := by
    cases s with
    | assign | importModules | importFrom => cases hs
    | _ =>
      cases hedit
      exact h
  call _ _ _ _ h hfunc hargs hkeywords :=
    all_editCall hfunc hargs hkeywords (fun _ _ => h) (fun _ _ _ h => h) (fun _ _ _ _ h => h)
      fun _ _ _ hs => by
        cases hs
        exact ⟨Nat.le_refl 1, Nat.le_refl 1, hn⟩
  assign s targets value h htargets hvalue := by
    simp only [pass, Stmt.outline, Outline.all_node, Outline.alls_append, Outline.alls_cons]
    exact ⟨h, htargets, hvalue, Outline.alls_nil⟩
  importModules s names h := Outline.all_node.2 ⟨h, Outline.alls_nil⟩
  importFrom s source names level h := by
    simp only [pass, editImportFrom]
    split
    all_goals
      rintro t ⟨⟩
      exact Outline.all_node.2 ⟨h, Outline.alls_nil⟩
  decorator _ h := h

theorem within_edit (hn : 1 ≤ n) (h : m.outline.Within n) : (edit m).outline.Within n :=
  Module.all_edit (pass_turns_within hn) h

/-- One edit brings a tree into a form that a second edit keeps. All that the second edit notes are the tests for a key
without a key, one note for each. And a scan of the edited tree, with whatever text, finds nothing for which there is
a replacement but those tests, each of them once and in its place; it comes to an end if the text has all lines in
which nodes of the first tree stand. -/
theorem edit_reaches_normal_form (m : Module) :
    edit (edit m) = edit m ∧
    (changes (edit m)).map Change.text =
      List.replicate (bareKeyTests (edit m)).length ".has_key(k) -> k in dict" ∧
    ∀ source,
      (∀ fs, scan source (edit m) = .ok fs →
        (∀ f ∈ fs, IsUnfixed f.kind f.description ∨ f.kind = "has_key_usage") ∧
        (fs.filter fun f => f.kind == "has_key_usage").map Finding.place =
          (bareKeyTests (edit m)).map Location.ofSpan) ∧
      (m.outline.Within (Text.lines source).length → ∃ fs, scan source (edit m) = .ok fs) := by
  refine ⟨edit_edit m, ?_, fun source => ⟨fun fs hfs => ⟨fun f hf => ?_, ?_⟩, fun hm => ?_⟩⟩
  · rw [changes_edit, List.map_replicate]
    rfl
  · obtain ⟨q, hq, hqf⟩ := exists_reports_of_mem (forall₂_reports hfs) hf
    rw [hqf.kind, hqf.description]
    rcases unfixed_or_hasKey hq with hunfixed | hkey
    · exact .inl hunfixed
    · rw [hkey]
      exact .inr rfl
  · rw [map_place_hasKey hfs, filterMap_keyTestPlace?]
  · have hlines : 1 ≤ (Text.lines source).length := by
      rw [Text.length_lines]
      exact Nat.le_add_left 1 _
    obtain ⟨fs, hfs, -⟩ := @exists_report (.ofString source) _ (sites_within (within_edit hlines hm)) 0
    exact ⟨fs, hfs⟩

/-- A test for a key in what another one drops is gone after one edit; the one that says no key stays. -/
theorem edit_reaches_normal_form_bareKeys :
    ∃ m, Module.ofString "y = d.has_key(xrange(3), e.has_key()) + f.has_key()\n" = .ok m ∧
      (bareKeyTests m).length = 2 ∧ (bareKeyTests (edit m)).length = 1 ∧ edit (edit m) = edit m ∧
      (changes (edit m)).map Change.text = [".has_key(k) -> k in dict"] := by
  have hcount : ((Module.ofString "y = d.has_key(xrange(3), e.has_key()) + f.has_key()\n").toOption.any fun m =>
      (bareKeyTests m).length == 2 && (bareKeyTests (edit m)).length == 1) = true := by decide +kernel
  obtain ⟨m, hm, hcount⟩ := exists_ok_of_any hcount
  rw [Bool.and_eq_true, beq_iff_eq, beq_iff_eq] at hcount
  obtain ⟨hsame, hnotes, -⟩ := edit_reaches_normal_form m
  rw [hcount.2] at hnotes
  exact ⟨m, hm, hcount.1, hcount.2, hsame, hnotes⟩

end CodeMigration.Legacy
