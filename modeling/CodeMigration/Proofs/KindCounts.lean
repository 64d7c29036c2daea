import CodeMigration.Flask.Guide
import CodeMigration.Legacy.Guide
import CodeMigration.Program
import CodeMigration.Proofs.Deeds
import CodeMigration.Proofs.Patches
import Mathlib.Algebra.BigOperators.Group.List.Lemmas
import Mathlib.Algebra.GroupWithZero.Nat

/-! # Reports that count findings

Four reports count findings by their kinds: two summaries by a counter, the console by groups, and a pull request by
a counter and a second pass over the findings. All come to the same counts. They are seen through one list, the names
in the order in which they come first. -/

namespace CodeMigration

def addName (seen : List String) (name : String) : List String := if name ∈ seen then seen else seen ++ [name]

def firstNames (names : List String) : List String := names.foldl addName []

theorem firstNames_append_singleton (names : List String) (name : String) :
    firstNames (names ++ [name]) = addName (firstNames names) name := by
  rw [firstNames, List.foldl_append]
  rfl

variable {x : String} {names kinds : List String} {rows : List (String × Nat)} {m : Migration}

theorem mem_addName {seen : List String} {name : String} : x ∈ addName seen name ↔ x ∈ seen ∨ x = name := by
  rw [addName]
  split
  case isTrue hin => exact ⟨.inl, fun h => h.elim id fun heq => heq ▸ hin⟩
  case isFalse => rw [List.mem_append, List.mem_singleton]

theorem mem_firstNames : x ∈ firstNames names ↔ x ∈ names := by
  induction names using List.reverseRecOn with
  | nil => rfl
  | append_singleton names name ih =>
    rw [firstNames_append_singleton, mem_addName, ih, List.mem_append, List.mem_singleton]

theorem pairwise_firstNames (names : List String) :
    (firstNames names).Pairwise fun a b => names.idxOf a < names.idxOf b := by
  induction names using List.reverseRecOn with
  | nil => exact List.Pairwise.nil
  | append_singleton names name ih =>
    have hold : (firstNames names).Pairwise fun a b => (names ++ [name]).idxOf a < (names ++ [name]).idxOf b := by
      refine ih.imp_of_mem fun ha hb h => ?_
      rwa [List.idxOf_append_of_mem (mem_firstNames.1 ha), List.idxOf_append_of_mem (mem_firstNames.1 hb)]
    rw [firstNames_append_singleton, addName]
    split
    case isTrue => exact hold
    case isFalse hnew =>
      refine List.pairwise_append.2 ⟨hold, List.pairwise_singleton _ _, fun a ha b hb => ?_⟩
      obtain rfl := List.mem_singleton.1 hb
      have hin := mem_firstNames.1 ha
      rw [List.idxOf_append_of_mem hin, List.idxOf_append_of_notMem (mt mem_firstNames.2 hnew)]
      exact Nat.lt_add_right _ (List.idxOf_lt_length_of_mem hin)

theorem nodup_firstNames (names : List String) : (firstNames names).Nodup := by
  refine (pairwise_firstNames names).imp ?_
  rintro a b h rfl
  exact Nat.lt_irrefl _ h

theorem sum_count_firstNames (names : List String) : ((firstNames names).map (names.count ·)).sum = names.length := by
  have hperm : (firstNames names).Perm names.dedup := by
    rw [List.perm_ext_iff_of_nodup (nodup_firstNames names) (List.nodup_dedup names)]
    exact fun x => mem_firstNames.trans List.mem_dedup.symm
  rw [(hperm.map _).sum_eq, List.sum_map_count_dedup_eq_length]

section
variable {α : Type}

theorem countOne_lengths (key : String) (item : α) (groups : List (String × List α)) :
    countOne key (groups.map fun g => (g.1, g.2.length)) = (addTo key item groups).map fun g => (g.1, g.2.length) := by
  induction groups with
  | nil => rfl
  | cons group groups ih =>
    rw [List.map_cons, countOne, addTo]
    split <;> simp [ih]

theorem tally_eq_lengths (key : α → String) (items : List α) :
    tally (items.map key) = (groupBy key items).map fun g => (g.1, g.2.length) := by
  induction items using List.reverseRecOn with
  | nil => rfl
  | append_singleton items x ih =>
    have hstep : tally ((items ++ [x]).map key) = countOne (key x) (tally (items.map key)) := by
      rw [List.map_append, tally, List.foldl_append]
      rfl
    rw [hstep, ih, countOne_lengths (key x) x, groupBy_append_singleton]

theorem addTo_map (key : String) (item : α) (items : String → List α) (seen : List String) (hseen : seen.Nodup)
    (hnone : key ∉ seen → items key = []) :
    addTo key item (seen.map fun x => (x, items x)) =
      (addName seen key).map fun x => (x, if x = key then items x ++ [item] else items x) := by
  induction seen with
  | nil => simp [addTo, addName, hnone]
  | cons x seen ih =>
    obtain ⟨hx, hseen⟩ := List.nodup_cons.1 hseen
    rw [List.map_cons, addTo, addName]
    by_cases heq : x = key
    · subst heq
      have hrest : ∀ y ∈ seen, y ≠ x := fun y hy heq => hx (heq ▸ hy)
      rw [if_pos (beq_self_eq_true x), if_pos List.mem_cons_self, List.map_cons, if_pos rfl]
      congr 1
      exact List.map_congr_left fun y hy => by rw [if_neg (hrest y hy)]
    · have hmem : key ∈ x :: seen ↔ key ∈ seen := by simp [Ne.symm heq]
      rw [if_neg (mt beq_iff_eq.1 heq), ih hseen fun hnot => hnone (mt hmem.1 hnot), addName]
      simp only [hmem]
      split <;> simp [heq]

/-- Groups stand in the order in which their keys come first, and hold the items with their keys. -/
theorem groupBy_eq (key : α → String) (items : List α) :
    groupBy key items = (firstNames (items.map key)).map fun x => (x, items.filter (key · == x)) := by
  induction items using List.reverseRecOn with
  | nil => rfl
  | append_singleton items y ih =>
    have hnone : key y ∉ firstNames (items.map key) → items.filter (key · == key y) = [] := by
      simp only [mem_firstNames, List.mem_map, not_exists, not_and, List.filter_eq_nil_iff, beq_iff_eq]
      exact id
    rw [groupBy_append_singleton, ih, addTo_map _ _ _ _ (nodup_firstNames _) hnone, List.map_append, List.map_singleton,
      firstNames_append_singleton]
    refine List.map_congr_left fun x _ => ?_
    rw [List.filter_append]
    by_cases heq : x = key y
    · simp [heq]
    · simp [heq, Ne.symm heq]

end

theorem tally_eq (names : List String) : tally names = (firstNames names).map fun x => (x, names.count x) := by
  have hlengths := tally_eq_lengths id names
  rw [List.map_id, groupBy_eq, List.map_id, List.map_map] at hlengths
  rw [hlengths]
  refine List.map_congr_left fun x _ => ?_
  simp [List.count_eq_length_filter]

namespace PullRequest

/-- The second pass comes to the kinds that were not seen before, in the order in which they come first. -/
theorem foldl_addName_kinds (seen seen' : List String) (hseen : ∀ x, x ∈ seen ↔ x ∈ seen') (fs : List Finding) :
    (fs.map Finding.kind).foldl addName seen' = seen' ++ (newKinds seen fs).map Finding.kind := by
  induction fs generalizing seen seen' with
  | nil => simp [newKinds]
  | cons f fs ih =>
    rw [List.map_cons, List.foldl_cons, newKinds, addName]
    by_cases hin : f.kind ∈ seen
    · rw [if_pos ((hseen _).1 hin), if_pos (List.contains_iff_mem.2 hin), ih seen seen' hseen]
    · have hmore : ∀ x, x ∈ f.kind :: seen ↔ x ∈ seen' ++ [f.kind] := by
        intro x
        rw [List.mem_cons, List.mem_append, List.mem_singleton, hseen, or_comm]
      rw [if_neg (mt (hseen _).2 hin), if_neg (mt List.contains_iff_mem.1 hin), ih _ _ hmore, List.map_cons,
        List.append_assoc, List.singleton_append]

theorem map_kind_newKinds (fs : List Finding) :
    (newKinds [] fs).map Finding.kind = firstNames (fs.map Finding.kind) := by
  rw [firstNames, foldl_addName_kinds [] [] (fun _ => Iff.rfl), List.nil_append]

theorem find?_of_mem_newKinds {seen : List String} {fs : List Finding} {f : Finding} (h : f ∈ newKinds seen fs) :
    f.kind ∉ seen ∧ fs.find? (·.kind == f.kind) = some f := by
  induction fs generalizing seen with
  | nil => cases h
  | cons g fs ih =>
    rw [newKinds] at h
    split at h
    case isTrue hin =>
      obtain ⟨hnew, hfind⟩ := ih h
      have hne : (g.kind == f.kind) = false :=
        beq_eq_false_iff_ne.2 fun heq => hnew (heq ▸ List.contains_iff_mem.1 hin)
      exact ⟨hnew, by rwa [List.find?_cons, hne]⟩
    case isFalse hnot =>
      rcases List.mem_cons.1 h with rfl | hrest
      · exact ⟨mt List.contains_iff_mem.2 hnot, List.find?_cons_of_pos (beq_self_eq_true _)⟩
      · obtain ⟨hnew, hfind⟩ := ih hrest
        have hne : (g.kind == f.kind) = false := beq_eq_false_iff_ne.2 fun heq => hnew (heq ▸ List.mem_cons_self)
        exact ⟨fun hin => hnew (List.mem_cons_of_mem _ hin), by rwa [List.find?_cons, hne]⟩

end PullRequest

/-- Each name that occurs stands there once, with its number. -/
structure IsTally (names : List String) (rows : List (String × Nat)) : Prop where
  once : (rows.map Prod.fst).Nodup
  occurring : ∀ name, name ∈ rows.map Prod.fst ↔ name ∈ names
  count : ∀ row ∈ rows, row.2 = names.count row.1
  total : (rows.map Prod.snd).sum = names.length

theorem isTally_tally (names : List String) : IsTally names (tally names) := by
  rw [tally_eq]
  refine ⟨?_, ?_, ?_, ?_⟩
  · rw [List.map_map]
    exact (List.map_id _).symm ▸ nodup_firstNames names
  · intro name
    rw [List.map_map]
    exact (List.map_id (firstNames names)).symm ▸ mem_firstNames
  · intro row hrow
    obtain ⟨x, -, rfl⟩ := List.mem_map.1 hrow
    rfl
  · rw [List.map_map]
    exact sum_count_firstNames names

theorem IsTally.perm {rows' : List (String × Nat)} (h : IsTally names rows) (hperm : rows'.Perm rows) :
    IsTally names rows' where
  once := ((hperm.map _).nodup_iff).2 h.once
  occurring name := ((hperm.map _).mem_iff).trans (h.occurring name)
  count row hrow := h.count row (hperm.mem_iff.1 hrow)
  total := ((hperm.map _).sum_eq).trans h.total

/-- The order in which names come first. -/
def InOrder (names : List String) (rows : List (String × Nat)) : Prop :=
  rows.Pairwise fun a b => names.idxOf a.1 < names.idxOf b.1

/-- The most frequent first, and equally frequent ones in the order in which they come first. -/
def ByFrequency (names : List String) (rows : List (String × Nat)) : Prop :=
  rows.Pairwise fun a b => b.2 < a.2 ∨ b.2 = a.2 ∧ names.idxOf a.1 < names.idxOf b.1

theorem inOrder_tally (names : List String) : InOrder names (tally names) := by
  rw [tally_eq, InOrder, List.pairwise_map]
  exact pairwise_firstNames names

theorem byCount_perm (rows : List (String × Nat)) : (byCount rows).Perm rows := List.mergeSort_perm _ _

theorem pairwise_byCount (rows : List (String × Nat)) : (byCount rows).Pairwise fun a b => b.2 ≤ a.2 :=
  (List.pairwise_mergeSort (by grind) (by grind) rows).imp of_decide_eq_true

theorem filter_byCount (rows : List (String × Nat)) (n : Nat) :
    (byCount rows).filter (·.2 == n) = rows.filter (·.2 == n) := by
  have hle : (rows.filter (·.2 == n)).Pairwise fun a b => decide (b.2 ≤ a.2) = true := by
    refine List.pairwise_of_forall_mem_list fun a ha b hb => decide_eq_true ?_
    rw [beq_iff_eq.1 (List.mem_filter.1 ha).2, beq_iff_eq.1 (List.mem_filter.1 hb).2]
  have hsub : (rows.filter (·.2 == n)).Sublist (byCount rows) :=
    List.sublist_mergeSort (by grind) (by grind) hle List.filter_sublist
  refine (List.Sublist.eq_of_length ?_ (((byCount_perm rows).filter _).length_eq).symm).symm
  have hkept := hsub.filter (·.2 == n)
  rwa [List.filter_filter, List.filter_congr fun _ _ => Bool.and_self _] at hkept

theorem byFrequency_byCount (h : InOrder names rows) : ByFrequency names (byCount rows) := by
  have hstable : (byCount rows).Pairwise fun a b => b.2 = a.2 → names.idxOf a.1 < names.idxOf b.1 := by
    rw [List.pairwise_iff_forall_sublist]
    intro a b hab heq
    have hkept := hab.filter (·.2 == a.2)
    rw [filter_byCount] at hkept
    have hpair : [a, b].Sublist rows := by
      refine List.Sublist.trans ?_ (hkept.trans List.filter_sublist)
      simp [heq]
    exact List.pairwise_iff_forall_sublist.1 h hpair
  refine ((pairwise_byCount rows).and hstable).imp ?_
  rintro a b ⟨hle, hfirst⟩
  exact (Nat.lt_or_eq_of_le hle).imp_right fun heq => ⟨heq, hfirst heq⟩

def Lists (mark : String) (rows : List String) (text : String) : Prop :=
  ∃ front back, text = Text.unlines (front ++ rows ++ back) ∧
    ∀ line ∈ front ++ back, mark.toList.isPrefixOf line.toList = false

def summaryLine (row : String × Nat) : String := "  - " ++ row.1 ++ ": " ++ toString row.2 ++ " occurrences"

def findingLine (row : String × Nat × String) : String :=
  "| `" ++ row.1 ++ "` | " ++ toString row.2.1 ++ " | " ++ PullRequest.severityMark row.2.2 ++ " " ++ row.2.2 ++ " |"

theorem Legacy.lists_summary (h : kinds ≠ []) :
    Lists "  - " ((byCount (tally kinds)).map summaryLine) (summary kinds) := by
  refine ⟨["Found " ++ toString kinds.length ++ " Python 2 patterns that need migration:\n"],
    ["\nRecommended actions:"] ++ (if kinds.contains "print_statement" then
      ["  1. Add 'from __future__ import print_function' for compatibility"] else []) ++
    ["  2. Run automated transformation", "  3. Review and test all changes"], ?_, ?_⟩
  · rw [summary, if_neg (mt List.isEmpty_iff.1 h), List.append_assoc _ _ ["  2. Run automated transformation", _],
      List.append_assoc _ ["\nRecommended actions:"]]
    rfl
  · split <;> simp [List.isPrefixOf]

theorem Flask.lists_summary (h : kinds ≠ []) :
    Lists "  - " ((byCount (tally kinds)).map summaryLine) (summary kinds) := by
  refine ⟨["Found " ++ toString kinds.length ++ " Flask patterns that need migration:\n"],
    ["\nKey migration steps:",
     "  1. Install FastAPI: pip install fastapi uvicorn",
     "  2. Create Pydantic models for data validation",
     "  3. Run automated transformation",
     "  4. Review async/await opportunities",
     "  5. Update tests to use FastAPI TestClient"], ?_, ?_⟩
  · rw [summary, if_neg (mt List.isEmpty_iff.1 h)]
    rfl
  · simp [List.isPrefixOf]

theorem Program.take_rows_kindTable (fs : List Finding) :
    (kindTable fs).rows.map (·.take 2) =
      (byCount (tally (fs.map Finding.kind))).map fun row => [row.1, toString row.2] := by
  have hsort : ((groupBy Finding.kind fs).mergeSort fun a b => decide (b.2.length ≤ a.2.length)).map
      (fun g => (g.1, g.2.length)) = byCount ((groupBy Finding.kind fs).map fun g => (g.1, g.2.length)) :=
    List.map_mergeSort fun _ _ _ _ => rfl
  rw [tally_eq_lengths, ← hsort, List.map_map, kindTable, List.map_map]
  rfl

def Event.table? : Event → Option Table
  | .tabled t => some t
  | _ => none

theorem exists_log_onDisk_record (path : String) (f : Disk → Except FileFault Disk) (e : Event) (o : Outside) (w : World) :
    ∃ more, ((do Act.onDisk path f; Act.record e).runIn o w).2.log = w.log ++ more ∧ (more = [] ∨ more = [e]) := by
  cases h : f w.disk with
  | error fault => exact ⟨[], by rw [Act.runIn_bind_error (Act.runIn_onDisk_error h), List.append_nil], .inl rfl⟩
  | ok disk => exact ⟨[e], by rw [Act.runIn_bind_ok (Act.runIn_onDisk_ok h), Act.runIn_record], .inr rfl⟩

theorem Program.exists_log_showAnalysis (h : m.findings ≠ []) (output : String) (o : Outside) (w : World) :
    ∃ shown, ((showAnalysis m output).runIn o w).2.log = w.log ++ shown ∧
      shown.filterMap Event.table? = [kindTable m.findings] := by
  have hsome : m.findings.isEmpty = false := List.isEmpty_eq_false_iff.2 h
  simp only [showAnalysis, printMarked, Act.runIn_bind_ok (Act.runIn_record _ _ _), hsome, Bool.false_eq_true, if_false]
  by_cases hempty : output.isEmpty = true
  · rw [hempty, if_neg (by simp), Act.runIn_pure]
    simp only [List.append_assoc]
    exact ⟨_, rfl, rfl⟩
  · rw [if_pos (by simpa using hempty)]
    obtain ⟨more, hmore, hprinted⟩ := exists_log_onDisk_record output _ (.printed _) o _
    rw [hmore]
    simp only [List.append_assoc]
    refine ⟨_, rfl, ?_⟩
    rcases hprinted with rfl | rfl <;> rfl

/-- The rows of a pull request hold the counts in the order in which the kinds come first. -/
theorem PullRequest.map_kindRows (fs : List Finding) :
    (kindRows fs).map (fun row => (row.1, row.2.1)) = tally (fs.map Finding.kind) := by
  have hcount : ∀ f ∈ newKinds [] fs,
      (tally (fs.map Finding.kind)).lookup f.kind = some ((fs.map Finding.kind).count f.kind) := by
    intro f hf
    refine lookup_of_mem (isTally_tally _).once (e := (f.kind, _)) ?_
    rw [tally_eq, ← map_kind_newKinds]
    exact List.mem_map.2 ⟨f.kind, List.mem_map_of_mem hf, rfl⟩
  rw [kindRows, List.map_map]
  conv_rhs => rw [tally_eq, ← map_kind_newKinds, List.map_map]
  refine List.map_congr_left fun f hf => ?_
  simp [hcount f hf]

theorem PullRequest.find?_of_mem_kindRows {fs : List Finding} {row : String × Nat × String} (h : row ∈ kindRows fs) :
    (fs.find? (·.kind == row.1)).map Finding.severity = some row.2.2 := by
  obtain ⟨f, hf, rfl⟩ := List.mem_map.1 h
  rw [(find?_of_mem_newKinds hf).2]
  rfl

theorem PullRequest.lists_findings (h : m.findings ≠ []) :
    Lists "| `" ((kindRows m.findings).map findingLine) (findings m) := by
  refine ⟨["### Patterns Identified\n", "| Pattern Type | Count | Severity |", "|-------------|-------|----------|"], [],
    ?_, ?_⟩
  · rw [findings, if_neg (mt List.isEmpty_iff.1 h), List.append_nil]
    rfl
  · simp [List.isPrefixOf]

/-- The reports on a migration show these rows. -/
structure CountedAlike (m : Migration) (rows : List (String × Nat)) (marked : List (String × Nat × String)) : Prop where
  counts : IsTally (m.findings.map Finding.kind) rows
  order : ByFrequency (m.findings.map Finding.kind) rows
  legacy : Lists "  - " (rows.map summaryLine) (Legacy.summary (m.findings.map Finding.kind))
  flask : Lists "  - " (rows.map summaryLine) (Flask.summary (m.findings.map Finding.kind))
  /-- One table is shown, whether a report is written or not and whether that succeeds. -/
  table : ∀ output o w, ∃ shown table, ((Program.showAnalysis m output).runIn o w).2.log = w.log ++ shown ∧
    shown.filterMap Event.table? = [table] ∧ table.rows.map (·.take 2) = rows.map fun row => [row.1, toString row.2]
  pullRequest : Lists "| `" (marked.map findingLine) (PullRequest.findings m)
  same : (marked.map fun row => (row.1, row.2.1)).Perm rows
  first : InOrder (m.findings.map Finding.kind) (marked.map fun row => (row.1, row.2.1))
  severity : ∀ row ∈ marked, (m.findings.find? (·.kind == row.1)).map Finding.severity = some row.2.2

/-- All reports count alike: each kind once with its number, the most frequent first. A pull request has the same rows
in the order in which the kinds come first, each with the severity of the first finding of its kind. -/
theorem reports_count_alike {m : Migration} (h : m.findings ≠ []) : ∃ rows marked, CountedAlike m rows marked := by
  have hkinds : m.findings.map Finding.kind ≠ [] := mt List.map_eq_nil_iff.1 h
  have hrows := PullRequest.map_kindRows m.findings
  refine ⟨byCount (tally (m.findings.map Finding.kind)), PullRequest.kindRows m.findings, ?_⟩
  exact
    { counts := (isTally_tally _).perm (byCount_perm _)
      order := byFrequency_byCount (inOrder_tally _)
      legacy := Legacy.lists_summary hkinds
      flask := Flask.lists_summary hkinds
      table := by
        intro output o w
        obtain ⟨shown, hlog, htable⟩ := Program.exists_log_showAnalysis h output o w
        exact ⟨shown, _, hlog, htable, Program.take_rows_kindTable _⟩
      pullRequest := PullRequest.lists_findings h
      same := hrows ▸ (byCount_perm _).symm
      first := hrows ▸ inOrder_tally _
      severity := fun _ => PullRequest.find?_of_mem_kindRows }

/-- Kinds that alternate, of which two come equally often. -/
def alternating : Migration :=
  { (default : Migration) with
    findings := [("route", "warning"), ("print", "error"), ("app", "info"), ("print", "info"), ("route", "error")].map
      fun (kind, severity) => { (default : Finding) with kind, severity } }

theorem reports_count_alike_alternating :
    alternating.findings ≠ [] ∧ ∃ rows marked, CountedAlike alternating rows marked :=
  ⟨List.cons_ne_nil _ _, reports_count_alike (List.cons_ne_nil _ _)⟩

end CodeMigration
