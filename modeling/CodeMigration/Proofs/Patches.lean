import CodeMigration.Patch
import CodeMigration.Proofs.Places.Findings
import Mathlib.Data.List.Induction

/-! # Changes and the lines they leave

Changes are sorted by their files, and those of a file are applied to its text one by one. So each text is patched
with its own changes and with no others. A change puts its new lines in the place of others; if it puts as many there
as it takes away, every line of the text keeps its number, and each line is decided by the last change upon it. -/

namespace CodeMigration

namespace Text

theorem splitChars_eq_splitOn (sep : Char) (cs : List Char) : splitChars sep cs = cs.splitOn sep := by
  rw [List.splitOn_eq_splitOnP]
  induction cs with
  | nil => rfl
  | cons c cs ih =>
    rw [splitChars, ih, List.splitOnP_cons_eq_if_modifyHead]
    split
    · rfl
    · cases h : cs.splitOnP (· == sep) with
      | nil => exact absurd h (List.splitOnP_ne_nil _ _)
      | cons piece more => rfl

theorem splitChars_ne_nil (sep : Char) (cs : List Char) : splitChars sep cs ≠ [] := by
  rw [splitChars_eq_splitOn]
  exact List.splitOn_ne_nil sep cs

theorem not_mem_of_mem_splitChars {sep : Char} {cs piece : List Char} (h : piece ∈ splitChars sep cs) :
    sep ∉ piece := by
  induction cs generalizing piece with
  | nil =>
    obtain rfl := List.mem_singleton.1 h
    exact List.not_mem_nil
  | cons c cs ih =>
    rw [splitChars] at h
    split at h
    · rcases List.mem_cons.1 h with rfl | h
      · exact List.not_mem_nil
      · exact ih h
    case isFalse hc =>
      have hne : sep ≠ c := fun he => hc (beq_iff_eq.2 he.symm)
      cases hcs : splitChars sep cs with
      | nil => exact absurd hcs (splitChars_ne_nil sep cs)
      | cons first more =>
        rw [hcs] at h
        rcases List.mem_cons.1 h with rfl | h
        · exact fun hsep => ih (hcs ▸ List.mem_cons_self) ((List.mem_cons.1 hsep).resolve_left hne)
        · exact ih (hcs ▸ List.mem_cons_of_mem _ h)

theorem unlines_lines (s : String) : unlines (lines s) = s := by
  apply String.toList_inj.1
  rw [unlines, lines, String.toList_intercalate, List.map_map, splitChars_eq_splitOn]
  simp [Function.comp_def]

theorem lines_unlines {ls : List String} (hls : ls ≠ []) (h : ∀ l ∈ ls, '\n' ∉ l.toList) :
    lines (unlines ls) = ls := by
  have hsplit : (['\n'].intercalate (ls.map String.toList)).splitOn '\n' = ls.map String.toList :=
    List.splitOn_intercalate '\n' (by simpa using h) (by simpa using hls)
  have hnewline : "\n".toList = ['\n'] := rfl
  rw [lines, unlines, String.toList_intercalate, splitChars_eq_splitOn, hnewline, hsplit, List.map_map]
  simp [Function.comp_def]

theorem lines_append (s t : String) : lines (s ++ "\n" ++ t) = lines s ++ lines t := by
  have hnewline : "\n".toList = ['\n'] := rfl
  simp only [lines, splitChars_eq_splitOn, String.toList_append, hnewline, List.append_assoc, List.singleton_append,
    List.splitOn_append_cons_self, List.map_append]

theorem lines_append_newline (s : String) : lines (s ++ "\n") = lines s ++ [""] := by
  have happend := lines_append s ""
  rwa [String.append_empty] at happend

theorem lines_of_not_mem {s : String} (h : '\n' ∉ s.toList) : lines s = [s] := by
  have hline := lines_unlines (List.cons_ne_nil s []) (List.forall_mem_singleton.2 h)
  rwa [unlines, String.intercalate_singleton] at hline

theorem lines_ne_nil (s : String) : lines s ≠ [] := by
  rw [lines]
  exact fun h => splitChars_ne_nil '\n' s.toList (List.map_eq_nil_iff.1 h)

theorem lines_inj {s s' : String} : lines s = lines s' ↔ s = s' := by
  refine ⟨fun h => ?_, congrArg lines⟩
  rw [← unlines_lines s, h, unlines_lines]

theorem newline_not_mem_of_mem_lines {s l : String} (h : l ∈ lines s) : '\n' ∉ l.toList := by
  obtain ⟨piece, hpiece, rfl⟩ := List.mem_map.1 h
  rw [String.toList_ofList]
  exact not_mem_of_mem_splitChars hpiece

theorem lines_unlines_foldl {α : Type} {xs : List α} {step : List String → α → List String}
    (hstep : ∀ ls x, ∃ i j s, step ls x = ls.take i ++ lines s ++ ls.drop j) (s : String) :
    lines (unlines (xs.foldl step (lines s))) = xs.foldl step (lines s) := by
  have hfold {old : List String} (hold : old ≠ [] ∧ ∀ l ∈ old, '\n' ∉ l.toList) :
      xs.foldl step old ≠ [] ∧ ∀ l ∈ xs.foldl step old, '\n' ∉ l.toList := by
    induction xs generalizing old with
    | nil => exact hold
    | cons x xs ih =>
      obtain ⟨i, j, new, hx⟩ := hstep old x
      rw [List.foldl_cons, hx]
      refine ih ⟨by simp [lines_ne_nil], fun l hl => ?_⟩
      rw [List.mem_append, List.mem_append] at hl
      rcases hl with (hl | hl) | hl
      · exact hold.2 l (List.mem_of_mem_take hl)
      · exact newline_not_mem_of_mem_lines hl
      · exact hold.2 l (List.mem_of_mem_drop hl)
  obtain ⟨hne, hlines⟩ := hfold ⟨lines_ne_nil s, fun l hl => newline_not_mem_of_mem_lines hl⟩
  exact lines_unlines hne hlines

section
variable {α : Type} {i : Int}

theorem upTo_eq_take (hi : 0 ≤ i) (xs : List α) : upTo i xs = xs.take i.toNat := by
  rw [upTo, placeIn, if_neg (by omega), List.take_eq_take_iff]
  omega

theorem fromOn_eq_drop (hi : 0 ≤ i) (xs : List α) : fromOn i xs = xs.drop i.toNat := by
  rw [fromOn, placeIn, if_neg (by omega), List.drop_eq_drop_iff]
  omega

end

end Text

theorem getElem?_take_append_drop {α : Type} {new old : List α} {i j : Nat} (hij : i ≤ j) (hj : j ≤ old.length)
    (hnew : new.length = j - i) (k : Nat) :
    (old.take i ++ new ++ old.drop j)[k]? = if i ≤ k ∧ k < j then new[k - i]? else old[k]? := by
  have htake : (old.take i).length = i := List.length_take_of_le (by omega)
  by_cases hbefore : k < i
  · rw [List.append_assoc, List.getElem?_append_left (by omega), List.getElem?_take_of_lt hbefore,
      if_neg (by omega)]
  · by_cases hinside : k < j
    · rw [List.append_assoc, List.getElem?_append_right (by omega), List.getElem?_append_left (by omega), htake,
        if_pos (by omega)]
    · rw [List.getElem?_append_right (by rw [List.length_append]; omega), List.length_append, htake, hnew,
        List.getElem?_drop, if_neg (by omega)]
      congr 1
      omega

/-- Whether a place takes in the line behind so many others. -/
def Location.covers (l : Location) (i : Nat) : Bool := decide (l.startLine ≤ i + 1 ∧ (i : Int) + 1 ≤ l.endLine)

theorem Location.Within.covers_iff {n : Nat} {l : Location} (h : l.Within n) (i : Nat) :
    l.covers i = true ↔ (l.startLine - 1).toNat ≤ i ∧ i < l.endLine.toNat := by
  have ⟨hfirst, _, _⟩ := h
  rw [covers, decide_eq_true_iff]
  omega

section
variable {α : Type} {key : α → String}

theorem lookup_addTo (k other : String) (x : α) (groups : List (String × List α)) :
    (addTo k x groups).lookup other =
      if other = k then some ((groups.lookup k).getD [] ++ [x]) else groups.lookup other := by
  induction groups with
  | nil => rw [addTo, lookup_cons_eq_ite]; rfl
  | cons group rest ih =>
    obtain ⟨m, items⟩ := group
    rw [addTo, lookup_cons_eq_ite, lookup_cons_eq_ite]
    by_cases hm : m = k
    · rw [if_pos (beq_iff_eq.2 hm), lookup_cons_eq_ite, hm, if_pos rfl]
      split <;> rfl
    · rw [if_neg (mt beq_iff_eq.1 hm), lookup_cons_eq_ite, ih, if_neg (Ne.symm hm)]
      grind

theorem keys_addTo (k : String) (x : α) (groups : List (String × List α)) :
    (k ∈ groups.map Prod.fst ∧ (addTo k x groups).map Prod.fst = groups.map Prod.fst) ∨
      k ∉ groups.map Prod.fst ∧ (addTo k x groups).map Prod.fst = groups.map Prod.fst ++ [k] := by
  induction groups with
  | nil => exact .inr ⟨List.not_mem_nil, rfl⟩
  | cons group rest ih =>
    obtain ⟨m, items⟩ := group
    rw [addTo]
    by_cases hm : m = k
    · rw [if_pos (beq_iff_eq.2 hm)]
      exact .inl ⟨by simp [hm], rfl⟩
    · rw [if_neg (mt beq_iff_eq.1 hm)]
      rcases ih with ⟨hk, hkeys⟩ | ⟨hk, hkeys⟩
      · exact .inl ⟨List.mem_cons_of_mem _ hk, congrArg (m :: ·) hkeys⟩
      · exact .inr ⟨fun h => (List.mem_cons.1 h).elim (fun he => hm he.symm) hk, congrArg (m :: ·) hkeys⟩

theorem groupBy_append_singleton (key : α → String) (items : List α) (x : α) :
    groupBy key (items ++ [x]) = addTo (key x) x (groupBy key items) := by
  rw [groupBy, List.foldl_append]
  rfl

theorem lookup_groupBy (key : α → String) (items : List α) (k : String) :
    (groupBy key items).lookup k =
      if items.any (key · == k) then some (items.filter (key · == k)) else none := by
  induction items using List.reverseRecOn with
  | nil => rfl
  | append_singleton items x ih =>
    rw [groupBy_append_singleton, lookup_addTo, List.any_append, List.filter_append]
    by_cases hx : k = key x
    · subst hx
      have hnone : items.any (key · == key x) = false → items.filter (key · == key x) = [] := by
        simp [List.filter_eq_nil_iff]
      rw [if_pos rfl, ih]
      cases hany : items.any (key · == key x) <;> simp [hnone, hany]
    · have hne : (key x == k) = false := beq_eq_false_iff_ne.2 (Ne.symm hx)
      rw [if_neg hx, ih]
      simp [hne]

theorem nodup_groupBy (key : α → String) (items : List α) : ((groupBy key items).map Prod.fst).Nodup := by
  induction items using List.reverseRecOn with
  | nil => exact List.nodup_nil
  | append_singleton items x ih =>
    rw [groupBy_append_singleton]
    rcases keys_addTo (key x) x (groupBy key items) with ⟨-, hkeys⟩ | ⟨hx, hkeys⟩
    · rwa [hkeys]
    · rw [hkeys, List.nodup_append]
      exact ⟨ih, List.pairwise_singleton _ _, fun a ha b hb hab => hx (List.mem_singleton.1 hb ▸ hab ▸ ha)⟩

end

theorem patch_nil (text : String) : patch [] text = text := by
  rw [patch, lastFirst, List.mergeSort_nil]
  exact Text.unlines_lines text

namespace Texts

def patched (ts : Texts) (group : String × List Change) : Texts :=
  match ts.lookup group.1 with
  | some text => ts.set group.1 (patch group.2 text)
  | none => ts

theorem patched_eq_map {ts : Texts} (hts : (ts.map Prod.fst).Nodup) (file : String) (cs : List Change) :
    ts.patched (file, cs) = ts.map fun e => (e.1, if e.1 = file then patch cs e.2 else e.2) := by
  rw [patched]
  cases hlookup : ts.lookup file with
  | none =>
    refine ((List.map_congr_left fun e he => ?_).trans (List.map_id ts)).symm
    have hne : e.1 ≠ file := by
      rintro rfl
      rw [lookup_of_mem hts he] at hlookup
      cases hlookup
    rw [if_neg hne]
    rfl
  | some text =>
    refine List.map_congr_left fun e he => ?_
    by_cases heq : e.1 = file
    · have htext : e.2 = text := by
        rw [← heq, lookup_of_mem hts he] at hlookup
        exact Option.some.inj hlookup
      simp [heq, htext]
    · simp [heq]

theorem foldl_patched {ts : Texts} (hts : (ts.map Prod.fst).Nodup) {groups : List (String × List Change)}
    (hgroups : (groups.map Prod.fst).Nodup) :
    groups.foldl patched ts = ts.map fun e => (e.1, patch ((groups.lookup e.1).getD []) e.2) := by
  induction groups generalizing ts with
  | nil => exact ((List.map_congr_left fun e _ => by simp [patch_nil]).trans (List.map_id ts)).symm
  | cons group groups ih =>
    obtain ⟨k, cs⟩ := group
    obtain ⟨hk, hgroups⟩ := List.nodup_cons.1 hgroups
    have hkeys : ((ts.patched (k, cs)).map Prod.fst).Nodup := by
      rw [patched_eq_map hts, List.map_map]
      exact hts
    rw [List.foldl_cons, ih hkeys hgroups, patched_eq_map hts, List.map_map]
    refine List.map_congr_left fun e _ => ?_
    rw [lookup_cons_eq_ite]
    by_cases he : e.1 = k
    · simp [he, lookup_eq_none_of_not_mem hk, patch_nil]
    · simp [he]

end Texts

theorem applyChanges_eq_map (changes : List Change) {texts : Texts} (h : (texts.map Prod.fst).Nodup) :
    applyChanges changes texts = texts.map fun e => (e.1, patch (changes.filter (·.file == e.1)) e.2) := by
  have hfold : applyChanges changes texts = (groupBy Change.file changes).foldl Texts.patched texts := rfl
  rw [hfold, Texts.foldl_patched h (nodup_groupBy _ _)]
  refine List.map_congr_left fun e _ => ?_
  rw [lookup_groupBy]
  split
  · rfl
  case isFalse hany =>
    have hnil : changes.filter (·.file == e.1) = [] := by simpa [List.filter_eq_nil_iff] using hany
    rw [hnil]
    rfl

theorem applyChanges_one {cs : List Change} {file : String} (h : ∀ c ∈ cs, c.file = file) (text : String) :
    applyChanges cs [(file, text)] = [(file, patch cs text)] := by
  have hkeys : (([(file, text)] : Texts).map Prod.fst).Nodup := List.pairwise_singleton _ file
  rw [applyChanges_eq_map cs hkeys, List.map_singleton, List.filter_eq_self.2 fun c hc => beq_iff_eq.2 (h c hc)]

namespace Change

/-- The lines that a change takes away. -/
def place (c : Change) : Location := { file := c.file, startLine := c.startLine, endLine := c.endLine }

/-- A change that puts as many lines there as it takes away. -/
def KeepsCount (c : Change) : Prop := ((Text.lines c.after).length : Int) = c.endLine - c.startLine + 1

section
variable {c : Change} {cs : List Change} {n : Nat} {old : List String}

theorem covers_eq_true {i : Nat} : c.place.covers i = true ↔ c.startLine ≤ i + 1 ∧ (i : Int) + 1 ≤ c.endLine :=
  decide_eq_true_iff

theorem applyTo_eq (h : c.place.Within n) (old : List String) :
    c.applyTo old = old.take (c.startLine - 1).toNat ++ Text.lines c.after ++ old.drop c.endLine.toNat := by
  have ⟨hfirst, horder, _⟩ := h
  simp only [place] at hfirst horder
  rw [applyTo, Text.upTo_eq_take (by omega), Text.fromOn_eq_drop (by omega)]

theorem length_applyTo (h : c.place.Within n) (hcount : c.KeepsCount) (hold : old.length = n) :
    (c.applyTo old).length = n := by
  have ⟨hfirst, horder, hlast⟩ := h
  simp only [place, KeepsCount] at hfirst horder hlast hcount
  rw [applyTo_eq h, List.length_append, List.length_append, List.length_take, List.length_drop]
  omega

/-- Behind a change that keeps the number of lines, its own lines are the new ones and all others the old ones. -/
theorem getElem?_applyTo (h : c.place.Within n) (hcount : c.KeepsCount) (hold : old.length = n) (i : Nat) :
    (c.applyTo old)[i]? =
      if c.place.covers i then (Text.lines c.after)[i - (c.startLine - 1).toNat]? else old[i]? := by
  have ⟨hfirst, horder, hlast⟩ := h
  simp only [place, KeepsCount] at hfirst horder hlast hcount
  rw [applyTo_eq h, getElem?_take_append_drop (by omega) (by omega) (by omega)]
  exact if_congr (h.covers_iff i).symm rfl rfl

/-- Behind such changes each line is decided by the last of them upon it, and is the old one if there is none. -/
theorem foldl_applyTo (h : ∀ c ∈ cs, c.place.Within n) (hcount : ∀ c ∈ cs, c.KeepsCount) (hold : old.length = n) :
    (cs.foldl (fun ls c => c.applyTo ls) old).length = n ∧
      ∀ i, (cs.foldl (fun ls c => c.applyTo ls) old)[i]? =
        match cs.findRev? (·.place.covers i) with
        | some c => (Text.lines c.after)[i - (c.startLine - 1).toNat]?
        | none => old[i]? := by
  induction cs generalizing old with
  | nil => exact ⟨hold, fun i => rfl⟩
  | cons c cs ih =>
    obtain ⟨hc, hcs⟩ := List.forall_mem_cons.1 h
    obtain ⟨hcountc, hcountcs⟩ := List.forall_mem_cons.1 hcount
    obtain ⟨hlength, hget⟩ := ih hcs hcountcs (length_applyTo hc hcountc hold)
    refine ⟨hlength, fun i => ?_⟩
    rw [List.foldl_cons, hget, getElem?_applyTo hc hcountc hold, List.findRev?]
    cases cs.findRev? (·.place.covers i) with
    | some d => rfl
    | none => cases c.place.covers i <;> rfl

theorem foldl_applyTo_same (h : ∀ c ∈ cs, c.place.Within n)
    (hsame : ∀ c ∈ cs, Text.lines c.after = (old.take c.endLine.toNat).drop (c.startLine - 1).toNat) :
    cs.foldl (fun ls c => c.applyTo ls) old = old := by
  induction cs with
  | nil => rfl
  | cons c cs ih =>
    obtain ⟨hc, hcs⟩ := List.forall_mem_cons.1 h
    obtain ⟨hsamec, hsamecs⟩ := List.forall_mem_cons.1 hsame
    have hstep : c.applyTo old = old := by
      have ⟨hfirst, horder, _⟩ := hc
      simp only [place] at hfirst horder
      have htake : old.take (c.startLine - 1).toNat =
          (old.take c.endLine.toNat).take (c.startLine - 1).toNat := by
        rw [List.take_take, Nat.min_eq_left (by omega)]
      rw [applyTo_eq hc, hsamec, htake, List.take_append_drop, List.take_append_drop]
    rw [List.foldl_cons, hstep, ih hcs hsamecs]

end

end Change

theorem lines_patch (cs : List Change) (text : String) :
    Text.lines (patch cs text) = (lastFirst cs).foldl (fun ls c => c.applyTo ls) (Text.lines text) :=
  Text.lines_unlines_foldl (fun _ _ => ⟨_, _, _, rfl⟩) text

end CodeMigration
