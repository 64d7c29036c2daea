import CodeMigration.Proofs.Patches
import Mathlib.Data.List.Nodup

/-! # Changes of ranges of lines

The changes of a file are applied from the last to the first, so that each finds the lines before it as they were.
Where no two of them meet, this replaces all their ranges at once, by the numbers of the lines as they were. Where one
lies within another it does not: it may leave fewer lines than it found, and then the change around it, which goes by
the old numbers, takes lines from behind its range. -/

namespace CodeMigration

instance (n : Nat) (l : Location) : Decidable (l.Within n) :=
  decidable_of_iff (1 ≤ l.startLine ∧ l.startLine ≤ l.endLine ∧ l.endLine ≤ n)
    ⟨fun h => ⟨h.1, h.2.1, h.2.2⟩, fun h => ⟨h.first, h.order, h.last⟩⟩

namespace Change

variable {i : Nat} {cs : List Change}

/-- How many lines a change adds; below zero if it leaves fewer lines than it finds. -/
def growth (c : Change) : Int := (Text.lines c.after).length - (c.endLine - c.startLine + 1)

/-- Two changes that have no line in common. -/
def Apart (c d : Change) : Prop := c.endLine < d.startLine ∨ d.endLine < c.startLine

instance (c d : Change) : Decidable (c.Apart d) := inferInstanceAs (Decidable (_ ∨ _))

section
variable {c : Change} {cs : List Change} {n : Nat}

theorem pairwise_lastFirst (cs : List Change) : (lastFirst cs).Pairwise fun c d => d.startLine ≤ c.startLine :=
  (List.pairwise_mergeSort (by grind) (by grind) cs).imp of_decide_eq_true

theorem mem_lastFirst : c ∈ lastFirst cs ↔ c ∈ cs := List.mem_mergeSort

theorem lastFirst_perm (cs : List Change) : (lastFirst cs).Perm cs := List.mergeSort_perm _ _

theorem endLine_lt_of_apart {d : Change} (horder : c.startLine ≤ c.endLine) (hstart : d.startLine ≤ c.startLine)
    (h : c.Apart d) : d.endLine < c.startLine := by
  rcases h with h | h <;> omega

/-- Changes that do not meet are applied from below: each of them ends above those that were applied before it. -/
theorem pairwise_lastFirst_of_apart (h : ∀ c ∈ cs, c.place.Within n) (hapart : cs.Pairwise Apart) :
    (lastFirst cs).Pairwise fun c d => d.endLine < c.startLine := by
  have hsorted := (pairwise_lastFirst cs).and (hapart.perm (lastFirst_perm cs).symm Or.symm)
  exact hsorted.imp_of_mem fun hc _ hcd => endLine_lt_of_apart (h _ (mem_lastFirst.1 hc)).order hcd.1 hcd.2

theorem covers_eq_false : c.place.covers i = false ↔ (i : Int) + 1 < c.startLine ∨ c.endLine ≤ i := by
  rw [← Bool.not_eq_true, covers_eq_true]
  omega

end

section
variable {α β : Type} {c : Change} {cs : List Change} {n : Nat} {new old a b : List α} {x : α}

/-- Items in the place of those with the numbers of a change. -/
def splice (c : Change) (new old : List α) : List α :=
  old.take (c.startLine - 1).toNat ++ new ++ old.drop c.endLine.toNat

theorem map_splice (f : α → β) (c : Change) (new old : List α) :
    (c.splice new old).map f = c.splice (new.map f) (old.map f) := by
  simp [splice, List.map_take, List.map_drop]

theorem splice_append (h : c.endLine ≤ a.length) (horder : c.startLine ≤ c.endLine) (b : List α) :
    c.splice new (a ++ b) = c.splice new a ++ b := by
  rw [splice, splice, List.take_append_of_le_length (by omega), List.drop_append_of_le_length (by omega)]
  simp only [List.append_assoc]

theorem length_splice (h : c.endLine ≤ a.length) (hfirst : 1 ≤ c.startLine) (horder : c.startLine ≤ c.endLine) :
    ((c.splice new a).length : Int) = a.length + (new.length - (c.endLine - c.startLine + 1)) := by
  rw [splice, List.length_append, List.length_append, List.length_take, List.length_drop]
  omega

theorem le_length_splice (h : c.startLine - 1 ≤ a.length) : c.startLine - 1 ≤ (c.splice new a).length := by
  rw [splice, List.length_append, List.length_append, List.length_take]
  omega

theorem mem_splice {y : α} (h : y ∈ c.splice new old) : y ∈ new ∨ y ∈ old := by
  rcases List.mem_append.1 h with h | h
  · exact (List.mem_append.1 h).symm.imp_right List.mem_of_mem_take
  · exact .inr (List.mem_of_mem_drop h)

theorem exists_splice_cons (h : (a.length : Int) + 1 < c.startLine) (horder : c.startLine ≤ c.endLine) (x : α)
    (new b : List α) : ∃ b', c.splice new (a ++ x :: b) = a ++ x :: b' ∧ ∀ y ∈ b', y ∈ new ∨ y ∈ b := by
  have hlead : (a ++ [x]).length = a.length + 1 := by simp
  have htake : (a ++ x :: b).take (c.startLine - 1).toNat =
      a ++ x :: b.take ((c.startLine - 1).toNat - (a.length + 1)) := by
    rw [List.append_cons, List.take_append, List.take_of_length_le (by omega), hlead, ← List.append_cons]
  have hdrop : (a ++ x :: b).drop c.endLine.toNat = b.drop (c.endLine.toNat - (a.length + 1)) := by
    rw [List.append_cons, List.drop_append, List.drop_of_length_le (by omega), hlead, List.nil_append]
  refine ⟨b.take ((c.startLine - 1).toNat - (a.length + 1)) ++ (new ++ b.drop (c.endLine.toNat - (a.length + 1))), ?_,
    fun y hy => ?_⟩
  · rw [splice, htake, hdrop]
    simp only [List.append_assoc, List.cons_append]
  · rcases List.mem_append.1 hy with hy | hy
    · exact .inr (List.mem_of_mem_take hy)
    · exact (List.mem_append.1 hy).imp_right List.mem_of_mem_drop

theorem not_mem_splice (hfirst : c.startLine - 1 ≤ a.length) (hlast : (a.length : Int) < c.endLine) (hnew : x ∉ new)
    (ha : x ∉ a) (hb : x ∉ b) : x ∉ c.splice new (a ++ x :: b) := by
  have htake : (a ++ x :: b).take (c.startLine - 1).toNat = a.take (c.startLine - 1).toNat :=
    List.take_append_of_le_length (by omega)
  have hdrop : (a ++ x :: b).drop c.endLine.toNat = b.drop (c.endLine.toNat - (a.length + 1)) := by
    rw [List.append_cons, List.drop_append, List.drop_of_length_le (by simp; omega), List.nil_append]
    simp
  rw [splice, htake, hdrop, List.mem_append, List.mem_append]
  rintro ((hx | hx) | hx)
  · exact ha (List.mem_of_mem_take hx)
  · exact hnew hx
  · exact hb (List.mem_of_mem_drop hx)

theorem filter_splice_sublist {p : α → Bool} (h : c.startLine ≤ c.endLine) (hnew : ∀ x ∈ new, p x = false) :
    ((c.splice new old).filter p).Sublist (old.filter p) := by
  have hnone : new.filter p = [] := List.filter_eq_nil_iff.2 fun x hx => by simp [hnew x hx]
  rw [splice, List.filter_append, List.filter_append, hnone, List.append_nil, ← List.filter_append]
  have hdrop : (old.drop c.endLine.toNat).Sublist (old.drop (c.startLine - 1).toNat) :=
    List.drop_sublist_drop_left old (by omega)
  have hsub := hdrop.append_left (old.take (c.startLine - 1).toNat)
  rw [List.take_append_drop] at hsub
  exact hsub.filter p

end

/-- What becomes of the line behind so many others: it stays, or gives way to the code of the change of which it is the
first line, or goes. -/
def standsAt (cs : List Change) (i : Nat) (line : String) : List String :=
  match cs.find? (·.place.covers i) with
  | none => [line]
  | some c => if c.startLine = i + 1 then Text.lines c.after else []

/-- Lines, of which there are so many before, with all ranges replaced at once. -/
def replacedFrom (cs : List Change) (k : Nat) (old : List String) : List String :=
  (old.zipIdx k).flatMap fun e => standsAt cs e.2 e.1

section
variable {c : Change} {cs ds : List Change} {k : Nat} {old a b : List String}

theorem standsAt_of_uncovered (h : ∀ c ∈ cs, c.place.covers i = false) (line : String) :
    standsAt cs i line = [line] := by
  have hnone : cs.find? (·.place.covers i) = none := List.find?_eq_none.2 fun c hc => by simp [h c hc]
  rw [standsAt, hnone]

theorem standsAt_cons (line : String) : standsAt (c :: cs) i line =
    if c.place.covers i then (if c.startLine = i + 1 then Text.lines c.after else []) else standsAt cs i line := by
  rw [standsAt, List.find?_cons]
  cases c.place.covers i <;> rfl

theorem replacedFrom_append (cs : List Change) (k : Nat) (a b : List String) :
    replacedFrom cs k (a ++ b) = replacedFrom cs k a ++ replacedFrom cs (k + a.length) b := by
  rw [replacedFrom, List.zipIdx_append, List.flatMap_append]
  rfl

theorem replacedFrom_congr (h : ∀ i line, k ≤ i → i < k + old.length → standsAt cs i line = standsAt ds i line) :
    replacedFrom cs k old = replacedFrom ds k old := by
  refine List.flatMap_congr fun e he => ?_
  obtain ⟨hle, hlt, -⟩ := List.mem_zipIdx he
  exact h e.2 e.1 hle (by omega)

theorem replacedFrom_nil (k : Nat) (old : List String) : replacedFrom [] k old = old := by
  have hstands : (fun e : String × Nat => standsAt [] e.2 e.1) = fun e => [e.1] := rfl
  rw [replacedFrom, hstands, ← List.map_eq_flatMap]
  exact List.zipIdx_map_fst k old

theorem replacedFrom_range (hk : c.startLine = k + 1) (hlength : (k + old.length : Int) = c.endLine) (hold : old ≠ []) :
    replacedFrom (c :: cs) k old = Text.lines c.after := by
  obtain ⟨line, rest, rfl⟩ := List.exists_cons_of_ne_nil hold
  have hrest : replacedFrom (c :: cs) (k + 1) rest = [] := by
    refine List.flatMap_eq_nil_iff.2 fun e he => ?_
    obtain ⟨hle, hlt, -⟩ := List.mem_zipIdx he
    have hlength : ((rest.length + 1 : Nat) : Int) = (line :: rest).length := rfl
    have hcovers : c.place.covers e.2 = true := covers_eq_true.2 (by omega)
    rw [standsAt_cons, if_pos hcovers, if_neg (by omega)]
  have hlength : ((rest.length + 1 : Nat) : Int) = (line :: rest).length := rfl
  have hcovers : c.place.covers k = true := covers_eq_true.2 (by omega)
  have hsplit : replacedFrom (c :: cs) k (line :: rest) =
      standsAt (c :: cs) k line ++ replacedFrom (c :: cs) (k + 1) rest := rfl
  rw [hsplit, hrest, List.append_nil, standsAt_cons, if_pos hcovers, if_pos hk]

/-- In what order the changes are listed does not matter, if no two of them meet. -/
theorem standsAt_perm (h : cs.Perm ds) (hapart : cs.Pairwise Apart) (i : Nat) (line : String) :
    standsAt cs i line = standsAt ds i line := by
  induction h with
  | nil => rfl
  | cons c _ ih => rw [standsAt_cons, standsAt_cons, ih (List.pairwise_cons.1 hapart).2]
  | swap d c cs =>
    have hcd : c.Apart d := (List.pairwise_cons.1 hapart).1 d List.mem_cons_self
    rw [standsAt_cons, standsAt_cons, standsAt_cons, standsAt_cons]
    by_cases hc : c.place.covers i = true
    · have hd : d.place.covers i = false := covers_eq_false.2 (by
        have := covers_eq_true.1 hc
        rcases hcd with hcd | hcd <;> omega)
      simp only [hd, Bool.false_eq_true, if_false]
    · rw [if_neg hc, if_neg hc]
  | trans h _ ih ih' => exact (ih hapart).trans (ih' (hapart.perm h Or.symm))

theorem applyTo_eq_splice {n : Nat} (h : c.place.Within n) (old : List String) :
    c.applyTo old = c.splice (Text.lines c.after) old := applyTo_eq h old

/-- Changes that end above what follows leave it as it is. -/
theorem foldl_applyTo_append (h : ∀ c ∈ cs, c.place.Within a.length)
    (hdesc : cs.Pairwise fun c d => d.endLine < c.startLine) (b : List String) :
    cs.foldl (fun ls c => c.applyTo ls) (a ++ b) = cs.foldl (fun ls c => c.applyTo ls) a ++ b := by
  induction cs generalizing a with
  | nil => rfl
  | cons c cs ih =>
    obtain ⟨hc, hcs⟩ := List.forall_mem_cons.1 h
    obtain ⟨hlast, hdesc⟩ := List.pairwise_cons.1 hdesc
    have ⟨hfirst, horder, hend⟩ := hc
    simp only [place] at hfirst horder hend
    have hlong : c.startLine - 1 ≤ (c.splice (Text.lines c.after) a).length := le_length_splice (by omega)
    have hwithin : ∀ d ∈ cs, d.place.Within (c.splice (Text.lines c.after) a).length := fun d hd =>
      ⟨(hcs d hd).first, (hcs d hd).order, by
        have := hlast d hd
        show d.endLine ≤ _
        omega⟩
    rw [List.foldl_cons, List.foldl_cons, applyTo_eq_splice hc, applyTo_eq_splice hc,
      splice_append hend horder, ih hwithin hdesc]

/-- Changes that do not meet, applied from below, replace all their ranges at once. -/
theorem foldl_applyTo_eq_replacedFrom (h : ∀ c ∈ cs, c.place.Within old.length)
    (hdesc : cs.Pairwise fun c d => d.endLine < c.startLine) :
    cs.foldl (fun ls c => c.applyTo ls) old = replacedFrom cs 0 old := by
  induction cs generalizing old with
  | nil => exact (replacedFrom_nil 0 old).symm
  | cons c cs ih =>
    obtain ⟨hc, hcs⟩ := List.forall_mem_cons.1 h
    obtain ⟨hlast, hdesc⟩ := List.pairwise_cons.1 hdesc
    have ⟨hfirst, horder, hend⟩ := hc
    simp only [place] at hfirst horder hend
    -- The lines before the range, those of the range and those behind it.
    obtain ⟨a, m, b, rfl, ha, hm⟩ : ∃ a m b, old = a ++ (m ++ b) ∧ (a.length : Int) = c.startLine - 1 ∧
        ((a ++ m).length : Int) = c.endLine := by
      refine ⟨old.take (c.startLine - 1).toNat, (old.take c.endLine.toNat).drop (c.startLine - 1).toNat,
        old.drop c.endLine.toNat, ?_, ?_, ?_⟩
      · have htake : old.take (c.startLine - 1).toNat = (old.take c.endLine.toNat).take (c.startLine - 1).toNat := by
          rw [List.take_take, Nat.min_eq_left (by omega)]
        rw [htake, ← List.append_assoc, List.take_append_drop, List.take_append_drop]
      · rw [List.length_take_of_le (by omega)]
        omega
      · rw [List.length_append, List.length_drop, List.length_take_of_le (by omega),
          List.length_take_of_le (by omega)]
        omega
    rw [List.length_append] at hm
    have hwithin : ∀ d ∈ cs, d.place.Within a.length := fun d hd => ⟨(hcs d hd).first, (hcs d hd).order, by
      have := hlast d hd
      show d.endLine ≤ _
      omega⟩
    have hsplice : c.splice (Text.lines c.after) (a ++ (m ++ b)) = a ++ (Text.lines c.after ++ b) := by
      have htake : (a ++ (m ++ b)).take (c.startLine - 1).toNat = a := List.take_left' (by omega)
      have hdrop : (a ++ (m ++ b)).drop c.endLine.toNat = b := by
        rw [← List.append_assoc]
        exact List.drop_left' (by rw [List.length_append]; omega)
      rw [splice, htake, hdrop, List.append_assoc]
    have hbefore : replacedFrom (c :: cs) 0 a = replacedFrom cs 0 a := replacedFrom_congr fun i line _ hi => by
      rw [standsAt_cons, if_neg (Bool.not_eq_true _ ▸ covers_eq_false.2 (by omega))]
    have hrange : replacedFrom (c :: cs) a.length m = Text.lines c.after :=
      replacedFrom_range (by omega) (by omega) (by rintro rfl; simp at hm; omega)
    have hbehind : replacedFrom (c :: cs) (a.length + m.length) b = b := by
      refine (replacedFrom_congr fun i line hi _ => ?_).trans (replacedFrom_nil _ b)
      refine standsAt_of_uncovered (List.forall_mem_cons.2 ⟨covers_eq_false.2 (by omega), fun d hd => ?_⟩) line
      have := hlast d hd
      exact covers_eq_false.2 (by omega)
    rw [List.foldl_cons, applyTo_eq_splice hc, hsplice, foldl_applyTo_append hwithin hdesc, ih hwithin hdesc,
      replacedFrom_append, replacedFrom_append, Nat.zero_add, hbefore, hrange, hbehind]

end

def replaced (cs : List Change) (text : String) : String := Text.unlines (replacedFrom cs 0 (Text.lines text))

theorem replaced_perm {ds : List Change} (h : cs.Perm ds) (hapart : cs.Pairwise Apart) (text : String) :
    replaced cs text = replaced ds text :=
  congrArg Text.unlines (replacedFrom_congr fun i line _ _ => standsAt_perm h hapart i line)

theorem patch_eq_replaced {text : String} (h : ∀ c ∈ cs, c.place.Within (Text.lines text).length)
    (hapart : cs.Pairwise Apart) : patch cs text = replaced cs text := by
  have hdesc := pairwise_lastFirst_of_apart h hapart
  have hwithin : ∀ c ∈ lastFirst cs, c.place.Within (Text.lines text).length := fun c hc => h c (mem_lastFirst.1 hc)
  rw [patch, foldl_applyTo_eq_replacedFrom hwithin hdesc]
  exact (replaced_perm (lastFirst_perm cs).symm hapart text).symm

/-- Lines with their numbers, counted from zero. -/
def numbered (old : List String) : List (Option Nat × String) := old.zipIdx.map fun e => (some e.2, e.1)

/-- Numbered lines after changes. Lines that a change brings have no number. -/
def followed (cs : List Change) (old : List String) : List (Option Nat × String) :=
  (lastFirst cs).foldl (fun ls c => c.splice ((Text.lines c.after).map (Prod.mk none)) ls) (numbered old)

/-- A line with so many lines before it is not reached by changes above it: each of them ends above the line, wherever
those before it have moved the line to. -/
def Misses : List Change → Int → Prop
  | [], _ => True
  | c :: cs, i => c.endLine ≤ i ∧ Misses cs (i + c.growth)

instance Misses.instDecidable : (cs : List Change) → (i : Int) → Decidable (Misses cs i)
  | [], _ => instDecidableTrue
  | c :: cs, i =>
    have := instDecidable cs (i + c.growth)
    inferInstanceAs (Decidable (c.endLine ≤ i ∧ Misses cs (i + c.growth)))

/-- Changes that leave fewer lines than they find miss it too, if those behind them end before they start. -/
theorem misses_of_pairwise {i : Int} (h : ∀ c ∈ cs, c.endLine ≤ i)
    (hpair : cs.Pairwise fun c d => d.endLine < c.startLine ∨ 0 ≤ c.growth) : Misses cs i := by
  induction cs generalizing i with
  | nil => trivial
  | cons c cs ih =>
    obtain ⟨hend, hcs⟩ := List.forall_mem_cons.1 h
    obtain ⟨hhead, hpair⟩ := List.pairwise_cons.1 hpair
    refine ⟨hend, ih (fun d hd => ?_) hpair⟩
    have hd' : d.endLine ≤ i := hcs d hd
    have hlines : 0 < (Text.lines c.after).length := List.length_pos_iff.2 (Text.lines_ne_nil _)
    have hgrowth : c.growth = (Text.lines c.after).length - (c.endLine - c.startLine + 1) := rfl
    rcases hhead d hd with hbefore | hgrows <;> omega

section
variable {α : Type} {new : Change → List α} {cs : List Change} {a b old : List α} {x : α} {n : Nat}

theorem mem_foldl_splice (h : x ∈ cs.foldl (fun ls c => c.splice (new c) ls) old) : (∃ c ∈ cs, x ∈ new c) ∨ x ∈ old := by
  induction cs generalizing old with
  | nil => exact .inr h
  | cons c cs ih =>
    rcases ih h with ⟨d, hd, hx⟩ | hx
    · exact .inl ⟨d, List.mem_cons_of_mem c hd, hx⟩
    · exact (mem_splice hx).imp_left fun hx => ⟨c, List.mem_cons_self, hx⟩

theorem filter_foldl_splice_sublist {p : α → Bool} (h : ∀ c ∈ cs, c.startLine ≤ c.endLine)
    (hnew : ∀ c ∈ cs, ∀ x ∈ new c, p x = false) :
    ((cs.foldl (fun ls c => c.splice (new c) ls) old).filter p).Sublist (old.filter p) := by
  induction cs generalizing old with
  | nil => exact .refl _
  | cons c cs ih =>
    obtain ⟨hc, hcs⟩ := List.forall_mem_cons.1 h
    obtain ⟨hnewc, hnewcs⟩ := List.forall_mem_cons.1 hnew
    exact (ih hcs hnewcs).trans (filter_splice_sublist hc hnewc)

variable (h : ∀ c ∈ cs, 1 ≤ c.startLine ∧ c.startLine ≤ c.endLine)
  (hsorted : cs.Pairwise fun c d => d.startLine ≤ c.startLine)
  (hlength : ∀ c ∈ cs, (new c).length = (Text.lines c.after).length) (hnew : ∀ c ∈ cs, x ∉ new c) (ha : x ∉ a) (hb : x ∉ b)
include h hsorted hlength hnew ha hb

/-- Of changes that all start no later than behind the item, it survives those that miss it. -/
theorem mem_foldl_splice_iff_misses (habove : ∀ c ∈ cs, c.startLine - 1 ≤ a.length) :
    x ∈ cs.foldl (fun ls c => c.splice (new c) ls) (a ++ x :: b) ↔ Misses cs a.length := by
  induction cs generalizing a with
  | nil => exact iff_of_true (List.mem_append_right _ List.mem_cons_self) trivial
  | cons c cs ih =>
    obtain ⟨⟨hfirst, horder⟩, hcs⟩ := List.forall_mem_cons.1 h
    obtain ⟨hstart, hsorted⟩ := List.pairwise_cons.1 hsorted
    obtain ⟨hcabove, -⟩ := List.forall_mem_cons.1 habove
    obtain ⟨hclength, hlength⟩ := List.forall_mem_cons.1 hlength
    obtain ⟨hnewc, hnew⟩ := List.forall_mem_cons.1 hnew
    rw [List.foldl_cons, Misses]
    by_cases hend : c.endLine ≤ a.length
    · have hgrown : ((c.splice (new c) a).length : Int) = a.length + c.growth := by
        rw [length_splice hend hfirst horder, growth, hclength]
      have hlong : c.startLine - 1 ≤ (c.splice (new c) a).length := le_length_splice hcabove
      have habove : ∀ d ∈ cs, d.startLine - 1 ≤ (c.splice (new c) a).length := fun d hd => by
        have := hstart d hd
        omega
      have hmoved : x ∉ c.splice (new c) a := fun hx => (mem_splice hx).elim hnewc ha
      rw [splice_append hend horder, ih hcs hsorted hlength hnew hmoved habove, hgrown]
      exact (and_iff_right hend).symm
    · have hgone : x ∉ c.splice (new c) (a ++ x :: b) := not_mem_splice hcabove (by omega) hnewc ha hb
      refine iff_of_false (fun hx => ?_) fun hmiss => hend hmiss.1
      rcases mem_foldl_splice hx with ⟨d, hd, hx⟩ | hx
      · exact hnew d hd hx
      · exact hgone hx

/-- An item in no range stays where it is while the changes below it are applied; then those above must miss it. -/
theorem mem_foldl_splice_iff (hout : ∀ c ∈ cs, c.place.covers a.length = false) :
    x ∈ cs.foldl (fun ls c => c.splice (new c) ls) (a ++ x :: b) ↔ Misses (cs.filter (·.endLine ≤ a.length)) a.length := by
  induction cs generalizing b with
  | nil => exact iff_of_true (List.mem_append_right _ List.mem_cons_self) trivial
  | cons c cs ih =>
    obtain ⟨⟨hfirst, horder⟩, hcs⟩ := List.forall_mem_cons.1 h
    obtain ⟨houtc, houtcs⟩ := List.forall_mem_cons.1 hout
    rcases covers_eq_false.1 houtc with hbelow | hover
    · obtain ⟨-, hsorted⟩ := List.pairwise_cons.1 hsorted
      obtain ⟨-, hlength⟩ := List.forall_mem_cons.1 hlength
      obtain ⟨hnewc, hnew⟩ := List.forall_mem_cons.1 hnew
      obtain ⟨b', hstep, hb'⟩ := exists_splice_cons hbelow horder x (new c) b
      rw [List.foldl_cons, hstep, ih hcs hsorted hlength hnew (fun hx => (hb' x hx).elim hnewc hb) houtcs,
        List.filter_cons_of_neg (by simp; omega)]
    · -- From the first change above the item on, all changes are above it.
      have hall : ∀ d ∈ c :: cs, d.endLine ≤ a.length := fun d hd => by
        have hstart : d.startLine ≤ c.startLine := by
          rcases List.mem_cons.1 hd with rfl | hd
          · exact Int.le_refl _
          · exact (List.pairwise_cons.1 hsorted).1 d hd
        rcases covers_eq_false.1 (hout d hd) with hbelow | hover <;> omega
      rw [List.filter_eq_self.2 fun d hd => decide_eq_true (hall d hd)]
      refine mem_foldl_splice_iff_misses h hsorted hlength hnew ha hb fun d hd => ?_
      have := hall d hd
      have := h d hd
      omega

end

section
variable {cs : List Change} {old : List String} {n : Nat}
variable {line : String}

theorem map_snd_foldl_splice (h : ∀ c ∈ cs, c.place.Within n) (ls : List (Option Nat × String)) :
    (cs.foldl (fun ls c => c.splice ((Text.lines c.after).map (Prod.mk none)) ls) ls).map Prod.snd =
      cs.foldl (fun ls c => c.applyTo ls) (ls.map Prod.snd) := by
  induction cs generalizing ls with
  | nil => rfl
  | cons c cs ih =>
    obtain ⟨hc, hcs⟩ := List.forall_mem_cons.1 h
    have hnew : ((Text.lines c.after).map (Prod.mk (none : Option Nat))).map Prod.snd = Text.lines c.after := by
      rw [List.map_map]
      exact List.map_id _
    rw [List.foldl_cons, ih hcs, List.foldl_cons, applyTo_eq_splice hc, map_splice, hnew]

theorem map_snd_followed (h : ∀ c ∈ cs, c.place.Within n) (old : List String) :
    (followed cs old).map Prod.snd = (lastFirst cs).foldl (fun ls c => c.applyTo ls) old := by
  have hnumbered : (numbered old).map Prod.snd = old := by
    rw [numbered, List.map_map]
    exact List.zipIdx_map_fst 0 old
  rw [followed, map_snd_foldl_splice fun c hc => h c (mem_lastFirst.1 hc), hnumbered]

theorem nodup_numbered (old : List String) : (numbered old).Nodup := by
  refine List.Nodup.of_map Prod.fst ?_
  have hnumbers : (numbered old).map Prod.fst = (List.range' 0 old.length).map some := by
    rw [numbered, List.map_map, ← List.zipIdx_map_snd, List.map_map]
    rfl
  rw [hnumbers]
  exact List.Nodup.map (fun _ _ => Option.some.inj) List.nodup_range'

/-- The old lines among those that were followed stand there once each and in their order. -/
theorem filter_followed_sublist (h : ∀ c ∈ cs, c.place.Within n) (old : List String) :
    ((followed cs old).filter (·.1.isSome)).Sublist (numbered old) := by
  have hall : (numbered old).filter (·.1.isSome) = numbered old :=
    List.filter_eq_self.2 fun x hx => by
      obtain ⟨e, -, rfl⟩ := List.mem_map.1 hx
      rfl
  rw [← hall]
  refine filter_foldl_splice_sublist (fun c hc => (h c (mem_lastFirst.1 hc)).order) fun c _ x hx => ?_
  obtain ⟨line, -, rfl⟩ := List.mem_map.1 hx
  rfl

/-- A line in no range is left exactly if the changes above it miss it. -/
theorem mem_followed_iff (h : ∀ c ∈ cs, c.place.Within n) (hline : old[i]? = some line)
    (hout : ∀ c ∈ cs, c.place.covers i = false) :
    (some i, line) ∈ followed cs old ↔ Misses ((lastFirst cs).filter (·.endLine ≤ i)) i := by
  obtain ⟨hi, rfl⟩ := List.getElem?_eq_some_iff.1 hline
  have hget : (numbered old)[i]? = some (some i, old[i]) := by simp [numbered, hi]
  obtain ⟨hi', hget⟩ := List.getElem?_eq_some_iff.1 hget
  have hsplit : numbered old = (numbered old).take i ++ (some i, old[i]) :: (numbered old).drop (i + 1) := by
    rw [← hget, List.getElem_cons_drop, List.take_append_drop]
  have hlength : ((numbered old).take i).length = i := List.length_take_of_le (Nat.le_of_lt hi')
  obtain ⟨-, hb, hdisjoint⟩ := List.nodup_append.1 (hsplit ▸ nodup_numbered old)
  have ha : (some i, old[i]) ∉ (numbered old).take i := fun hx => hdisjoint _ hx _ List.mem_cons_self rfl
  have hnew : ∀ c ∈ lastFirst cs, (some i, old[i]) ∉ (Text.lines c.after).map (Prod.mk none) := fun c _ hx => by
    obtain ⟨line, -, heq⟩ := List.mem_map.1 hx
    cases heq
  rw [followed, hsplit]
  refine (mem_foldl_splice_iff (fun c hc => ?_) (pairwise_lastFirst cs) (fun c _ => List.length_map _) hnew ha
    (List.nodup_cons.1 hb).1 fun c hc => ?_).trans (by rw [hlength])
  · have hc := h c (mem_lastFirst.1 hc)
    exact ⟨hc.first, hc.order⟩
  · rw [hlength]
    exact hout c (mem_lastFirst.1 hc)

/-- No line outside the ranges is lost, unless a change that leaves fewer lines than it finds meets one that is applied
after it. -/
theorem mem_followed (h : ∀ c ∈ cs, c.place.Within n)
    (hpair : (lastFirst cs).Pairwise fun c d => c.Apart d ∨ 0 ≤ c.growth)
    (hline : old[i]? = some line) (hout : ∀ c ∈ cs, c.place.covers i = false) : (some i, line) ∈ followed cs old := by
  refine (mem_followed_iff h hline hout).2 (misses_of_pairwise (fun c hc => ?_) (List.Pairwise.filter _ ?_))
  · exact of_decide_eq_true (List.mem_filter.1 hc).2
  · refine ((pairwise_lastFirst cs).and hpair).imp_of_mem fun hc _ hcd => ?_
    exact hcd.2.imp_left (endLine_lt_of_apart (h _ (mem_lastFirst.1 hc)).order hcd.1)

end

end Change

def changesOf (file : String) (changes : List Change) : List Change := changes.filter (·.file == file)

section
variable {changes : List Change} {texts : Texts}
variable {file : String}

theorem mem_changesOf {c : Change} : c ∈ changesOf file changes ↔ c ∈ changes ∧ c.file = file := by
  rw [changesOf, List.mem_filter, beq_iff_eq]

theorem applyChanges_eq_patch (changes : List Change) (h : (texts.map Prod.fst).Nodup) :
    applyChanges changes texts = texts.map fun e => (e.1, patch (changesOf e.1 changes) e.2) :=
  applyChanges_eq_map changes h

theorem Texts.has_iff : texts.has file = true ↔ file ∈ texts.map Prod.fst := by
  rw [Texts.has, List.any_eq_true, List.mem_map]
  exact exists_congr fun e => and_congr_right fun _ => beq_iff_eq

/-- Where the ranges lie in their files and no two of a file meet, applying changes replaces all ranges at once, by the
numbers of the lines as they were and in whatever order the changes are listed. Texts keep their order, and those that
no change names are kept; changes of other files do nothing, and are the only ones that are not marked. -/
theorem applyChanges_replaces_at_once (hkeys : (texts.map Prod.fst).Nodup)
    (hwithin : ∀ e ∈ texts, ∀ c ∈ changes, c.file = e.1 → c.place.Within (Text.lines e.2).length)
    (hapart : ∀ e ∈ texts, (changesOf e.1 changes).Pairwise Change.Apart) :
    (∀ listed : List Change, listed.Perm changes →
      applyChanges listed texts = texts.map fun e => (e.1, Change.replaced (changesOf e.1 changes) e.2)) ∧
    (applyChanges changes texts).map Prod.fst = texts.map Prod.fst ∧
    (∀ e ∈ texts, (∀ c ∈ changes, c.file ≠ e.1) → e ∈ applyChanges changes texts) ∧
    applyChanges (changes.filter (texts.has ·.file)) texts = applyChanges changes texts ∧
    List.Forall₂ (fun c marked => marked = { c with applied := marked.applied } ∧
      (marked.applied = true ↔ c.applied = true ∨ c.file ∈ texts.map Prod.fst)) changes (markApplied changes texts) := by
  refine ⟨fun listed hlisted => ?_, ?_, fun e he hnone => ?_, ?_, ?_⟩
  · rw [applyChanges_eq_patch listed hkeys]
    refine List.map_congr_left fun e he => ?_
    have hperm : (changesOf e.1 listed).Perm (changesOf e.1 changes) := hlisted.filter _
    have hapart' := (hapart e he).perm hperm.symm Or.symm
    have hown : ∀ c ∈ changesOf e.1 listed, c.place.Within (Text.lines e.2).length := fun c hc =>
      hwithin e he c (hlisted.mem_iff.1 (mem_changesOf.1 hc).1) (mem_changesOf.1 hc).2
    rw [Change.patch_eq_replaced hown hapart', Change.replaced_perm hperm hapart']
  · rw [applyChanges_eq_patch changes hkeys, List.map_map]
    rfl
  · have hown : changesOf e.1 changes = [] := List.filter_eq_nil_iff.2 fun c hc => by simp [hnone c hc]
    rw [applyChanges_eq_patch changes hkeys]
    exact List.mem_map.2 ⟨e, he, by rw [hown, patch_nil]⟩
  · rw [applyChanges_eq_patch _ hkeys, applyChanges_eq_patch changes hkeys]
    refine List.map_congr_left fun e he => ?_
    have hown : changesOf e.1 (changes.filter (texts.has ·.file)) = changesOf e.1 changes := by
      rw [changesOf, List.filter_filter]
      refine List.filter_congr fun c _ => ?_
      by_cases hc : c.file = e.1
      · simp [hc, Texts.has_iff.2 (List.mem_map_of_mem he)]
      · simp [hc]
    rw [hown]
  · rw [markApplied, List.forall₂_map_right_iff]
    refine List.forall₂_same.2 fun c _ => ?_
    by_cases hc : texts.has c.file = true
    · rw [if_pos hc]
      exact ⟨rfl, iff_of_true rfl (.inr (Texts.has_iff.1 hc))⟩
    · rw [if_neg hc]
      exact ⟨rfl, (or_iff_left (mt Texts.has_iff.2 hc)).symm⟩

def linesChange (file : String) (first last : Int) (after : String) : Change :=
  { id := "", findingId := "", file := file, before := "", after := after, startLine := first, endLine := last,
    explanation := "" }

/-- Two ranges side by side, listed from the first, one of them with fewer lines than before and one with more, and a
change of a file that is not there. -/
theorem applyChanges_adjacent_ranges :
    applyChanges [linesChange "a.py" 1 2 "x", linesChange "b.py" 1 9 "w", linesChange "a.py" 3 3 "y\nz"]
      [("a.py", "1\n2\n3\n4"), ("c.py", "")] = [("a.py", "x\ny\nz\n4"), ("c.py", "")] := by
  refine ((applyChanges_replaces_at_once ?_ ?_ ?_).1 _ (.refl _)).trans ?_
  · decide
  · decide +kernel
  · decide +kernel
  · decide +kernel

/-- The lines of a text can be followed through all its changes. Those that are left stand there once each and in their
order. One that lies in no range is left exactly if the changes above it miss it, by where the line has moved when
their turn comes; so all of these are left, unless a change that leaves fewer lines than it finds meets one that is
applied after it. -/
theorem outside_line_left_iff (changes : List Change) (hkeys : (texts.map Prod.fst).Nodup) {file text : String}
    (htext : (file, text) ∈ texts)
    (hwithin : ∀ c ∈ changes, c.file = file → c.place.Within (Text.lines text).length) :
    (file, Text.unlines ((Change.followed (changesOf file changes) (Text.lines text)).map Prod.snd)) ∈
      applyChanges changes texts ∧
    ((Change.followed (changesOf file changes) (Text.lines text)).filter (·.1.isSome)).Sublist
      (Change.numbered (Text.lines text)) ∧
    ∀ i line, (Text.lines text)[i]? = some line → (∀ c ∈ changesOf file changes, c.place.covers i = false) →
      ((some i, line) ∈ Change.followed (changesOf file changes) (Text.lines text) ↔
        Change.Misses ((lastFirst (changesOf file changes)).filter (·.endLine ≤ i)) i) ∧
      ((lastFirst (changesOf file changes)).Pairwise (fun c d => c.Apart d ∨ 0 ≤ c.growth) →
        (some i, line) ∈ Change.followed (changesOf file changes) (Text.lines text)) := by
  have hown : ∀ c ∈ changesOf file changes, c.place.Within (Text.lines text).length := fun c hc =>
    hwithin c (mem_changesOf.1 hc).1 (mem_changesOf.1 hc).2
  refine ⟨?_, Change.filter_followed_sublist hown _, fun i line hline hout =>
    ⟨Change.mem_followed_iff hown hline hout, fun hpair => Change.mem_followed hown hpair hline hout⟩⟩
  rw [Change.map_snd_followed hown, applyChanges_eq_patch changes hkeys]
  exact List.mem_map.2 ⟨(file, text), htext, rfl⟩

/-- A change within another that brings more lines than it takes: the line behind both is left. -/
theorem outside_line_left_behind_growth :
    (some 3, "4") ∈ Change.followed
      (changesOf "a.py" [linesChange "a.py" 2 3 "a\nb\nc", linesChange "a.py" 1 3 "x"]) (Text.lines "1\n2\n3\n4") := by
  have hsorted : lastFirst (changesOf "a.py" [linesChange "a.py" 2 3 "a\nb\nc", linesChange "a.py" 1 3 "x"]) =
      [linesChange "a.py" 2 3 "a\nb\nc", linesChange "a.py" 1 3 "x"] := List.mergeSort_of_pairwise (by decide)
  have hkeys : (([("a.py", "1\n2\n3\n4")] : Texts).map Prod.fst).Nodup := by decide
  have hleft := (outside_line_left_iff [linesChange "a.py" 2 3 "a\nb\nc", linesChange "a.py" 1 3 "x"] hkeys
    List.mem_cons_self (by decide +kernel)).2.2
  refine (hleft 3 "4" (by decide +kernel) (by decide +kernel)).2 ?_
  rw [hsorted]
  decide +kernel

/-- A change within another that brings fewer lines than it takes: the line behind both is in neither range, and is
lost. -/
theorem outside_line_lost_behind_shrinking :
    (∀ c ∈ [linesChange "a.py" 2 3 "y", linesChange "a.py" 1 3 "x"],
      c.place.Within (Text.lines "1\n2\n3\n4").length ∧ c.place.covers 3 = false) ∧
    (Text.lines "1\n2\n3\n4")[3]? = some "4" ∧
    ¬ Change.Misses [linesChange "a.py" 2 3 "y", linesChange "a.py" 1 3 "x"] 3 ∧
    applyChanges [linesChange "a.py" 2 3 "y", linesChange "a.py" 1 3 "x"] [("a.py", "1\n2\n3\n4")] =
      [("a.py", "x")] := by
  refine ⟨by decide +kernel, by decide +kernel, by decide +kernel, ?_⟩
  rw [applyChanges_one (by decide), patch, lastFirst, List.mergeSort_of_pairwise (by decide)]
  decide +kernel

end

end CodeMigration
