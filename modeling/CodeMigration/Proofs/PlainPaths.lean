import CodeMigration.Repository
import CodeMigration.Proofs.Patches
import Mathlib.Data.List.SplitBy

/-! # Paths and their texts

A path is read back from its text, as long as its parts are names. The parts of a path that was read from a text always
are, and so is the name of a repository, if it is neither empty nor a dot. -/

namespace CodeMigration

namespace FilePath

/-- Something that can be a part of a path. -/
def IsName (s : String) : Prop := s ≠ "" ∧ s ≠ "." ∧ '/' ∉ s.toList

instance (s : String) : Decidable (IsName s) := inferInstanceAs (Decidable (_ ∧ _))

/-- A path that starts with at most two slashes, and whose parts are names. -/
structure IsNormal (p : FilePath) : Prop where
  root : p.root = "" ∨ p.root = "/" ∨ p.root = "//"
  parts : ∀ s ∈ p.parts, IsName s

variable {c : Char} {cs : List Char} {s : String} {parts : List String}

theorem slash_not_mem_of_isChain (h : (c :: cs).IsChain fun a b => (a != '/' && b != '/') = true) (hc : c ≠ '/') :
    '/' ∉ c :: cs := by
  induction cs generalizing c with
  | nil => simpa using hc.symm
  | cons d ds ih =>
    obtain ⟨hcd, hds⟩ := List.isChain_cons_cons.1 h
    have hd : d ≠ '/' := by simpa using (Bool.and_eq_true_iff.1 hcd).2
    exact List.not_mem_cons_of_ne_of_not_mem hc.symm (ih hds hd)

theorem isName_of_mem_splitSlashes (h : s ∈ splitSlashes cs) (hdot : s ≠ ".") : IsName s := by
  obtain ⟨piece, hpiece, hs⟩ := List.mem_filterMap.1 h
  split at hs
  · cases hs
  case isFalse hhead =>
    cases hs
    cases piece with
    | nil => exact absurd hpiece (List.nil_notMem_splitBy _ _)
    | cons c cs =>
      have hc : c ≠ '/' := by simpa using hhead
      refine ⟨?_, hdot, ?_⟩
      · simp [← String.toList_inj]
      · rw [String.toList_ofList]
        exact slash_not_mem_of_isChain (List.isChain_of_mem_splitBy hpiece) hc

theorem isNormal_ofString (s : String) : (ofString s).IsNormal := by
  refine ⟨?_, fun part hpart => ?_⟩
  · simp only [ofString]
    split
    · exact .inl rfl
    · split
      · exact .inr (.inr rfl)
      · exact .inr (.inl rfl)
  · obtain ⟨hpart, hdot⟩ := List.mem_filter.1 hpart
    exact isName_of_mem_splitSlashes hpart (by simpa using hdot)

theorem splitSlashes_append_slash (cs ds : List Char) :
    splitSlashes (cs ++ '/' :: ds) = splitSlashes cs ++ splitSlashes ds := by
  have hfirst : ('/' :: ds).splitBy (fun a b => a != '/' && b != '/') =
      ['/'] :: ds.splitBy fun a b => a != '/' && b != '/' := by
    have hrest : ∀ x ∈ ['/'].getLast?, ∀ y ∈ ds.head?, (x != '/' && y != '/') = false := by
      intro x hx y _
      cases hx
      rfl
    exact List.splitBy_append hrest
  rw [splitSlashes, List.splitBy_append_cons ds (fun x _ => by simp), hfirst, List.filterMap_append]
  rfl

theorem isChain_of_slash_not_mem (h : '/' ∉ cs) : cs.IsChain fun a b => (a != '/' && b != '/') = true := by
  refine (List.pairwise_of_forall_mem_list fun a ha b hb => ?_).isChain
  have hne {c : Char} (hc : c ∈ cs) : c ≠ '/' := fun heq => h (heq ▸ hc)
  simp [hne ha, hne hb]

theorem splitSlashes_of_isName (h : IsName s) : splitSlashes s.toList = [s] := by
  have hne : s.toList ≠ [] := by simpa using h.1
  have hhead : ¬(s.toList.head? == some '/') = true := by
    intro hhead
    exact h.2.2 (List.mem_of_mem_head? (beq_iff_eq.1 hhead))
  rw [splitSlashes, List.splitBy_of_isChain hne (isChain_of_slash_not_mem h.2.2), List.filterMap_cons, if_neg hhead,
    String.ofList_toList]
  rfl

theorem splitSlashes_intercalate (h : ∀ s ∈ parts, IsName s) : splitSlashes ("/".intercalate parts).toList = parts := by
  induction parts with
  | nil => rfl
  | cons s parts ih =>
    obtain ⟨hs, hparts⟩ := List.forall_mem_cons.1 h
    cases parts with
    | nil => exact splitSlashes_of_isName hs
    | cons next parts =>
      rw [String.intercalate_cons_cons, String.toList_append, String.toList_append, List.append_assoc]
      have hslash : "/".toList ++ ("/".intercalate (next :: parts)).toList =
          '/' :: ("/".intercalate (next :: parts)).toList := rfl
      rw [hslash, splitSlashes_append_slash, splitSlashes_of_isName hs, ih hparts]
      rfl

theorem takeWhile_intercalate (h : ∀ s ∈ parts, IsName s) :
    ("/".intercalate parts).toList.takeWhile (· == '/') = [] := by
  cases parts with
  | nil => rfl
  | cons s parts =>
    obtain ⟨hne, -, hslash⟩ := h s List.mem_cons_self
    cases hs : s.toList with
    | nil => exact absurd hs (by simpa using hne)
    | cons c cs =>
      have hc : ¬(c == '/') = true := by
        rw [hs] at hslash
        simpa using Ne.symm (List.ne_of_not_mem_cons hslash)
      cases parts with
      | nil => rw [String.intercalate_singleton, hs, List.takeWhile_cons, if_neg hc]
      | cons next parts =>
        rw [String.intercalate_cons_cons, String.toList_append, String.toList_append, hs, List.cons_append,
          List.cons_append, List.takeWhile_cons, if_neg hc]

theorem slashes_intercalate (h : ∀ s ∈ parts, IsName s) {slashes : List Char} (hslashes : ∀ c ∈ slashes, c = '/') :
    splitSlashes (slashes ++ ("/".intercalate parts).toList) = parts ∧
      (slashes ++ ("/".intercalate parts).toList).takeWhile (· == '/') = slashes := by
  constructor
  · induction slashes with
    | nil => exact splitSlashes_intercalate h
    | cons c slashes ih =>
      obtain ⟨hc, hrest⟩ := List.forall_mem_cons.1 hslashes
      rw [hc]
      exact (splitSlashes_append_slash [] _).trans (ih hrest)
  · rw [List.takeWhile_append_of_pos fun c hc => beq_iff_eq.2 (hslashes c hc), takeWhile_intercalate h, List.append_nil]

theorem IsNormal.ofString_toString {p : FilePath} (h : p.IsNormal) : ofString p.toString = p := by
  obtain ⟨root, parts⟩ := p
  obtain ⟨hroot, hparts⟩ := h
  rw [toString]
  split
  case isTrue hempty =>
    obtain ⟨hroot, hparts⟩ := Bool.and_eq_true_iff.1 hempty
    obtain rfl : root = "" := String.isEmpty_iff.1 hroot
    obtain rfl : parts = [] := List.isEmpty_iff.1 hparts
    rfl
  case isFalse =>
    have hslashes : ∀ c ∈ root.toList, c = '/' := by
      rcases hroot with rfl | rfl | rfl <;> simp
    have hdots : parts.filter (· != ".") = parts :=
      List.filter_eq_self.2 fun s hs => bne_iff_ne.2 (hparts s hs).2.1
    obtain ⟨hsplit, hcount⟩ := slashes_intercalate hparts hslashes
    simp only [ofString, String.toList_append, hsplit, hcount, hdots]
    rcases hroot with rfl | rfl | rfl <;> rfl

theorem ofString_of_isName (h : IsName s) : ofString s = ⟨"", [s]⟩ := by
  have hnormal : IsNormal ⟨"", [s]⟩ := ⟨.inl rfl, List.forall_mem_singleton.2 h⟩
  have htext : toString ⟨"", [s]⟩ = s := by
    rw [toString, String.intercalate_singleton]
    exact String.empty_append
  exact htext ▸ hnormal.ofString_toString

theorem mem_of_mem_splitSlashes (h : s ∈ splitSlashes cs) (hc : c ∈ s.toList) : c ∈ cs := by
  obtain ⟨piece, hpiece, hs⟩ := List.mem_filterMap.1 h
  split at hs
  · cases hs
  · cases hs
    rw [String.toList_ofList] at hc
    rw [← List.flatten_splitBy (fun a b => a != '/' && b != '/') cs]
    exact List.mem_flatten.2 ⟨piece, hpiece, hc⟩

theorem not_mem_intercalate (hslash : c ≠ '/') (h : ∀ s ∈ parts, c ∉ s.toList) :
    c ∉ ("/".intercalate parts).toList := by
  induction parts with
  | nil => exact List.not_mem_nil
  | cons s parts ih =>
    obtain ⟨hs, hparts⟩ := List.forall_mem_cons.1 h
    cases parts with
    | nil =>
      rw [String.intercalate_singleton]
      exact hs
    | cons next parts =>
      rw [String.intercalate_cons_cons, String.toList_append, String.toList_append, List.mem_append, List.mem_append]
      exact not_or_intro (not_or_intro hs (by simpa using hslash)) (ih hparts)

theorem intercalate_injOn {parts' : List String} (h : ∀ s ∈ parts, IsName s) (h' : ∀ s ∈ parts', IsName s) :
    "/".intercalate parts = "/".intercalate parts' ↔ parts = parts' := by
  refine ⟨fun heq => ?_, congrArg _⟩
  rw [← splitSlashes_intercalate h, heq, splitSlashes_intercalate h']

/-- What a path ends with is what its last part ends with, as long as there is no slash in it. -/
theorem endsWith_intercalate (hne : parts ≠ []) {ending : List Char} (hslash : '/' ∉ ending) :
    RemoteUrl.endsWith ("/".intercalate parts).toList ending =
      RemoteUrl.endsWith (parts.getLast?.getD "").toList ending := by
  rw [Bool.eq_iff_iff]
  simp only [RemoteUrl.endsWith, List.isPrefixOf_iff_prefix, List.reverse_prefix]
  induction parts with
  | nil => exact absurd rfl hne
  | cons s parts ih =>
    cases parts with
    | nil => rw [String.intercalate_singleton]; rfl
    | cons next parts =>
      rw [List.getLast?_cons_cons, ← ih (List.cons_ne_nil _ _), String.intercalate_cons_cons, String.toList_append,
        String.toList_append, List.append_assoc]
      generalize ("/".intercalate (next :: parts)).toList = last
      have htail : '/' :: last <:+ s.toList ++ ("/".toList ++ last) := List.suffix_append _ _
      constructor
      · intro hending
        rcases List.suffix_or_suffix_of_suffix hending htail with h | h
        · rcases List.suffix_cons_iff.1 h with rfl | h
          · exact absurd List.mem_cons_self hslash
          · exact h
        · exact absurd (h.subset List.mem_cons_self) hslash
      · exact fun hending => (hending.trans (List.suffix_cons '/' last)).trans htail

end FilePath

theorem Repository.clonePath_eq {url : String} (h : FilePath.IsName (RemoteUrl.repoName url)) (workDir : String) :
    clonePath url workDir =
      ⟨(FilePath.ofString workDir).root, (FilePath.ofString workDir).parts ++ [RemoteUrl.repoName url]⟩ := by
  rw [clonePath, FilePath.child, FilePath.ofString_of_isName h]
  rfl

end CodeMigration
