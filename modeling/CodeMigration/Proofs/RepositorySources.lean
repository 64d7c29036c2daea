import CodeMigration.Proofs.TreeFiles
import CodeMigration.Workflow

/-! # The sources of a repository

Files of a repository are left out if they lie in a directory with one of a few names. Discovery looks for these names
in the whole path, so it also takes the place of the repository and its own name into account: where one of them is
such a name, nothing is found. -/

namespace CodeMigration

namespace FileTree

variable {t u : FileTree}

/-- No path is listed twice. -/
theorem Tidy.nodup_contents (h : t.Tidy) : (t.contents.map Prod.fst).Nodup := by
  rw [List.nodup_iff_count]
  intro p
  rw [List.count, List.countP_map, List.countP_eq_length_filter]
  have hfilter := filter_contents h p
  simp only [Function.comp_def] at hfilter ⊢
  rw [hfilter]
  split
  · exact Nat.zero_le _
  · cases t.at? p <;> simp

end FileTree

namespace Workflow

variable {d : Disk} {dir : FilePath} {t : FileTree} {rest : List String}

/-- A source of a repository: a path in its tree that ends in `.py`, with no name on it that is left out. -/
structure HasSource (t : FileTree) (rest : List String) : Prop where
  there : ∃ u, t.at? rest = some u
  ends : ∃ name, rest.getLast? = some name ∧ ".py".toList <:+ name.toList
  kept : ∀ name ∈ rest, name ∉ skippedDirs

theorem isSource_iff : isSource rest = true ↔ ∃ name, rest.getLast? = some name ∧ ".py".toList <:+ name.toList := by
  rw [isSource, RemoteUrl.endsWith, List.isPrefixOf_iff_prefix, List.reverse_prefix]
  cases rest.getLast? with
  | none => simp
  | some name => simp

/-- What is found, as a part of the listed paths. -/
theorem discover_eq (hfind : d.find dir = .ok t) : discover d dir =
    (((FileTree.sortPaths t.contents).map Prod.fst).filter fun rest =>
      isSource rest && !(dir.parts ++ rest).any skippedDirs.contains).map fun rest => ⟨dir.root, dir.parts ++ rest⟩ := by
  rw [discover, hfind, List.filter_map, List.filter_filter]
  simp only [Function.comp_def, Bool.and_comm]

theorem mem_discover (htidy : t.Tidy) (hfind : d.find dir = .ok t) {p : FilePath} :
    p ∈ discover d dir ↔
      (∀ name ∈ dir.parts, name ∉ skippedDirs) ∧ ∃ rest, HasSource t rest ∧ p = ⟨dir.root, dir.parts ++ rest⟩ := by
  have hlisted : ∀ rest, rest ∈ (FileTree.sortPaths t.contents).map Prod.fst ↔ rest ≠ [] ∧ ∃ u, t.at? rest = some u := by
    intro rest
    simp [FileTree.sortPaths, FileTree.mem_contents htidy]
  rw [discover_eq hfind]
  simp only [List.mem_map, List.mem_filter, hlisted, Bool.and_eq_true, isSource_iff]
  constructor
  · rintro ⟨rest, ⟨⟨-, hthere⟩, hends, hnames⟩, rfl⟩
    obtain ⟨hdir, hrest⟩ : (∀ name ∈ dir.parts, name ∉ skippedDirs) ∧ ∀ name ∈ rest, name ∉ skippedDirs := by
      simpa using hnames
    exact ⟨hdir, rest, ⟨hthere, hends, hrest⟩, rfl⟩
  · rintro ⟨hdir, rest, ⟨hthere, hends, hrest⟩, rfl⟩
    refine ⟨rest, ⟨⟨?_, hthere⟩, hends, by simpa using ⟨hdir, hrest⟩⟩, rfl⟩
    rintro rfl
    obtain ⟨name, hname, -⟩ := hends
    cases hname

theorem nodup_discover (htidy : t.Tidy) (hfind : d.find dir = .ok t) : (discover d dir).Nodup := by
  have hsorted : ((FileTree.sortPaths t.contents).map Prod.fst).Nodup :=
    ((List.mergeSort_perm _ _).map Prod.fst).nodup_iff.2 htidy.nodup_contents
  rw [discover_eq hfind]
  refine List.Pairwise.map _ (fun rest rest' hne heq => hne ?_) (hsorted.filter _)
  simpa using heq

/-- A repository is found to have exactly its sources, each once, if none of the names in front of it is left out.
Otherwise nothing is found, which is right only where it has no sources. -/
theorem discover_exact_iff (htidy : t.Tidy) (hfind : d.find dir = .ok t) :
    (discover d dir).Nodup ∧
      (∀ p, p ∈ discover d dir ↔
        (∀ name ∈ dir.parts, name ∉ skippedDirs) ∧ ∃ rest, HasSource t rest ∧ p = ⟨dir.root, dir.parts ++ rest⟩) ∧
      ((∀ p, p ∈ discover d dir ↔ ∃ rest, HasSource t rest ∧ p = ⟨dir.root, dir.parts ++ rest⟩) ↔
        (∀ name ∈ dir.parts, name ∉ skippedDirs) ∨ ∀ rest, ¬HasSource t rest) := by
  refine ⟨nodup_discover htidy hfind, fun p => mem_discover htidy hfind, ?_⟩
  simp only [mem_discover htidy hfind]
  constructor
  · intro hexact
    by_cases hsource : ∃ rest, HasSource t rest
    · obtain ⟨rest, hrest⟩ := hsource
      exact .inl ((hexact ⟨dir.root, dir.parts ++ rest⟩).2 ⟨rest, hrest, rfl⟩).1
    · exact .inr (not_exists.1 hsource)
  · rintro (hkept | hnone) p
    · exact and_iff_right hkept
    · refine iff_of_false ?_ ?_
      · rintro ⟨-, rest, hrest, -⟩
        exact hnone rest hrest
      · rintro ⟨rest, hrest, -⟩
        exact hnone rest hrest

def smallRepository : FileTree := .dir [("a.py", .file []), ("build", .dir [("b.py", .file [])])]

def twoPlaces : Disk := { here := .dir [("repo", smallRepository), ("build", smallRepository)] }

theorem tidy_smallRepository : smallRepository.Tidy := by
  have hbuild : (FileTree.dir [("b.py", .file [])]).Tidy := by
    refine FileTree.tidy_dir.2 ⟨by decide, fun e he => ?_⟩
    obtain rfl := List.mem_singleton.1 he
    exact FileTree.tidy_file []
  refine FileTree.tidy_dir.2 ⟨by decide, fun e he => ?_⟩
  rcases List.mem_pair.1 he with rfl | rfl
  · exact FileTree.tidy_file []
  · exact hbuild

theorem discover_exact_repo : twoPlaces.find ⟨"", ["repo"]⟩ = .ok smallRepository ∧
    ∀ p, p ∈ discover twoPlaces ⟨"", ["repo"]⟩ ↔ ∃ rest, HasSource smallRepository rest ∧ p = ⟨"", "repo" :: rest⟩ :=
  ⟨rfl, (discover_exact_iff tidy_smallRepository rfl).2.2.2 (.inl (by decide))⟩

/-- One repository at two places: at one its own directory of builds is left out, at the other all of it. -/
theorem discover_depends_on_place :
    HasSource smallRepository ["a.py"] ∧
      twoPlaces.find ⟨"", ["repo"]⟩ = .ok smallRepository ∧
      discover twoPlaces ⟨"", ["repo"]⟩ = [⟨"", ["repo", "a.py"]⟩] ∧
      twoPlaces.find ⟨"", ["build"]⟩ = .ok smallRepository ∧ discover twoPlaces ⟨"", ["build"]⟩ = [] := by
  have hlisted : FileTree.sortPaths smallRepository.contents = smallRepository.contents :=
    List.mergeSort_of_pairwise (by decide)
  refine ⟨⟨⟨_, rfl⟩, ⟨_, rfl, by decide⟩, by decide⟩, rfl, ?_, rfl, ?_⟩
  all_goals
    rw [discover_eq rfl, hlisted]
    rfl

end Workflow

end CodeMigration
