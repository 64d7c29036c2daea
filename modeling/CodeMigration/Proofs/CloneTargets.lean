import CodeMigration.Proofs.CloneSpots
import CodeMigration.Proofs.TreeFiles
import Mathlib.Data.List.TakeWhile

/-! # What cloning removes

The directory of a clone is named by what stands last in the address of the repository. Mostly this is a name that leads
down from the work directory; but it can be nothing or a dot, and then the work directory itself is removed and cloned
over, or two dots, and then all that is in the directory above it is removed. Files that stand outside are never
touched. -/

namespace CodeMigration

open Act

namespace RemoteUrl

/-- The characters of an address, less what it ends with if it is the ending of repositories. -/
def bare (url : String) : List Char :=
  if endsWith url.toList ".git".toList then url.toList.take (url.toList.length - 4) else url.toList

theorem getLast?_splitChars (sep : Char) (cs : List Char) :
    (Text.splitChars sep cs).getLast? = some (cs.reverse.takeWhile (· != sep)).reverse := by
  have hlast : sep ∉ (cs.reverse.takeWhile (· != sep)).reverse := fun h => by
    simpa using List.mem_takeWhile_imp (List.mem_reverse.1 h)
  have hsplit := List.takeWhile_append_dropWhile (p := (· != sep)) (l := cs.reverse)
  rw [Text.splitChars_eq_splitOn]
  cases hrest : cs.reverse.dropWhile (· != sep) with
  | nil =>
    rw [hrest, List.append_nil] at hsplit
    rw [hsplit, List.reverse_reverse] at hlast ⊢
    rw [List.splitOn_eq_singleton hlast]
    rfl
  | cons c before =>
    obtain rfl : c = sep := by
      have hc := List.head_dropWhile_not (· != sep) (w := by rw [hrest]; exact List.cons_ne_nil _ _)
      simpa [hrest] using hc
    have hcs : cs = before.reverse ++ c :: (cs.reverse.takeWhile (· != c)).reverse := by
      have hback := congrArg List.reverse hsplit
      rw [hrest, List.reverse_append, List.reverse_reverse, List.reverse_cons, List.append_assoc] at hback
      exact hback.symm
    nth_rewrite 1 [hcs]
    rw [List.splitOn_append_cons_self, List.splitOn_eq_singleton hlast, List.getLast?_append]
    rfl

theorem reverse_repoName (url : String) :
    (repoName url).toList.reverse = ((bare url).reverse.dropWhile (· == '/')).takeWhile (· != '/') := by
  have hname : repoName url = ((parts (dropRight (· == '/') (bare url))).getLast?.getD "") := rfl
  rw [hname, parts, List.getLast?_map, getLast?_splitChars, dropRight, List.reverse_reverse]
  simp

theorem slash_not_mem_repoName (url : String) : '/' ∉ (repoName url).toList := by
  rw [← List.mem_reverse, reverse_repoName]
  exact fun h => by simpa using List.mem_takeWhile_imp h

end RemoteUrl

namespace FileTree

section
variable {t t' : FileTree} {p q : List String}

/-- With a directory goes all that is below it, and no other file. -/
theorem fileAt?_removeDir (h : removeDir t p = .ok t') (q : List String) :
    (p <+: q → t'.fileAt? q = none) ∧ (¬p <+: q → t'.fileAt? q = t.fileAt? q) := by
  constructor
  · rintro ⟨rest, rfl⟩
    obtain ⟨r, hr, hat⟩ := at?_update_self h
    obtain rfl : r = none := by
      split at hr <;> cases hr
      rfl
    rw [fileAt?, at?_append, hat]
    split
    · exact fileAt?_empty rest
    · rfl
  · intro hpq
    by_cases hqp : q <+: p
    · have hne : q ≠ p := fun heq => hpq (heq ▸ List.prefix_refl p)
      obtain ⟨⟨entries, hentries⟩, entries', hentries'⟩ := find_of_update h hqp hne
      rw [fileAt?_eq_none_of_dir (at?_eq_some.2 hentries), fileAt?_eq_none_of_dir (at?_eq_some.2 hentries')]
    · rw [fileAt?, fileAt?, at?, at?, find_update_of_incomparable h hpq hqp]

theorem straighten_append (t : FileTree) (done p q : List String) :
    t.straighten done (p ++ q) = t.straighten done p >>= fun mid => t.straighten mid q := by
  induction p generalizing done with
  | nil => rw [straighten]; rfl
  | cons name rest ih =>
    rw [List.cons_append]
    by_cases hname : name = ".."
    · subst hname
      rw [straighten, straighten]
      cases t.find done with
      | error fault => rfl
      | ok u =>
        cases u with
        | file content => rfl
        | dir entries =>
          simp only [bind, Except.bind]
          split
          · rfl
          · exact ih _
    · rw [straighten_cons hname, straighten_cons hname, ih]

end

end FileTree

namespace Disk

def fileAt? (d : Disk) (p : FilePath) : Option Text.Bytes := (d.treeOf p).fileAt? p.parts

/-- Where a path leads, once the steps back in it are taken. -/
def straighten (d : Disk) (p : FilePath) : Except FileFault (List String) := (d.treeOf p).straighten [] p.parts

/-- A path without steps back leads to where another one does, or to what is below. -/
def Below (d : Disk) (p q : FilePath) : Prop :=
  p.root.isEmpty = q.root.isEmpty ∧ ∃ target, d.straighten p = .ok target ∧ target <+: q.parts

section
variable {d d' : Disk} {p : FilePath} {q : FilePath}

theorem exists_of_update {f : FileTree → List String → Except FileFault FileTree} (h : d.update p f = .ok d') :
    ∃ target t, d.straighten p = .ok target ∧ f (d.treeOf p) target = .ok t ∧ d' = d.withTree p t := by
  obtain ⟨target, htarget, h⟩ := of_bind_eq_ok h
  obtain ⟨t, ht, h⟩ := of_bind_eq_ok h
  exact ⟨target, t, htarget, ht, (Except.ok.inj h).symm⟩

theorem fileAt?_withTree_of_ne (h : p.root.isEmpty ≠ q.root.isEmpty) (t : FileTree) :
    (d.withTree p t).fileAt? q = d.fileAt? q := by
  rw [fileAt?, treeOf_withTree_of_ne h, fileAt?]

theorem fileAt?_withTree (h : p.root.isEmpty = q.root.isEmpty) (t : FileTree) :
    (d.withTree p t).fileAt? q = t.fileAt? q.parts := by
  rw [fileAt?, treeOf_withTree h]

theorem treeOf_congr (h : p.root.isEmpty = q.root.isEmpty) : d.treeOf p = d.treeOf q := by
  rw [treeOf, treeOf, h]

theorem fileAt?_removeDir (h : d.removeDir p = .ok d') (q : FilePath) :
    (d.Below p q → d'.fileAt? q = none) ∧ (¬d.Below p q → d'.fileAt? q = d.fileAt? q) := by
  obtain ⟨target, t, htarget, ht, rfl⟩ := exists_of_update h
  by_cases hroot : p.root.isEmpty = q.root.isEmpty
  · obtain ⟨hbelow, hother⟩ := FileTree.fileAt?_removeDir ht q.parts
    rw [fileAt?_withTree hroot, fileAt?, ← treeOf_congr hroot]
    constructor
    · rintro ⟨-, target', htarget', hq⟩
      obtain rfl := Except.ok.inj (htarget.symm.trans htarget')
      exact hbelow hq
    · exact fun hq => hother fun hp => hq ⟨hroot, target, htarget, hp⟩
  · exact ⟨fun hq => absurd hq.1 hroot, fun _ => fileAt?_withTree_of_ne hroot t⟩

theorem fileAt?_makeDirs (h : d.makeDirs p = .ok d') (q : FilePath) : d'.fileAt? q = d.fileAt? q := by
  obtain ⟨target, t, -, ht, rfl⟩ := exists_of_update h
  by_cases hroot : p.root.isEmpty = q.root.isEmpty
  · rw [fileAt?_withTree hroot, FileTree.fileAt?_makeDirs ht, fileAt?, treeOf_congr hroot]
  · exact fileAt?_withTree_of_ne hroot t

theorem isSome_fileAt?_place {content : Text.Bytes} (h : d.place p content = .ok d') (hq : (d.fileAt? q).isSome) :
    (d'.fileAt? q).isSome := by
  obtain ⟨made, hmade, hwrite⟩ := of_bind_eq_ok h
  rw [← fileAt?_makeDirs hmade] at hq
  obtain ⟨target, t, -, ht, rfl⟩ := exists_of_update hwrite
  by_cases hroot : p.root.isEmpty = q.root.isEmpty
  · rw [fileAt?, ← treeOf_congr hroot] at hq
    rw [fileAt?_withTree hroot, FileTree.fileAt?_write ht]
    split
    · rfl
    · exact hq
  · rwa [fileAt?_withTree_of_ne hroot]

end

end Disk

namespace Repository

/-- What is emptied for a repository of this name, by where the work directory leads. -/
def targetOf (name : String) (base : List String) : List String :=
  if name = "" ∨ name = "." then base else if name = ".." then base.dropLast else base ++ [name]

section
variable {d : Disk} {url workDir : String} {o : Outside} {w : World} {q path : FilePath}
  {entries : List (String × FileTree)}

theorem clonePath_eq_ite (url workDir : String) : clonePath url workDir =
    if RemoteUrl.repoName url = "" ∨ RemoteUrl.repoName url = "." then .ofString workDir
    else ⟨(FilePath.ofString workDir).root, (FilePath.ofString workDir).parts ++ [RemoteUrl.repoName url]⟩ := by
  split
  case isTrue hname =>
    have hnone : FilePath.ofString (RemoteUrl.repoName url) = ⟨"", []⟩ := by
      rcases hname with hname | hname <;> rw [hname] <;> rfl
    rw [clonePath, FilePath.child, hnone]
    exact congrArg (FilePath.mk _) (List.append_nil _)
  case isFalse hname =>
    rw [not_or] at hname
    exact clonePath_eq ⟨hname.1, hname.2, RemoteUrl.slash_not_mem_repoName url⟩ workDir

theorem root_clonePath (url workDir : String) : (clonePath url workDir).root = (FilePath.ofString workDir).root := by
  rw [clonePath_eq_ite]
  split <;> rfl

/-- A clone stands right in the work directory, under a name that leads down, exactly if its repository has such a
name. -/
theorem direct_child_iff (url workDir : String) :
    (∃ name, FilePath.IsPlain name ∧ clonePath url workDir =
      ⟨(FilePath.ofString workDir).root, (FilePath.ofString workDir).parts ++ [name]⟩) ↔
    FilePath.IsPlain (RemoteUrl.repoName url) := by
  constructor
  · rintro ⟨name, hplain, hpath⟩
    rw [clonePath_eq_ite] at hpath
    split at hpath
    · have hparts := congrArg (·.parts.length) hpath
      simp at hparts
    · have hparts := List.append_cancel_left (FilePath.mk.inj hpath).2
      rw [List.singleton_inj.1 hparts]
      exact hplain
  · exact fun hplain => ⟨_, hplain, clonePath_eq hplain.1 workDir⟩

theorem straighten_clonePath {target : List String} (h : d.straighten (clonePath url workDir) = .ok target) :
    ∃ base, d.straighten (.ofString workDir) = .ok base ∧ target = targetOf (RemoteUrl.repoName url) base := by
  have htree : d.treeOf (clonePath url workDir) = d.treeOf (.ofString workDir) :=
    Disk.treeOf_congr (by rw [root_clonePath])
  rw [Disk.straighten, htree, clonePath_eq_ite] at h
  split at h
  case isTrue hname => exact ⟨target, h, by rw [targetOf, if_pos hname]⟩
  case isFalse hname =>
    rw [FileTree.straighten_append] at h
    obtain ⟨base, hbase, hlast⟩ := of_bind_eq_ok h
    refine ⟨base, hbase, ?_⟩
    rw [targetOf, if_neg hname]
    split
    case isTrue hback =>
      -- Behind a step back there is the directory above, if there is one.
      rw [hback, FileTree.straighten] at hlast
      obtain ⟨u, -, hlast⟩ := of_bind_eq_ok hlast
      split at hlast
      · split at hlast
        · cases hlast
        · rw [FileTree.straighten] at hlast
          exact (Except.ok.inj hlast).symm
      · cases hlast
    case isFalse hback =>
      rw [FileTree.straighten_cons hback, FileTree.straighten] at hlast
      exact (Except.ok.inj hlast).symm

/-- The files at the paths that cloning empties. -/
def Emptied (d : Disk) (url workDir : String) (q : FilePath) : Prop :=
  (FilePath.ofString workDir).root.isEmpty = q.root.isEmpty ∧
    ∃ base, d.straighten (.ofString workDir) = .ok base ∧ targetOf (RemoteUrl.repoName url) base <+: q.parts

theorem Emptied.of_below (h : d.Below (clonePath url workDir) q) : Emptied d url workDir q := by
  obtain ⟨hroot, target, htarget, hq⟩ := h
  obtain ⟨base, hbase, rfl⟩ := straighten_clonePath htarget
  rw [root_clonePath] at hroot
  exact ⟨hroot, base, hbase, hq⟩

theorem Emptied.below (h : Emptied d url workDir q) {t : FileTree} (hfind : d.find (clonePath url workDir) = .ok t) :
    d.Below (clonePath url workDir) q := by
  obtain ⟨hroot, base, hbase, hq⟩ := h
  obtain ⟨target, htarget, -⟩ : ∃ target, d.straighten (clonePath url workDir) = .ok target ∧
      (d.treeOf (clonePath url workDir)).find target = .ok t := of_bind_eq_ok hfind
  obtain ⟨base', hbase', htarget'⟩ := straighten_clonePath htarget
  obtain rfl := Except.ok.inj (hbase.symm.trans hbase')
  rw [← root_clonePath url] at hroot
  exact ⟨hroot, target, htarget, htarget' ▸ hq⟩

theorem exists_removeDir (h : d.find path = .ok (.dir entries)) : ∃ d', d.removeDir path = .ok d' := by
  obtain ⟨target, htarget, hfind⟩ := of_bind_eq_ok h
  obtain ⟨t, ht⟩ := FileTree.exists_removeDir (FileTree.at?_eq_some.2 hfind)
  refine ⟨d.withTree path t, ?_⟩
  rw [Disk.removeDir, Disk.update, htarget]
  exact congrArg (· >>= fun t => pure (d.withTree path t)) ht

theorem vacate_of_dir (h : w.disk.find path = .ok (.dir entries)) (o : Outside) :
    w.disk.removeDir path = .ok ((vacate path).runIn o w).2.disk := by
  obtain ⟨d, hd⟩ := exists_removeDir h
  rw [vacate, runIn_bind_ok (runIn_get o w), h]
  dsimp only
  rw [removeAll, runIn_bind_ok (runIn_onDisk_ok hd), hd]
  split
  · rfl
  · split <;> rfl

theorem vacate_of_not_dir (h : ∀ entries, w.disk.find path ≠ .ok (.dir entries)) (o : Outside) :
    ((vacate path).runIn o w).2 = w := by
  rw [vacate, runIn_bind_ok (runIn_get o w)]
  cases hfind : w.disk.find path with
  | error fault => cases fault <;> rfl
  | ok t =>
    cases t with
    | file content => rfl
    | dir entries => exact absurd hfind (h entries)

def Spares (d : Disk) (path : FilePath) (d' : Disk) : Prop :=
  ∀ q, (d.fileAt? q).isSome → (d'.fileAt? q).isSome ∨ d.Below path q

theorem vacate_spares (path : FilePath) (o : Outside) (w : World) :
    Spares w.disk path ((vacate path).runIn o w).2.disk := by
  intro q hq
  by_cases hdir : ∃ entries, w.disk.find path = .ok (.dir entries)
  · obtain ⟨entries, hfind⟩ := hdir
    by_cases hbelow : w.disk.Below path q
    · exact .inr hbelow
    · rw [(Disk.fileAt?_removeDir (vacate_of_dir hfind o) q).2 hbelow]
      exact .inl hq
  · rw [vacate_of_not_dir (not_exists.1 hdir)]
    exact .inl hq

theorem clone_spares (a : Access) (url workDir : String) (o : Outside) (w : World) :
    Spares w.disk (clonePath url workDir) ((clone a url workDir).runIn o w).2.disk ∧
      ∀ p, ((clone a url workDir).runIn o w).1 = .ok p → p = clonePath url workDir := by
  have hfill : Keeps o (Held fun d _ => Spares w.disk (clonePath url workDir) d)
      (fun p => p = clonePath url workDir) (fill a url (clonePath url workDir)) := by
    refine fill_keeps (P := fun _ => True) (fun _ _ _ => trivial) (fun d d' _ hd hmade q hq => ?_)
      (fun e _ d d' _ hd hplaced q hq => ?_) a url
    · rw [Disk.fileAt?_makeDirs hmade]
      exact hd q hq
    · exact (hd q hq).imp_left (Disk.isSome_fileAt?_place hplaced)
  have hspares := vacate_spares (clonePath url workDir) o w
  rw [clone_eq, runIn_bind]
  rcases hrun : (vacate (clonePath url workDir)).runIn o w with ⟨e | u, w₁⟩
  all_goals rw [hrun] at hspares
  · exact ⟨hspares, nofun⟩
  · exact hfill w₁ hspares

/-- A repository is cloned to a path named by the last part of its address. It stands right in the work directory
exactly if this part is a name that leads down; otherwise it is the work directory itself, or the one above it. What is
at the path is emptied if it is a directory, however cloning ends, and no other file is lost. -/
theorem clone_empties_target (a : Access) (url workDir : String) (o : Outside) (w : World) :
    (RemoteUrl.repoName url).toList.reverse =
      ((RemoteUrl.bare url).reverse.dropWhile (· == '/')).takeWhile (· != '/') ∧
    clonePath url workDir =
      (if RemoteUrl.repoName url = "" ∨ RemoteUrl.repoName url = "." then .ofString workDir
      else ⟨(FilePath.ofString workDir).root, (FilePath.ofString workDir).parts ++ [RemoteUrl.repoName url]⟩) ∧
    ((∃ name, FilePath.IsPlain name ∧ clonePath url workDir =
        ⟨(FilePath.ofString workDir).root, (FilePath.ofString workDir).parts ++ [name]⟩) ↔
      RemoteUrl.repoName url ∉ ["", ".", ".."]) ∧
    (∀ p, ((clone a url workDir).runIn o w).1 = .ok p → p = clonePath url workDir) ∧
    (∀ q, (w.disk.fileAt? q).isSome →
      (((clone a url workDir).runIn o w).2.disk.fileAt? q).isSome ∨ Emptied w.disk url workDir q) ∧
    (w.disk.isDir (clonePath url workDir) = true → ∀ q, Emptied w.disk url workDir q →
      ((vacate (clonePath url workDir)).runIn o w).2.disk.fileAt? q = none) := by
  have hplain : FilePath.IsPlain (RemoteUrl.repoName url) ↔ RemoteUrl.repoName url ∉ ["", ".", ".."] := by
    have hslash := RemoteUrl.slash_not_mem_repoName url
    simp [FilePath.IsPlain, FilePath.IsName, hslash, and_assoc]
  obtain ⟨hspares, hresult⟩ := clone_spares a url workDir o w
  refine ⟨RemoteUrl.reverse_repoName url, clonePath_eq_ite url workDir, (direct_child_iff url workDir).trans hplain,
    hresult, fun q hq => (hspares q hq).imp_right Emptied.of_below, fun hdir q hq => ?_⟩
  rw [Disk.isDir] at hdir
  cases hfind : w.disk.find (clonePath url workDir) with
  | error fault =>
    rw [hfind] at hdir
    cases hdir
  | ok t =>
    rw [hfind] at hdir
    cases t with
    | file content => cases hdir
    | dir entries => exact (Disk.fileAt?_removeDir (vacate_of_dir hfind o) q).1 (hq.below hfind)

end

/-- A work directory with a file in it, beside another file. -/
def sharedDisk : Disk :=
  { here := .dir [("keep.txt", .file (Text.encode "k")),
      (".devassist_work", .dir [("notes.txt", .file (Text.encode "n"))])] }

/-- An address that ends with a dot has the work directory itself removed, and one that ends with two dots all that is
beside it. -/
theorem clone_removes_around_work_directory :
    (¬∃ name, FilePath.IsPlain name ∧ clonePath "." ".devassist_work" =
      ⟨(FilePath.ofString ".devassist_work").root, (FilePath.ofString ".devassist_work").parts ++ [name]⟩) ∧
    (sharedDisk.fileAt? ⟨"", [".devassist_work", "notes.txt"]⟩).isSome ∧
    ((clone ⟨"", ""⟩ "." ".devassist_work").runIn {} { disk := sharedDisk }).2.disk.fileAt?
      ⟨"", [".devassist_work", "notes.txt"]⟩ = none ∧
    (sharedDisk.fileAt? ⟨"", ["keep.txt"]⟩).isSome ∧
    ((clone ⟨"", ""⟩ ".." ".devassist_work").runIn {} { disk := sharedDisk }).2.disk.fileAt? ⟨"", ["keep.txt"]⟩ =
      none := by
  refine ⟨fun h => absurd ((direct_child_iff _ _).1 h) (by decide +kernel), ?_, ?_, ?_, ?_⟩
  all_goals decide +kernel

end Repository

end CodeMigration
