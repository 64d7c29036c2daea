import CodeMigration.Proofs.PlainPaths
import CodeMigration.Proofs.TreeFiles
import CodeMigration.Service

/-! # The directory of an archive from inside

All that is done for an archive is done in its directory: the archive is taken out to one place there, and copied and
migrated at another. What is put to one of them is seen there and nowhere else. -/

namespace CodeMigration

open Act FileTree

namespace Disk

section
variable {d d' : Disk} {p : FilePath}

theorem withTree_withTree (d : Disk) (p : FilePath) (t u : FileTree) :
    (d.withTree p t).withTree p u = d.withTree p u := by
  rw [withTree, withTree, withTree]
  split <;> rfl

theorem place_of_not_mem (h : ".." ∉ p.parts) (content : Text.Bytes) :
    d.place p content = (FileTree.place content (d.treeOf p) p.parts).map (d.withTree p) := by
  have hparent : ".." ∉ p.parent.parts := fun hback => h (List.dropLast_subset _ hback)
  rw [place, makeDirs, update_of_not_mem hparent, FileTree.place]
  change ((d.treeOf p).makeDirs p.parts.dropLast).map (d.withTree p) >>= _ = _
  cases (d.treeOf p).makeDirs p.parts.dropLast with
  | error fault => rfl
  | ok made =>
    change (d.withTree p made).write p content = (made.write content p.parts).map (d.withTree p)
    rw [write, update_of_not_mem h, treeOf_withTree rfl]
    cases made.write content p.parts with
    | error fault => rfl
    | ok t' => exact congrArg Except.ok (withTree_withTree d p made t')

def deposit (d : Disk) (p : FilePath) : Option Text.Bytes → Except FileFault Disk
  | some content => d.place p content
  | none => d.makeDirs p

theorem treeOf_of_deposit {q : FilePath} {content? : Option Text.Bytes} (hroot : p.root = q.root) (hp : ".." ∉ p.parts)
    (h : d.deposit p content? = .ok d') : (d.treeOf q).deposit (p.parts, content?) = .ok (d'.treeOf q) := by
  cases content? with
  | none => exact treeOf_of_update hroot hp h
  | some content =>
    obtain ⟨d₁, hmade, hwrite⟩ := of_bind_eq_ok h
    have hparent : ".." ∉ p.parent.parts := fun hback => hp (List.dropLast_subset _ hback)
    have hmade' : (d.treeOf q).makeDirs p.parts.dropLast = .ok (d₁.treeOf q) :=
      treeOf_of_update (p := p.parent) hroot hparent hmade
    change FileTree.place content (d.treeOf q) p.parts = _
    rw [FileTree.place, hmade']
    exact treeOf_of_update hroot hp hwrite

end

def depositAll (dir : FilePath) (items : List Item) (d : Disk) : Except FileFault Disk :=
  items.foldlM (fun d item => d.deposit ⟨dir.root, dir.parts ++ item.1⟩ item.2) d

end Disk

namespace Service

/-- An archive in a directory that has a name, with a path without steps back. -/
structure Upload.IsPlaced (u : Upload) : Prop where
  straight : ".." ∉ u.workDir.parts
  named : u.workDir.parts ≠ []

theorem child_of_isName {p : FilePath} {s : String} (h : FilePath.IsName s) : p.child s = ⟨p.root, p.parts ++ [s]⟩ := by
  rw [FilePath.child, FilePath.ofString_of_isName h]
  rfl

namespace Upload

/-- A path inside the directory of an archive. -/
def below (u : Upload) (rel : List String) : FilePath := ⟨u.workDir.root, u.workDir.parts ++ rel⟩

def inside? (u : Upload) (d : Disk) (rel : List String) : Option FileTree :=
  (d.treeOf u.workDir).at? (u.workDir.parts ++ rel)

section
variable (u : Upload)

theorem sourceDir_eq : u.sourceDir = u.below ["source"] := child_of_isName (by decide)

theorem outputDir_eq : u.outputDir = u.below ["output"] := child_of_isName (by decide)

theorem migratedDir_eq : u.migratedDir = u.below ["output", "migrated"] := by
  rw [migratedDir, child_of_isName (by decide), outputDir_eq, below, below, List.append_assoc]
  rfl

theorem below_nil : u.below [] = u.workDir := by
  rw [below, List.append_nil]

theorem below_append (rel rest : List String) :
    ⟨(u.below rel).root, (u.below rel).parts ++ rest⟩ = u.below (rel ++ rest) := by
  rw [below, below, List.append_assoc]

end

section
variable {u : Upload} {d d' : Disk} {rel q other : List String} {t : FileTree} {content? : Option Text.Bytes}
  {entries : List (String × FileTree)} {items : List Item}

theorem inside?_append (h : u.inside? d rel = some t) (q : List String) : u.inside? d (rel ++ q) = t.at? q := by
  rw [inside?, ← List.append_assoc, at?_append, ← inside?, h]
  rfl

variable (hu : u.IsPlaced)
include hu

theorem straight_below (hback : ".." ∉ rel) : ".." ∉ (u.below rel).parts := by
  rw [below, List.mem_append]
  exact not_or_intro hu.straight hback

theorem find_below (hback : ".." ∉ rel) : d.find (u.below rel) = .ok t ↔ u.inside? d rel = some t := by
  rw [Disk.find_of_not_mem (straight_below hu hback), inside?, at?_eq_some]
  rfl

theorem readBytes_below (hback : ".." ∉ rel) {content : Text.Bytes} :
    d.readBytes (u.below rel) = .ok content ↔ u.inside? d rel = some (file content) := by
  rw [Disk.readBytes_eq_ok, FileTree.straighten_of_not_mem _ (straight_below hu hback), inside?, at?_eq_some]
  simp only [List.nil_append, Except.ok.injEq, exists_eq_left']
  rfl

theorem treeOf_of_deposit (hback : ".." ∉ rel) (h : d.deposit (u.below rel) content? = .ok d') :
    (d.treeOf u.workDir).deposit (u.workDir.parts ++ rel, content?) = .ok (d'.treeOf u.workDir) := by
  have hroot : (u.below rel).root = u.workDir.root := rfl
  exact Disk.treeOf_of_deposit hroot (straight_below hu hback) h

theorem inside?_deposit (hback : ".." ∉ rel ++ q) (hdir : u.inside? d rel = some (dir entries))
    (h : d.deposit (u.below (rel ++ q)) content? = .ok d') :
    ∃ entries', (dir entries).deposit (q, content?) = .ok (dir entries') ∧
      u.inside? d' rel = some (dir entries') := by
  have htree := treeOf_of_deposit hu hback h
  rw [← List.append_assoc] at htree
  exact deposit_append (List.append_ne_nil_of_left_ne_nil hu.named rel) hdir htree

theorem inside?_deposit_of_apart (hback : ".." ∉ rel) (h : d.deposit (u.below rel) content? = .ok d')
    (hapart : Apart rel other) : u.inside? d' other = u.inside? d other := by
  exact at?_deposit (treeOf_of_deposit hu hback h) (hapart.append_left u.workDir.parts)

/-- A directory that was not there is empty when it is made. What is not on the way to it stays. -/
theorem inside?_makeDirs (hback : ".." ∉ rel) (hnew : u.inside? d rel = none)
    (h : d.makeDirs (u.below rel) = .ok d') :
    u.inside? d' rel = some (dir []) ∧ ∀ other, ¬other <+: rel → u.inside? d' other = u.inside? d other := by
  have hdeposit : d.deposit (u.below rel) none = .ok d' := h
  have htree : (d.treeOf u.workDir).makeDirs (u.workDir.parts ++ rel) = .ok (d'.treeOf u.workDir) :=
    treeOf_of_deposit hu hback hdeposit
  constructor
  · have htree' := htree
    rw [← List.append_nil (u.workDir.parts ++ rel)] at htree'
    obtain ⟨t', ht', hat⟩ := makeDirs_append htree'
    rw [← inside?, hnew, Option.getD_none] at ht'
    cases ht'
    exact hat
  · intro other hother
    exact at?_makeDirs htree fun hleads => hother ((List.prefix_append_right_inj _).1 hleads)

/-- Items that are put below a directory are put inside it, and what is elsewhere stays. -/
theorem inside?_depositAll (hback : ".." ∉ rel) (hitems : ∀ item ∈ items, ".." ∉ item.1)
    (hdir : u.inside? d rel = some (dir entries)) (h : Disk.depositAll (u.below rel) items d = .ok d') :
    (∃ entries', items.foldlM FileTree.deposit (dir entries) = .ok (dir entries') ∧
      u.inside? d' rel = some (dir entries')) ∧
    ∀ other, Apart rel other → u.inside? d' other = u.inside? d other := by
  induction items generalizing d entries with
  | nil =>
    cases h
    exact ⟨⟨entries, rfl, hdir⟩, fun _ _ => rfl⟩
  | cons item items ih =>
    obtain ⟨hitem, hrest⟩ := List.forall_mem_cons.1 hitems
    obtain ⟨d₁, hfirst, h⟩ := of_bind_eq_ok h
    replace hfirst : d.deposit (u.below (rel ++ item.1)) item.2 = .ok d₁ := by
      rw [← below_append]
      exact hfirst
    have hback' : ".." ∉ rel ++ item.1 := by
      rw [List.mem_append]
      exact not_or_intro hback hitem
    obtain ⟨entries₁, hentries₁, hdir₁⟩ := inside?_deposit hu hback' hdir hfirst
    obtain ⟨⟨entries', hentries', hdir'⟩, hother⟩ := ih hrest hdir₁ h
    refine ⟨⟨entries', ?_, hdir'⟩, fun other hapart => ?_⟩
    · rw [List.foldlM_cons, hentries₁]
      exact hentries'
    · rw [hother other hapart, inside?_deposit_of_apart hu hback' hfirst (hapart.append item.1)]

theorem exists_place_inside (hback : ".." ∉ rel ++ q) (hdir : u.inside? d rel = some (dir entries))
    {old : Text.Bytes} (hold : (dir entries).fileAt? q = some old) (content : Text.Bytes) :
    ∃ d', d.place (u.below (rel ++ q)) content = .ok d' := by
  have hq := ne_nil_of_fileAt? hold
  obtain ⟨t, ht⟩ := exists_place hold hq content
  obtain ⟨t', ht'⟩ := exists_place_append hdir hq ht
  refine ⟨d.withTree u.workDir t', ?_⟩
  rw [Disk.place_of_not_mem (straight_below hu hback), below, ← List.append_assoc]
  exact congrArg (Except.map (d.withTree u.workDir)) ht'

theorem inside?_write (hback : ".." ∉ rel) {content : Text.Bytes} (h : d.write (u.below rel) content = .ok d') :
    u.inside? d' rel = some (file content) ∧ ∀ other, Apart rel other → u.inside? d' other = u.inside? d other := by
  have hroot : (u.below rel).root = u.workDir.root := rfl
  have htree : FileTree.write content (d.treeOf u.workDir) (u.workDir.parts ++ rel) = .ok (d'.treeOf u.workDir) :=
    Disk.treeOf_of_update hroot (straight_below hu hback) h
  refine ⟨at?_eq_some.2 (find_write htree), fun other hapart => ?_⟩
  have hpaths := hapart.append_left u.workDir.parts
  rw [inside?, inside?, at?, at?, find_update_of_incomparable htree hpaths.1 hpaths.2]

theorem inside?_nil_of_isThere (h : d.isThere u.workDir = false) : u.inside? d [] = none := by
  rw [inside?, List.append_nil]
  exact (Disk.isThere_eq_false_iff_at? hu.straight).1 h

theorem inside?_congr (h : d'.find u.workDir = d.find u.workDir) (rel : List String) :
    u.inside? d' rel = u.inside? d rel := by
  rw [Disk.find_of_not_mem hu.straight, Disk.find_of_not_mem hu.straight] at h
  rw [inside?, inside?, at?_append, at?_append, at?, at?, h]

end

end Upload

end Service

end CodeMigration
