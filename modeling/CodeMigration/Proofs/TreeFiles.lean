import CodeMigration.Proofs.DiskFrames
import Mathlib.Data.List.Basic

/-! # The files in a tree

A tree is seen as the files at its paths. Directories that are made change none of them, and a file that is placed
changes the one at its path. As long as no directory holds a name twice, what a tree lists are the files at its paths,
each of them once. -/

namespace CodeMigration.FileTree

open Text (Bytes)

def content? : FileTree → Option Bytes
  | file content => some content
  | dir _ => none

def fileAt? (t : FileTree) (p : List String) : Option Bytes := (t.at? p).bind content?

section
variable {t t' u : FileTree} {p q : List String} {content : Bytes}

theorem fileAt?_eq_some : t.fileAt? p = some content ↔ t.find p = .ok (file content) := by
  rw [← at?_eq_some, fileAt?]
  cases t.at? p with
  | none => simp
  | some u => cases u <;> simp [content?]

theorem fileAt?_eq_none_of_dir {entries : List (String × FileTree)} (h : t.at? p = some (dir entries)) :
    t.fileAt? p = none := by
  rw [fileAt?, h]
  rfl

theorem fileAt?_append (h : t.at? p = some u) (q : List String) : t.fileAt? (p ++ q) = u.fileAt? q := by
  rw [fileAt?, at?_append, h]
  rfl

theorem fileAt?_dir_nil (entries : List (String × FileTree)) : (dir entries).fileAt? [] = none :=
  fileAt?_eq_none_of_dir (at?_nil _)

theorem ne_nil_of_fileAt? {entries : List (String × FileTree)} (h : (dir entries).fileAt? p = some content) :
    p ≠ [] := by
  rintro rfl
  rw [fileAt?_dir_nil] at h
  cases h

theorem fileAt?_empty (p : List String) : (dir []).fileAt? p = none := by
  cases p with
  | nil => exact fileAt?_dir_nil []
  | cons name rest => rw [fileAt?, at?_empty_cons]; rfl

theorem exists_dir_of_makeDirs (h : makeDirs t p = .ok t') :
    (∃ entries, t = dir entries) ∧ ∃ entries, t' = dir entries := by
  cases t with
  | file content => cases p <;> cases h
  | dir entries =>
    refine ⟨⟨entries, rfl⟩, ?_⟩
    cases p with
    | nil =>
      cases h
      exact ⟨entries, rfl⟩
    | cons name rest =>
      obtain ⟨-, u', -, rfl⟩ := makeDirs_cons h
      exact ⟨_, rfl⟩

theorem fileAt?_makeDirs (h : makeDirs t p = .ok t') (q : List String) : t'.fileAt? q = t.fileAt? q := by
  by_cases hqp : q <+: p
  · -- On the way there are directories, before or at least afterwards.
    obtain ⟨rest, rfl⟩ := hqp
    obtain ⟨u', hu', hat'⟩ := makeDirs_append h
    obtain ⟨⟨entries, hentries⟩, entries', rfl⟩ := exists_dir_of_makeDirs hu'
    rw [fileAt?_eq_none_of_dir hat', fileAt?]
    cases hat : t.at? q with
    | none => rfl
    | some u =>
      rw [hat, Option.getD_some] at hentries
      rw [hentries]
      rfl
  · rw [fileAt?, fileAt?, at?_makeDirs h hqp]

/-- A file that is written, over another or where nothing was, leaves everything else in its place. -/
theorem at?_write (h : write content t p = .ok t') (q : List String) :
    (q = p ∧ t'.at? q = some (file content) ∧ ∀ es, t.at? q ≠ some (dir es)) ∨
      q ≠ p ∧ (t'.at? q = t.at? q ∨ ∃ es es', t.at? q = some (dir es) ∧ t'.at? q = some (dir es')) := by
  have hself : t'.at? p = some (file content) := at?_eq_some.2 (find_write h)
  have hnodir : ∀ es, t.at? p ≠ some (dir es) := by
    intro es hes
    obtain ⟨r, hr, -⟩ := at?_update_self h
    rw [hes] at hr
    cases hr
  by_cases hq : q = p
  · exact .inl ⟨hq, hq ▸ hself, hq ▸ hnodir⟩
  refine .inr ⟨hq, ?_⟩
  by_cases hqp : q <+: p
  · obtain ⟨⟨es, hes⟩, es', hes'⟩ := find_of_update h hqp hq
    exact .inr ⟨es, es', at?_eq_some.2 hes, at?_eq_some.2 hes'⟩
  left
  by_cases hpq : p <+: q
  · -- Nothing is below a file, neither the new one nor what it was written over.
    obtain ⟨rest, rfl⟩ := hpq
    cases rest with
    | nil => exact absurd (List.append_nil p) hq
    | cons name rest =>
      rw [at?_append, at?_append, hself]
      cases hat : t.at? p with
      | none => rfl
      | some u =>
        cases u with
        | file old => rfl
        | dir es => exact absurd hat (hnodir es)
  · rw [at?, at?, find_update_of_incomparable h hpq hqp]

theorem fileAt?_write (h : write content t p = .ok t') (q : List String) :
    t'.fileAt? q = if q = p then some content else t.fileAt? q := by
  rcases at?_write h q with ⟨hq, hnew, -⟩ | ⟨hq, hsame | ⟨es, es', hes, hes'⟩⟩
  · rw [if_pos hq, fileAt?, hnew]
    rfl
  · rw [if_neg hq, fileAt?, fileAt?, hsame]
  · rw [if_neg hq, fileAt?_eq_none_of_dir hes, fileAt?_eq_none_of_dir hes']

def place (content : Bytes) (t : FileTree) (p : List String) : Except FileFault FileTree := do
  let made ← t.makeDirs p.dropLast
  made.write content p

theorem fileAt?_place (h : place content t p = .ok t') (q : List String) :
    t'.fileAt? q = if q = p then some content else t.fileAt? q := by
  obtain ⟨made, hmade, hwrite⟩ := of_bind_eq_ok h
  rw [fileAt?_write hwrite, fileAt?_makeDirs hmade]

end

/-- Neither of two paths leads through the other. -/
def Apart (p q : List String) : Prop := ¬p <+: q ∧ ¬q <+: p

instance (p q : List String) : Decidable (Apart p q) := inferInstanceAs (Decidable (_ ∧ _))

section
variable {t t' u u' : FileTree} {p q other : List String} {content : Bytes} {entries : List (String × FileTree)}

theorem Apart.append (h : Apart p other) (q : List String) : Apart (p ++ q) other := by
  refine ⟨fun hleads => h.1 ((List.prefix_append p q).trans hleads), fun hleads => ?_⟩
  rcases List.prefix_or_prefix_of_prefix hleads (List.prefix_append p q) with hother | hp
  · exact h.2 hother
  · exact h.1 hp

theorem Apart.append_left (h : Apart p other) (above : List String) : Apart (above ++ p) (above ++ other) :=
  ⟨fun hleads => h.1 ((List.prefix_append_right_inj above).1 hleads),
    fun hleads => h.2 ((List.prefix_append_right_inj above).1 hleads)⟩

theorem at?_place (h : place content t p = .ok t') (hapart : Apart p other) : t'.at? other = t.at? other := by
  obtain ⟨made, hmade, hwrite⟩ := of_bind_eq_ok h
  rw [at?, find_update_of_incomparable hwrite hapart.1 hapart.2]
  exact at?_makeDirs hmade fun hleads => hapart.2 (hleads.trans (List.dropLast_prefix p))

theorem exists_dir_of_place (h : place content (dir entries) p = .ok t') : ∃ entries', t' = dir entries' := by
  obtain ⟨made, hmade, hwrite⟩ := of_bind_eq_ok h
  obtain ⟨-, es, rfl⟩ := exists_dir_of_makeDirs hmade
  cases p with
  | nil => cases hwrite
  | cons name rest =>
    obtain ⟨-, ⟨-, r, -, rfl⟩ | ⟨v, v', -, -, -, rfl⟩⟩ := update_cons hwrite
    all_goals exact ⟨_, rfl⟩

theorem place_append (hp : p ≠ []) (hu : t.at? p = some (dir entries)) (h : place content t (p ++ q) = .ok t') :
    ∃ u', place content (dir entries) q = .ok u' ∧ t'.at? p = some u' := by
  obtain ⟨made, hmade, hwrite⟩ := of_bind_eq_ok h
  by_cases hq : q = []
  · -- The directory itself is no place for a file.
    subst hq
    rw [List.append_nil] at hmade hwrite
    have habove : ¬p <+: p.dropLast := by
      intro hleads
      have hle := hleads.length_le
      rw [List.length_dropLast] at hle
      have hpos := List.length_pos_iff.2 hp
      omega
    obtain ⟨r, hr, -⟩ := at?_update_self hwrite
    rw [at?_makeDirs hmade habove, hu] at hr
    cases hr
  · rw [List.dropLast_append_of_ne_nil hq] at hmade
    obtain ⟨v, hv, hat⟩ := makeDirs_append hmade
    rw [hu, Option.getD_some] at hv
    obtain ⟨u', hu', hfind⟩ := update_append (at?_eq_some.1 hat) hq hwrite
    refine ⟨u', ?_, at?_eq_some.2 hfind⟩
    rw [place, hv]
    exact hu'

theorem exists_makeDirs_append (hu : t.at? p = some u) (h : makeDirs u q = .ok u') :
    ∃ t', makeDirs t (p ++ q) = .ok t' ∧ t'.at? p = some u' := by
  induction p generalizing t with
  | nil =>
    rw [at?_nil] at hu
    cases hu
    exact ⟨u', h, at?_nil u'⟩
  | cons name rest ih =>
    cases t with
    | file content => cases hu
    | dir es =>
      obtain ⟨v, hentry, hv⟩ := of_bind_eq_ok (at?_eq_some.1 hu)
      obtain ⟨hsize, hlookup⟩ := entryOf_eq_ok.1 hentry
      obtain ⟨v', hv', hat⟩ := ih (at?_eq_some.2 hv)
      refine ⟨dir (put name v' es), ?_, ?_⟩
      · rw [List.cons_append, makeDirs_dir_cons, if_neg (by omega), hlookup, Option.getD_some, hv']
        rfl
      · rw [at?_dir_cons hsize, lookup_put, if_pos rfl]
        exact hat

theorem exists_place {old : Bytes} (h : t.fileAt? p = some old) (hp : p ≠ []) (content : Bytes) :
    ∃ t', place content t p = .ok t' := by
  have hfind := fileAt?_eq_some.1 h
  rw [← List.dropLast_append_getLast hp, find_append] at hfind
  obtain ⟨u, hu, hlast⟩ := of_bind_eq_ok hfind
  cases u with
  | file content => cases hlast
  | dir entries =>
    have hempty : makeDirs (dir entries) [] = .ok (dir entries) := rfl
    obtain ⟨made, hmade, -⟩ := exists_makeDirs_append (at?_eq_some.2 hu) hempty
    rw [List.append_nil] at hmade
    obtain ⟨t', hwrite⟩ := exists_write (fileAt?_eq_some.1 ((fileAt?_makeDirs hmade p).trans h)) content
    exact ⟨t', by rw [place, hmade]; exact hwrite⟩

theorem exists_place_append (hu : t.at? p = some u) (hq : q ≠ []) (h : place content u q = .ok u') :
    ∃ t', place content t (p ++ q) = .ok t' := by
  obtain ⟨v, hv, hwrite⟩ := of_bind_eq_ok h
  obtain ⟨made, hmade, hat⟩ := exists_makeDirs_append hu hv
  obtain ⟨t', ht'⟩ := exists_update_append hat hwrite
  refine ⟨t', ?_⟩
  rw [place, List.dropLast_append_of_ne_nil hq, hmade]
  exact ht'

end

/-- A tree in which no directory holds a name twice, or one that is too long. -/
def Tidy (t : FileTree) : Prop :=
  ∀ p entries, t.find p = .ok (dir entries) →
    (entries.map Prod.fst).Nodup ∧ ∀ e ∈ entries, e.1.utf8ByteSize ≤ 255

section
variable {t t' u : FileTree} {p q : List String} {content : Bytes} {name : String} {entries : List (String × FileTree)}

theorem tidy_file (content : Bytes) : (file content).Tidy := by
  intro p entries h
  cases p <;> cases h

theorem tidy_dir : (dir entries).Tidy ↔
    ((entries.map Prod.fst).Nodup ∧ ∀ e ∈ entries, e.1.utf8ByteSize ≤ 255) ∧ ∀ e ∈ entries, e.2.Tidy := by
  constructor
  · intro h
    obtain ⟨hnodup, hsize⟩ := h [] entries (find_nil _)
    refine ⟨⟨hnodup, hsize⟩, fun e he p es hes => h (e.1 :: p) es ?_⟩
    rw [find_dir_cons, entryOf_eq_ok.2 ⟨hsize e he, lookup_of_mem hnodup he⟩]
    exact hes
  · rintro ⟨hentries, hsub⟩ p es hes
    cases p with
    | nil =>
      rw [find_nil] at hes
      cases hes
      exact hentries
    | cons name rest =>
      obtain ⟨u, hentry, hu⟩ := of_bind_eq_ok hes
      have hmem := (mem_iff_lookup hentries.1).2 (entryOf_eq_ok.1 hentry).2
      exact hsub _ hmem rest es hu

theorem tidy_empty : (dir []).Tidy := tidy_dir.2 ⟨⟨List.nodup_nil, by simp⟩, by simp⟩

theorem Tidy.of_find (h : t.Tidy) (hu : t.find p = .ok u) : u.Tidy := by
  intro q entries hq
  refine h (p ++ q) entries ?_
  rw [find_append, hu]
  exact hq

theorem Tidy.of_lookup (h : (dir entries).Tidy) (hlookup : entries.lookup name = some u) : u.Tidy := by
  obtain ⟨⟨hnodup, -⟩, hsub⟩ := tidy_dir.1 h
  exact hsub _ ((mem_iff_lookup hnodup).2 hlookup)

theorem map_fst_put (name : String) (u : FileTree) (entries : List (String × FileTree)) :
    (put name u entries).map Prod.fst =
      if name ∈ entries.map Prod.fst then entries.map Prod.fst else entries.map Prod.fst ++ [name] := by
  induction entries with
  | nil => simp [FileTree.put]
  | cons e entries ih =>
    obtain ⟨other, v⟩ := e
    rw [FileTree.put]
    by_cases hother : other = name
    · simp [hother]
    · rw [if_neg (mt beq_iff_eq.1 hother), List.map_cons, List.map_cons, ih]
      by_cases hname : name ∈ entries.map Prod.fst
      · rw [if_pos hname, if_pos (List.mem_cons_of_mem _ hname)]
      · rw [if_neg hname, if_neg (List.not_mem_cons_of_ne_of_not_mem (Ne.symm hother) hname)]
        rfl

theorem mem_put {e : String × FileTree} (h : e ∈ put name u entries) : e = (name, u) ∨ e ∈ entries := by
  induction entries with
  | nil => exact .inl (List.mem_singleton.1 h)
  | cons entry entries ih =>
    obtain ⟨other, v⟩ := entry
    rw [FileTree.put] at h
    split at h
    · exact (List.mem_cons.1 h).imp id (List.mem_cons_of_mem _)
    · rcases List.mem_cons.1 h with rfl | h
      · exact .inr List.mem_cons_self
      · exact (ih h).imp id (List.mem_cons_of_mem _)

theorem Tidy.put (h : (dir entries).Tidy) (hname : name.utf8ByteSize ≤ 255) (hu : u.Tidy) :
    (dir (put name u entries)).Tidy := by
  obtain ⟨⟨hnodup, hsize⟩, hsub⟩ := tidy_dir.1 h
  refine tidy_dir.2 ⟨⟨?_, fun e he => ?_⟩, fun e he => ?_⟩
  · rw [map_fst_put]
    split
    · exact hnodup
    case isFalse hnew =>
      rw [List.nodup_append]
      exact ⟨hnodup, List.pairwise_singleton _ _, fun a ha b hb hab => hnew (List.mem_singleton.1 hb ▸ hab ▸ ha)⟩
  · rcases mem_put he with rfl | he
    · exact hname
    · exact hsize e he
  · rcases mem_put he with rfl | he
    · exact hu
    · exact hsub e he

theorem hereditary_tidy : Hereditary (fun _ => True) Tidy :=
  ⟨tidy_file, tidy_empty, Tidy.of_lookup, fun h _ hname hu => h.put hname hu⟩

theorem contentsOf_eq_flatMap (entries : List (String × FileTree)) : contentsOf entries =
    entries.flatMap fun e => ([e.1], e.2) :: e.2.contents.map fun below => (e.1 :: below.1, below.2) := by
  induction entries with
  | nil => rw [contentsOf]; rfl
  | cons e entries ih =>
    obtain ⟨name, u⟩ := e
    rw [contentsOf, ih, List.flatMap_cons]

theorem at?_dir_cons_of_none (h : entries.lookup name = none) (rest : List String) :
    (dir entries).at? (name :: rest) = none := by
  rw [at?, find_dir_cons, entryOf, h]
  split <;> rfl

theorem filter_contents (h : t.Tidy) (p : List String) :
    t.contents.filter (·.1 == p) = if p = [] then [] else ((t.at? p).map fun u => (p, u)).toList := by
  have hlist (entries : List (String × FileTree)) : (dir entries).contents =
      entries.flatMap fun e => ([e.1], e.2) :: e.2.contents.map fun below => (e.1 :: below.1, below.2) := by
    rw [contents, contentsOf_eq_flatMap]
  have hkey (e : String × FileTree) :
      ∀ listed ∈ ([e.1], e.2) :: e.2.contents.map fun below => (e.1 :: below.1, below.2),
        listed.1 ≠ [] ∧ listed.1.headD "" = e.1 := by
    intro listed hlisted
    rcases List.mem_cons.1 hlisted with rfl | hlisted
    · exact ⟨List.cons_ne_nil _ _, rfl⟩
    · obtain ⟨below, -, rfl⟩ := List.mem_map.1 hlisted
      exact ⟨List.cons_ne_nil _ _, rfl⟩
  induction p generalizing t with
  | nil =>
    rw [if_pos rfl, List.filter_eq_nil_iff]
    intro listed hlisted heq
    cases t with
    | file content =>
      rw [contents] at hlisted
      cases hlisted
    | dir entries =>
      rw [hlist] at hlisted
      obtain ⟨e, -, he⟩ := List.mem_flatMap.1 hlisted
      exact (hkey e listed he).1 (beq_iff_eq.1 heq)
  | cons name rest ih =>
    rw [if_neg (List.cons_ne_nil _ _)]
    cases t with
    | file content =>
      rw [contents]
      rfl
    | dir entries =>
      obtain ⟨⟨hnodup, hsize⟩, -⟩ := tidy_dir.1 h
      -- Only the entry with the first name has anything below such a path.
      have hfirst : (dir entries).contents.filter (·.1 == name :: rest) =
          ((dir entries).contents.filter (·.1.headD "" == name)).filter (·.1 == name :: rest) := by
        rw [List.filter_filter]
        refine List.filter_congr fun listed _ => ?_
        by_cases heq : listed.1 = name :: rest
        · simp [heq]
        · simp [heq]
      rw [hfirst, hlist, filter_flatMap_key fun e listed hlisted => (hkey e listed hlisted).2, filter_name hnodup]
      cases hlookup : entries.lookup name with
      | none =>
        rw [at?_dir_cons_of_none hlookup]
        rfl
      | some u =>
        have hname : name.utf8ByteSize ≤ 255 := hsize _ ((mem_iff_lookup hnodup).2 hlookup)
        have hbelow := ih (h.of_lookup hlookup)
        have hsame : ((·.1 == name :: rest) ∘ fun below : List String × FileTree => (name :: below.1, below.2)) =
            (·.1 == rest) := by
          funext below
          simp
        rw [at?_dir_cons hname, hlookup, Option.map_some, Option.toList_some, List.flatMap_singleton, List.filter_cons,
          List.filter_map, hsame, hbelow]
        cases rest with
        | nil => simp
        | cons next rest => cases hat : u.at? (next :: rest) <;> simp [hat]

theorem mem_contents (h : t.Tidy) : (p, u) ∈ t.contents ↔ p ≠ [] ∧ t.at? p = some u := by
  have hmem : (p, u) ∈ t.contents ↔ (p, u) ∈ t.contents.filter (·.1 == p) := by simp
  rw [hmem, filter_contents h]
  cases p with
  | nil => simp
  | cons name rest => cases t.at? (name :: rest) <;> simp [eq_comm]

theorem filter_files (h : t.Tidy) (hp : p ≠ []) :
    t.files.filter (·.1 == p) = ((t.fileAt? p).map fun content => (p, content)).toList := by
  have hlisted : t.files.filter (·.1 == p) = (t.contents.filter (·.1 == p)).filterMap fun listed =>
      listed.2.content?.map fun content => (listed.1, content) := by
    rw [files, List.filter_filterMap, List.filterMap_filter]
    refine List.filterMap_congr fun listed _ => ?_
    obtain ⟨q, u⟩ := listed
    cases u with
    | dir entries => simp [content?]
    | file content => by_cases hq : q = p <;> simp [content?, hq]
  rw [hlisted, filter_contents h, if_neg hp, fileAt?]
  cases t.at? p with
  | none => rfl
  | some u => cases u <;> rfl

theorem mem_files (h : t.Tidy) : (p, content) ∈ t.files ↔ p ≠ [] ∧ t.fileAt? p = some content := by
  by_cases hp : p = []
  · have hnone : ∀ listed ∈ t.contents, listed.1 ≠ [] := fun listed hlisted => ((mem_contents h).1 hlisted).1
    refine iff_of_false (fun hmem => ?_) fun hand => hand.1 hp
    obtain ⟨listed, hlisted, hfile⟩ := List.mem_filterMap.1 hmem
    obtain ⟨q, u⟩ := listed
    cases u with
    | dir entries => cases hfile
    | file other =>
      cases hfile
      exact hnone _ hlisted hp
  · have hmem : (p, content) ∈ t.files ↔ (p, content) ∈ t.files.filter (·.1 == p) := by simp
    rw [hmem, filter_files h hp]
    cases t.fileAt? p <;> simp [hp, eq_comm]

theorem Named.of_at? {Q : String → Prop} (h : t.Tidy) (hnamed : t.Named Q) (hat : t.at? p = some u) :
    ∀ name ∈ p, Q name := by
  by_cases hp : p = []
  · rw [hp]
    simp
  · exact hnamed (p, u) ((mem_contents h).2 ⟨hp, hat⟩)

end

theorem foldlM_keeps {ε α β : Type} {I : β → Prop} {f : β → α → Except ε β} {xs : List α} {b b' : β}
    (hstep : ∀ b x b', x ∈ xs → I b → f b x = .ok b' → I b') (hb : I b) (h : xs.foldlM f b = .ok b') : I b' := by
  induction xs generalizing b with
  | nil =>
    cases h
    exact hb
  | cons x xs ih =>
    obtain ⟨b₁, hfirst, hrest⟩ := of_bind_eq_ok h
    have hb₁ := hstep b x b₁ List.mem_cons_self hb hfirst
    exact ih (fun b y b' hy => hstep b y b' (List.mem_cons_of_mem x hy)) hb₁ hrest

/-- Something that is put to a path: a file with its content, or a directory. -/
abbrev Item : Type := List String × Option Bytes

def deposit (t : FileTree) (item : Item) : Except FileFault FileTree :=
  match item.2 with
  | some content => place content t item.1
  | none => t.makeDirs item.1

/-- The content that is put to a path last. -/
def laid? (items : List Item) (p : List String) : Option Bytes :=
  ((items.filter fun item => item.1 == p && item.2.isSome).getLast?).bind Prod.snd

section
variable {t t' : FileTree} {p q other : List String} {item : Item} {content? : Option Bytes} {items : List Item}
  {entries : List (String × FileTree)}

theorem laid?_cons (item : Item) (items : List Item) (p : List String) :
    laid? (item :: items) p = (laid? items p).or (if item.1 = p then item.2 else none) := by
  obtain ⟨path, content?⟩ := item
  rw [laid?, laid?, List.filter_cons]
  by_cases hpath : path = p
  · cases content? with
    | none => simp
    | some content =>
      simp only [hpath, beq_self_eq_true, Option.isSome_some, Bool.and_self, if_true, List.getLast?_cons]
      cases hlast : (items.filter fun item => item.1 == p && item.2.isSome).getLast? with
      | none => rfl
      | some last =>
        have hmem := List.mem_of_getLast? hlast
        obtain ⟨content', hcontent'⟩ := Option.isSome_iff_exists.1 (Bool.and_eq_true_iff.1 (List.mem_filter.1 hmem).2).2
        simp [hcontent']
  · simp [hpath]

theorem fileAt?_deposit (h : t.deposit item = .ok t') (q : List String) :
    t'.fileAt? q = (if item.1 = q then item.2 else none).or (t.fileAt? q) := by
  obtain ⟨path, content?⟩ := item
  cases content? with
  | none =>
    rw [fileAt?_makeDirs h]
    simp
  | some content =>
    rw [fileAt?_place h]
    by_cases hq : q = path
    · simp [hq]
    · simp [hq, Ne.symm hq]

/-- Each path has the file that was put there last, or the one that was there. -/
theorem fileAt?_deposits (h : items.foldlM deposit t = .ok t') (q : List String) :
    t'.fileAt? q = (laid? items q).or (t.fileAt? q) := by
  induction items generalizing t with
  | nil =>
    cases h
    rfl
  | cons item items ih =>
    obtain ⟨t₁, hfirst, hrest⟩ := of_bind_eq_ok h
    rw [ih hrest, fileAt?_deposit hfirst, laid?_cons, Option.or_assoc]

section
variable {Q : String → Prop} {P : FileTree → Prop} (hP : Hereditary Q P) (h : P t)
include hP h

theorem Hereditary.deposit (hp : ∀ name ∈ item.1, Q name) (hitem : t.deposit item = .ok t') : P t' := by
  obtain ⟨path, content?⟩ := item
  cases content? with
  | none => exact hP.makeDirs h hp hitem
  | some content =>
    obtain ⟨made, hmade, hwrite⟩ := of_bind_eq_ok hitem
    exact hP.write (hP.makeDirs h (fun name hname => hp name (List.dropLast_subset path hname)) hmade) hp hwrite

theorem Hereditary.deposits (hp : ∀ item ∈ items, ∀ name ∈ item.1, Q name)
    (hitems : items.foldlM FileTree.deposit t = .ok t') : P t' :=
  foldlM_keeps (fun _ item _ hmem hmade hitem => hP.deposit hmade (hp item hmem) hitem) h hitems

end

theorem deposit_append (hp : p ≠ []) (hdir : t.at? p = some (dir entries))
    (h : t.deposit (p ++ q, content?) = .ok t') :
    ∃ entries', (dir entries).deposit (q, content?) = .ok (dir entries') ∧ t'.at? p = some (dir entries') := by
  cases content? with
  | none =>
    obtain ⟨u', hu', hat⟩ := makeDirs_append h
    rw [hdir, Option.getD_some] at hu'
    obtain ⟨-, entries', rfl⟩ := exists_dir_of_makeDirs hu'
    exact ⟨entries', hu', hat⟩
  | some content =>
    obtain ⟨u', hu', hat⟩ := place_append hp hdir h
    obtain ⟨entries', rfl⟩ := exists_dir_of_place hu'
    exact ⟨entries', hu', hat⟩

theorem at?_deposit (h : t.deposit item = .ok t') (hapart : Apart item.1 other) : t'.at? other = t.at? other := by
  obtain ⟨path, content?⟩ := item
  cases content? with
  | none => exact at?_makeDirs h hapart.2
  | some content => exact at?_place h hapart

theorem laid?_files (h : (dir entries).Tidy) (p : List String) :
    laid? ((dir entries).files.map fun file => (file.1, some file.2)) p = (dir entries).fileAt? p := by
  have hsame : (fun item : Item => item.1 == p && item.2.isSome) ∘ (fun file : List String × Bytes =>
      (file.1, some file.2)) = (·.1 == p) := by
    funext file
    simp
  rw [laid?, List.filter_map, hsame]
  by_cases hp : p = []
  · have hnone : (dir entries).files.filter (·.1 == p) = [] := by
      rw [List.filter_eq_nil_iff]
      intro file hfile heq
      exact ((mem_files h).1 hfile).1 ((beq_iff_eq.1 heq).trans hp)
    rw [hnone, hp, fileAt?_dir_nil]
    rfl
  · rw [filter_files h hp]
    cases (dir entries).fileAt? p <;> rfl

end

end CodeMigration.FileTree
