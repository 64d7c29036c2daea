import CodeMigration.Files

/-! # What a change of the disk leaves as it was

Files are written, directories made and removed at one path. Everything at a path that leads neither to it nor
through it stays, whatever is done there. -/

namespace CodeMigration

variable {ε α β : Type} {name : String}

theorem of_bind_eq_ok {r : Except ε α} {f : α → Except ε β} {b : β} (h : r >>= f = .ok b) :
    ∃ a, r = .ok a ∧ f a = .ok b := by
  cases r with
  | error e => cases h
  | ok a => exact ⟨a, rfl, h⟩

theorem eq_ok_of_toOption {r : Except ε α} {a : α} (h : r.toOption = some a) : r = .ok a := by
  cases r with
  | error e => cases h
  | ok b => exact congrArg _ (Option.some.inj h)

theorem lookup_cons_eq_ite (other name : String) (a : α) (entries : List (String × α)) :
    ((name, a) :: entries).lookup other = if other = name then some a else entries.lookup other := by
  rw [List.lookup_cons]
  by_cases h : other = name
  · simp [h]
  · rw [beq_eq_false_iff_ne.2 h, if_neg h]

theorem lookup_of_mem {entries : List (String × α)} (h : (entries.map Prod.fst).Nodup) {e : String × α}
    (he : e ∈ entries) : entries.lookup e.1 = some e.2 := by
  induction entries with
  | nil => cases he
  | cons entry entries ih =>
    obtain ⟨name, a⟩ := entry
    obtain ⟨hname, h⟩ := List.nodup_cons.1 h
    rw [lookup_cons_eq_ite]
    rcases List.mem_cons.1 he with rfl | he
    · exact if_pos rfl
    · have hne : e.1 ≠ name := fun heq => hname (List.mem_map.2 ⟨e, he, heq⟩)
      rw [if_neg hne, ih h he]

theorem lookup_eq_none_of_not_mem {entries : List (String × α)} {k : String} (h : k ∉ entries.map Prod.fst) :
    entries.lookup k = none := by
  rw [List.lookup_eq_none_iff]
  intro e he
  exact bne_iff_ne.2 fun heq => h (List.mem_map.2 ⟨e, he, heq.symm⟩)

theorem filter_name {entries : List (String × α)} (h : (entries.map Prod.fst).Nodup) (name : String) :
    entries.filter (·.1 == name) = ((entries.lookup name).map fun a => (name, a)).toList := by
  induction entries with
  | nil => rfl
  | cons e entries ih =>
    obtain ⟨k, a⟩ := e
    obtain ⟨hk, h⟩ := List.nodup_cons.1 h
    rw [List.filter_cons, lookup_cons_eq_ite, ih h]
    by_cases hname : name = k
    · subst hname
      rw [if_pos BEq.rfl, if_pos rfl, lookup_eq_none_of_not_mem hk]
      rfl
    · rw [if_neg hname, if_neg fun heq => hname (beq_iff_eq.1 heq).symm]

theorem mem_iff_lookup {entries : List (String × α)} (h : (entries.map Prod.fst).Nodup) {a : α} :
    (name, a) ∈ entries ↔ entries.lookup name = some a := by
  refine ⟨lookup_of_mem h, fun hlookup => ?_⟩
  have hmem : (name, a) ∈ entries.filter (·.1 == name) := by
    rw [filter_name h, hlookup]
    exact List.mem_singleton_self _
  exact (List.mem_filter.1 hmem).1

/-- Where each item brings along what has its name, one finds by a name what the items of this name brought. -/
theorem filter_flatMap_key {f : α → List β} {key : β → String} {name : α → String}
    (hkey : ∀ x, ∀ y ∈ f x, key y = name x) (xs : List α) (k : String) :
    (xs.flatMap f).filter (key · == k) = (xs.filter (name · == k)).flatMap f := by
  induction xs with
  | nil => rfl
  | cons x xs ih =>
    rw [List.flatMap_cons, List.filter_append, ih, List.filter_cons]
    have hself (y : β) (hy : y ∈ f x) : (key y == k) = (name x == k) := by
      rw [hkey x y hy]
    rw [List.filter_congr hself]
    cases name x == k with
    | true => simp
    | false => simp

namespace FileTree

variable {entries' entries : List (String × FileTree)} {rest : List String} {content : Text.Bytes}

section
variable {t : FileTree} {entries : List (String × FileTree)}

theorem lookup_put (name other : String) (t : FileTree) (entries : List (String × FileTree)) :
    (put name t entries).lookup other = if other = name then some t else entries.lookup other := by
  induction entries with
  | nil => rw [put, lookup_cons_eq_ite]
  | cons entry rest ih =>
    obtain ⟨m, u⟩ := entry
    rw [put, lookup_cons_eq_ite other m]
    by_cases hm : m = name
    · rw [if_pos (beq_iff_eq.2 hm), lookup_cons_eq_ite, hm]
      split <;> rfl
    · rw [if_neg (mt beq_iff_eq.1 hm), lookup_cons_eq_ite, ih]
      grind

theorem lookup_drop (name other : String) (entries : List (String × FileTree)) :
    (drop name entries).lookup other = if other = name then none else entries.lookup other := by
  induction entries with
  | nil => simp [drop]
  | cons entry rest ih =>
    obtain ⟨m, u⟩ := entry
    rw [lookup_cons_eq_ite]
    by_cases hm : m = name
    · have hdrop : drop name ((m, u) :: rest) = drop name rest := by simp [drop, hm]
      rw [hdrop, ih, hm]
      split <;> rfl
    · have hdrop : drop name ((m, u) :: rest) = (m, u) :: drop name rest := by simp [drop, hm]
      rw [hdrop, lookup_cons_eq_ite, ih]
      grind

theorem entryOf_eq_ok : entryOf name entries = .ok t ↔ name.utf8ByteSize ≤ 255 ∧ entries.lookup name = some t := by
  rw [entryOf]
  split
  · simp; omega
  · cases entries.lookup name <;> simp; omega

theorem entryOf_congr (h : entries'.lookup name = entries.lookup name) :
    entryOf name entries' = entryOf name entries := by
  rw [entryOf, entryOf, h]

end

@[simp] theorem find_nil (t : FileTree) : t.find [] = .ok t := by
  cases t <;> rfl

theorem find_dir_cons (entries : List (String × FileTree)) (name : String) (rest : List String) :
    (dir entries).find (name :: rest) = (entryOf name entries >>= fun t => t.find rest) := rfl

theorem find_append (t : FileTree) (p q : List String) : t.find (p ++ q) = (t.find p >>= fun u => u.find q) := by
  induction p generalizing t with
  | nil => simp; rfl
  | cons name rest ih =>
    cases t with
    | file content => rfl
    | dir entries =>
      rw [List.cons_append, find_dir_cons, find_dir_cons]
      cases entryOf name entries with
      | error fault => rfl
      | ok u => exact ih u

def at? (t : FileTree) (p : List String) : Option FileTree := (t.find p).toOption

theorem at?_eq_some {t u : FileTree} {p : List String} : t.at? p = some u ↔ t.find p = .ok u := by
  rw [at?]
  cases t.find p <;> simp [Except.toOption]

@[simp] theorem at?_nil (t : FileTree) : t.at? [] = some t := at?_eq_some.2 (find_nil t)

theorem at?_append (t : FileTree) (p q : List String) : t.at? (p ++ q) = (t.at? p).bind fun u => u.at? q := by
  rw [at?, at?, find_append]
  cases t.find p <;> rfl

theorem at?_dir_cons (h : name.utf8ByteSize ≤ 255) (entries : List (String × FileTree))
    (rest : List String) : (dir entries).at? (name :: rest) = (entries.lookup name).bind fun u => u.at? rest := by
  rw [at?, find_dir_cons, entryOf, if_neg (by omega)]
  cases entries.lookup name <;> rfl

theorem at?_dir_congr {name : String}
    (h : entries'.lookup name = entries.lookup name) (rest : List String) :
    (dir entries').at? (name :: rest) = (dir entries).at? (name :: rest) := by
  rw [at?, at?, find_dir_cons, find_dir_cons, entryOf_congr h]

theorem at?_empty_cons (name : String) (rest : List String) : (dir []).at? (name :: rest) = none := by
  rw [at?, find_dir_cons, entryOf]
  split <;> rfl

section
variable {f : Option FileTree → Except FileFault (Option FileTree)} {t t' u : FileTree} {p q : List String}
  {entries : List (String × FileTree)}

theorem update_nil (t : FileTree) : update f t [] = (f (some t) >>= fun r => pure (r.getD (dir []))) := by
  cases t <;> rfl

theorem update_cons (h : update f (dir entries) (name :: rest) = .ok t') :
    name.utf8ByteSize ≤ 255 ∧
      ((rest = [] ∧ ∃ r, f (entries.lookup name) = .ok r ∧
          t' = dir (match r with | some u => put name u entries | none => drop name entries)) ∨
        ∃ u u', rest ≠ [] ∧ entries.lookup name = some u ∧ update f u rest = .ok u' ∧
          t' = dir (put name u' entries)) := by
  cases rest with
  | nil =>
    rw [update] at h
    split at h
    · cases h
    case isFalse hsize =>
      obtain ⟨r, hr, h⟩ := of_bind_eq_ok h
      refine ⟨by omega, .inl ⟨rfl, r, hr, ?_⟩⟩
      cases r <;> cases h <;> rfl
  | cons next rest =>
    obtain ⟨u, hentry, h⟩ := of_bind_eq_ok h
    obtain ⟨u', hu, h⟩ := of_bind_eq_ok h
    cases h
    obtain ⟨hsize, hlookup⟩ := entryOf_eq_ok.1 hentry
    exact ⟨hsize, .inr ⟨u, u', List.cons_ne_nil _ _, hlookup, hu, rfl⟩⟩

/-- A change at a path keeps what is at paths that lead neither to it nor through it. -/
theorem find_update_of_incomparable (h : update f t p = .ok t') (hpq : ¬p <+: q) (hqp : ¬q <+: p) :
    t'.find q = t.find q := by
  induction p generalizing t t' q with
  | nil => exact absurd List.nil_prefix hpq
  | cons name rest ih =>
    cases q with
    | nil => exact absurd List.nil_prefix hqp
    | cons other q =>
      cases t with
      | file content => cases h
      | dir entries =>
        obtain ⟨-, ⟨rfl, r, -, rfl⟩ | ⟨u, u', -, hlookup, hu, rfl⟩⟩ := update_cons h
        · have hne : other ≠ name := by
            rintro rfl
            exact hpq ⟨q, rfl⟩
          rw [find_dir_cons, find_dir_cons, entryOf_congr]
          cases r with
          | none => rw [lookup_drop, if_neg hne]
          | some u => rw [lookup_put, if_neg hne]
        · rw [find_dir_cons, find_dir_cons]
          by_cases hne : other = name
          · subst hne
            have hsub : u'.find q = u.find q :=
              ih hu (fun hp => hpq (List.cons_prefix_cons.2 ⟨rfl, hp⟩))
                fun hp => hqp (List.cons_prefix_cons.2 ⟨rfl, hp⟩)
            rw [entryOf, entryOf, lookup_put, if_pos rfl, hlookup]
            split
            · rfl
            · exact hsub
          · have hother : (put name u' entries).lookup other = entries.lookup other :=
              (lookup_put ..).trans (if_neg hne)
            rw [entryOf_congr hother]

/-- A path to a place that is changed leads through directories, before and afterwards. -/
theorem find_of_update (h : update f t p = .ok t') (hqp : q <+: p) (hne : q ≠ p) :
    (∃ entries, t.find q = .ok (dir entries)) ∧ ∃ entries, t'.find q = .ok (dir entries) := by
  induction p generalizing t t' q with
  | nil => exact absurd (List.prefix_nil.1 hqp) hne
  | cons name rest ih =>
    cases t with
    | file content => cases h
    | dir entries =>
      cases q with
      | nil =>
        obtain ⟨-, ⟨-, r, -, rfl⟩ | ⟨u, u', -, -, -, rfl⟩⟩ := update_cons h
        all_goals exact ⟨⟨_, find_nil _⟩, _, find_nil _⟩
      | cons other q =>
        obtain ⟨rfl, hq⟩ := List.cons_prefix_cons.1 hqp
        have hrest : q ≠ rest := fun he => hne (he ▸ rfl)
        obtain ⟨hsize, ⟨rfl, -⟩ | ⟨u, u', -, hlookup, hu, rfl⟩⟩ := update_cons h
        · exact absurd (List.prefix_nil.1 hq) hrest
        · rw [find_dir_cons, find_dir_cons, entryOf_eq_ok.2 ⟨hsize, hlookup⟩,
            entryOf_eq_ok.2 ⟨hsize, (lookup_put ..).trans (if_pos rfl)⟩]
          exact ih hu hq hrest

theorem update_append (hu : t.find p = .ok u) (hq : q ≠ []) (h : update f t (p ++ q) = .ok t') :
    ∃ u', update f u q = .ok u' ∧ t'.find p = .ok u' := by
  induction p generalizing t t' with
  | nil =>
    rw [find_nil] at hu
    cases hu
    exact ⟨t', h, find_nil t'⟩
  | cons name rest ih =>
    cases t with
    | file content => cases hu
    | dir entries =>
      obtain ⟨hsize, ⟨hnil, -⟩ | ⟨v, v', -, hlookup, hv, rfl⟩⟩ := update_cons h
      · exact absurd (List.append_eq_nil_iff.1 hnil).2 hq
      · rw [find_dir_cons, entryOf_eq_ok.2 ⟨hsize, hlookup⟩] at hu
        rw [find_dir_cons, entryOf_eq_ok.2 ⟨hsize, (lookup_put ..).trans (if_pos rfl)⟩]
        exact ih hu hv

/-- What a change makes of what is at its path. Only a directory without a name is always there. -/
theorem at?_update_self (h : update f t p = .ok t') :
    ∃ r, f (t.at? p) = .ok r ∧ t'.at? p = if p = [] then some (r.getD (dir [])) else r := by
  induction p generalizing t t' with
  | nil =>
    rw [update_nil] at h
    obtain ⟨r, hr, h⟩ := of_bind_eq_ok h
    cases h
    exact ⟨r, by rw [at?_nil, hr], by rw [at?_nil, if_pos rfl]⟩
  | cons name rest ih =>
    cases t with
    | file content => cases h
    | dir entries =>
      simp only [reduceCtorEq, if_false]
      obtain ⟨hsize, ⟨rfl, r, hr, rfl⟩ | ⟨u, u', hrest, hlookup, hu, rfl⟩⟩ := update_cons h
      · refine ⟨r, ?_, ?_⟩
        · rw [at?_dir_cons hsize, ← hr]
          cases entries.lookup name <;> simp
        · rw [at?_dir_cons hsize]
          cases r with
          | none => rw [lookup_drop, if_pos rfl]; rfl
          | some u => rw [lookup_put, if_pos rfl]; exact at?_nil u
      · obtain ⟨r, hr, hat⟩ := ih hu
        rw [if_neg hrest] at hat
        refine ⟨r, ?_, ?_⟩
        · rw [at?_dir_cons hsize, hlookup]
          exact hr
        · rw [at?_dir_cons hsize, lookup_put, if_pos rfl]
          exact hat

theorem exists_update_append (hu : t.at? p = some u) {u' : FileTree} (h : update f u q = .ok u') :
    ∃ t', update f t (p ++ q) = .ok t' := by
  induction p generalizing t with
  | nil =>
    rw [at?_nil] at hu
    cases hu
    exact ⟨u', h⟩
  | cons name rest ih =>
    cases t with
    | file content => cases hu
    | dir entries =>
      obtain ⟨v, hentry, hv⟩ := of_bind_eq_ok (at?_eq_some.1 hu)
      obtain ⟨v', hv'⟩ := ih (at?_eq_some.2 hv)
      rw [List.cons_append]
      cases hmore : rest ++ q with
      | nil =>
        rw [hmore, update_nil] at hv'
        obtain ⟨r, hr, -⟩ := of_bind_eq_ok hv'
        obtain ⟨hsize, hlookup⟩ := entryOf_eq_ok.1 hentry
        rw [update, if_neg (by omega), hlookup, hr]
        cases r <;> exact ⟨_, rfl⟩
      | cons next more =>
        rw [hmore] at hv'
        refine ⟨dir (put name v' entries), ?_⟩
        rw [update, hentry]
        exact congrArg (· >>= fun v => pure (dir (put name v entries))) hv'

theorem exists_update (hu : t.at? p = some u) {r : Option FileTree} (hf : f (some u) = .ok r) :
    ∃ t', update f t p = .ok t' := by
  have hhere : update f u [] = .ok (r.getD (dir [])) := by
    rw [update_nil, hf]
    rfl
  have h := exists_update_append hu hhere
  rwa [List.append_nil] at h

theorem find_write (h : write content t p = .ok t') : t'.find p = .ok (file content) := by
  obtain ⟨r, hr, hat⟩ := at?_update_self h
  obtain rfl : r = some (file content) := by
    split at hr <;> cases hr
    rfl
  refine at?_eq_some.1 (hat.trans ?_)
  split <;> rfl

theorem exists_write {old : Text.Bytes} (h : t.find p = .ok (file old)) (content : Text.Bytes) :
    ∃ t', write content t p = .ok t' :=
  exists_update (at?_eq_some.2 h) rfl

theorem exists_write_new (h : t.at? p = some (dir entries)) (hname : name.utf8ByteSize ≤ 255)
    (hnew : entries.lookup name = none) (content : Text.Bytes) : ∃ t', write content t (p ++ [name]) = .ok t' := by
  have hinside : write content (dir entries) [name] = .ok (dir (put name (file content) entries)) := by
    rw [write, update, if_neg (by omega), hnew]
    rfl
  exact exists_update_append h hinside

theorem exists_removeDir (h : t.at? p = some (dir entries)) : ∃ t', removeDir t p = .ok t' :=
  exists_update h rfl

end

section
variable {t t' : FileTree} {p q : List String} {old content : Text.Bytes}

theorem find_write_eq (hold : t.find p = .ok (file old)) (h : write content t p = .ok t') :
    (q = p ∧ t'.find q = .ok (file content)) ∨
      q ≠ p ∧ (t'.find q = t.find q ∨ ∃ es es', t.find q = .ok (dir es) ∧ t'.find q = .ok (dir es')) := by
  by_cases hqp : q = p
  · exact .inl ⟨hqp, hqp ▸ find_write h⟩
  refine .inr ⟨hqp, ?_⟩
  by_cases hq : q <+: p
  · obtain ⟨⟨es, hes⟩, es', hes'⟩ := find_of_update h hq hqp
    exact .inr ⟨es, es', hes, hes'⟩
  by_cases hp : p <+: q
  · obtain ⟨rest, rfl⟩ := hp
    cases rest with
    | nil => exact absurd (List.append_nil p) hqp
    | cons name rest =>
      left
      rw [find_append, find_append, hold, find_write h]
      rfl
  · exact .inl (find_update_of_incomparable h hp hq)

theorem straighten_cons (h : name ≠ "..") (t : FileTree) (done rest : List String) :
    t.straighten done (name :: rest) = t.straighten (done ++ [name]) rest :=
  straighten.eq_3 t done name rest h

theorem straighten_of_not_mem (t : FileTree) {path : List String} (h : ".." ∉ path) (done : List String) :
    t.straighten done path = .ok (done ++ path) := by
  induction path generalizing done with
  | nil => rw [straighten, List.append_nil]
  | cons name rest ih =>
    obtain ⟨hname, hrest⟩ := not_or.1 (mt List.mem_cons.2 h)
    rw [straighten_cons (Ne.symm hname), ih hrest, List.append_assoc]
    rfl

/-- Paths lead where they led before as long as directories stay directories. -/
theorem straighten_write (hold : t.find p = .ok (file old)) (h : write content t p = .ok t') (done path : List String) :
    t'.straighten done path = t.straighten done path := by
  induction path generalizing done with
  | nil => rw [straighten, straighten]
  | cons name rest ih =>
    by_cases hname : name = ".."
    · subst hname
      rw [straighten, straighten]
      rcases @find_write_eq _ _ _ done _ _ hold h with ⟨rfl, hnew⟩ | ⟨-, hsame | ⟨es, es', hes, hes'⟩⟩
      · rw [hnew, hold]
        rfl
      · rw [hsame]
        cases t.find done with
        | error fault => rfl
        | ok u =>
          cases u with
          | file other => rfl
          | dir es =>
            simp only [bind, Except.bind]
            split
            · rfl
            · exact ih _
      · rw [hes, hes']
        simp only [bind, Except.bind]
        split
        · rfl
        · exact ih _
    · rw [straighten_cons hname, straighten_cons hname, ih]

end

section
variable {t t' u : FileTree} {p q : List String}

theorem makeDirs_dir_cons (entries : List (String × FileTree)) (name : String) (rest : List String) :
    makeDirs (dir entries) (name :: rest) =
      if 255 < name.utf8ByteSize then .error .nameTooLong
      else (((entries.lookup name).getD (dir [])).makeDirs rest >>= fun u => pure (dir (put name u entries))) := by
  rw [makeDirs, entryOf]
  by_cases hsize : 255 < name.utf8ByteSize
  · rw [if_pos hsize, if_pos hsize]
  · rw [if_neg hsize, if_neg hsize]
    cases entries.lookup name <;> rfl

theorem makeDirs_cons
    (h : makeDirs (dir entries) (name :: rest) = .ok t') :
    name.utf8ByteSize ≤ 255 ∧ ∃ u', ((entries.lookup name).getD (dir [])).makeDirs rest = .ok u' ∧
      t' = dir (put name u' entries) := by
  rw [makeDirs_dir_cons] at h
  split at h
  · cases h
  case isFalse hsize =>
    obtain ⟨u', hu, h⟩ := of_bind_eq_ok h
    cases h
    exact ⟨by omega, u', hu, rfl⟩

theorem at?_makeDirs (h : makeDirs t p = .ok t') (hqp : ¬q <+: p) : t'.at? q = t.at? q := by
  induction p generalizing t t' q with
  | nil =>
    cases t <;> cases h
    rfl
  | cons name rest ih =>
    cases t with
    | file content => cases h
    | dir entries =>
      obtain ⟨hsize, u', hu, rfl⟩ := makeDirs_cons h
      cases q with
      | nil => exact absurd List.nil_prefix hqp
      | cons other q =>
        by_cases hother : other = name
        · subst hother
          have hq : ¬q <+: rest := fun hq => hqp (List.cons_prefix_cons.2 ⟨rfl, hq⟩)
          rw [at?_dir_cons hsize, at?_dir_cons hsize, lookup_put, if_pos rfl, Option.bind_some, ih hu hq]
          cases hlookup : entries.lookup other with
          | some u => rfl
          | none =>
            cases q with
            | nil => exact absurd List.nil_prefix hq
            | cons next q => exact at?_empty_cons next q
        · exact at?_dir_congr ((lookup_put ..).trans (if_neg hother)) q

/-- Directories that are made below a path are made inside what is there, or in a new directory. -/
theorem makeDirs_append (h : makeDirs t (p ++ q) = .ok t') :
    ∃ u', ((t.at? p).getD (dir [])).makeDirs q = .ok u' ∧ t'.at? p = some u' := by
  induction p generalizing t t' with
  | nil => exact ⟨t', by rw [at?_nil]; exact h, at?_nil t'⟩
  | cons name rest ih =>
    cases t with
    | file content => cases h
    | dir entries =>
      obtain ⟨hsize, v', hv, rfl⟩ := makeDirs_cons h
      obtain ⟨u', hu, hat⟩ := ih hv
      refine ⟨u', ?_, ?_⟩
      · rw [← hu, at?_dir_cons hsize]
        cases entries.lookup name with
        | some v => rfl
        | none => cases rest <;> simp [at?_empty_cons]
      · rw [at?_dir_cons hsize, lookup_put, if_pos rfl]
        exact hat

end

/-- A directory in which all names are such, down to the last. -/
def Named (Q : String → Prop) (t : FileTree) : Prop := ∀ e ∈ t.contents, ∀ name ∈ e.1, Q name

section
variable {Q : String → Prop} {t t' u : FileTree} {p : List String} {entries : List (String × FileTree)}

theorem named_file (content : Text.Bytes) : (file content).Named Q := fun e he => by
  rw [contents] at he
  cases he

theorem named_dir : (dir entries).Named Q ↔ ∀ e ∈ entries, Q e.1 ∧ e.2.Named Q := by
  rw [Named, contents]
  induction entries with
  | nil => simp [contentsOf]
  | cons entry entries ih =>
    obtain ⟨name, u⟩ := entry
    rw [contentsOf, List.cons_append, List.forall_mem_cons, List.forall_mem_append, List.forall_mem_cons, ih]
    simp only [List.forall_mem_map, List.forall_mem_cons, Named]
    constructor
    · exact fun ⟨⟨hname, _⟩, hu, hrest⟩ => ⟨⟨hname, fun e he => (hu e he).2⟩, hrest⟩
    · exact fun ⟨⟨hname, hu⟩, hrest⟩ => ⟨⟨hname, nofun⟩, fun e he => ⟨hname, hu e he⟩, hrest⟩

theorem named_empty : (dir []).Named Q := named_dir.2 nofun

theorem Named.of_lookup (h : (dir entries).Named Q) (hlookup : entries.lookup name = some u) : u.Named Q := by
  obtain ⟨before, behind, rfl, -⟩ := List.lookup_eq_some_iff.1 hlookup
  exact (named_dir.1 h _ List.mem_append_cons_self).2

theorem Named.of_find (h : t.Named Q) (hu : t.find p = .ok u) : u.Named Q := by
  induction p generalizing t with
  | nil =>
    rw [find_nil] at hu
    cases hu
    exact h
  | cons name rest ih =>
    cases t with
    | file content => cases hu
    | dir entries =>
      obtain ⟨v, hentry, hu⟩ := of_bind_eq_ok hu
      exact ih (h.of_lookup (entryOf_eq_ok.1 hentry).2) hu

theorem Named.put (h : (dir entries).Named Q) (hname : Q name) (hu : u.Named Q) :
    (dir (put name u entries)).Named Q := by
  refine named_dir.2 ?_
  replace h := named_dir.1 h
  induction entries with
  | nil => exact List.forall_mem_singleton.2 ⟨hname, hu⟩
  | cons entry entries ih =>
    obtain ⟨other, v⟩ := entry
    obtain ⟨hv, hrest⟩ := List.forall_mem_cons.1 h
    rw [FileTree.put]
    split
    · exact List.forall_mem_cons.2 ⟨⟨hname, hu⟩, hrest⟩
    · exact List.forall_mem_cons.2 ⟨hv, ih hrest⟩

/-- A property that a tree keeps when something with the property is put under a name in it. -/
structure Hereditary (Q : String → Prop) (P : FileTree → Prop) : Prop where
  file : ∀ content, P (file content)
  empty : P (dir [])
  lookup : ∀ {entries name u}, P (dir entries) → entries.lookup name = some u → P u
  put : ∀ {entries name u}, P (dir entries) → Q name → name.utf8ByteSize ≤ 255 → P u → P (dir (put name u entries))

theorem hereditary_named (Q : String → Prop) : Hereditary Q (Named Q) :=
  ⟨named_file, named_empty, Named.of_lookup, fun h hname _ hu => h.put hname hu⟩

section
variable {P : FileTree → Prop} (hP : Hereditary Q P) (h : P t) (hp : ∀ name ∈ p, Q name)
include hP h hp

theorem Hereditary.makeDirs (hmade : t.makeDirs p = .ok t') : P t' := by
  induction p generalizing t t' with
  | nil =>
    cases t <;> cases hmade
    exact h
  | cons name rest ih =>
    cases t with
    | file content => cases hmade
    | dir entries =>
      obtain ⟨hname, hrest⟩ := List.forall_mem_cons.1 hp
      obtain ⟨hsize, u', hu, rfl⟩ := makeDirs_cons hmade
      refine hP.put h hname hsize (ih ?_ hrest hu)
      cases hlookup : entries.lookup name with
      | none => exact hP.empty
      | some u => exact hP.lookup h hlookup

theorem Hereditary.write (hwrite : write content t p = .ok t') : P t' := by
  induction p generalizing t t' with
  | nil =>
    cases t with
    | dir entries => cases hwrite
    | file old =>
      cases hwrite
      exact hP.file content
  | cons name rest ih =>
    cases t with
    | file old => cases hwrite
    | dir entries =>
      obtain ⟨hname, hrest⟩ := List.forall_mem_cons.1 hp
      obtain ⟨hsize, ⟨rfl, r, hr, rfl⟩ | ⟨u, u', -, hlookup, hu, rfl⟩⟩ := update_cons hwrite
      · obtain rfl : r = some (.file content) := by
          split at hr <;> cases hr
          rfl
        exact hP.put h hname hsize (hP.file content)
      · exact hP.put h hname hsize (ih (hP.lookup h hlookup) hrest hu)

end

end

end FileTree

namespace Disk

/-- Two paths lead to the same place. -/
def Same (d : Disk) (p q : FilePath) : Prop :=
  p.root.isEmpty = q.root.isEmpty ∧ ∃ parts, (d.treeOf p).straighten [] p.parts = .ok parts ∧
    (d.treeOf q).straighten [] q.parts = .ok parts

section
variable {d : Disk} {p q : FilePath} {old content : Text.Bytes}

theorem treeOf_eq (h : p.root.isEmpty = q.root.isEmpty) (d : Disk) : d.treeOf q = d.treeOf p := by
  rw [treeOf, treeOf, h]

theorem treeOf_withTree (h : p.root.isEmpty = q.root.isEmpty) (t : FileTree) : (d.withTree p t).treeOf q = t := by
  rw [treeOf, withTree, ← h]
  split <;> rfl

theorem treeOf_withTree_of_ne (h : p.root.isEmpty ≠ q.root.isEmpty) (t : FileTree) :
    (d.withTree p t).treeOf q = d.treeOf q := by
  rw [treeOf, withTree, treeOf]
  cases hp : p.root.isEmpty <;> cases hq : q.root.isEmpty <;> simp_all

theorem find_of_not_mem (h : ".." ∉ p.parts) : d.find p = (d.treeOf p).find p.parts := by
  rw [find, FileTree.straighten_of_not_mem _ h]
  rfl

theorem update_of_not_mem (h : ".." ∉ p.parts) (f : FileTree → List String → Except FileFault FileTree) :
    d.update p f = (f (d.treeOf p) p.parts).map (d.withTree p) := by
  rw [update, FileTree.straighten_of_not_mem _ h, List.nil_append]
  simp only [bind, Except.bind]
  cases f (d.treeOf p) p.parts <;> rfl

theorem treeOf_of_update {d' : Disk} {f : FileTree → List String → Except FileFault FileTree} (hroot : p.root = q.root)
    (hp : ".." ∉ p.parts) (h : d.update p f = .ok d') : f (d.treeOf q) p.parts = .ok (d'.treeOf q) := by
  have hsame : d.treeOf p = d.treeOf q := by rw [treeOf, treeOf, hroot]
  rw [update_of_not_mem hp, hsame] at h
  cases ht : f (d.treeOf q) p.parts with
  | error fault =>
    rw [ht] at h
    cases h
  | ok t =>
    rw [ht] at h
    cases h
    rw [treeOf_withTree (by rw [hroot])]

theorem isThere_eq_false : d.isThere p = false ↔ ∀ t, d.find p ≠ .ok t := by
  rw [isThere]
  cases d.find p <;> simp [Except.isOk, Except.toBool]

theorem isThere_eq_false_iff_at? (h : ".." ∉ p.parts) : d.isThere p = false ↔ (d.treeOf p).at? p.parts = none := by
  rw [isThere_eq_false, find_of_not_mem h, FileTree.at?]
  cases (d.treeOf p).find p.parts <;> simp [Except.toOption]

theorem readBytes_eq_ok : d.readBytes p = .ok content ↔
    ∃ parts, (d.treeOf p).straighten [] p.parts = .ok parts ∧ (d.treeOf p).find parts = .ok (.file content) := by
  simp only [readBytes, find]
  cases (d.treeOf p).straighten [] p.parts with
  | error fault => simp [bind, Except.bind]
  | ok parts =>
    cases hfind : (d.treeOf p).find parts with
    | error fault => simp [bind, Except.bind, hfind]
    | ok t => cases t <;> simp [bind, Except.bind, hfind, pure, Except.pure]

theorem same_self (h : d.readBytes p = .ok content) : d.Same p p := by
  obtain ⟨parts, hparts, -⟩ := readBytes_eq_ok.1 h
  exact ⟨rfl, parts, hparts, hparts⟩

theorem Same.readBytes_eq (h : d.Same p q) : d.readBytes p = d.readBytes q := by
  obtain ⟨hroot, parts, hp, hq⟩ := h
  rw [readBytes, readBytes, find, find, hp, hq, treeOf_eq hroot]

/-- A file that can be read can be written over. It is then read with the new content by every path to it, and
everything else is read as before. -/
theorem exists_write_over (hold : d.readBytes p = .ok old) (content : Text.Bytes) :
    ∃ d', d.write p content = .ok d' ∧ (∀ q, d.Same p q → d'.readBytes q = .ok content) ∧
      (∀ q, ¬d.Same p q → d'.readBytes q = d.readBytes q) ∧ ∀ q q', d'.Same q q' ↔ d.Same q q' := by
  obtain ⟨parts, hparts, hfind⟩ := readBytes_eq_ok.1 hold
  obtain ⟨t', ht'⟩ := FileTree.exists_write hfind content
  have hwrite : d.write p content = .ok (d.withTree p t') := by
    rw [write, update, hparts]
    exact congrArg (· >>= fun t => pure (d.withTree p t)) ht'
  have hstraighten (q : FilePath) : ((d.withTree p t').treeOf q).straighten [] q.parts =
      (d.treeOf q).straighten [] q.parts := by
    by_cases hroot : p.root.isEmpty = q.root.isEmpty
    · rw [treeOf_withTree hroot, treeOf_eq hroot, FileTree.straighten_write hfind ht']
    · rw [treeOf_withTree_of_ne hroot]
  refine ⟨d.withTree p t', hwrite, fun q hq => ?_, fun q hq => ?_, fun q q' => ?_⟩
  · obtain ⟨hroot, parts', hp, hq⟩ := hq
    obtain rfl := Except.ok.inj (hparts.symm.trans hp)
    refine readBytes_eq_ok.2 ⟨parts, (hstraighten q).trans hq, ?_⟩
    rw [treeOf_withTree hroot]
    exact FileTree.find_write ht'
  · by_cases hroot : p.root.isEmpty = q.root.isEmpty
    · rw [readBytes, readBytes, find, find, hstraighten, treeOf_withTree hroot, treeOf_eq hroot]
      cases hparts' : (d.treeOf p).straighten [] q.parts with
      | error fault => rfl
      | ok parts' =>
        simp only [bind, Except.bind]
        rcases @FileTree.find_write_eq _ _ _ parts' _ _ hfind ht' with ⟨rfl, -⟩ | ⟨-, hsame | ⟨es, es', hes, hes'⟩⟩
        · exact absurd ⟨hroot, parts', hparts, treeOf_eq hroot d ▸ hparts'⟩ hq
        · rw [hsame]
        · rw [hes, hes']
    · rw [readBytes, readBytes, find, find, treeOf_withTree_of_ne hroot]
  · rw [Same, Same, hstraighten, hstraighten]

end

end Disk

end CodeMigration
