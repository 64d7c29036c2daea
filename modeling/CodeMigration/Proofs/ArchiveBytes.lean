import CodeMigration.Archive
import CodeMigration.Proofs.Utf8
import Mathlib.Algebra.GroupWithZero.Nat
import Mathlib.Data.List.Basic
import Mathlib.Data.List.TakeWhile

/-! # Archives as bytes and back

An archive is read back from its bytes. The record at the end says where the directory is, each line of the directory
where the entry of a file is, and all of them agree as long as lengths and places fit into their fields. -/

namespace CodeMigration

open Text (Bytes)

namespace Archive

theorem length_number (width n : Nat) : (number width n).length = width := by
  induction width generalizing n with
  | zero => rfl
  | succ width ih => rw [number, List.length_cons, ih]

variable {width n offset : Nat} {bytes : Bytes} {a : Archive} {i fuel : Nat} {e : ArchiveEntry} {p : Packing}

theorem value_number (h : n < 256 ^ width) : value (number width n) = n := by
  induction width generalizing n with
  | zero =>
    rw [Nat.pow_zero] at h
    rw [number, value]
    omega
  | succ width ih =>
    have hrest : n / 256 < 256 ^ width := by
      rw [Nat.pow_succ] at h
      exact Nat.div_lt_of_lt_mul (by rwa [Nat.mul_comm])
    rw [number, value, ih hrest, UInt8.toNat_ofNat']
    omega

theorem length_fields (fs : List (Nat × Nat)) : (fields fs).length = (fs.map Prod.fst).sum := by
  rw [fields, List.length_flatMap]
  exact congrArg List.sum (List.map_congr_left fun f _ => length_number f.1 f.2)

theorem drop_fields {fs : List (Nat × Nat)} {size : Nat} (hsize : (fs.map Prod.fst).sum = size) (rest : Bytes) :
    (fields fs ++ rest).drop size = rest ∧ ¬(fields fs ++ rest).length < size := by
  have hlength : (fields fs).length = size := (length_fields fs).trans hsize
  exact ⟨List.drop_left' hlength, by rw [List.length_append]; omega⟩

theorem field_fields (widths : List Nat) {fs : List (Nat × Nat)} (hwidths : fs.map Prod.fst = widths)
    (hi : fs[i]? = some (width, n)) (hn : n < 256 ^ width) (rest : Bytes) :
    field (widths.take i).sum width (fields fs ++ rest) = n := by
  obtain ⟨hlt, hget⟩ := List.getElem?_eq_some_iff.1 hi
  have hsplit : fields fs ++ rest = fields (fs.take i) ++ (number width n ++ (fields (fs.drop (i + 1)) ++ rest)) := by
    conv_lhs => rw [← List.take_append_drop i fs, List.drop_eq_getElem_cons hlt, hget]
    simp [fields]
  rw [field, hsplit, ← hwidths, ← List.map_take, ← length_fields, List.drop_left,
    List.take_left' (length_number width n), value_number hn]

theorem length_entryBytes (p : Packing) (e : ArchiveEntry) :
    (entryBytes p e).length = headerSize + (Text.encode e.name).length + (p.pack e.content).length := by
  rw [entryBytes, List.length_append, List.length_append, length_fields]
  simp [commonFields, headerSize]

theorem length_directoryBytes (p : Packing) (offset : Nat) (e : ArchiveEntry) :
    (directoryBytes p offset e).length = lineSize + (Text.encode e.name).length := by
  rw [directoryBytes, List.length_append, length_fields]
  simp [commonFields, lineSize]

def lineOf (p : Packing) (offset : Nat) (e : ArchiveEntry) : Line :=
  { name := e.name, flags := nameFlag, method := deflated, sum := (checksum e.content).toNat
    packedSize := (p.pack e.content).length, size := e.content.length, offset }

/-- An archive in which every length and every place fits into its field. -/
structure Fits (p : Packing) (a : Archive) : Prop where
  size : (a.toBytes p).length < 256 ^ 4
  names : ∀ e ∈ a, (Text.encode e.name).length < 256 ^ 2
  contents : ∀ e ∈ a, e.content.length < 256 ^ 4

/-- What was made smaller can be made large again. -/
def Packing.Lossless (p : Packing) : Prop := ∀ content, p.unpack deflated (p.pack content) = .ok content

theorem nameOf_encode (name : String) : nameOf nameFlag (Text.encode name) = .ok name := by
  rw [nameOf, if_pos (by decide), Text.decode_encode]
  rfl

theorem cutName_eq_self {name : String} (h : Char.ofNat 0 ∉ name.toList) : cutName name = name := by
  have hall : ∀ c ∈ name.toList, (c.toNat != 0) = true := by
    intro c hc
    refine bne_iff_ne.2 fun hzero => h ?_
    rwa [← hzero, Char.ofNat_toNat]
  rw [cutName, List.takeWhile_eq_self_iff.2 hall, String.ofList_toList]

def lineFields (p : Packing) (offset : Nat) (e : ArchiveEntry) : List (Nat × Nat) :=
  (4, directoryMark) :: (2, 20) :: commonFields p e ++ [(2, 0), (2, 0), (2, 0), (4, 0), (4, offset)]

theorem checksum_lt (content : Bytes) : (checksum content).toNat < 256 ^ 4 := (checksum content).toNat_lt

theorem firstLine_directoryBytes (hoffset : offset < 256 ^ 4) (hpacked : (p.pack e.content).length < 256 ^ 4)
    (hsize : e.content.length < 256 ^ 4) (hname : (Text.encode e.name).length < 256 ^ 2) (tail : Bytes) :
    firstLine (directoryBytes p offset e ++ tail) = .ok (lineOf p offset e, tail) := by
  have hbytes : directoryBytes p offset e ++ tail = fields (lineFields p offset e) ++ (Text.encode e.name ++ tail) :=
    List.append_assoc _ _ _
  have hwidth : ((lineFields p offset e).map Prod.fst).sum = lineSize := by simp [lineFields, commonFields, lineSize]
  obtain ⟨hdrop, hlong⟩ := drop_fields hwidth (Text.encode e.name ++ tail)
  have hread {i width n : Nat} (hi : (lineFields p offset e)[i]? = some (width, n)) (hn : n < 256 ^ width) :=
    field_fields [4, 2, 2, 2, 2, 2, 2, 4, 4, 4, 2, 2, 2, 2, 2, 4, 4] rfl hi hn (Text.encode e.name ++ tail)
  rw [hbytes]
  generalize fields (lineFields p offset e) ++ (Text.encode e.name ++ tail) = record at hread hdrop hlong ⊢
  have hmark := hread (i := 0) rfl (by decide)
  have hversion := hread (i := 2) rfl (by decide)
  have hflags := hread (i := 3) rfl (by decide)
  have hmethod := hread (i := 4) rfl (by decide)
  have hsum := hread (i := 7) rfl (checksum_lt _)
  have hpacked := hread (i := 8) rfl hpacked
  have hsize := hread (i := 9) rfl hsize
  have hname := hread (i := 10) rfl hname
  have hextra := hread (i := 11) rfl (by decide)
  have hcomment := hread (i := 12) rfl (by decide)
  have hoffset := hread (i := 16) rfl hoffset
  simp only [List.take_succ_cons, List.take_zero, List.sum_cons, List.sum_nil, Nat.reduceAdd]
    at hmark hversion hflags hmethod hsum hpacked hsize hname hextra hcomment hoffset
  simp only [firstLine, if_neg hlong, hmark, bne_self_eq_false, Bool.false_eq_true, if_false, hversion, hflags, hmethod,
    hsum, hpacked, hsize, hname, hextra, hcomment, hoffset, ← List.drop_drop, hdrop, List.drop_left, List.drop_zero,
    List.take_left, nameOf_encode]
  rfl

/-- The lines of a directory for entries from some place on. -/
def linesFrom (p : Packing) (offset : Nat) : Archive → List Line
  | [] => []
  | e :: rest => lineOf p offset e :: linesFrom p (offset + (entryBytes p e).length) rest

theorem directory_cons (p : Packing) (offset : Nat) (e : ArchiveEntry) (a : Archive) (fuel : Nat) :
    lines (fuel + 1) (directory p offset (e :: a)) = do
      let (line, behind) ← firstLine (directory p offset (e :: a))
      return line :: (← lines fuel behind) := by
  cases hbytes : directory p offset (e :: a) with
  | nil =>
    have hlength := congrArg List.length hbytes
    rw [directory, List.length_append, length_directoryBytes, List.length_nil, lineSize] at hlength
    omega
  | cons b rest => rfl

theorem lines_directory (hsize : offset + (a.flatMap (entryBytes p)).length < 256 ^ 4)
    (hname : ∀ e ∈ a, (Text.encode e.name).length < 256 ^ 2) (hcontent : ∀ e ∈ a, e.content.length < 256 ^ 4)
    (hfuel : a.length ≤ fuel) : lines fuel (directory p offset a) = .ok (linesFrom p offset a) := by
  induction a generalizing offset fuel with
  | nil => cases fuel <;> rfl
  | cons e a ih =>
    obtain ⟨hname, hnames⟩ := List.forall_mem_cons.1 hname
    obtain ⟨hcontent, hcontents⟩ := List.forall_mem_cons.1 hcontent
    rw [List.flatMap_cons, List.length_append] at hsize
    have hentry := length_entryBytes p e
    cases fuel with
    | zero => cases hfuel
    | succ fuel =>
      have hrest : lines fuel (directory p (offset + (entryBytes p e).length) a) = .ok _ :=
        ih (by omega) hnames hcontents (Nat.le_of_succ_le_succ hfuel)
      rw [directory_cons, directory, firstLine_directoryBytes (by omega) (by omega) hcontent hname]
      simp only [bind, Except.bind, hrest]
      rfl

theorem entryOf_lineOf (hp : p.Lossless) (hname : (Text.encode e.name).length < 256 ^ 2)
    (hplain : Char.ofNat 0 ∉ e.name.toList) (before behind : Bytes) :
    entryOf p (before ++ (entryBytes p e ++ behind)) 0 (lineOf p before.length e) = .ok e := by
  have hrecord : (before ++ (entryBytes p e ++ behind)).drop (before.length + 0) =
      fields ((4, entryMark) :: commonFields p e) ++ (Text.encode e.name ++ (p.pack e.content ++ behind)) := by
    rw [Nat.add_zero, List.drop_left, entryBytes, List.append_assoc, List.append_assoc]
  have hwidth : (((4, entryMark) :: commonFields p e).map Prod.fst).sum = headerSize := by
    simp [commonFields, headerSize]
  obtain ⟨hdrop, hlong⟩ := drop_fields hwidth (Text.encode e.name ++ (p.pack e.content ++ behind))
  have hread {i width n : Nat} (hi : ((4, entryMark) :: commonFields p e)[i]? = some (width, n))
      (hn : n < 256 ^ width) :=
    field_fields [4, 2, 2, 2, 2, 2, 4, 4, 4, 2, 2] rfl hi hn (Text.encode e.name ++ (p.pack e.content ++ behind))
  rw [entryOf, lineOf, hrecord]
  generalize fields ((4, entryMark) :: commonFields p e) ++ (Text.encode e.name ++ (p.pack e.content ++ behind)) =
    record at hread hdrop hlong ⊢
  have hmark := hread (i := 0) rfl (by decide)
  have hflags := hread (i := 2) rfl (by decide)
  have hname := hread (i := 9) rfl hname
  have hextra := hread (i := 10) rfl (by decide)
  simp only [List.take_succ_cons, List.take_zero, List.sum_cons, List.sum_nil, Nat.reduceAdd] at hmark hflags hname hextra
  have hcontent : p.contentOf deflated (p.pack e.content) = .ok e.content := by
    rw [Packing.contentOf, if_neg (by decide), if_pos (by decide), hp]
    rfl
  have hflag (i : Nat) (hi : i < 7) : nameFlag.testBit i = false := by decide +revert
  simp only [if_neg hlong, hmark, hflags, hname, hextra, bne_self_eq_false, Bool.false_eq_true, if_false, hflag, hdrop,
    Nat.reduceLT, List.take_left, nameOf_encode, bind, Except.bind, ← List.drop_drop, List.drop_left, List.drop_zero,
    hcontent, List.take_length, beq_self_eq_true, if_true, cutName_eq_self hplain]
  rfl

theorem entriesOf_linesFrom (hp : p.Lossless) (hname : ∀ e ∈ a, (Text.encode e.name).length < 256 ^ 2)
    (hplain : ∀ e ∈ a, Char.ofNat 0 ∉ e.name.toList) (before behind : Bytes) :
    entriesOf p (before ++ (a.flatMap (entryBytes p) ++ behind)) 0 (linesFrom p before.length a) = ⟨a, none⟩ := by
  induction a generalizing before with
  | nil => rfl
  | cons e a ih =>
    obtain ⟨hname, hnames⟩ := List.forall_mem_cons.1 hname
    obtain ⟨hplain, hplains⟩ := List.forall_mem_cons.1 hplain
    have hrest := ih hnames hplains (before ++ entryBytes p e)
    rw [List.length_append, List.append_assoc] at hrest
    rw [linesFrom, entriesOf, List.flatMap_cons, List.append_assoc, entryOf_lineOf hp hname hplain]
    exact congrArg (Partial.cons e) hrest

theorem field_append (bytes record : Bytes) (start width : Nat) :
    field (bytes.length + start) width (bytes ++ record) = field start width record := by
  rw [field, field, ← List.drop_drop, List.drop_left]

def endFields (count size offset : Nat) : List (Nat × Nat) :=
  [(4, endMark), (2, 0), (2, 0), (2, count), (2, count), (4, size), (4, offset), (2, 0)]

theorem field_endBytes {count size : Nat} (hi : (endFields count size offset)[i]? = some (width, n))
    (hn : n < 256 ^ width) : field ([4, 2, 2, 2, 2, 4, 4, 2].take i).sum width (endBytes count size offset) = n := by
  have hread := field_fields [4, 2, 2, 2, 2, 4, 4, 2] rfl hi hn []
  rwa [List.append_nil] at hread

theorem endPlace?_append (bytes : Bytes) (count size offset : Nat) :
    endPlace? (bytes ++ endBytes count size offset) = some bytes.length := by
  have hlength : (endBytes count size offset).length = endSize := by
    simp [endBytes, length_fields, endSize]
  have hmark : field bytes.length 4 (bytes ++ endBytes count size offset) = endMark :=
    (field_append bytes _ 0 4).trans (field_endBytes (i := 0) rfl (by decide))
  have hcomment : field (bytes.length + 20) 2 (bytes ++ endBytes count size offset) = 0 :=
    (field_append bytes _ 20 2).trans (field_endBytes (i := 7) rfl (by decide))
  rw [endPlace?, List.length_append, hlength, Nat.add_sub_cancel, if_neg (by omega), hmark, hcomment]
  rfl

theorem length_le_length_directory (p : Packing) (a : Archive) (offset : Nat) :
    a.length ≤ (directory p offset a).length := by
  induction a generalizing offset with
  | nil => exact Nat.zero_le _
  | cons e a ih =>
    have hrest := ih (offset + (entryBytes p e).length)
    rw [directory, List.length_append, length_directoryBytes, List.length_cons, lineSize]
    omega

/-- An archive is read back from its bytes. -/
theorem ofBytes_toBytes (hp : p.Lossless) (h : Fits p a) (hplain : ∀ e ∈ a, Char.ofNat 0 ∉ e.name.toList) :
    ofBytes p (a.toBytes p) = ⟨a, none⟩ := by
  obtain ⟨hsize, hnames, hcontents⟩ := h
  have hlines := length_le_length_directory p a 0
  rw [toBytes] at hsize ⊢
  simp only [List.length_append] at hsize
  have hread := entriesOf_linesFrom hp hnames hplain [] (directory p 0 a ++
    endBytes a.length (directory p 0 a).length (a.flatMap (entryBytes p)).length)
  have hdirectory : lines (directory p 0 a).length (directory p 0 a) = .ok (linesFrom p 0 a) :=
    lines_directory (by omega) hnames hcontents hlines
  generalize hentries : a.flatMap (entryBytes p) = entries at *
  generalize hdir : directory p 0 a = dir at *
  have hplace : (entries ++ dir).length = entries.length + dir.length := List.length_append
  have hdirSize : field ((entries ++ dir).length + 12) 4
      (entries ++ dir ++ endBytes a.length dir.length entries.length) = dir.length :=
    (field_append _ _ 12 4).trans (field_endBytes (i := 5) rfl (by omega))
  have hoffset : field ((entries ++ dir).length + 16) 4
      (entries ++ dir ++ endBytes a.length dir.length entries.length) = entries.length :=
    (field_append _ _ 16 4).trans (field_endBytes (i := 6) rfl (by omega))
  have hshift : (entries ++ dir).length - dir.length - entries.length = 0 := by omega
  have hlines : ((entries ++ dir ++ endBytes a.length dir.length entries.length).drop (entries.length + 0)).take
      dir.length = dir := by
    rw [Nat.add_zero, List.append_assoc, List.drop_left, List.take_left]
  simp only [ofBytes, endPlace?_append, hdirSize, hoffset, hshift, hlines, hdirectory]
  rw [if_neg (by omega), List.append_assoc]
  exact hread

theorem zero_not_mem_cutName (name : String) : Char.ofNat 0 ∉ (cutName name).toList := by
  rw [cutName, String.toList_ofList]
  intro hmem
  have hplain := List.all_eq_true.1 List.all_takeWhile _ hmem
  exact absurd hplain (by decide)

theorem name_of_entryOf {shift : Nat} {line : Line} (h : entryOf p bytes shift line = .ok e) :
    e.name = cutName line.name := by
  simp only [entryOf, bind, Except.bind] at h
  repeat' split at h
  all_goals cases h
  rfl

theorem zero_not_mem_of_mem_entriesOf {shift : Nat} (ls : List Line) :
    ∀ e ∈ (entriesOf p bytes shift ls).items, Char.ofNat 0 ∉ e.name.toList := by
  induction ls with
  | nil => simp [entriesOf]
  | cons line ls ih =>
    rw [entriesOf]
    cases hentry : entryOf p bytes shift line with
    | error failure => simp
    | ok e =>
      refine List.forall_mem_cons.2 ⟨?_, ih⟩
      rw [name_of_entryOf hentry]
      exact zero_not_mem_cutName _

theorem zero_not_mem_of_mem_ofBytes : ∀ e ∈ (ofBytes p bytes).items, Char.ofNat 0 ∉ e.name.toList := by
  unfold ofBytes
  split
  · simp
  · dsimp only
    split
    · simp
    · split
      · exact zero_not_mem_of_mem_entriesOf _
      · simp

end Archive

end CodeMigration
