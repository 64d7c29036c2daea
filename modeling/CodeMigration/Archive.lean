import CodeMigration.Failure

/-! # Archives

Files in one file: each behind a header of its own, a directory of all of them, and a record of where the
directory is. Numbers have their low bytes first. Contents can be made smaller; how, is a matter of the outside. -/

namespace CodeMigration

open Text (Bytes)

/-- A file in an archive; a directory has a slash at the end of its name. -/
structure ArchiveEntry where
  name : String
  content : Bytes
  deriving Inhabited

namespace ArchiveEntry

def isDir (e : ArchiveEntry) : Bool := e.name.toList.getLast? == some '/'

/-- Where it goes below the directory that it is taken out to: nothing leads back or to a root. -/
def parts (e : ArchiveEntry) : List String := (FilePath.ofString e.name).parts.filter (· != "..")

end ArchiveEntry

abbrev Archive : Type := List ArchiveEntry

namespace Archive

def number : Nat → Nat → Bytes
  | 0, _ => []
  | width + 1, n => UInt8.ofNat n :: number width (n / 256)

def value : Bytes → Nat
  | [] => 0
  | b :: rest => b.toNat + 256 * value rest

def fields (fs : List (Nat × Nat)) : Bytes := fs.flatMap fun (width, n) => number width n

def field (start width : Nat) (record : Bytes) : Nat := value ((record.drop start).take width)

def sumBit (n : UInt32) : UInt32 := if n &&& 1 == 1 then (n >>> 1) ^^^ 0xEDB88320 else n >>> 1

def sumByte (sum : UInt32) (b : UInt8) : UInt32 := Nat.repeat sumBit 8 (sum ^^^ b.toUInt32)

def checksum (content : Bytes) : UInt32 := (content.foldl sumByte 0xFFFFFFFF) ^^^ 0xFFFFFFFF

def entryMark : Nat := 0x04034B50

def directoryMark : Nat := 0x02014B50

def endMark : Nat := 0x06054B50

/-- Ways to make contents smaller. -/
structure Packing where
  /-- What is written for contents, by the method `deflated`. -/
  pack : Bytes → Bytes := id
  /-- What contents were before, by the number of the method, or what is reported of them. -/
  unpack : Nat → Bytes → Except String Bytes := fun _ bytes => .ok bytes

def stored : Nat := 0

def deflated : Nat := 8

def packedMethods : List Nat := [deflated, 12, 14]

def Packing.contentOf (p : Packing) (method : Nat) (bytes : Bytes) : Except Failure Bytes :=
  if method == stored then .ok bytes
  else if packedMethods.contains method then (p.unpack method bytes).mapError fun text => .archive (.damaged text)
  else .error (.archive .unknownMethod)

/-- Names are in UTF-8. -/
def nameFlag : Nat := 0x800

variable (p : Packing)

/-- The fields that the header of an entry and its line in the directory share. -/
def commonFields (e : ArchiveEntry) : List (Nat × Nat) :=
  [(2, 20), (2, nameFlag), (2, deflated), (2, 0), (2, 33), (4, (checksum e.content).toNat),
    (4, (p.pack e.content).length), (4, e.content.length), (2, (Text.encode e.name).length), (2, 0)]

def entryBytes (e : ArchiveEntry) : Bytes :=
  fields ((4, entryMark) :: commonFields p e) ++ Text.encode e.name ++ p.pack e.content

def directoryBytes (offset : Nat) (e : ArchiveEntry) : Bytes :=
  fields ((4, directoryMark) :: (2, 20) :: commonFields p e ++ [(2, 0), (2, 0), (2, 0), (4, 0), (4, offset)]) ++
    Text.encode e.name

def directory (offset : Nat) : Archive → Bytes
  | [] => []
  | e :: rest => directoryBytes p offset e ++ directory (offset + (entryBytes p e).length) rest

def endBytes (count size offset : Nat) : Bytes :=
  fields [(4, endMark), (2, 0), (2, 0), (2, count), (2, count), (4, size), (4, offset), (2, 0)]

def toBytes (a : Archive) : Bytes :=
  let entries := a.flatMap (entryBytes p)
  let dir := directory p 0 a
  entries ++ dir ++ endBytes a.length dir.length entries.length

def endSize : Nat := 22

/-- The most bytes that can stand behind an end record. -/
def commentLimit : Nat := 65536

/-- The place of the end record: at the end of the file, or else the last one before a comment, if it is whole. -/
def endPlace? (bytes : Bytes) : Option Nat :=
  let last := bytes.length - endSize
  let first := last - commentLimit
  let starts := (List.range (bytes.length + 1 - first)).reverse.map (first + ·)
  if bytes.length < endSize then none
  else if field last 4 bytes == endMark && field (last + 20) 2 bytes == 0 then some last
  else (starts.find? fun i => field i 4 bytes == endMark).filter (· ≤ last)

def lineSize : Nat := 46

def headerSize : Nat := 30

structure Line where
  name : String
  flags : Nat
  method : Nat
  sum : Nat
  packedSize : Nat
  size : Nat
  offset : Nat

/-- The characters of the bytes from 128 on in names that are not in UTF-8. -/
def oldNames : String :=
  "ÇüéâäàåçêëèïîìÄÅÉæÆôöòûùÿÖÜ¢£¥₧ƒáíóúñÑªº¿⌐¬½¼¡«»░▒▓│┤╡╢╖╕╣║╗╝╜╛┐└┴┬├─┼╞╟╚╔╩╦╠═╬╧╨╤╥╙╘╒╓╫╪┘┌█▄▌▐▀αßΓπΣσµτΦΘΩδ∞φε∩≡±≥≤⌠⌡÷≈°∙·√ⁿ²■\u00A0"

def oldChar (b : UInt8) : Char := if b < 128 then Char.ofNat b.toNat else oldNames.toList.getD (b.toNat - 128) ' '

def nameOf (flags : Nat) (bytes : Bytes) : Except Failure String :=
  if flags.testBit 11 then (Text.decode bytes).mapError .undecodable else .ok (String.ofList (bytes.map oldChar))

/-- A name ends at a NUL. -/
def cutName (name : String) : String := String.ofList (name.toList.takeWhile (·.toNat != 0))

def newestVersion : Nat := 63

/-- The first line of a directory, and the lines behind it. -/
def firstLine (bytes : Bytes) : Except Failure (Line × Bytes) :=
  if bytes.length < lineSize then .error (.archive .shortDirectory)
  else if field 0 4 bytes != directoryMark then .error (.archive .badDirectory)
  else do
    let flags := field 8 2 bytes
    let nameSize := field 28 2 bytes
    let name ← nameOf flags ((bytes.drop lineSize).take nameSize)
    let version := field 6 2 bytes % 256
    if newestVersion < version then .error (.archive (.version version))
    else
      let line : Line :=
        { name, flags, method := field 10 2 bytes, sum := field 16 4 bytes, packedSize := field 20 4 bytes,
          size := field 24 4 bytes, offset := field 42 4 bytes }
      return (line, bytes.drop (lineSize + nameSize + field 30 2 bytes + field 32 2 bytes))

def lines : Nat → Bytes → Except Failure (List Line)
  | 0, _ => .ok []
  | _ + 1, [] => .ok []
  | fuel + 1, b :: rest => do
    let (line, behind) ← firstLine (b :: rest)
    return line :: (← lines fuel behind)

/-- The entry that a line is about, as far as its header agrees. -/
def entryOf (bytes : Bytes) (shift : Nat) (line : Line) : Except Failure ArchiveEntry :=
  let record := bytes.drop (line.offset + shift)
  if record.length < headerSize then .error (.archive .shortHeader)
  else if field 0 4 record != entryMark then .error (.archive .badHeader)
  else if line.flags.testBit 5 then .error (.archive .patched)
  else if line.flags.testBit 6 then .error (.archive .strongEncryption)
  else do
    let nameSize := field 26 2 record
    let nameBytes := (record.drop headerSize).take nameSize
    let name ← nameOf (field 6 2 record) nameBytes
    if name != line.name then .error (.archive (.twoNames line.name (nameBytes.map (·.toNat))))
    else if line.flags.testBit 0 then .error (.archive (.encrypted (cutName line.name)))
    else
      let packed := (record.drop (headerSize + nameSize + field 28 2 record)).take line.packedSize
      let content := (← p.contentOf line.method packed).take line.size
      if (checksum content).toNat == line.sum then return ⟨cutName line.name, content⟩
      else .error (.archive (.badSum (cutName line.name)))

def entriesOf (bytes : Bytes) (shift : Nat) : List Line → Partial ArchiveEntry
  | [] => ⟨[], none⟩
  | line :: rest =>
    match entryOf p bytes shift line with
    | .ok e => .cons e (entriesOf bytes shift rest)
    | .error failure => ⟨[], some failure⟩

/-- The entries of an archive, up to the first that cannot be read. -/
def ofBytes (bytes : Bytes) : Partial ArchiveEntry :=
  match endPlace? bytes with
  | none => ⟨[], some (.archive .noArchive)⟩
  | some place =>
    let size := field (place + 12) 4 bytes
    let offset := field (place + 16) 4 bytes
    if place < size + offset then ⟨[], some (.archive .badOffset)⟩
    else
      let shift := place - size - offset
      match lines size ((bytes.drop (offset + shift)).take size) with
      | .ok ls => entriesOf p bytes shift ls
      | .error failure => ⟨[], some failure⟩

end Archive

end CodeMigration
