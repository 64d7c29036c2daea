import CodeMigration.Files
import CodeMigration.Json.Writer
import CodeMigration.Regex.Syntax
import CodeMigration.Source.Fault
import CodeMigration.Source.Printer.Literal
import CodeMigration.Text.Integer

/-! # Failures

Why an operation has no result. -/

namespace CodeMigration

inductive SettingFault where
  | notKind (value : String)
  | notSwitch (name : String)

def SettingFault.name : SettingFault → String
  | notKind _ => "migration_type"
  | notSwitch name => name

def SettingFault.text : SettingFault → String
  | notKind value =>
    "unexpected value; permitted: 'py2to3', 'flask_to_fastapi' (type=value_error.const; given=" ++ value ++
      "; permitted=('py2to3', 'flask_to_fastapi'))"
  | notSwitch _ => "value could not be parsed to a boolean (type=type_error.bool)"

def settingsText (faults : List SettingFault) : String :=
  toString faults.length ++ " validation error" ++ (if faults.length == 1 then "" else "s") ++ " for Settings" ++
    String.join (faults.map fun f => "\n" ++ f.name ++ "\n  " ++ f.text)

inductive AddressFault where
  | brackets | future | bracketed4
  | neither (host : String)
  /-- It would be divided if its characters were composed. -/
  | divided (host : String)

def AddressFault.message : AddressFault → String
  | brackets => "Invalid IPv6 URL"
  | future => "IPvFuture address is invalid"
  | bracketed4 => "An IPv4 address cannot be in brackets"
  | neither host => Text.quote host ++ " does not appear to be an IPv4 or IPv6 address"
  | divided host => "netloc '" ++ host ++ "' contains invalid characters under NFKC normalization"

def tooManyDigits (count : Nat) : String :=
  "Exceeds the limit (" ++ toString Text.maxReadDigits ++ " digits) for integer string conversion: value has " ++
    toString count ++ " digits; use sys.set_int_max_str_digits() to increase the limit"

inductive ArchiveFault where
  | noArchive | badOffset | shortDirectory | badDirectory | shortHeader | badHeader
  | version (tenths : Nat)
  /-- The directory and the header of an entry name it in different ways. -/
  | twoNames (name : String) (header : List Nat)
  | patched | strongEncryption
  | encrypted (name : String)
  | unknownMethod
  /-- What is reported of contents that cannot be made large again. -/
  | damaged (text : String)
  | badSum (name : String)

def ArchiveFault.kindName : ArchiveFault → String
  | version _ | patched | strongEncryption | unknownMethod => "NotImplementedError"
  | encrypted _ => "RuntimeError"
  | damaged _ => "error"
  | _ => "BadZipFile"

def ArchiveFault.message : ArchiveFault → String
  | noArchive => "File is not a zip file"
  | badOffset => "Bad offset for central directory"
  | shortDirectory => "Truncated central directory"
  | badDirectory => "Bad magic number for central directory"
  | shortHeader => "Truncated file header"
  | badHeader => "Bad magic number for file header"
  | version tenths => "zip file version " ++ toString (tenths / 10) ++ "." ++ toString (tenths % 10)
  | twoNames name header =>
    "File name in directory " ++ Text.quote name ++ " and header " ++ Text.ofPoints (Text.quoteBytes header) ++
      " differ."
  | patched => "compressed patched data (flag bit 5)"
  | strongEncryption => "strong encryption (flag bit 6)"
  | encrypted name => "File " ++ Text.quote name ++ " is encrypted, password required for extraction"
  | unknownMethod => "That compression method is not supported"
  | damaged text => text
  | badSum name => "Bad CRC-32 for file " ++ Text.quote name

inductive Failure where
  | noSuchItem
  /-- A value of some type lacks a member. -/
  | noMember (type name : String)
  | noItems (type : String)
  /-- Members go by name, and none can be taken by its place. -/
  | noPlaces
  | notBelow (path dir : String)
  /-- The item with some number is bytes where texts are joined. -/
  | bytesItem (index : Nat)
  | print (fault : Source.Printer.PrintFault)
  | syntaxFault (fault : Source.Fault)
  | regex (pattern : String) (fault : Regex.Fault)
  | file (fault : FileFault) (path : String)
  | noDirectory (path : String)
  | undecodable (fault : Text.DecodeFault)
  | unknownKind (name : String)
  | unknownStatus (name : String)
  /-- What a service outside reports. -/
  | reported (text : String)
  | system (text : String)
  | address (fault : AddressFault)
  | notInteger (text : String)
  | longInteger (digits : Nat)
  /-- An integer that is no count of items. -/
  | noCount
  /-- A number of bytes that is below every meaning it can have. -/
  | negativeCount
  | unknownRemote (url : String)
  | settings (faults : List SettingFault)
  | archive (fault : ArchiveFault)
  | noJob (id : String)
  | rejected (status : Nat) (detail : String)

def Regex.Fault.kindName (f : Regex.Fault) : String :=
  match f.cause with
  | .bothAlphabets | .tooManyDigits .. => "ValueError"
  | .repeatTooLarge => "OverflowError"
  | _ => "error"

def FileFault.kindName : FileFault → String
  | missing => "FileNotFoundError"
  | notDirectory => "NotADirectoryError"
  | isDirectory => "IsADirectoryError"
  | alreadyThere => "FileExistsError"
  | nameTooLong | notRemovable => "OSError"

def Source.Cause.kindName : Source.Cause → String
  | .unexpectedIndent | .unexpectedUnindent | .badUnindent | .tooManyIndents | .expectedBlock
  | .expectedBlockAfter .. => "IndentationError"
  | .mixedTabs => "TabError"
  | _ => "SyntaxError"

def Source.Fault.report (f : Source.Fault) : String :=
  match f.line with
  | some line => f.message ++ " (<unknown>, line " ++ toString line ++ ")"
  | none => f.message

namespace Failure

def kindName : Failure → String
  | noSuchItem => "IndexError"
  | noMember .. => "AttributeError"
  | bytesItem _ | noItems _ | noPlaces => "TypeError"
  | notBelow .. => "ValueError"
  | print (.bytesMember _) => "TypeError"
  | print _ => "ValueError"
  | syntaxFault fault => fault.cause.kindName
  | regex _ fault => fault.kindName
  | file fault _ => fault.kindName
  | noDirectory _ => FileFault.notDirectory.kindName
  | undecodable _ => "UnicodeDecodeError"
  | unknownKind _ | unknownStatus _ | unknownRemote _ | address _ | notInteger _ | longInteger _ | negativeCount =>
    "ValueError"
  | noCount => "OverflowError"
  | reported _ => "RuntimeError"
  | system _ => "OSError"
  | settings _ => "ValidationError"
  | archive fault => fault.kindName
  | noJob _ => "KeyError"
  | rejected .. => "HTTPException"

def message : Failure → String
  | noSuchItem => "list index out of range"
  | noMember type name => "'" ++ type ++ "' object has no attribute '" ++ name ++ "'"
  | noItems type => "'" ++ type ++ "' object is not subscriptable"
  | noPlaces => "unhashable type: 'slice'"
  | notBelow path dir =>
    Text.quote path ++ " is not in the subpath of " ++ Text.quote dir ++
      " OR one path is relative and the other is absolute."
  | bytesItem index => "sequence item " ++ toString index ++ ": expected str instance, bytes found"
  | print fault => fault.message
  | syntaxFault fault => fault.report
  | regex pattern fault => fault.message pattern.toList
  | file fault path => fault.message path
  | noDirectory path => "[Errno 20] Not a directory: PosixPath(" ++ Text.quote path ++ ")"
  | undecodable fault => fault.message
  | unknownKind name => Text.quote name ++ " is not a valid MigrationType"
  | unknownStatus name => Text.quote name ++ " is not a valid MigrationStatus"
  | reported text => text
  | system text => text
  | address fault => fault.message
  | notInteger text => "invalid literal for int() with base 10: " ++ Text.quote text
  | longInteger digits => tooManyDigits digits
  | noCount => "cannot fit 'int' into an index-sized integer"
  | negativeCount => "read length must be non-negative or -1"
  | unknownRemote url => "Cannot parse remote URL: " ++ url
  | settings faults => settingsText faults
  | archive fault => fault.message
  | noJob id => Text.quote id
  | rejected _ detail => detail

end Failure

/-- Items that came one by one, and why no more came. -/
structure Partial (α : Type) where
  items : List α
  failure : Option Failure := none

namespace Partial

variable {α : Type}

def cons (a : α) (p : Partial α) : Partial α := ⟨a :: p.items, p.failure⟩

def append (p q : Partial α) : Partial α :=
  match p.failure with
  | some f => ⟨p.items, some f⟩
  | none => ⟨p.items ++ q.items, q.failure⟩

def toExcept (p : Partial α) : Except Failure (List α) :=
  match p.failure with
  | some f => .error f
  | none => .ok p.items

def ofExcept : Except Failure (List α) → Partial α
  | .ok items => ⟨items, none⟩
  | .error f => ⟨[], some f⟩

end Partial

end CodeMigration
