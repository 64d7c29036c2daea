import CodeMigration.Text.Quoted

/-! # Texts as bytes -/

namespace CodeMigration.Text

abbrev Bytes : Type := List UInt8

def encode (s : String) : Bytes := s.toList.flatMap String.utf8EncodeChar

inductive Codec where
  | utf8 | utf16le | utf16be | utf32le | utf32be

def Codec.name : Codec → String
  | utf8 => "utf-8"
  | utf16le => "utf-16-le"
  | utf16be => "utf-16-be"
  | utf32le => "utf-32-le"
  | utf32be => "utf-32-be"

inductive DecodeReason where
  | start | continuation | unfinished | truncated | tooLarge

def DecodeReason.text : DecodeReason → String
  | start => "invalid start byte"
  | continuation => "invalid continuation byte"
  | unfinished => "unexpected end of data"
  | truncated => "truncated data"
  | tooLarge => "code point not in range(0x110000)"

/-- The bytes to blame: where they start, their number and the first of them. -/
structure DecodeFault where
  codec : Codec
  position : Nat
  count : Nat
  byte : UInt8
  reason : DecodeReason

def DecodeFault.message (f : DecodeFault) : String :=
  let what := if f.count == 1 then "byte 0x" ++ ofPoints (hexDigits 2 f.byte.toNat) ++ " in position " ++
      toString f.position
    else "bytes in position " ++ toString f.position ++ "-" ++ toString (f.position + f.count - 1)
  "'" ++ f.codec.name ++ "' codec can't decode " ++ what ++ ": " ++ f.reason.text

def isContinuation (b : UInt8) : Bool := 0x80 ≤ b && b < 0xC0

def isSecond (first second : UInt8) : Bool :=
  isContinuation second &&
    (first != 0xE0 || 0xA0 ≤ second) && (first != 0xED || second < 0xA0) &&
    (first != 0xF0 || 0x90 ≤ second) && (first != 0xF4 || second < 0x90)

def low (b : UInt8) : Nat := b.toNat % 64

/-- The first character of bytes that start with `b`, with the number of bytes it takes, or why there
is none with the number of bytes to blame. -/
def firstChar (b : UInt8) (rest : Bytes) : Except (Nat × DecodeReason) (Char × Nat) :=
  if b < 0x80 then .ok (Char.ofNat b.toNat, 1)
  else if b < 0xC2 then .error (1, .start)
  else if b < 0xE0 then
    match rest with
    | [] => .error (1, .unfinished)
    | c :: _ =>
      if isContinuation c then .ok (Char.ofNat ((b.toNat - 0xC0) * 64 + low c), 2)
      else .error (1, .continuation)
  else if b < 0xF0 then
    match rest with
    | [] => .error (1, .unfinished)
    | c :: rest =>
      if !isSecond b c then .error (1, .continuation)
      else match rest with
        | [] => .error (2, .unfinished)
        | d :: _ =>
          if isContinuation d then .ok (Char.ofNat (((b.toNat - 0xE0) * 64 + low c) * 64 + low d), 3)
          else .error (2, .continuation)
  else if b < 0xF5 then
    match rest with
    | [] => .error (1, .unfinished)
    | c :: rest =>
      if !isSecond b c then .error (1, .continuation)
      else match rest with
        | [] => .error (2, .unfinished)
        | d :: rest =>
          if !isContinuation d then .error (2, .continuation)
          else match rest with
            | [] => .error (3, .unfinished)
            | e :: _ =>
              if isContinuation e then
                .ok (Char.ofNat ((((b.toNat - 0xF0) * 64 + low c) * 64 + low d) * 64 + low e), 4)
              else .error (3, .continuation)
  else .error (1, .start)

/-- Decodes bytes character by character, as `first` reads the first one. -/
def decodeFrom (first : UInt8 → Bytes → Except (Nat × DecodeReason) (Char × Nat)) (position : Nat) :
    Nat → Bytes → Except DecodeFault (List Char)
  | _, [] => .ok []
  | skip + 1, _ :: rest => decodeFrom first (position + 1) skip rest
  | 0, b :: rest =>
    match first b rest with
    | .error (count, reason) => .error ⟨.utf8, position, count, b, reason⟩
    | .ok (c, count) => do return c :: (← decodeFrom first (position + 1) (count - 1) rest)

def decode (bytes : Bytes) : Except DecodeFault String := do
  return String.ofList (← decodeFrom firstChar 0 0 bytes)

/-- Decodes bytes with a text in the place of each part that is none. -/
def decodeOr (mark : List Char) : Nat → Bytes → List Char
  | _, [] => []
  | skip + 1, _ :: rest => decodeOr mark skip rest
  | 0, b :: rest =>
    match firstChar b rest with
    | .error (count, _) => mark ++ decodeOr mark (count - 1) rest
    | .ok (c, count) => c :: decodeOr mark (count - 1) rest

def unifyLineEnds : List Char → List Char
  | [] => []
  | '\r' :: '\n' :: rest => '\n' :: unifyLineEnds rest
  | '\r' :: rest => '\n' :: unifyLineEnds rest
  | c :: rest => c :: unifyLineEnds rest

end CodeMigration.Text
