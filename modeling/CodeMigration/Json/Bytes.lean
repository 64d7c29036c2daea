import CodeMigration.Json.Reader
import CodeMigration.Text.Utf8

/-! # JSON in bytes

The bytes are UTF-8, or UTF-16 or UTF-32 in either order, as a mark at the start or the places of zeros show. Halves
of pairs that stand alone are let through, with a mark in their place. -/

namespace CodeMigration.Json

open Text (Bytes Codec DecodeFault)

/-- A half pair is no character; all others are. -/
def charOf (n : Nat) : Char := if 0xD800 ≤ n && n < 0xE000 then Char.ofNat 0xFFFD else Char.ofNat n

/-- The first character, or a mark for half a pair. -/
def firstOrHalf (b : UInt8) (rest : Bytes) : Except (Nat × Text.DecodeReason) (Char × Nat) :=
  match Text.firstChar b rest with
  | .ok r => .ok r
  | .error fault =>
    match b, rest with
    | 0xED, c :: d :: _ =>
      if 0xA0 ≤ c && c < 0xC0 && Text.isContinuation d then .ok (Char.ofNat 0xFFFD, 3) else .error fault
    | _, _ => .error fault

def units16 (big : Bool) (position : Nat) : Bytes → Except DecodeFault (List Nat)
  | [] => .ok []
  | [b] => .error ⟨if big then .utf16be else .utf16le, position, 1, b, .truncated⟩
  | a :: b :: rest => do
    let n := if big then a.toNat * 256 + b.toNat else b.toNat * 256 + a.toNat
    return n :: (← units16 big (position + 2) rest)

def joinPairs : List Nat → List Char
  | [] => []
  | [n] => [charOf n]
  | m :: n :: rest =>
    if isHigh m && isLow n then ofPair m n :: joinPairs rest else charOf m :: joinPairs (n :: rest)

def units32 (big : Bool) (position : Nat) : Bytes → Except DecodeFault (List Char)
  | a :: b :: c :: d :: rest => do
    let byte (b : UInt8) := b.toNat
    let n := if big then ((byte a * 256 + byte b) * 256 + byte c) * 256 + byte d
      else ((byte d * 256 + byte c) * 256 + byte b) * 256 + byte a
    if 0x110000 ≤ n then .error ⟨if big then .utf32be else .utf32le, position, 4, a, .tooLarge⟩
    else return charOf n :: (← units32 big (position + 4) rest)
  | [] => .ok []
  | b :: rest => .error ⟨if big then .utf32be else .utf32le, position, rest.length + 1, b, .truncated⟩

def decode16 (big : Bool) (position : Nat) (bytes : Bytes) : Except DecodeFault (List Char) := do
  return joinPairs (← units16 big position bytes)

set_option maxRecDepth 2000 in
def charsOf (bytes : Bytes) : Except DecodeFault (List Char) :=
  match bytes with
  | 0 :: 0 :: 0xFE :: 0xFF :: rest => units32 true 4 rest
  | 0xFF :: 0xFE :: 0 :: 0 :: rest => units32 false 4 rest
  | 0xFE :: 0xFF :: rest => decode16 true 2 rest
  | 0xFF :: 0xFE :: rest => decode16 false 2 rest
  | 0xEF :: 0xBB :: 0xBF :: rest => Text.decodeFrom firstOrHalf 0 0 rest
  | 0 :: 0 :: _ :: _ :: _ => units32 true 0 bytes
  | 0 :: _ :: _ :: _ :: _ => decode16 true 0 bytes
  | _ :: 0 :: 0 :: 0 :: _ => units32 false 0 bytes
  | _ :: 0 :: _ :: _ :: _ => decode16 false 0 bytes
  | [0, _] => decode16 true 0 bytes
  | [_, 0] => decode16 false 0 bytes
  | _ => Text.decodeFrom firstOrHalf 0 0 bytes

end CodeMigration.Json
