import Mathlib

/-!
# Text as the source holds it

A Rust `String` is a sequence of bytes that happens to be valid UTF-8, and
everything this program does to one — trimming dots, lowering ASCII letters,
splitting at a separator, comparing, measuring — it does byte by byte. `Str`
is that sequence of bytes. A statement about every `Str` is therefore a
statement about every string and a few byte sequences besides.

The one place where validity is decided rather than given is a label read off
the wire; `fromUtf8` is that decision, over the well-formed byte sequences of
the Unicode standard.
-/

namespace Foxcore.Ref

/-- The bytes of a string. -/
abbrev Str : Type := List UInt8

instance : LawfulBEq Str := inferInstance

/-- The byte `.`. -/
def dot : UInt8 := 0x2e

/-- The byte `:`. -/
def colon : UInt8 := 0x3a

namespace Str

/-- The bytes of a literal written as characters. -/
def ofChars (cs : List Char) : Str := cs.map fun c => UInt8.ofNat c.toNat

/-- `str::trim_matches` with one byte for a pattern. -/
def trimMatches (c : UInt8) (s : Str) : Str :=
  ((s.dropWhile (· == c)).reverse.dropWhile (· == c)).reverse

/-- `u8::to_ascii_lowercase`. -/
def byteToAsciiLowercase (b : UInt8) : UInt8 :=
  if 0x41 ≤ b ∧ b ≤ 0x5a then b + 0x20 else b

/-- `str::to_ascii_lowercase`. -/
def toAsciiLowercase (s : Str) : Str := s.map byteToAsciiLowercase

/-- `str::is_ascii`. -/
def isAscii (s : Str) : Bool := s.all (· < 0x80)

/-- `str::split` with one byte for a pattern: one piece more than there are
separators, so that the empty string splits into one empty piece. -/
def split (c : UInt8) (s : Str) : List Str := s.splitOn c

/-- `[_]::join`. -/
def join (sep : UInt8) (pieces : List Str) : Str := [sep].intercalate pieces

/-- A UTF-8 continuation byte. -/
def isContinuation (b : UInt8) : Bool := 0x80 ≤ b && b ≤ 0xbf

/-- Whether a byte may follow the given first byte of a longer sequence: the
second byte carries the checks against overlong forms, surrogates and values
past the last code point. -/
def secondOk (lead b : UInt8) : Bool :=
  if lead = 0xe0 then 0xa0 ≤ b && b ≤ 0xbf
  else if lead = 0xed then 0x80 ≤ b && b ≤ 0x9f
  else if lead = 0xf0 then 0x90 ≤ b && b ≤ 0xbf
  else if lead = 0xf4 then 0x80 ≤ b && b ≤ 0x8f
  else isContinuation b

/-- Whether `str::from_utf8` accepts the bytes. -/
def validUtf8 : List UInt8 → Bool
  | [] => true
  | b :: rest =>
    if b < 0x80 then validUtf8 rest
    else if 0xc2 ≤ b && b ≤ 0xdf then
      match rest with
      | b₁ :: rest => isContinuation b₁ && validUtf8 rest
      | _ => false
    else if 0xe0 ≤ b && b ≤ 0xef then
      match rest with
      | b₁ :: b₂ :: rest => secondOk b b₁ && isContinuation b₂ && validUtf8 rest
      | _ => false
    else if 0xf0 ≤ b && b ≤ 0xf4 then
      match rest with
      | b₁ :: b₂ :: b₃ :: rest =>
        secondOk b b₁ && isContinuation b₂ && isContinuation b₃ && validUtf8 rest
      | _ => false
    else false

/-- `str::from_utf8`. -/
def fromUtf8 (bytes : List UInt8) : Option Str :=
  if validUtf8 bytes then some bytes else none

end Str

end Foxcore.Ref
