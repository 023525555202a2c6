/-
# UTF-8

Characters from bytes. Where the bytes encode no character, the longest run that could have begun
one is a single fault.
-/

namespace NoteCheck.Text.Utf8

/-- The byte between two others. -/
def isWithin (low high byte : UInt8) : Bool := low ≤ byte && byte ≤ high

/-- What the first byte of an encoding announces: the number of further bytes, the value that it
contributes, and the range of the byte after it. -/
structure Lead where
  further : Nat
  value : Nat
  low : UInt8
  high : UInt8
  deriving DecidableEq, Repr

/-- The lead byte of an encoding of several bytes. Overlong encodings and surrogates are kept out
by the range of the second byte. -/
def lead? (byte : UInt8) : Option Lead :=
  let value := byte.toNat
  if isWithin 0xC2 0xDF byte then some ⟨1, value - 0xC0, 0x80, 0xBF⟩
  else if byte = 0xE0 then some ⟨2, value - 0xE0, 0xA0, 0xBF⟩
  else if byte = 0xED then some ⟨2, value - 0xE0, 0x80, 0x9F⟩
  else if isWithin 0xE1 0xEF byte then some ⟨2, value - 0xE0, 0x80, 0xBF⟩
  else if byte = 0xF0 then some ⟨3, value - 0xF0, 0x90, 0xBF⟩
  else if isWithin 0xF1 0xF3 byte then some ⟨3, value - 0xF0, 0x80, 0xBF⟩
  else if byte = 0xF4 then some ⟨3, value - 0xF0, 0x80, 0x8F⟩
  else none

/-- What is still to come of an encoding: nothing, or further bytes, of which the next one lies
in a range, after bytes that make up a value. -/
inductive Pending where
  | start
  | more (further : Nat) (value : Nat) (low high : UInt8)
  deriving DecidableEq, Repr

/-- What the first byte of an encoding gives, and what is still to come after it. A byte that begins
no encoding is a fault. -/
def begin (byte : UInt8) : List (Option Char) × Pending :=
  if byte < 0x80 then ([some (Char.ofNat byte.toNat)], .start)
  else
    match lead? byte with
    | some lead => ([], .more lead.further lead.value lead.low lead.high)
    | none => ([none], .start)

/-- What a byte gives, and what is still to come after it. A byte that does not carry on an encoding
leaves a fault behind and begins another one. -/
def take : Pending → UInt8 → List (Option Char) × Pending
  | .start, byte => begin byte
  | .more further value low high, byte =>
    if isWithin low high byte then
      let value := value * 64 + (byte.toNat - 0x80)
      if further ≤ 1 then ([some (Char.ofNat value)], .start)
      else ([], .more (further - 1) value 0x80 0xBF)
    else
      let (found, pending) := begin byte
      (none :: found, pending)

/-- The characters of bytes, with a fault for each run that encodes none. -/
def decodeFrom : Pending → List UInt8 → List (Option Char)
  | .start, [] => []
  | .more .., [] => [none]
  | pending, byte :: bytes =>
    let (found, pending) := take pending byte
    found ++ decodeFrom pending bytes

/-- The characters of bytes that encode nothing else. -/
def decode? (bytes : List UInt8) : Option (List Char) :=
  (decodeFrom .start bytes).mapM id

/-- The characters of bytes, with the replacement character for each fault. -/
def decodeLossy (bytes : List UInt8) : List Char :=
  (decodeFrom .start bytes).map (·.getD '\uFFFD')

/-- The bytes of a text. -/
def encode (text : String) : List UInt8 := text.toUTF8.toList

end NoteCheck.Text.Utf8
