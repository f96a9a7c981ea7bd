/-!
# UTF-8

Bytes and the characters that they encode.  Decoding follows the table of well-formed byte
sequences: a first byte fixes how many bytes follow it and in which range the second one lies.  What
is not well formed is reported with the bytes that belong together, and decoding stops there.
-/

namespace DeltaPreview.Utf8

/-- The bytes of a text. -/
def encode (s : List Char) : List UInt8 := s.flatMap String.utf8EncodeChar

/-- Why bytes are no text. -/
inductive Reason where
  | start
  | continuation
  | truncated
  deriving DecidableEq, Repr

/-- Bytes that belong to no character: where they begin, their number, and the first of them. -/
structure Fault where
  reason : Reason
  position : Nat
  count : Nat
  first : UInt8
  deriving DecidableEq, Repr

/-- The beginning of a character: where it stands, the bits so far, and how many bytes are missing,
the next of them in a range. -/
structure Pending where
  position : Nat
  first : UInt8
  value : Nat
  missing : Nat
  least : UInt8
  greatest : UInt8
  deriving DecidableEq, Repr

/-- What a first byte announces. -/
def Pending.ofFirst? (position : Nat) (b : UInt8) : Option Pending :=
  let begun (bits missing : Nat) (least greatest : UInt8) : Option Pending :=
    some ⟨position, b, b.toNat % Nat.pow 2 bits, missing, least, greatest⟩
  if 0xC2 ≤ b ∧ b ≤ 0xDF then begun 5 1 0x80 0xBF
  else if b = 0xE0 then begun 4 2 0xA0 0xBF
  else if b = 0xED then begun 4 2 0x80 0x9F
  else if 0xE1 ≤ b ∧ b ≤ 0xEF then begun 4 2 0x80 0xBF
  else if b = 0xF0 then begun 3 3 0x90 0xBF
  else if 0xF1 ≤ b ∧ b ≤ 0xF3 then begun 3 3 0x80 0xBF
  else if b = 0xF4 then begun 3 3 0x80 0x8F
  else none

/-- Whether a byte may be the next one. -/
def Pending.accepts (p : Pending) (b : UInt8) : Bool := p.least ≤ b && b ≤ p.greatest

/-- The bits after one more byte. -/
def Pending.push (p : Pending) (b : UInt8) : Nat := p.value * Nat.pow 2 6 + b.toNat % Nat.pow 2 6

/-- The fault of a character that stops before a position. -/
def Pending.fault (p : Pending) (reason : Reason) (position : Nat) : Fault :=
  ⟨reason, p.position, position - p.position, p.first⟩

/-- Decodes bytes that stand at a position, after the beginning of a character or after none. -/
def decodeFrom (position : Nat) : Option Pending → List UInt8 → Except Fault (List Char)
  | none, [] => .ok []
  | some p, [] => .error (p.fault .truncated position)
  | none, b :: rest =>
    if b < 0x80 then (decodeFrom (position + 1) none rest).map (Char.ofNat b.toNat :: ·)
    else match Pending.ofFirst? position b with
      | some p => decodeFrom (position + 1) (some p) rest
      | none => .error ⟨.start, position, 1, b⟩
  | some p, b :: rest =>
    if p.accepts b then
      if p.missing = 1 then
        (decodeFrom (position + 1) none rest).map (Char.ofNat (p.push b) :: ·)
      else
        decodeFrom (position + 1)
          (some ⟨p.position, p.first, p.push b, p.missing - 1, 0x80, 0xBF⟩) rest
    else .error (p.fault .continuation position)

/-- The text that bytes encode. -/
def decode (bytes : List UInt8) : Except Fault (List Char) := decodeFrom 0 none bytes

/-- A byte in two hexadecimal digits. -/
def byteText (b : UInt8) : String :=
  String.ofList [Nat.digitChar (b.toNat / 16), Nat.digitChar (b.toNat % 16)]

/-- What is reported of a reason. -/
def Reason.message : Reason → String
  | start => "invalid start byte"
  | continuation => "invalid continuation byte"
  | truncated => "unexpected end of data"

/-- What is reported of bytes that are no text. -/
def Fault.message (f : Fault) : String :=
  let bytes :=
    if f.count = 1 then "byte 0x" ++ byteText f.first ++ " in position " ++ toString f.position
    else "bytes in position " ++ toString f.position ++ "-" ++ toString (f.position + f.count - 1)
  "'utf-8' codec can't decode " ++ bytes ++ ": " ++ f.reason.message

end DeltaPreview.Utf8
