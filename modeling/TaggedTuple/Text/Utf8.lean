/-!
# UTF-8

Strings as byte lists. `decode` accepts exactly the byte lists that `encode` writes; any other list
is refused with the place of the first fault: the number of bytes before it, and how many bytes are
wrong, or that the list ends inside a character.
-/

namespace TaggedTuple.Utf8

/-- The place of a fault. -/
structure Fault where
  /-- The number of bytes that form whole characters. -/
  validUpTo : Nat
  /-- The number of bytes that are wrong, or none if bytes are missing at the end. -/
  length? : Option Nat
  deriving DecidableEq, Repr

/-- The fault in a message. -/
def Fault.message (f : Fault) : String :=
  match f.length? with
  | some n =>
    "invalid utf-8 sequence of " ++ toString n ++ " bytes from index " ++ toString f.validUpTo
  | none => "incomplete utf-8 byte sequence from index " ++ toString f.validUpTo

/-- What may follow inside a character: how many bytes, and the range of the next one. -/
structure Owed where
  count : Nat
  low : UInt8
  high : UInt8
  deriving DecidableEq, Repr

/-- What may follow the first byte of a character. -/
def owedAfter? (b : UInt8) : Option Owed :=
  if b ≤ 0x7f then some ⟨0, 0x80, 0xbf⟩
  else if 0xc2 ≤ b ∧ b ≤ 0xdf then some ⟨1, 0x80, 0xbf⟩
  else if b = 0xe0 then some ⟨2, 0xa0, 0xbf⟩
  else if b = 0xed then some ⟨2, 0x80, 0x9f⟩
  else if 0xe1 ≤ b ∧ b ≤ 0xef then some ⟨2, 0x80, 0xbf⟩
  else if b = 0xf0 then some ⟨3, 0x90, 0xbf⟩
  else if 0xf1 ≤ b ∧ b ≤ 0xf3 then some ⟨3, 0x80, 0xbf⟩
  else if b = 0xf4 then some ⟨3, 0x80, 0x8f⟩
  else none

/--
The first fault of a byte list, read from inside a character that starts at `start`, of which `seen`
bytes were read and `owed.count` are to follow.
-/
def locate (start seen : Nat) (owed : Owed) : List UInt8 → Fault
  | [] => ⟨start, none⟩
  | b :: rest =>
    if owed.count = 0 then
      match owedAfter? b with
      | none => ⟨start + seen, some 1⟩
      | some owed => locate (start + seen) 1 owed rest
    else if owed.low ≤ b ∧ b ≤ owed.high then
      locate start (seen + 1) ⟨owed.count - 1, 0x80, 0xbf⟩ rest
    else ⟨start, some seen⟩

/-- The bytes of a string. -/
def encode (s : String) : List UInt8 := s.toByteArray.data.toList

/-- The string of a byte list, or the first fault of the list. -/
def decode (bytes : List UInt8) : Except Fault String :=
  match String.fromUTF8? ⟨bytes.toArray⟩ with
  | some s => .ok s
  | none => .error (locate 0 0 ⟨0, 0x80, 0xbf⟩ bytes)

end TaggedTuple.Utf8
