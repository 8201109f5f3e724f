import TaggedTuple.Canonical

/-!
# The byte format of canonical tuples

Numbers are little-endian words of fixed width. A string is its length in bytes, as a word of eight
bytes, and its UTF-8 bytes; a list is its length and its elements; an optional value is a presence
byte, 0 or 1, and the value. The parts of a canonical tuple follow one another in order: tag,
positional count, positional members, named members.

A codec reads from the front of a byte list and returns what is left, so bytes after an encoding do
no harm.
-/

namespace TaggedTuple

/-- How values are written as bytes and read from the front of a byte list. -/
structure Codec (α : Type) where
  write : α → List UInt8
  read : List UInt8 → Except CodecError (α × List UInt8)

namespace Codec

variable {α β : Type}

/-- The bytes of a number, the lowest first. -/
def writeWord : (width : Nat) → Nat → List UInt8
  | 0, _ => []
  | width + 1, n => UInt8.ofNat n :: writeWord width (n / 256)

/-- Reads a number of a fixed width, the lowest byte first. -/
def readWord : (width : Nat) → List UInt8 → Except CodecError (Nat × List UInt8)
  | 0, bytes => .ok (0, bytes)
  | _ + 1, [] => .error .unexpectedEnd
  | width + 1, b :: bytes => do
    let (high, rest) ← readWord width bytes
    return (b.toNat + 256 * high, rest)

/-- Integers in eight bytes, negative ones in two's complement. -/
def int64 : Codec Int64 where
  write n := writeWord 8 n.toUInt64.toNat
  read bytes := do
    let (n, rest) ← readWord 8 bytes
    return ((UInt64.ofNat n).toInt64, rest)

/-- Strings. -/
def string : Codec String where
  write s :=
    let bytes := Utf8.encode s
    writeWord 8 bytes.length ++ bytes
  read bytes := do
    let (length, rest) ← readWord 8 bytes
    if length ≤ rest.length then
      match Utf8.decode (rest.take length) with
      | .ok s => return (s, rest.drop length)
      | .error fault => throw (.notUtf8 fault)
    else throw .stringPastEnd

/-- Optional values. -/
def option (c : Codec α) : Codec (Option α) where
  write
    | none => [0]
    | some a => 1 :: c.write a
  read
    | [] => .error .unexpectedEnd
    | b :: bytes =>
      if b = 0 then .ok (none, bytes)
      else if b = 1 then do
        let (a, rest) ← c.read bytes
        return (some a, rest)
      else .error (.badPresence b)

/-- Pairs. -/
def pair (c : Codec α) (d : Codec β) : Codec (α × β) where
  write p := c.write p.1 ++ d.write p.2
  read bytes := do
    let (a, rest) ← c.read bytes
    let (b, rest) ← d.read rest
    return ((a, b), rest)

/-- Reads a number of values one after the other. -/
def readMany (c : Codec α) : (count : Nat) → List UInt8 → Except CodecError (List α × List UInt8)
  | 0, bytes => .ok ([], bytes)
  | count + 1, bytes => do
    let (a, rest) ← c.read bytes
    let (as, rest) ← readMany c count rest
    return (a :: as, rest)

/-- Lists. -/
def list (c : Codec α) : Codec (List α) where
  write as := writeWord 8 as.length ++ as.flatMap c.write
  read bytes := do
    let (count, rest) ← readWord 8 bytes
    c.readMany count rest

/-- Counts in four bytes. -/
def uint32 : Codec UInt32 where
  write n := writeWord 4 n.toNat
  read bytes := do
    let (n, rest) ← readWord 4 bytes
    return (UInt32.ofNat n, rest)

/-- Canonical tuples. -/
def canonical (c : Codec α) : Codec (CanonicalTuple α) where
  write t :=
    string.option.write t.tag ++ uint32.write t.positionalCount ++ c.list.write t.positional
      ++ (string.pair c).list.write t.named
  read bytes := do
    let (tag, rest) ← string.option.read bytes
    let (positionalCount, rest) ← uint32.read rest
    let (positional, rest) ← c.list.read rest
    let (named, rest) ← (string.pair c).list.read rest
    return ({ tag, positionalCount, positional, named }, rest)

/-- The bytes of a canonical tuple. -/
def encode (c : Codec α) (t : CanonicalTuple α) : List UInt8 := c.canonical.write t

/-- The canonical tuple at the front of a byte list. -/
def decode (c : Codec α) (bytes : List UInt8) : Except EncodingError (CanonicalTuple α) :=
  match c.canonical.read bytes with
  | .ok (t, _) => .ok t
  | .error e => .error (.codec e)

end Codec

end TaggedTuple
