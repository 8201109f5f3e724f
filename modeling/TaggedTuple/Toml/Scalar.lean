import TaggedTuple.Toml.Datum
import TaggedTuple.Toml.Text

/-!
# Scalars in a document

Integers are decimal with an optional sign, or hexadecimal, octal or binary without one, and fit
into 64 bits. Floats have a fraction or an exponent or both, and must not be so large that they
would be read as infinity, which has a name of its own. Digits may be separated by single
underscores; decimal numbers have no leading zeros. Dates must exist in the calendar.
-/

namespace TaggedTuple.Toml

/-- Whether a character is a decimal digit. -/
def isDigit (c : Char) : Bool := decide ('0' ≤ c ∧ c ≤ '9')

/-- The number that decimal digits write. -/
def decimalNumber (digits : List Char) : Nat :=
  digits.foldl (fun n c => 10 * n + (c.toNat - '0'.toNat)) 0

/-- Takes digits off the front, single underscores between them left out. -/
def separatedDigits (p : Char → Bool) : List Char → List Char × List Char
  | [] => ([], [])
  | '_' :: c :: rest =>
    if p c then
      let (digits, rest) := separatedDigits p rest
      (c :: digits, rest)
    else ([], '_' :: c :: rest)
  | c :: rest =>
    if p c then
      let (digits, rest) := separatedDigits p rest
      (c :: digits, rest)
    else ([], c :: rest)

/-- The greatest integer. -/
def maxInteger : Nat := Int64.maxValue.toInt.toNat

/--
Whether `digits · 10 ^ exponent` is rounded to infinity: whether it is at least the number halfway
between the greatest float and the next power of two.
-/
def overflows (digits : List Char) (exponent : Int) : Bool :=
  let significant := digits.dropWhile (· == '0')
  let magnitude : Int := significant.length + exponent
  if significant.isEmpty || decide (magnitude < 309) then false
  else if magnitude > 309 then true
  else
    let limit := Nat.pow 2 1024 - Nat.pow 2 970
    if 0 ≤ exponent then decide (limit ≤ decimalNumber significant * Nat.pow 10 exponent.toNat)
    else decide (limit * Nat.pow 10 (-exponent).toNat ≤ decimalNumber significant)

/-- The number of days of a month. -/
def daysOfMonth (year month : Nat) : Nat :=
  if month = 2 then
    if year % 4 = 0 ∧ (year % 100 ≠ 0 ∨ year % 400 = 0) then 29 else 28
  else if month = 4 ∨ month = 6 ∨ month = 9 ∨ month = 11 then 30
  else 31

namespace Reader

/-- Takes an optional sign. -/
def sign : Reader (Option Char) := optional (satisfy fun c => c == '+' || c == '-')

/-- Takes digits, at least one, with underscores between them. -/
def digitRun (p : Char → Bool) : Reader (List Char) := do
  let first ← satisfy p
  let more ← fun s => some (separatedDigits p s)
  return first :: more

/-- Takes a decimal number without leading zeros. -/
def decimalDigits : Reader (List Char) := do
  match ← peek with
  | some '0' =>
    char '0'
    return ['0']
  | _ => digitRun isDigit

/-- Takes a decimal integer. -/
def decimalInteger : Reader Datum := do
  let negative := (← sign) == some '-'
  let n := decimalNumber (← decimalDigits)
  if negative then
    if n ≤ maxInteger + 1 then return .integer (-n) else failure
  else if n ≤ maxInteger then return .integer n
  else failure

/-- Takes an integer in a base that a letter names. -/
def basedInteger (letter : Char) (base : Nat) : Reader Datum := do
  chars ['0', letter]
  let digits ← digitRun fun c => (hexValue? c).any (· < base)
  let n := digits.foldl (fun n c => base * n + (hexValue? c).getD 0) 0
  if n ≤ maxInteger then return .integer n else failure

/-- Takes an integer. -/
def integer : Reader Datum :=
  orElse (basedInteger 'x' 16)
    (orElse (basedInteger 'o' 8) (orElse (basedInteger 'b' 2) decimalInteger))

/-- Takes an exponent: its sign and its digits. -/
def exponent : Reader (List Char × List Char) := do
  let _ ← satisfy fun c => c == 'e' || c == 'E'
  let s ← sign
  let digits ← digitRun isDigit
  return (s.toList, digits)

/-- Takes a float with a fraction or an exponent. -/
def finiteFloat : Reader Datum := do
  let s ← sign
  let whole ← decimalDigits
  let fraction ← optional do
    char '.'
    digitRun isDigit
  let power ← if fraction.isSome then optional exponent else some <$> exponent
  let (powerSign, powerDigits) := power.getD ([], [])
  let magnitude : Int := decimalNumber powerDigits
  let shift : Int := if powerSign = ['-'] then -magnitude else magnitude
  let places := fraction.getD []
  if s != some '-' && overflows (whole ++ places) (shift - places.length) then failure
  else
    let text := s.toList ++ whole ++ '.' :: places ++ 'e' :: powerSign ++ powerDigits
    return .float (String.ofList text)

/-- Takes one of the named floats. -/
def namedFloat : Reader Datum := do
  let s ← sign
  let name ← orElse (do chars "inf".toList; return "inf") (do chars "nan".toList; return "nan")
  return .float (String.ofList s.toList ++ name)

/-- Takes a truth value. -/
def boolean : Reader Datum :=
  orElse (do chars "true".toList; return .boolean true)
    (do chars "false".toList; return .boolean false)

/-- Takes a number of a fixed count of digits within bounds. -/
def bounded (count low high : Nat) : Reader (List Char) := do
  let digits ← exactly isDigit count
  if low ≤ decimalNumber digits ∧ decimalNumber digits ≤ high then return digits else failure

/-- Takes a date that exists in the calendar. -/
def date : Reader (List Char) := do
  let year ← exactly isDigit 4
  char '-'
  let month ← bounded 2 1 12
  char '-'
  let day ← bounded 2 1 (daysOfMonth (decimalNumber year) (decimalNumber month))
  return year ++ '-' :: month ++ '-' :: day

/-- Takes a time of day, leap seconds included. -/
def timeOfDay : Reader (List Char) := do
  let hour ← bounded 2 0 23
  char ':'
  let minute ← bounded 2 0 59
  char ':'
  let second ← bounded 2 0 60
  let fraction ← optional do
    char '.'
    takeWhile1 isDigit
  return hour ++ ':' :: minute ++ ':' :: second ++ (fraction.elim [] ('.' :: ·))

/-- Takes the offset of a time zone. -/
def zoneOffset : Reader (List Char) :=
  orElse (do
      let _ ← satisfy fun c => c == 'Z' || c == 'z'
      return ['Z'])
    (do
      let s ← satisfy fun c => c == '+' || c == '-'
      let hour ← bounded 2 0 23
      char ':'
      let minute ← bounded 2 0 59
      return s :: hour ++ ':' :: minute)

/-- Takes a date, a time of day, or both with or without a time zone. -/
def moment : Reader Datum := do
  let text ← orElse (do
      let day ← date
      let time ← optional do
        let _ ← satisfy fun c => c == 'T' || c == 't' || c == ' '
        let time ← timeOfDay
        let zone ← optional zoneOffset
        return time ++ zone.getD []
      return day ++ (time.elim [] ('T' :: ·)))
    timeOfDay
  return .moment (String.ofList text)

/-- Takes a value without parts. -/
def scalar : Reader Datum :=
  orElse (do return .string (String.ofList (← string)))
    (orElse boolean (orElse moment (orElse finiteFloat (orElse namedFloat integer))))

end Reader

end TaggedTuple.Toml
