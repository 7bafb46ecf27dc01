import Mathlib.Data.Nat.Notation

/-!
# The command language of `debugger.h`

Strings are lists of characters. `std::istringstream >> std::string` splits on
white space; `hex_to_number` reads a `size_t` of 64 bits as the standard stream
does: an optional sign, an optional `0x`, and the hexadecimal digits that follow.
-/
namespace Sim6502

def prompt : List Char := "> ".toList

def helpMsg : List Char :=
  ("Available commands:\n" ++
    "  d/dump - dump registers\n" ++
    "  g/get <address> - get value at address\n" ++
    "  g/get <start> <count> - get <count> values starting at <start>\n" ++
    "  s/step - step one instruction\n" ++
    "  c/continue - continue execution\n" ++
    "  h/help - show this help message").toList

def invalidCommandMsg : List Char := "Unknown command (type help for more info).".toList

namespace Command

inductive Name where
  | dump | get | exit | step | continue | help
  deriving DecidableEq

def parseName (name : List Char) : Option Name :=
  if name = "dump".toList ∨ name = "d".toList then some .dump
  else if name = "get".toList ∨ name = "g".toList then some .get
  else if name = "exit".toList ∨ name = "e".toList ∨ name = "q".toList then some .exit
  else if name = "step".toList ∨ name = "s".toList then some .step
  else if name = "continue".toList ∨ name = "c".toList then some .continue
  else if name = "help".toList ∨ name = "h".toList then some .help
  else none

def nameToString : Name → List Char
  | .dump => "dump".toList
  | .get => "get".toList
  | .exit => "exit".toList
  | .step => "step".toList
  | .continue => "continue".toList
  | .help => "help".toList

end Command

structure Command where
  name : Command.Name
  args : List (List Char)
  deriving DecidableEq

/-- `std::isspace` in the classic locale. -/
def isSpace (c : Char) : Bool :=
  c = ' ' || c = '\t' || c = '\n' || c = '\x0b' || c = '\x0c' || c = '\r'

/-- The words that repeated `iss >> part` delivers. -/
def words (text : List Char) : List (List Char) :=
  (text.splitOnP isSpace).filter fun word => !word.isEmpty

def Command.parse (command : List Char) : Option Command :=
  match words command with
  | [] => none
  | part :: args => (parseName part).map fun name => ⟨name, args⟩

/-! ## Numbers -/

def hexDigit (c : Char) : Option ℕ :=
  if '0' ≤ c ∧ c ≤ '9' then some (c.toNat - '0'.toNat)
  else if 'a' ≤ c ∧ c ≤ 'f' then some (c.toNat - 'a'.toNat + 10)
  else if 'A' ≤ c ∧ c ≤ 'F' then some (c.toNat - 'A'.toNat + 10)
  else none

/-- The value of the longest prefix of digits. -/
def readDigits (value : ℕ) : List Char → ℕ
  | [] => value
  | c :: rest => match hexDigit c with
    | some digit => readDigits (16 * value + digit) rest
    | none => value

/-- The greatest `size_t`. -/
def maxSize : ℕ := 0xFFFFFFFFFFFFFFFF

def skipHexPrefix : List Char → List Char
  | '0' :: 'x' :: rest => rest
  | '0' :: 'X' :: rest => rest
  | rest => rest

/-- A value that does not fit is replaced by the greatest one; a minus sign negates
modulo the range. -/
def hexToNumber (hex : List Char) : ℕ :=
  let negative := hex.head? = some '-'
  let unsigned := if negative ∨ hex.head? = some '+' then hex.tail else hex
  let value := readDigits 0 (skipHexPrefix unsigned)
  if maxSize < value then maxSize
  else if negative then (maxSize + 1 - value) % (maxSize + 1)
  else value

example : hexToNumber "fffb".toList = 0xFFFB := by decide

end Sim6502
