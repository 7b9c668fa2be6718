import EntityQuery.Json

/-!
# Reading JSON text

A reader takes something off the front of a list of characters and answers it with the characters
behind it.  Every value and every field begins with a character of its own, so the length of a text
bounds how often the readers call each other.
-/

namespace EntityQuery.Json

/-- Whether a character may stand between the parts of a value. -/
def isBlank (char : Char) : Bool :=
  char = ' ' || char = '\t' || char = '\n' || char = '\r'

/-- A text without the blanks in front. -/
def skipBlanks (input : List Char) : List Char :=
  input.dropWhile isBlank

/-! ## Quoted text -/

def hexDigit? (char : Char) : Option Nat :=
  if char.isDigit then some (char.toNat - '0'.toNat)
  else if 'a' ≤ char ∧ char ≤ 'f' then some (char.toNat - 'a'.toNat + 10)
  else if 'A' ≤ char ∧ char ≤ 'F' then some (char.toNat - 'A'.toNat + 10)
  else none

def hexQuad? (first second third fourth : Char) : Option Nat := do
  let digits ← [first, second, third, fourth].mapM hexDigit?
  return digits.foldl (fun value digit => value * 16 + digit) 0

/-- The character that a letter behind a backslash stands for. -/
def escape? : Char → Option Char
  | '"' => some '"'
  | '\\' => some '\\'
  | '/' => some '/'
  | 'b' => some '\x08'
  | 'f' => some '\x0c'
  | 'n' => some '\n'
  | 'r' => some '\r'
  | 't' => some '\t'
  | _ => none

/-- Whether a number is the first half of a pair that stands for one character. -/
def isHighHalf (number : Nat) : Bool := 0xD800 ≤ number && number < 0xDC00

/-- Whether a number is the second half of a pair that stands for one character. -/
def isLowHalf (number : Nat) : Bool := 0xDC00 ≤ number && number < 0xE000

/-- The character that a pair of halves stands for. -/
def joinHalves (high low : Nat) : Char :=
  Char.ofNat (0x10000 + (high - 0xD800) * 0x400 + (low - 0xDC00))

/--
The rest of a quoted text, up to its closing quote.  The characters read so far are given in reverse,
with the first half of a pair if the second one has to follow.
-/
def readQuoted (read : List Char) : Option Nat → List Char → Option (String × List Char)
  | some high, '\\' :: 'u' :: a :: b :: c :: d :: rest => do
      let low ← hexQuad? a b c d
      if isLowHalf low then readQuoted (joinHalves high low :: read) none rest else none
  | some _, _ => none
  | none, '"' :: rest => some (String.ofList read.reverse, rest)
  | none, '\\' :: 'u' :: a :: b :: c :: d :: rest => do
      let number ← hexQuad? a b c d
      if isHighHalf number then readQuoted read (some number) rest
      else if isLowHalf number then none
      else readQuoted (Char.ofNat number :: read) none rest
  | none, '\\' :: char :: rest => do
      readQuoted ((← escape? char) :: read) none rest
  | none, char :: rest => readQuoted (char :: read) none rest
  | none, [] => none

/-! ## Values -/

def isNumeralChar (char : Char) : Bool :=
  char.isDigit || char = '-' || char = '+' || char = '.' || char = 'e' || char = 'E'

/-- The numeral in front of a text. -/
def readNumeral (input : List Char) : Option (Json × List Char) :=
  match input.takeWhile isNumeralChar with
  | [] => none
  | numeral => some (.ofNumeral (String.ofList numeral), input.dropWhile isNumeralChar)

mutual

/-- The value in front of a text, with fuel for the values inside it. -/
def readValue : Nat → List Char → Option (Json × List Char)
  | 0, _ => none
  | fuel + 1, input =>
      match skipBlanks input with
      | '"' :: rest => (readQuoted [] none rest).map fun (value, after) => (.text value, after)
      | '[' :: rest =>
          match skipBlanks rest with
          | ']' :: after => some (.array [], after)
          | _ => readItems fuel [] rest
      | '{' :: rest =>
          match skipBlanks rest with
          | '}' :: after => some (.object [], after)
          | _ => readFields fuel [] rest
      | 't' :: 'r' :: 'u' :: 'e' :: rest => some (.bool true, rest)
      | 'f' :: 'a' :: 'l' :: 's' :: 'e' :: rest => some (.bool false, rest)
      | 'n' :: 'u' :: 'l' :: 'l' :: rest => some (.null, rest)
      | rest => readNumeral rest

/-- The items up to the end of an array, behind those read so far in reverse. -/
def readItems : Nat → List Json → List Char → Option (Json × List Char)
  | 0, _, _ => none
  | fuel + 1, read, input => do
      let (value, rest) ← readValue fuel input
      match skipBlanks rest with
      | ',' :: more => readItems fuel (value :: read) more
      | ']' :: after => some (.array (value :: read).reverse, after)
      | _ => none

/-- The fields up to the end of an object, behind those read so far in reverse. -/
def readFields : Nat → List (String × Json) → List Char → Option (Json × List Char)
  | 0, _, _ => none
  | fuel + 1, read, input =>
      match skipBlanks input with
      | '"' :: quoted => do
          let (name, rest) ← readQuoted [] none quoted
          match skipBlanks rest with
          | ':' :: rest => do
              let (value, rest) ← readValue fuel rest
              match skipBlanks rest with
              | ',' :: more => readFields fuel ((name, value) :: read) more
              | '}' :: after => some (.object ((name, value) :: read).reverse, after)
              | _ => none
          | _ => none
      | _ => none

end

/-- The value that a text writes, with nothing but blanks around it. -/
def ofText? (input : String) : Option Json := do
  let (value, rest) ← readValue (input.length + 1) input.toList
  if (skipBlanks rest).isEmpty then some value else none

end EntityQuery.Json
