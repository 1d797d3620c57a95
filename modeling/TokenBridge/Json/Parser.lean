import TokenBridge.Json.Basic
import TokenBridge.Text.Hex
/-!
Reading JSON. Each reader takes the characters still unread and returns what it read with the rest.
A text without escapes is taken as it stands; one with escapes is ill-formed if it holds a character
below U+0020 or half a surrogate pair. Where a text ends does not depend on what its escapes stand
for, so an ill-formed one does not stop the reading of what is around it.
-/
namespace TokenBridge.Json

abbrev Unread := List Char

def isBlank (c : Char) : Bool := c == ' ' || c == '\n' || c == '\t' || c == '\r'

def skipBlanks (cs : Unread) : Unread := cs.dropWhile isBlank

def rawText : Unread → Option (List Char × Unread)
  | [] => none
  | '"' :: rest => some ([], rest)
  | '\\' :: c :: rest => (rawText rest).map fun (raw, rest) => ('\\' :: c :: raw, rest)
  | c :: rest => (rawText rest).map fun (raw, rest) => (c :: raw, rest)

def unit? (a b c d : Char) : Option Nat :=
  [a, b, c, d].foldlM
    (fun value digit => do
      if digit.toNat < 128 then
        let n ← Text.Hex.nibble? (UInt8.ofNat digit.toNat)
        return 16 * value + n.toNat
      else none)
    0

def shortEscape? : Char → Option Char
  | '"' => some '"'
  | '\\' => some '\\'
  | '/' => some '/'
  | 'b' => some '\x08'
  | 'f' => some '\x0c'
  | 'n' => some '\n'
  | 'r' => some '\r'
  | 't' => some '\t'
  | _ => none

def isHigh (unit : Nat) : Bool := 0xD800 ≤ unit && unit < 0xDC00

def isLow (unit : Nat) : Bool := 0xDC00 ≤ unit && unit < 0xE000

def paired (high low : Nat) : Char := Char.ofNat (0x10000 + (high - 0xD800) * 0x400 + (low - 0xDC00))

/-- The characters of a text from its raw form. `high` is the first half of a surrogate pair that still
waits for its second. Other escapes may stand between the two, and what they stand for comes before
the character of the pair; a character that is not escaped may not. -/
def unescape (high : Option Nat) : List Char → Option (List Char)
  | [] => if high.isNone then some [] else none
  | '\\' :: 'u' :: a :: b :: c :: d :: rest => do
    let unit ← unit? a b c d
    if isHigh unit then
      if high.isNone then unescape (some unit) rest else none
    else if isLow unit then
      return paired (← high) unit :: (← unescape none rest)
    else return Char.ofNat unit :: (← unescape high rest)
  | '\\' :: c :: rest => do return (← shortEscape? c) :: (← unescape high rest)
  | c :: rest => do
    if high.isSome || c.toNat < 32 then none
    else return c :: (← unescape none rest)

def decoded (raw : List Char) : Option String :=
  if raw.contains '\\' then (unescape none raw).map String.ofList else some (String.ofList raw)

def readText (cs : Unread) : Option (Option String × Unread) :=
  (rawText cs).map fun (raw, rest) => (decoded raw, rest)

def textOf : Option String → Json
  | some s => .text s
  | none => .illFormed

def recordOf (fields : List (Option String × Json)) : Json :=
  match fields.mapM fun (name, value) => name.map fun s => (s, value) with
  | some named => .record named
  | none => .illFormed

def isNumeral (c : Char) : Bool :=
  c.isDigit || c == '-' || c == '+' || c == '.' || c == 'e' || c == 'E'

def allDigits (cs : List Char) : Bool := !cs.isEmpty && cs.all Char.isDigit

def isExponent : List Char → Bool
  | '+' :: digits => allDigits digits
  | '-' :: digits => allDigits digits
  | digits => allDigits digits

def isTail : List Char → Bool
  | [] => true
  | '.' :: rest =>
    let exponent := rest.dropWhile Char.isDigit
    allDigits (rest.takeWhile Char.isDigit) &&
      match exponent with
      | [] => true
      | c :: digits => (c == 'e' || c == 'E') && isExponent digits
  | c :: digits => (c == 'e' || c == 'E') && isExponent digits

def isWhole : List Char → Bool
  | ['0'] => true
  | '0' :: _ => false
  | digits => allDigits digits

def natOf (digits : List Char) : Nat :=
  digits.foldl (fun value c => 10 * value + (c.toNat - '0'.toNat)) 0

def number? (written : List Char) : Option Json :=
  if isWhole written then some (.nat (natOf written))
  else
    let unsigned := match written with
      | '-' :: rest => rest
      | rest => rest
    if isWhole (unsigned.takeWhile Char.isDigit) && isTail (unsigned.dropWhile Char.isDigit) then
      some (.numeral (String.ofList written))
    else none

mutual

def readValue : Nat → Unread → Option (Json × Unread)
  | 0, _ => none
  | fuel + 1, cs =>
    match skipBlanks cs with
    | 'n' :: 'u' :: 'l' :: 'l' :: rest => some (.null, rest)
    | 't' :: 'r' :: 'u' :: 'e' :: rest => some (.bool true, rest)
    | 'f' :: 'a' :: 'l' :: 's' :: 'e' :: rest => some (.bool false, rest)
    | '"' :: rest => do
      let (s, rest) ← readText rest
      return (textOf s, rest)
    | '[' :: rest =>
      match skipBlanks rest with
      | ']' :: rest => some (.list [], rest)
      | rest => do
        let (items, rest) ← readItems fuel rest
        return (.list items, rest)
    | '\x7b' :: rest =>
      match skipBlanks rest with
      | '\x7d' :: rest => some (.record [], rest)
      | rest => do
        let (fields, rest) ← readFields fuel rest
        return (recordOf fields, rest)
    | cs => do
      let value ← number? (cs.takeWhile isNumeral)
      return (value, cs.dropWhile isNumeral)

def readItems : Nat → Unread → Option (List Json × Unread)
  | 0, _ => none
  | fuel + 1, cs => do
    let (item, rest) ← readValue fuel cs
    match skipBlanks rest with
    | ']' :: rest => return ([item], rest)
    | ',' :: rest =>
      let (items, rest) ← readItems fuel rest
      return (item :: items, rest)
    | _ => none

def readFields : Nat → Unread → Option (List (Option String × Json) × Unread)
  | 0, _ => none
  | fuel + 1, cs =>
    match skipBlanks cs with
    | '"' :: rest => do
      let (name, rest) ← readText rest
      match skipBlanks rest with
      | ':' :: rest =>
        let (value, rest) ← readValue fuel rest
        match skipBlanks rest with
        | '\x7d' :: rest => return ([(name, value)], rest)
        | ',' :: rest =>
          let (fields, rest) ← readFields fuel rest
          return ((name, value) :: fields, rest)
        | _ => none
      | _ => none
    | _ => none

end

/-- One value and nothing after it. Every reader but the first of a list or record reads a character
before it enters the next, so twice the length is fuel enough. -/
def parse? (s : String) : Option Json :=
  let cs := s.toList
  match readValue (2 * cs.length + 2) cs with
  | some (value, rest) => if (skipBlanks rest).isEmpty then some value else none
  | none => none

end TokenBridge.Json
