import TokenBridge.Json.Basic
import TokenBridge.Text.Hex
/-!
JSON written without blanks. In a text only the quote, the backslash and the characters below U+0020 are
escaped, the latter by their short form where they have one. What is ill-formed has no form of its own
and is written as `null`.
-/
namespace TokenBridge.Json

def upperDigit (n : Nat) : Char := if n < 10 then Char.ofNat (48 + n) else Char.ofNat (55 + n)

def escaped (c : Char) : List Char :=
  match c with
  | '"' => ['\\', '"']
  | '\\' => ['\\', '\\']
  | '\x08' => ['\\', 'b']
  | '\t' => ['\\', 't']
  | '\n' => ['\\', 'n']
  | '\x0c' => ['\\', 'f']
  | '\r' => ['\\', 'r']
  | c =>
    if c.toNat < 32 then
      ['\\', 'u', '0', '0', upperDigit (c.toNat / 16), upperDigit (c.toNat % 16)]
    else [c]

def quoted (s : String) : String := String.ofList ('"' :: s.toList.flatMap escaped ++ ['"'])

mutual

def write : Json → String
  | .null => "null"
  | .bool true => "true"
  | .bool false => "false"
  | .nat n => toString n
  | .numeral written => written
  | .text s => quoted s
  | .list [] => "[]"
  | .list (item :: rest) => "[" ++ write item ++ writeItems rest
  | .record [] => "\x7b\x7d"
  | .record (field :: rest) => "\x7b" ++ writeField field ++ writeFields rest
  | .illFormed => "null"

def writeItems : List Json → String
  | [] => "]"
  | item :: rest => "," ++ write item ++ writeItems rest

def writeFields : List (String × Json) → String
  | [] => "\x7d"
  | field :: rest => "," ++ writeField field ++ writeFields rest

def writeField : String × Json → String
  | (name, value) => quoted name ++ ":" ++ write value

end

end TokenBridge.Json
