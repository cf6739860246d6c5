import Stowage.Json.Value
import Stowage.Number.Shortest
import Stowage.Text.Utf8
/-!
# Stowage — JSON text

The compact text of a JSON value: no blanks, members in order, only quotes, backslashes and control
characters escaped, and the shortest decimal for a binary64.
-/

namespace Stowage.Json

/-- Binary64 numbers between 1e-5 and 1e16 are written positionally, others with a signed exponent. -/
def layout : Layout := ⟨-4, 16, true⟩

def Number.text : Number → String
  | .int i => toString i
  | .real x => layout.writeBinary64 x

/-- How a character is written inside a string. -/
def escape (c : Char) : List Char :=
  if c = '"' then ['\\', '"']
  else if c = '\\' then ['\\', '\\']
  else if c = '\x08' then ['\\', 'b']
  else if c = '\x0c' then ['\\', 'f']
  else if c = '\n' then ['\\', 'n']
  else if c = '\r' then ['\\', 'r']
  else if c = '\t' then ['\\', 't']
  else if c.toNat < 0x20 then
    ['\\', 'u', '0', '0', Nat.digitChar (c.toNat / 16), Nat.digitChar (c.toNat % 16)]
  else [c]

def printString (s : String) : Bytes :=
  Utf8.encode ('"' :: s.toList.flatMap escape ++ ['"'])

mutual

/-- The compact text of a value. -/
def print : Json → Bytes
  | null => utf8 "null"
  | bool true => utf8 "true"
  | bool false => utf8 "false"
  | number n => utf8 n.text
  | string s => printString s
  | array items => utf8 "[" ++ printItems items ++ utf8 "]"
  | object members => utf8 "\x7b" ++ printMembers members ++ utf8 "\x7d"

def printItems : List Json → Bytes
  | [] => []
  | [item] => print item
  | item :: rest => print item ++ utf8 "," ++ printItems rest

def printMembers : List (String × Json) → Bytes
  | [] => []
  | [(key, value)] => printString key ++ utf8 ":" ++ print value
  | (key, value) :: rest =>
    printString key ++ utf8 ":" ++ print value ++ utf8 "," ++ printMembers rest

end

/-- The text of an object with one member to a line. -/
def printLines (members : Members) : Bytes :=
  let line (m : String × Json) : Bytes := utf8 "  " ++ printString m.1 ++ utf8 ": " ++ m.2.print
  utf8 "\x7b\n" ++ ((members.map line).intersperse (utf8 ",\n")).flatten ++ utf8 "\n\x7d"

end Stowage.Json
