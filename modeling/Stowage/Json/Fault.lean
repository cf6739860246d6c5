import Stowage.Mismatch
import Stowage.Text.Utf8
/-!
# Stowage — faults in JSON text

Why a byte string is not JSON, or not the JSON that was asked for, and where. A reader that stops
says how many bytes it had not read; the line and the column follow from that and from the whole
text. A column counts the bytes of its line up to the fault.
-/

namespace Stowage.Json

inductive Reason where
  | endInList
  | endInObject
  | endInString
  | endInValue
  | expectedColon
  | expectedListEnd
  | expectedObjectEnd
  | expectedWord
  | expectedValue
  | invalidEscape
  | invalidNumber
  | numberOutOfRange
  | invalidCharacter
  | controlCharacter
  | keyNotString
  | loneSurrogate
  | trailingComma
  | trailingCharacters
  | unfinishedEscape
  | tooDeep
  | mismatch (m : Mismatch)
deriving DecidableEq, Repr

def Reason.message : Reason → String
  | endInList => "EOF while parsing a list"
  | endInObject => "EOF while parsing an object"
  | endInString => "EOF while parsing a string"
  | endInValue => "EOF while parsing a value"
  | expectedColon => "expected `:`"
  | expectedListEnd => "expected `,` or `]`"
  | expectedObjectEnd => "expected `,` or `\x7d`"
  | expectedWord => "expected ident"
  | expectedValue => "expected value"
  | invalidEscape => "invalid escape"
  | invalidNumber => "invalid number"
  | numberOutOfRange => "number out of range"
  | invalidCharacter => "invalid unicode code point"
  | controlCharacter =>
    "control character (\\u0000-\\u001F) found while parsing a string"
  | keyNotString => "key must be a string"
  | loneSurrogate => "lone leading surrogate in hex escape"
  | trailingComma => "trailing comma"
  | trailingCharacters => "trailing characters"
  | unfinishedEscape => "unexpected end of hex escape"
  | tooDeep => "recursion limit exceeded"
  | mismatch m => m.message

/-- Where a reader stopped: the reason, and the number of bytes after the place. -/
structure Stop where
  reason : Reason
  left : Nat
deriving DecidableEq, Repr

/-- A reason with its line, counted from 1, and its column. -/
structure Fault where
  reason : Reason
  line : Nat
  column : Nat
deriving DecidableEq, Repr

def Fault.message (fault : Fault) : String :=
  s!"{fault.reason.message} at line {fault.line} column {fault.column}"

/-- Finds the line and the column of a stop in the whole text. -/
def Stop.locate (stop : Stop) (whole : Bytes) : Fault :=
  let before := whole.take (whole.length - stop.left)
  ⟨stop.reason, before.count 10 + 1, (before.reverse.takeWhile (· != 10)).length⟩

end Stowage.Json
