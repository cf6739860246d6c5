import Stowage.Text.Hex
/-!
# Stowage — percent-encoding

In a URL a byte can be written as a percent sign with two hexadecimal digits. Each part of a URL has
its own set of characters that are always written so; what is no printable ASCII character is in
every set. Decoding leaves a percent sign without two digits as it is.
-/

namespace Stowage.Percent

/-! ## Sets -/

/-- The printable characters that a fragment escapes. -/
def fragment : List Char := [' ', '"', '<', '>', '\x60']

def query : List Char := [' ', '"', '#', '<', '>']

def webQuery : List Char := query ++ ['\'']

def path : List Char := fragment ++ ['#', '?', '{', '}']

/-- The printable characters that a name in a path escapes: it cannot end early, and reads back. -/
def segment : List Char := path ++ ['/', '%']

def webSegment : List Char := segment ++ ['\\']

def userinfo : List Char := path ++ ['/', ':', ';', '=', '@', '[', '\\', ']', '^', '|']

/-! ## Encoding -/

/-- Whether a character is written as escapes. -/
def isEscaped (set : List Char) (c : Char) : Bool :=
  c.toNat < 0x20 || 0x7F ≤ c.toNat || set.contains c

def escape (b : UInt8) : List Char := '%' :: Hex.capitalPair b

/-- Text in which the characters of a set are written as escapes of their bytes. -/
def encode (set : List Char) (cs : List Char) : List Char :=
  cs.flatMap fun c => if isEscaped set c then (String.utf8EncodeChar c).flatMap escape else [c]

/-! ## Decoding -/

def byte? (high low : UInt8) : Option UInt8 := do
  let high ← Hex.ofByte? high
  let low ← Hex.ofByte? low
  some (UInt8.ofNat (high * 16 + low))

def decode : Bytes → Bytes
  | 37 :: a :: b :: rest =>
    match byte? a b with
    | some byte => byte :: decode rest
    | none => 37 :: decode (a :: b :: rest)
  | b :: rest => b :: decode rest
  | [] => []

end Stowage.Percent
