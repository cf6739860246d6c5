import Stowage.Url.Percent
/-!
# Stowage — form fields

Fields as they stand in the query of a URL: pairs of a name and a value, joined by ampersands, in
which a plus sign stands for a blank and any byte can be escaped. A field without an equals sign has
an empty value, and empty fields count for nothing. Broken UTF-8 is replaced.
-/

namespace Stowage.Form

/-- The parts of bytes between ampersands. -/
def split : Bytes → List Bytes
  | [] => [[]]
  | b :: rest =>
    match split rest with
    | part :: parts => if b = 38 then [] :: part :: parts else (b :: part) :: parts
    | [] => [[b]]

def text (bytes : Bytes) : String :=
  Utf8.decodeLossy (Percent.decode (bytes.map fun b => if b = 43 then 32 else b))

def field (bytes : Bytes) : String × String :=
  (text (bytes.takeWhile (· ≠ 61)), text ((bytes.dropWhile (· ≠ 61)).drop 1))

def decode (query : Bytes) : List (String × String) :=
  ((split query).filter fun part => !part.isEmpty).map field

end Stowage.Form
