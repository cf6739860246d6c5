/-!
# Stowage — durations

A duration is a number of nanoseconds. Its text uses the largest unit of seconds, milliseconds,
microseconds and nanoseconds that leaves a whole part, and drops trailing zeros.
-/

namespace Stowage

structure Duration where
  nanoseconds : Nat
deriving DecidableEq, Repr

namespace Duration

def ofSeconds (n : Nat) : Duration := ⟨n * 1000000000⟩

def ofMilliseconds (n : Nat) : Duration := ⟨n * 1000000⟩

/-- `n` in units of `10 ^ places`, with as many decimals as it takes. -/
def decimal (n places : Nat) : String :=
  let whole := n / Nat.pow 10 places
  let digits := Nat.toDigits 10 (n % Nat.pow 10 places)
  let padded := List.replicate (places - digits.length) '0' ++ digits
  let kept := (padded.reverse.dropWhile (· = '0')).reverse
  toString whole ++ if kept.isEmpty then "" else String.ofList ('.' :: kept)

def text (d : Duration) : String :=
  let n := d.nanoseconds
  if 1000000000 ≤ n then decimal n 9 ++ "s"
  else if 1000000 ≤ n then decimal n 6 ++ "ms"
  else if 1000 ≤ n then decimal n 3 ++ "µs"
  else toString n ++ "ns"

end Duration

end Stowage
