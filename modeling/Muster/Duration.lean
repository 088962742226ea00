import Muster.Text.Number

/-!
# Durations

A length of time in whole nanoseconds, and its text: the largest unit that leaves a whole part,
with the fraction cut after its last non-zero digit.

`text` is the text of a duration where the program shows a timeout as an `Error`.
-/
namespace Muster

structure Duration where
  nanos : Nat
deriving DecidableEq, Repr

namespace Duration

def ofMillis (ms : Nat) : Duration := ⟨ms * 1000000⟩

def ofSeconds (secs : Nat) (nanos : Nat) : Duration := ⟨secs * 1000000000 + nanos⟩

def millis (d : Duration) : Nat := d.nanos / 1000000

/-- `rest` out of `10 ^ places`, as a decimal fraction without trailing zeros. -/
def fraction (places rest : Nat) : String :=
  let digits := Text.numeral 10 rest
  let padded := List.replicate (places - digits.length) '0' ++ digits
  match (padded.reverse.dropWhile (· == '0')).reverse with
  | [] => ""
  | cs => "." ++ String.ofList cs

/-- `n` in a unit of `10 ^ places` parts. -/
def inUnit (places n : Nat) (unit : String) : String :=
  Text.decimal (n / Nat.pow 10 places) ++ fraction places (n % Nat.pow 10 places) ++ unit

def text (d : Duration) : String :=
  if 1000000000 ≤ d.nanos then inUnit 9 d.nanos "s"
  else if 1000000 ≤ d.nanos then inUnit 6 d.nanos "ms"
  else if 1000 ≤ d.nanos then inUnit 3 d.nanos "µs"
  else inUnit 0 d.nanos "ns"

end Duration

end Muster
