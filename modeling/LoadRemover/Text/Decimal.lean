/-!
# Unsigned decimal numbers

The decimal notation that arguments and settings share: digits after an optional plus sign, within a fixed range.
-/

namespace LoadRemover

def natOfDigits? (max : Nat) (digits : List Char) : Option Nat :=
  if digits.isEmpty || digits.any (!·.isDigit) then none
  else
    let n := digits.foldl (fun n c => 10 * n + (c.toNat - '0'.toNat)) 0
    if n ≤ max then some n else none

/-- The number that a text denotes, at most `max`. There may be a plus sign and any number of leading zeros. -/
def natOfText? (max : Nat) (text : String) : Option Nat :=
  match text.toList with
  | '+' :: digits => natOfDigits? max digits
  | digits => natOfDigits? max digits

def maxWord64 : Nat := 0xFFFFFFFFFFFFFFFF

end LoadRemover
