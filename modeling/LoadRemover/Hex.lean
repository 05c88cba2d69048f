/-!
# Hexadecimal numbers in messages
-/

namespace LoadRemover

/-- The lower-case hexadecimal digits of a number, without leading zeros. -/
def hexDigits (n : Nat) : String := String.ofList (Nat.toDigits 16 n)

def hex (n : Nat) : String := "0x" ++ hexDigits n

def hexWord (n : Nat) : String :=
  "0x" ++ String.ofList (List.replicate (8 - (Nat.toDigits 16 n).length) '0') ++ hexDigits n

end LoadRemover
