import LoadRemover.Bytes

/-!
# Numbers in JSON text

How a number is spelled, one byte at a time, and whether its value still fits in a double.
-/

namespace LoadRemover.Json

def isDigit (b : UInt8) : Bool := 0x30 ≤ b && b ≤ 0x39

/-- How far a number was read. -/
inductive NumberState where
  | minus | zero | whole | point | fraction | exponent | exponentSign | exponentDigits
deriving DecidableEq

namespace NumberState

def isComplete : NumberState → Bool
  | zero | whole | fraction | exponentDigits => true
  | _ => false

/-- The state after one more byte, if the number goes on with it. -/
def next? (state : NumberState) (b : UInt8) : Option NumberState :=
  let isPoint := b = 0x2E
  let isExponent := b = 0x65 || b = 0x45
  match state with
  | minus => if b = 0x30 then some zero else if isDigit b then some whole else none
  | zero => if isPoint then some point else if isExponent then some exponent else none
  | whole =>
    if isDigit b then some whole else if isPoint then some point else if isExponent then some exponent else none
  | point => if isDigit b then some fraction else none
  | fraction => if isDigit b then some fraction else if isExponent then some exponent else none
  | exponent =>
    if isDigit b then some exponentDigits else if b = 0x2B || b = 0x2D then some exponentSign else none
  | exponentSign | exponentDigits => if isDigit b then some exponentDigits else none

/-- The state after the first byte, if a number can begin with it. -/
def first? (b : UInt8) : Option NumberState :=
  if b = 0x2D then some minus else minus.next? b

end NumberState

/-! ### Range -/

/-- The nearest number that has at most 53 significant bits, with ties to the even one. -/
def roundTo53Bits (n : Nat) : Nat :=
  let k := n.log2 + 1 - 53
  let q := n >>> k
  let rest := 2 * (n - (q <<< k))
  let unit := 1 <<< k
  let up := unit < rest || (unit = rest && q % 2 = 1)
  (if up then q + 1 else q) <<< k

/-- Append digits to a number while it fits in 64 bits; the second part is the number of digits appended. -/
def appendDigits (n : Nat) : Bytes → Nat × Nat
  | [] => (n, 0)
  | digit :: rest =>
    let m := 10 * n + (digit.toNat - 0x30)
    if m < 0x10000000000000000 then
      let (m, appended) := appendDigits m rest
      (m, appended + 1)
    else
      (n, 0)

/-- Whether a complete number is too large for a double. The leading digits that fit in 64 bits are rounded to a
double and multiplied by the double of a power of ten. -/
def isOutOfRange (text : Bytes) : Bool :=
  let isExponent (b : UInt8) := b = 0x65 || b = 0x45
  let mantissa := (text.takeWhile (!isExponent ·)).filter (· ≠ 0x2D)
  let power := (text.dropWhile (!isExponent ·)).drop 1
  let whole := mantissa.takeWhile (· ≠ 0x2E)
  let fraction := (mantissa.dropWhile (· ≠ 0x2E)).drop 1
  let (n, wholeKept) := appendDigits 0 whole
  let (n, fractionKept) := if wholeKept = whole.length then appendDigits n fraction else (n, 0)
  let magnitude : Nat := (power.filter isDigit).foldl (fun (e : Nat) d => 10 * e + (d.toNat - 0x30)) 0
  let written : Int := if power.head? = some 0x2D then -(magnitude : Int) else magnitude
  let exponent : Int := written + ((whole.length - wholeKept : Nat) : Int) - (fractionKept : Int)
  n ≠ 0 && 0 ≤ exponent &&
    (308 < exponent || 1 <<< 1024 ≤ roundTo53Bits (roundTo53Bits n * roundTo53Bits (Nat.pow 10 exponent.toNat)))

end LoadRemover.Json
