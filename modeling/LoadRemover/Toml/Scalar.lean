import LoadRemover.Toml.Text

/-!
# Numbers, dates and truth values in TOML

Only integers are read for their value; of the others it matters only where they end.
-/

namespace LoadRemover.Toml

/-! ### Digits -/

private def digitsValue (base n : Nat) (digits : List Nat) : Nat := digits.foldl (base * · + ·) n

/-- Digits with single underscores between them, after at least one digit. -/
def moreDigits (base : Nat) : List Char → List Nat × List Char
  | [] => ([], [])
  | ['_'] => ([], ['_'])
  | '_' :: c :: rest =>
    match digit? base c with
    | some d => let (ds, rest) := moreDigits base rest; (d :: ds, rest)
    | none => ([], '_' :: c :: rest)
  | c :: rest =>
    match digit? base c with
    | some d => let (ds, rest) := moreDigits base rest; (d :: ds, rest)
    | none => ([], c :: rest)

def digits (base : Nat) : Reader (List Nat)
  | c :: rest => (digit? base c).map fun d => let (ds, rest) := moreDigits base rest; (d :: ds, rest)
  | [] => none

def fixedDigits : Nat → Reader (List Nat)
  | 0, cs => some ([], cs)
  | n + 1, c :: rest => do
    let d ← digit? 10 c
    let (ds, rest) ← fixedDigits n rest
    return (d :: ds, rest)
  | _ + 1, [] => none

/-- Whether a minus sign comes next, and what follows the sign. -/
def sign : List Char → Bool × List Char
  | '-' :: rest => (true, rest)
  | '+' :: rest => (false, rest)
  | cs => (false, cs)

def wholeDigits : Reader (List Nat)
  | '0' :: rest => some ([0], rest)
  | cs => digits 10 cs

/-! ### Integers -/

def integer (cs : List Char) : Option (Int × List Char) := do
  let (n, rest) ← (match cs with
    | '0' :: 'x' :: rest => based 16 rest
    | '0' :: 'o' :: rest => based 8 rest
    | '0' :: 'b' :: rest => based 2 rest
    | cs => do
      let (negative, cs) := sign cs
      let (ds, rest) ← wholeDigits cs
      let n : Int := digitsValue 10 0 ds
      return (if negative then -n else n, rest) : Option (Int × List Char))
  if -0x8000000000000000 ≤ n ∧ n < 0x8000000000000000 then some (n, rest) else none
where
  based (base : Nat) (cs : List Char) : Option (Int × List Char) :=
    (digits base cs).map fun (ds, rest) => ((digitsValue base 0 ds : Nat), rest)

/-! ### Fractions -/

/-- Whether `n * 10 ^ e`, where `n` has the given number of digits, is too large for a double. -/
def exceedsDouble (n length : Nat) (e : Int) : Bool :=
  let bound := (1 <<< 1024) - (1 <<< 970)
  if n = 0 ∨ length + e ≤ 0 then false
  else if 400 < (Nat.toDigits 10 n).length + e then true
  else if 0 ≤ e then bound ≤ n * Nat.pow 10 e.toNat
  else bound * Nat.pow 10 (-e).toNat ≤ n

private def power : List Char → Option (Int × List Char)
  | c :: rest =>
    if c = 'e' ∨ c = 'E' then do
      let (negative, rest) := sign rest
      let (ds, rest) ← digits 10 rest
      let n : Int := digitsValue 10 0 ds
      return (if negative then -n else n, rest)
    else none
  | [] => none

/-- A number with a fraction, a power of ten or both, that is not too large. -/
def float (cs : List Char) : Option (List Char) := do
  let (negative, cs) := sign cs
  let (whole, rest) ← wholeDigits cs
  let (fraction, e, rest) ← (match rest with
    | '.' :: rest => do
      let (fraction, rest) ← digits 10 rest
      match power rest with
      | some (e, rest) => return (fraction, e, rest)
      | none => return (fraction, 0, rest)
    | rest => do
      let (e, rest) ← power rest
      return ([], e, rest) : Option (List Nat × Int × List Char))
  let n := digitsValue 10 0 (whole ++ fraction)
  if !negative && exceedsDouble n (whole.length + fraction.length) (e - fraction.length) then none else some rest

def specialFloat (cs : List Char) : Option (List Char) :=
  match (sign cs).2 with
  | 'i' :: 'n' :: 'f' :: rest => some rest
  | 'n' :: 'a' :: 'n' :: rest => some rest
  | _ => none

/-! ### Dates and times -/

def bounded (n low high : Nat) (cs : List Char) : Option (Nat × List Char) := do
  let (ds, rest) ← fixedDigits n cs
  let value := digitsValue 10 0 ds
  if low ≤ value ∧ value ≤ high then some (value, rest) else none

def exactly (c : Char) : List Char → Option (List Char)
  | d :: rest => if c = d then some rest else none
  | [] => none

def daysIn (year month : Nat) : Nat :=
  if month = 2 then if year % 4 = 0 ∧ (year % 100 ≠ 0 ∨ year % 400 = 0) then 29 else 28
  else if month ∈ [4, 6, 9, 11] then 30
  else 31

def date (cs : List Char) : Option (List Char) := do
  let (year, cs) ← bounded 4 0 9999 cs
  let (month, cs) ← bounded 2 1 12 (← exactly '-' cs)
  let (_, cs) ← bounded 2 1 (daysIn year month) (← exactly '-' cs)
  return cs

def time (cs : List Char) : Option (List Char) := do
  let (_, cs) ← bounded 2 0 23 cs
  let (_, cs) ← bounded 2 0 59 (← exactly ':' cs)
  let (_, cs) ← bounded 2 0 60 (← exactly ':' cs)
  match cs with
  | '.' :: c :: rest =>
    if c.isDigit then return rest.dropWhile Char.isDigit else return cs
  | cs => return cs

def offset (cs : List Char) : Option (List Char) :=
  match cs with
  | 'Z' :: rest | 'z' :: rest => some rest
  | '+' :: rest | '-' :: rest => do
    let (_, cs) ← bounded 2 0 23 rest
    let (_, cs) ← bounded 2 0 59 (← exactly ':' cs)
    return cs
  | _ => none

def dateTime (cs : List Char) : Option (List Char) :=
  match date cs with
  | none => time cs
  | some afterDate =>
    let afterTime := match afterDate with
      | c :: rest => if c = 'T' ∨ c = 't' ∨ c = ' ' then time rest else none
      | [] => none
    match afterTime with
    | none => some afterDate
    | some cs => some ((offset cs).getD cs)

end LoadRemover.Toml
