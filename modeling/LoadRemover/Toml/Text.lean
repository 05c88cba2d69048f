/-!
# Texts in TOML

Blanks, comments, line ends and the four kinds of quoted text. Every reader here takes the characters from where it
stands and gives what it read and the characters that follow, or `none` if the characters do not fit.
-/

namespace LoadRemover.Toml

abbrev Reader (α : Type) := List Char → Option (α × List Char)

/-! ### Characters -/

def isBlank (c : Char) : Bool := c = ' ' || c = '\t'

/-- The characters that may stand in a comment or a quoted text: all but control characters other than tabs. -/
def isPrintable (c : Char) : Bool := c = '\t' || (' ' ≤ c && c ≠ '\x7f')

def isBare (c : Char) : Bool :=
  ('a' ≤ c && c ≤ 'z') || ('A' ≤ c && c ≤ 'Z') || ('0' ≤ c && c ≤ '9') || c = '_' || c = '-'

def digit? (base : Nat) (c : Char) : Option Nat :=
  let n? :=
    if '0' ≤ c ∧ c ≤ '9' then some (c.toNat - '0'.toNat)
    else if 'a' ≤ c ∧ c ≤ 'f' then some (c.toNat - 'a'.toNat + 10)
    else if 'A' ≤ c ∧ c ≤ 'F' then some (c.toNat - 'A'.toNat + 10)
    else none
  n?.filter (· < base)

/-! ### Between tokens -/

def skipBlanks (cs : List Char) : List Char := cs.dropWhile isBlank

def newline? : List Char → Option (List Char)
  | '\n' :: rest => some rest
  | '\r' :: '\n' :: rest => some rest
  | _ => none

def skipComment (cs : List Char) : List Char :=
  match cs with
  | '#' :: rest => rest.dropWhile isPrintable
  | _ => cs

/-- What follows the rest of a line: blanks, a comment, and the end of the line or of the document. -/
def endLine? (cs : List Char) : Option (List Char) :=
  match skipComment (skipBlanks cs) with
  | [] => some []
  | cs => newline? cs

/-- What follows blanks, comments and line ends; `steps` bounds the number of lines. -/
def skipLines : Nat → List Char → List Char
  | 0, cs => cs
  | steps + 1, cs =>
    let cs := skipComment (skipBlanks cs)
    match newline? cs with
    | some cs => skipLines steps cs
    | none => cs

/-! ### Escapes -/

/-- The character with the given number, unless it is half of a surrogate pair or too large. -/
def char? (n : Nat) : Option Char := if n.isValidChar then some (Char.ofNat n) else none

def hexChar? (digits : List Char) : Option Char := do
  let values ← digits.mapM (digit? 16)
  char? (values.foldl (16 * · + ·) 0)

def shortEscape? : Char → Option Char
  | 'b' => some '\x08'
  | 't' => some '\t'
  | 'n' => some '\n'
  | 'f' => some '\x0c'
  | 'r' => some '\r'
  | '"' => some '"'
  | '\\' => some '\\'
  | _ => none

private def push (c : Char) (read : Option (List Char × List Char)) : Option (List Char × List Char) :=
  read.map fun (text, rest) => (c :: text, rest)

/-! ### Quoted texts -/

def basic : Reader (List Char)
  | [] => none
  | '"' :: rest => some ([], rest)
  | '\\' :: 'u' :: a :: b :: c :: d :: rest => do push (← hexChar? [a, b, c, d]) (basic rest)
  | '\\' :: 'U' :: a :: b :: c :: d :: e :: f :: g :: h :: rest => do
    push (← hexChar? [a, b, c, d, e, f, g, h]) (basic rest)
  | '\\' :: c :: rest => do push (← shortEscape? c) (basic rest)
  | c :: rest => if isPrintable c && c ≠ '\\' then push c (basic rest) else none

def literal : Reader (List Char)
  | [] => none
  | '\'' :: rest => some ([], rest)
  | c :: rest => if isPrintable c then push c (literal rest) else none

/-- A text of several lines in double quotes, after the opening quotes. Blanks and line ends are left out while
`skipping`, which begins with a backslash at the end of a line. -/
def multiBasic (skipping : Bool) : Reader (List Char)
  | [] => none
  | '"' :: '"' :: '"' :: '"' :: '"' :: rest => some (['"', '"'], rest)
  | '"' :: '"' :: '"' :: '"' :: rest => some (['"'], rest)
  | '"' :: '"' :: '"' :: rest => some ([], rest)
  | '\\' :: 'u' :: a :: b :: c :: d :: rest => do push (← hexChar? [a, b, c, d]) (multiBasic false rest)
  | '\\' :: 'U' :: a :: b :: c :: d :: e :: f :: g :: h :: rest => do
    push (← hexChar? [a, b, c, d, e, f, g, h]) (multiBasic false rest)
  | '\\' :: rest =>
    if (newline? (skipBlanks rest)).isSome then
      multiBasic true rest
    else
      match rest with
      | c :: rest => do push (← shortEscape? c) (multiBasic false rest)
      | [] => none
  | '\r' :: '\n' :: rest => if skipping then multiBasic true rest else push '\n' (multiBasic false rest)
  | c :: rest =>
    if skipping && (isBlank c || c = '\n') then multiBasic true rest
    else if isPrintable c || c = '\n' then push c (multiBasic false rest)
    else none

/-- A text of several lines in single quotes, after the opening quotes. -/
def multiLiteral : Reader (List Char)
  | [] => none
  | '\'' :: '\'' :: '\'' :: '\'' :: '\'' :: rest => some (['\'', '\''], rest)
  | '\'' :: '\'' :: '\'' :: '\'' :: rest => some (['\''], rest)
  | '\'' :: '\'' :: '\'' :: rest => some ([], rest)
  | '\r' :: '\n' :: rest => push '\n' (multiLiteral rest)
  | c :: rest => if isPrintable c || c = '\n' then push c (multiLiteral rest) else none

/-- A line end that directly follows opening quotes does not count. -/
private def skipFirstNewline (cs : List Char) : List Char := (newline? cs).getD cs

def quoted : Reader (List Char)
  | '"' :: '"' :: '"' :: rest => multiBasic false (skipFirstNewline rest)
  | '"' :: rest => basic rest
  | '\'' :: '\'' :: '\'' :: rest => multiLiteral (skipFirstNewline rest)
  | '\'' :: rest => literal rest
  | _ => none

/-! ### Keys -/

/-- One part of a key: bare, or in single or double quotes on one line. -/
def simpleKey : Reader String
  | '"' :: rest => (basic rest).map fun (text, rest) => (String.ofList text, rest)
  | '\'' :: rest => (literal rest).map fun (text, rest) => (String.ofList text, rest)
  | cs =>
    match cs.takeWhile isBare with
    | [] => none
    | name => some (String.ofList name, cs.dropWhile isBare)

/-- A key of one or more parts with dots between them; `steps` bounds their number. -/
def dottedKey : Nat → Reader (List String)
  | 0, _ => none
  | steps + 1, cs => do
    let (part, rest) ← simpleKey (skipBlanks cs)
    match skipBlanks rest with
    | '.' :: rest =>
      let (parts, rest) ← dottedKey steps rest
      return (part :: parts, rest)
    | rest => return ([part], rest)

end LoadRemover.Toml
