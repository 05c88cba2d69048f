import LoadRemover.Toml.Scalar
import LoadRemover.Toml.Table

/-!
# TOML documents

A document is a sequence of lines that define keys and open tables. `Document.read` gives the outermost table, or
`none` if the text is not a document. Arrays and tables within braces may be nested to a fixed depth.
-/

namespace LoadRemover.Toml

/-- Arrays and tables within braces are nested less deeply than this, and keys have fewer parts. -/
def depthLimit : Nat := 80

def key (cs : List Char) : Option ((List String × String) × List Char) := do
  let (parts, rest) ← dottedKey depthLimit.pred cs
  let last ← parts.getLast?
  return ((parts.dropLast, last), rest)

private def boolean : List Char → Option (List Char)
  | 't' :: 'r' :: 'u' :: 'e' :: rest => some rest
  | 'f' :: 'a' :: 'l' :: 's' :: 'e' :: rest => some rest
  | _ => none

def scalar (cs : List Char) : Option (Value × List Char) :=
  let isOther (rest : List Char) : Value × List Char := (.other, rest)
  (quoted cs).map (fun (text, rest) => (Value.string (String.ofList text), rest))
    <|> (boolean cs).map isOther
    <|> (dateTime cs).map isOther
    <|> (float cs).map isOther
    <|> (specialFloat cs).map isOther
    <|> (integer cs).map fun (n, rest) => (Value.integer n, rest)

mutual

/-- A value; `depth` is the number of levels that may still be opened, and `steps` bounds the work. -/
def value (steps depth : Nat) (cs : List Char) : Option (Value × List Char) :=
  match steps with
  | 0 => none
  | steps + 1 =>
    match cs, depth with
    | '[' :: rest, depth + 1 => elements steps depth rest
    | '\x7b' :: rest, depth + 1 =>
      match skipBlanks rest with
      | '\x7d' :: rest => some (.other, rest)
      | rest => members steps depth [] rest
    | '[' :: _, 0 | '\x7b' :: _, 0 => none
    | cs, _ => scalar cs

/-- The rest of an array, where a value or the closing bracket may come next. -/
def elements (steps depth : Nat) (cs : List Char) : Option (Value × List Char) :=
  match steps with
  | 0 => none
  | steps + 1 =>
    match skipLines cs.length cs with
    | ']' :: rest => some (.other, rest)
    | cs => do
      let (_, rest) ← value steps depth cs
      match skipLines rest.length rest with
      | ',' :: rest => elements steps depth rest
      | ']' :: rest => return (.other, rest)
      | _ => none

def members (steps depth : Nat) (entries : Entries) (cs : List Char) : Option (Value × List Char) :=
  match steps with
  | 0 => none
  | steps + 1 => do
    let ((path, last), rest) ← key cs
    let rest ← exactly '=' rest
    let (v, rest) ← value steps depth (skipBlanks rest)
    let entries ← entries.define path last v
    match skipBlanks rest with
    | ',' :: rest => members steps depth entries rest
    | '\x7d' :: rest => return (.other, rest)
    | _ => none

end

/-- A document as far as it was read: the outermost table and the header under which keys are defined. -/
structure Document where
  entries : Entries := []
  header : List String := []

namespace Document

/-- The header of a table or of an element of an array of tables, after the opening brackets. -/
def readHeader (document : Document) (isElement : Bool) (cs : List Char) : Option (Document × List Char) := do
  let ((path, last), rest) ← key cs
  let rest ← exactly ']' rest
  let rest ← if isElement then exactly ']' rest else some rest
  let rest ← endLine? rest
  let entries ←
    if isElement then document.entries.openElement path last else document.entries.openTable path last
  return ({ entries, header := path ++ [last] }, rest)

def readLine (document : Document) (cs : List Char) : Option (Document × List Char) :=
  match cs with
  | '#' :: _ => (endLine? cs).map fun rest => (document, rest)
  | '[' :: '[' :: rest => document.readHeader true rest
  | '[' :: rest => document.readHeader false rest
  | cs => do
    let ((path, last), rest) ← key cs
    let rest ← exactly '=' rest
    let (v, rest) ← value (4 * cs.length + 4) depthLimit.pred (skipBlanks rest)
    let rest ← endLine? rest
    let entries ← document.entries.defineUnder document.header path last v
    return ({ document with entries }, rest)

def readLines : Nat → Document → List Char → Option Document
  | 0, _, _ => none
  | steps + 1, document, cs =>
    match skipBlanks cs with
    | [] => some document
    | cs =>
      match newline? cs with
      | some rest => readLines steps document rest
      | none => do
        let (document, rest) ← document.readLine cs
        readLines steps document rest

/-- The outermost table of a document. A byte order mark in front of it does not count. -/
def read (text : String) : Option Entries :=
  let cs := match text.toList with
    | '\uFEFF' :: cs => cs
    | cs => cs
  (readLines (cs.length + 1) {} cs).map (·.entries)

end Document

end LoadRemover.Toml
