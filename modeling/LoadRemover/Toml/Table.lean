/-!
# Tables in TOML

Documents define tables in several places: by headers, by headers of tables within them, and by keys with dots. The
tree here keeps how each table came about, because that decides who may still add to it.

* A table that was only needed on the way to another one is *implicit*; a header may still define it.
* A table made by a dotted key is *dotted*; only dotted keys may add to it.
* No key is defined twice.
-/

namespace LoadRemover.Toml

/-- A value, as far as it matters. -/
inductive Value where
  | string (text : String)
  | integer (n : Int)
  | other
deriving DecidableEq

/-- What a key stands for. -/
inductive Item where
  | value (value : Value)
  | table (implicit dotted : Bool) (entries : List (String × Item))
  /-- An array of tables, each made by its own header; the last one is open. -/
  | tables (closed : List (List (String × Item))) (last : List (String × Item))

abbrev Entries := List (String × Item)

namespace Entries

def get? (entries : Entries) (key : String) : Option Item := entries.lookup key

def put (entries : Entries) (key : String) (item : Item) : Entries :=
  if (entries.lookup key).isSome then entries.map fun (k, old) => (k, if k = key then item else old)
  else entries ++ [(key, item)]

/-- Change the table at the end of a path, given whether it is dotted. Tables that are missing on the way are made,
implicit, and dotted if the path belongs to a dotted key. -/
def modifyAt (dottedPath : Bool) (f : Bool → Entries → Option Entries) : List String → Bool → Entries → Option Entries
  | [], dotted, entries => f dotted entries
  | key :: path, _, entries =>
    match entries.get? key with
    | none => do
      let inner ← modifyAt dottedPath f path dottedPath []
      return entries.put key (.table true dottedPath inner)
    | some (.table implicit dotted inner) => do
      if dottedPath && !implicit then none
      let inner ← modifyAt dottedPath f path dotted inner
      return entries.put key (.table implicit dotted inner)
    | some (.tables closed last) => do
      let last ← modifyAt dottedPath f path false last
      return entries.put key (.tables closed last)
    | some (.value _) => none

/-- Change the table at the end of a path from a table that is not dotted. -/
def changeAt (entries : Entries) (dottedPath : Bool) (path : List String) (f : Bool → Entries → Option Entries) :
    Option Entries :=
  modifyAt dottedPath f path false entries

def define (entries : Entries) (path : List String) (key : String) (value : Value) : Option Entries :=
  entries.changeAt true path fun dotted inner =>
    if dotted = path.isEmpty || (inner.get? key).isSome then none else some (inner.put key (.value value))

def openTable (entries : Entries) (path : List String) (key : String) : Option Entries :=
  entries.changeAt false path fun _ inner =>
    match inner.get? key with
    | none => some (inner.put key (.table false false []))
    | some (.table true false old) => some (inner.put key (.table false false old))
    | some _ => none

def openElement (entries : Entries) (path : List String) (key : String) : Option Entries :=
  entries.changeAt false path fun _ inner =>
    match inner.get? key with
    | none => some (inner.put key (.tables [] []))
    | some (.tables closed last) => some (inner.put key (.tables (closed ++ [last]) []))
    | some _ => none

def defineUnder (entries : Entries) (header path : List String) (key : String) (value : Value) : Option Entries :=
  entries.changeAt false header fun _ inner => inner.define path key value

end Entries

end LoadRemover.Toml
