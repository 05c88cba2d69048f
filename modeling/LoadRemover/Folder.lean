import LoadRemover.Bytes

/-!
# The folder of the program

The files among which the program runs. A path is looked up part by part; outside of the folder nothing is known by
name. Paths and the names in them have a greatest length.
-/

namespace LoadRemover

/-- Why a file cannot be read as text. -/
inductive ReadFault where
  | absent
  | isDirectory
  | notDirectory
  | tooLong
  | notText
  | other (reason : String)
deriving DecidableEq

def ReadFault.message : ReadFault → String
  | absent => "No such file or directory (os error 2)"
  | isDirectory => "Is a directory (os error 21)"
  | notDirectory => "Not a directory (os error 20)"
  | tooLong => "File name too long (os error 36)"
  | notText => "stream did not contain valid UTF-8"
  | other reason => reason

def textOfBytes (content : Bytes) : Except ReadFault String :=
  match String.fromUTF8? ⟨content.toArray⟩ with
  | some text => .ok text
  | none => .error .notText

/-- What a name in a folder stands for. -/
inductive FolderEntry where
  | file (content : Bytes)
  | folder

abbrev Folder := List (String × FolderEntry)

namespace Folder

def maxNameBytes : Nat := 255

def maxPathBytes : Nat := 4095

/-- Where a path has led. -/
inductive Place where
  | here
  | inside
  | outside
  | file (content : Bytes)

def follow (folder : Folder) (place : Place) (part : String) : Except ReadFault Place :=
  match place with
  | .file _ => .error .notDirectory
  | _ =>
    if part = "" || part = "." then .ok place
    else if part = ".." then
      match place with
      | .inside => .ok .here
      | _ => .ok .outside
    else if maxNameBytes < part.utf8ByteSize then .error .tooLong
    else
      match place, folder.lookup part with
      | .here, some (.file content) => .ok (.file content)
      | .here, some .folder => .ok .inside
      | _, _ => .error .absent

def read (folder : Folder) (path : String) : Except ReadFault String := do
  if maxPathBytes < path.utf8ByteSize then throw .tooLong
  let start := if path.toList.head? = some '/' then Place.outside else Place.here
  match ← (path.splitOn "/").foldlM folder.follow start with
  | .file content => textOfBytes content
  | _ => .error .isDirectory

end Folder

end LoadRemover
