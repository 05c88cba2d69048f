import LoadRemover.Site

/-!
# Known builds of the game

A build is told from others by a word at a fixed offset of its main module. All offsets count from the address at
which this module is loaded. The two known builds share their code and differ in where a few texts lie.
-/

namespace LoadRemover

/-- Where a site lies in a build. -/
structure EntryPoint where
  offset : UInt32
  /-- The offset of the text whose address the function's first instructions push, if they push one. -/
  text : Option UInt32
deriving DecidableEq

/-- The offsets of one build. -/
structure Build where
  name : String
  /-- The word at `Build.signatureOffset`. -/
  signature : UInt32
  entry : Site → EntryPoint
  /-- The offset of the byte that is non-zero while a modal screen is up. -/
  modal : UInt32

namespace Build

def signatureOffset : UInt32 := 0x230000

def retail : Build where
  name := "retail"
  signature := 0x6F727241
  entry
    | .game => ⟨0x3B80, none⟩
    | .movie => ⟨0x3860, some 0x22D984⟩
    | .frontend => ⟨0x38E0, some 0x22D9D8⟩
    | .raceEditor => ⟨0x3AE0, some 0x22D9E4⟩
    | .carViewer => ⟨0x3B30, some 0x22D9F4⟩
  modal := 0x2622B0

def steam : Build where
  name := "steam"
  signature := 0x5F737475
  entry
    | .game => ⟨0x3B80, none⟩
    | .movie => ⟨0x3860, some 0x22D980⟩
    | .frontend => ⟨0x38E0, some 0x22D9D4⟩
    | .raceEditor => ⟨0x3AE0, some 0x22D9E0⟩
    | .carViewer => ⟨0x3B30, some 0x22D9F0⟩
  modal := 0x2622B0

def known : List Build := [retail, steam]

def ofSignature? (signature : UInt32) : Option Build :=
  known.find? (·.signature = signature)

end Build

end LoadRemover
