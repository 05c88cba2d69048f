import LoadRemover.Build
import LoadRemover.Code.Instruction

/-!
# The first instructions of a site

The code that a build has at the entry point of a site, up to the first instruction that lies past the jump which
will be written over it.
-/

namespace LoadRemover

/-- The stack space that the game's main function reserves. -/
def gameFrame : Int32 := 0x28

/-- The code that `build`, loaded at `moduleBase`, has at the entry point of `site`. -/
def preamble (site : Site) (build : Build) (moduleBase : UInt32) : Code :=
  let entry := build.entry site
  (Code.emptyAt (moduleBase + entry.offset)).emitAll <|
    match entry.text with
    | none => [.subImmediate .esp gameFrame false, .pushRegister .esi, .moveRegister .esi .ecx]
    | some text => [.pushRegister .esi, .pushImmediate (moduleBase + text)]

/-- What tells the main module of a build, loaded at `base`, from zeros: the signature and the code at each site, with
their offsets. -/
def Build.imageParts (build : Build) (base : UInt32) : List (UInt32 × Bytes) :=
  (signatureOffset, Bytes.littleEndian32 build.signature) ::
    Site.all.map fun site => ((build.entry site).offset, (preamble site build base).bytes)

def Build.imageSize : Nat := 0x263000

/-- The code found at the entry point of a site. -/
structure Snapshot where
  site : Site
  code : Code
deriving DecidableEq

end LoadRemover
