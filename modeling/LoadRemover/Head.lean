import LoadRemover.Preamble

/-!
# The head block

The block of code that is put into the game. It starts with the loading flag. Then follows, for each site, a *copy*
of the site's first instructions with a jump to the rest of the function, and then, for each site, a *wrapper*: it
raises the flag, calls the copy with the arguments of the site, leaves the site's end value in the flag and returns
to the caller of the site.

The block is assembled unplaced and moved as a whole when its address is known.
-/

namespace LoadRemover

/-- The labels of one site in the head block. -/
structure SiteLayout where
  site : Site
  /-- The start of the copied instructions. -/
  copy : Nat
  /-- The start of the wrapper to which the site jumps. -/
  wrapper : Nat
deriving DecidableEq

/-- An assembled head block. -/
structure Head where
  code : Code
  sites : List SiteLayout

namespace Head

def flagLabel : Nat := 0

def flagAddress (head : Head) : UInt32 := head.code.address flagLabel

def wrapperAddress (head : Head) (layout : SiteLayout) : UInt32 := head.code.address layout.wrapper

def moveTo (head : Head) (base : UInt32) : Head := { head with code := head.code.moveTo base }

end Head

namespace Code

/-- Add a copy of a site's first instructions and a jump to what follows them in the site. -/
def addCopy (code entry : Code) : Code :=
  (code.merge entry).emit (.jumpAddress entry.endAddress)

/-- Add a wrapper that raises `flag` while it calls `target` on behalf of `site`. -/
def addWrapper (code : Code) (flag target : Nat) (site : Site) : Code :=
  code.emitAll [
    .storeByteLabel flag Flag.busy,
    .callLabel target site.stackArgs,
    .storeByteLabel flag site.endValue,
    .ret (site.stackArgs.toUInt16 * 4)]

/-- Add a piece for each item; the second part lists the labels of the pieces. -/
def addEach {α : Type} (add : Code → α → Code) : Code → List α → Code × List Nat
  | code, [] => (code, [])
  | code, item :: rest =>
    let (all, labels) := addEach add (add code item) rest
    (all, code.size :: labels)

end Code

def Head.build (snapshots : List Snapshot) : Head :=
  let (code, copies) := (Code.empty.data [Flag.idle]).addEach (fun code s => code.addCopy s.code) snapshots
  let targets := (snapshots.map (·.site)).zip copies
  let (code, wrappers) := code.addEach (fun code (site, copy) => code.addWrapper flagLabel copy site) targets
  { code, sites := (targets.zip wrappers).map fun ((site, copy), wrapper) => { site, copy, wrapper } }

/-- The jump from `address` to `wrapper` that is written over the entry point of a site. -/
def redirect (address wrapper : UInt32) : Code :=
  (Code.emptyAt address).emit (.jumpAddress wrapper)

end LoadRemover
