import Hotpatch.LiveCode

/-!
# Patches

A patch overwrites bytes at a fixed address and keeps the bytes that it
replaced, so that it can put them back. What it writes is literal bytes, code
that is generated in place, or a branch.

The target of a branch is a known address or an intercept: code that is
generated into memory of its own the first time its address is needed, and that
the patch then owns. Until then nothing is run and nothing is allocated.

## Main definitions

* `Target`: Where a branch goes.
* `Source`: What a patch writes.
* `Patch`: A patch, installed or not.
* `Patch.description`: What the patch writes, and where.

## Theorems

* `Patch.not_isInstalled_place`: A new patch is not installed.
-/

namespace Hotpatch

/-- Where a branch goes. -/
inductive Target
  | fixed (address : Address)
  /-- An intercept, with its memory once it is generated. -/
  | intercept (code : Code) (memory : Option Region)

namespace Target

def ofAddress (address : Address) : Except Fault Target := do
  return fixed (← branchTarget address)

/-- An intercept that is not generated yet. -/
def pending (program : Program) : Target :=
  intercept { program } none

/-- The target after its intercept was generated into `region`. -/
def withMemory (region : Region) : Target → Target
  | fixed address => fixed address
  | intercept code _ => intercept code (some region)

def isResolved : Target → Bool
  | fixed _ => true
  | intercept _ memory => memory.isSome

/-- The memory of the intercept, once it is generated. -/
def memory? : Target → Option Region
  | fixed _ => none
  | intercept _ memory => memory

/-- What a branch of a kind to the target is called. -/
def description (kind : Branch) : Target → String
  | fixed address => kind.name ++ " to " ++ hexadecimal address.toNat
  | intercept _ none => kind.name ++ " to pending intercept"
  | intercept _ (some region) =>
    kind.name ++ " to intercept @" ++ hexadecimal region.address.toNat

/-- How often the code of the intercept was run. -/
def runs : Target → Nat
  | fixed _ => 0
  | intercept code _ => code.runs

end Target

/-- What a patch writes. -/
inductive Source
  | literal (bytes : List UInt8)
  /-- Code that is generated for the patched address. -/
  | inPlace (code : Code)
  | branch (kind : Branch) (target : Target)

namespace Source

/-- What the patch writes, in words. -/
def description : Source → String
  | literal bytes => toString bytes.length ++ " bytes"
  | inPlace _ => "generated code"
  | branch kind target => target.description kind

def runs : Source → Nat
  | literal _ => 0
  | inPlace code => code.runs
  | branch _ target => target.runs

def target? : Source → Option Target
  | branch _ target => some target
  | _ => none

end Source

/-- A patch of the bytes at `site`. `saved` holds the bytes that it replaced,
    exactly while it is installed. -/
structure Patch where
  site : Address
  source : Source
  saved : Option (List UInt8)
  unprotected : Bool

namespace Patch

def place (site : Address) (source : Source) (unprotected : Bool) : Patch :=
  ⟨site, source, none, unprotected⟩

/-- Whether the replacement is in place. -/
def isInstalled (p : Patch) : Bool :=
  p.saved.isSome

def live (p : Patch) : LiveCode :=
  ⟨p.site⟩

/-- What the patch writes, and where. -/
def description (p : Patch) : String :=
  hexadecimal p.site.toNat ++ " => " ++ p.source.description

/-- The patch as reports show it. -/
def text (p : Patch) : String :=
  "Patch \x7b address: " ++ hexadecimal p.site.toNat ++ ", installed: "
    ++ toString p.isInstalled ++ ", unprotect: " ++ toString p.unprotected ++ " \x7d"

@[simp]
theorem not_isInstalled_place (site : Address) (source : Source) (unprotected : Bool) :
    (place site source unprotected).isInstalled = false :=
  rfl

end Patch

end Hotpatch
