/-!
# Architecture

What code is generated for, and by whom. Generated code is always 32-bit x86.
It can be generated and placed on a 64-bit host, but not run there.

## Main definitions

* `version`: The release of this library.
* `wordSize`: The bytes in a word of the generated code.
* `isNative`: Whether the host can run the generated code.
-/

namespace Hotpatch

def version : String := "0.3.0"

/-- The bytes in a word of the generated code: an address, a slot of the stack,
    a parameter. -/
def wordSize : Nat := 4

def hostWordSize : Nat := 8

/-- Whether the host can run the generated code. -/
def isNative : Bool :=
  hostWordSize = wordSize

end Hotpatch
