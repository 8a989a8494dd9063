import Hotpatch.Stub.Template
import Hotpatch.X86.Branch

/-!
# Relocation

A template becomes code when the address of its target takes the place of its
placeholder. Placeholders are found from left to right and never overlap, and
the bytes put in are not looked at again, so an address may hold the
placeholder's byte itself.

## Main definitions

* `splice`: A template with its placeholders replaced, and their number.
* `relocate`: The code for a target.
-/

namespace Hotpatch

/-- A byte string with every placeholder in it replaced by `word`, and the
    number of placeholders. Four bytes in a row are taken at once; a byte that
    does not begin a placeholder stays. -/
def splice (word : List UInt8) : List UInt8 → List UInt8 × Nat
  | 0xF0 :: 0xF0 :: 0xF0 :: 0xF0 :: rest =>
    let (out, found) := splice word rest
    (word ++ out, found + 1)
  | byte :: rest =>
    let (out, found) := splice word rest
    (byte :: out, found)
  | [] => ([], 0)

/-- The code that a template becomes for a target. The target has to fit a word
    of the code, and the template has to have a place for it. -/
def relocate (template : List UInt8) (target : Address) : Except Fault (List UInt8) :=
  match addressWord target with
  | none => .error (.badArgument "address" "does not fit in 32 bits")
  | some word =>
    match splice word template with
    | (_, 0) => .error (.noPlaceholder template.length)
    | (out, _ + 1) => .ok out

end Hotpatch
