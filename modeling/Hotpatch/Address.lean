/-!
# Machine Addresses

The words every other module speaks about: a 64-bit address, the bytes of a
number in the order the machine stores them, and the text an address is
reported as.

Addresses wrap at `2 ^ 64`. Sizes, lengths and offsets are natural numbers. The
machine keeps them in words too, so where a bound depends on a sum of two of them
the sum is checked: it is no number at all if it does not fit into a word.

## Main definitions

* `Address`: A 64-bit address.
* `addressSpace`: How many addresses there are.
* `checkedAdd`: A sum of two sizes that fits into a word.
* `hexadecimal`: A number in lower-case hexadecimal, after `0x`.
* `littleEndian`: The low bytes of an integer, least significant first.

## Theorems

* `checkedAdd_eq_some`: What a checked sum is.
* `length_littleEndian`: As many bytes as asked for.
-/

namespace Hotpatch

/-- An address of the host, a word that wraps at `2 ^ 64`. -/
abbrev Address := UInt64

/-- How many addresses there are, which is where they wrap. -/
def addressSpace : Nat := 0x10000000000000000

/-- How many addresses a word of the generated code tells apart. -/
def codeSpace : Nat := 0x100000000

/-- The sum of two sizes, unless it does not fit into a word. -/
def checkedAdd (a b : Nat) : Option Nat :=
  if a + b < addressSpace then some (a + b) else none

theorem checkedAdd_eq_some {a b sum : Nat} :
    checkedAdd a b = some sum ↔ a + b < addressSpace ∧ a + b = sum := by
  unfold checkedAdd
  split
  · next h => rw [Option.some.injEq, and_iff_right h]
  · next h => exact iff_of_false (Option.some_ne_none _).symm fun hsum => h hsum.1

/-- A number in lower-case hexadecimal digits, without leading zeros, after
    `0x`. -/
def hexadecimal (n : Nat) : String :=
  "0x" ++ String.ofList (Nat.toDigits 16 n)

/-- The low `count` bytes of an integer, least significant first. A negative
    integer gives its two's complement, because the quotient rounds down. -/
def littleEndian : Nat → Int → List UInt8
  | 0, _ => []
  | count + 1, value =>
    UInt8.ofNat (value % 256).toNat :: littleEndian count (value / 256)

@[simp]
theorem length_littleEndian (count : Nat) (value : Int) :
    (littleEndian count value).length = count := by
  induction count generalizing value with
  | zero => rfl
  | succ count ih => simp only [littleEndian, List.length_cons, ih]

end Hotpatch
