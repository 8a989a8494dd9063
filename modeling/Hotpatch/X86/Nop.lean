import Hotpatch.Address

/-!
# Padding

Instructions that do nothing, in each length from one byte to eight, and sleds
of them. A sled is filled in rounds. Each takes the longest form that does not
go beyond the end, so there is one form for each round, and all of them but the
last are the longest form that there is.

A round takes the length of its form off what is left. That forms are no longer
than what is left, and that a round always takes something, is what ends a sled
exactly where it was asked to end.

## Main definitions

* `longestNop`: The length of the longest form.
* `nop`: The form to take for what is left.
* `sledForms`: The forms of a sled, in order.
* `nopSled`: Padding of any length.

## Theorems

* `length_nop`: A form fills what is left, or is the longest.
* `sledForms_of_pos`: The first round of a sled.
-/

namespace Hotpatch

/-- The length of the longest instruction that does nothing. -/
def longestNop : Nat := 8

/-- The instruction of a length that does nothing. There is none of length
    zero, and none that is longer than the longest. -/
def nop : Nat → List UInt8
  | 0 => []
  | 1 => [0x90]
  | 2 => [0x66, 0x90]
  | 3 => [0x0F, 0x1F, 0x00]
  | 4 => [0x0F, 0x1F, 0x40, 0x00]
  | 5 => [0x0F, 0x1F, 0x44, 0x00, 0x00]
  | 6 => [0x66, 0x0F, 0x1F, 0x44, 0x00, 0x00]
  | 7 => [0x0F, 0x1F, 0x80, 0x00, 0x00, 0x00, 0x00]
  | _ => [0x0F, 0x1F, 0x84, 0x00, 0x00, 0x00, 0x00, 0x00]

/-- A form fills what is left, unless that is more than the longest can fill. -/
theorem length_nop (left : Nat) : (nop left).length = min left longestNop := by
  match left with
  | 0 | 1 | 2 | 3 | 4 | 5 | 6 | 7 => rfl
  | left + 8 => exact (Nat.min_eq_right (Nat.le_add_left 8 left)).symm

/-- The forms that fill a number of bytes. Each round takes the form for what is
    left, and goes on with what is left after it. -/
def sledForms (left : Nat) : List (List UInt8) :=
  if left = 0 then []
  else nop left :: sledForms (left - (nop left).length)
termination_by left
decreasing_by
  rw [length_nop, longestNop]
  omega

/-- Padding of `count` bytes. -/
def nopSled (count : Nat) : List UInt8 :=
  (sledForms count).flatten

@[simp]
theorem sledForms_zero : sledForms 0 = [] := by
  rw [sledForms, if_pos rfl]

theorem sledForms_of_pos {left : Nat} (h : 0 < left) :
    sledForms left = nop left :: sledForms (left - (nop left).length) := by
  rw [sledForms, if_neg (Nat.ne_of_gt h)]

end Hotpatch
