import Mathlib.Algebra.Order.Floor.Div
import Hotpatch.Proofs.Disassembly.RoundTrip

/-!
# Sleds Read As Lines

A sled is filled in rounds, and a listing of it has a line for each of them. Two things
have to go well for that. The rounds count down by the length of the form that they have
just taken, and natural numbers stop at zero where a counter of the processor would
start again from the top. So that a round never counts below zero is said apart from
what the rounds write: `SledRun` knows no round whose form is longer than what is left.

The other is that the decoder ends its lines where the rounds ended. A form of eight
bytes holds the opcode of a form of three, and how many bytes follow that opcode is told
by fields of the form itself. Each form is read on its own, with any bytes after it, and
the induction over the rounds puts the lines together.

## Main definitions

* `SledRun`: The rounds from some number of bytes down to none.
* `IdleLines`: Lines that do nothing, as a sled has them.

## Theorems

* `nop_fits`: A round takes something, and no more than is left.
* `sledRun_iff`: The rounds end, with the forms of the sled.
* `SledRun.length_flatten`: The rounds write as many bytes as were asked for.
* `SledRun.length_of_mem`: No round is empty, or longer than the longest form.
* `SledRun.map_length`, `SledRun.length_eq`: Full rounds, and one for what is left.
* `reads_nop`: Each form is read as one instruction that does nothing.
* `SledRun.listing_flatten`: A line for each round, which ends where the round did.
* `Writer.push_nopSled`: What a sled appends to a writer, and its listing.
-/

namespace Hotpatch

/-- The rounds that fill a sled, from how many bytes are left until none is. A round
    counts down by the length of its form, which is no more than is left. -/
inductive SledRun : Nat → List (List UInt8) → Prop
  | stop : SledRun 0 []
  | round {left : Nat} {forms : List (List UInt8)} (more : 0 < left)
      (fits : (nop left).length ≤ left) (next : SledRun (left - (nop left).length) forms) :
      SledRun left (nop left :: forms)

/-- Lines that do nothing, in the number and of the lengths that a sled of `count` bytes
    has them. -/
structure IdleLines (count : Nat) (lines : List Line) : Prop where
  number : lines.length = count ⌈/⌉ longestNop
  idle : ∀ line ∈ lines, line.mnemonic = .plain .nop
  bounded : ∀ line ∈ lines, 0 < line.length ∧ line.length ≤ longestNop
  full : ∀ line ∈ lines.take (count / longestNop), line.length = longestNop

variable {count left : Nat} {forms : List (List UInt8)}

/-- A round takes something, and no more than is left. -/
theorem nop_fits (h : 0 < left) : 0 < (nop left).length ∧ (nop left).length ≤ left := by
  rw [length_nop, longestNop]
  omega

/-- The rounds end, and there is one way in which they do. -/
theorem sledRun_iff : SledRun left forms ↔ forms = sledForms left := by
  constructor
  · intro h
    induction h with
    | stop => exact sledForms_zero.symm
    | round more fits next ih => rw [sledForms_of_pos more, ih]
  · rintro rfl
    -- The recursion of the sled ends; what is left to see is that each round fits.
    induction left using sledForms.induct with
    | case1 =>
        rw [sledForms_zero]
        exact .stop
    | case2 left hleft ih =>
        have more : 0 < left := Nat.pos_of_ne_zero hleft
        rw [sledForms_of_pos more]
        exact .round more (nop_fits more).2 ih

namespace SledRun

/-- What was written and what is left are as much as was asked for, after each round. -/
theorem length_flatten (h : SledRun count forms) : forms.flatten.length = count := by
  induction h with
  | stop => rfl
  | round more fits next ih =>
      rw [List.flatten_cons, List.length_append, ih]
      exact Nat.add_sub_of_le fits

/-- No round is empty, and none takes more than the longest form does. -/
theorem length_of_mem (h : SledRun count forms) :
    ∀ form ∈ forms, 0 < form.length ∧ form.length ≤ longestNop := by
  induction h with
  | stop => exact List.forall_mem_nil _
  | round more fits next ih =>
      refine List.forall_mem_cons.mpr ⟨⟨(nop_fits more).1, ?_⟩, ih⟩
      rw [length_nop]
      exact Nat.min_le_right _ _

/-- All rounds are full, but for one that takes what is left when there is less. -/
theorem map_length (h : SledRun count forms) :
    forms.map List.length = List.replicate (count / longestNop) longestNop ++
      if count % longestNop = 0 then [] else [count % longestNop] := by
  induction h with
  | stop => rfl
  | @round left forms more fits next ih =>
      rw [List.map_cons, ih, length_nop]
      by_cases hfull : longestNop ≤ left
      · -- The round is full, and leaves the same remainder.
        rw [Nat.min_eq_right hfull, ← Nat.mod_eq_sub_mod hfull,
          Nat.div_eq_sub_div (by decide) hfull, List.replicate_succ, List.cons_append]
      · -- The round takes all that is left, which is less than a full one.
        have hless : left < longestNop := Nat.lt_of_not_le hfull
        rw [Nat.min_eq_left (Nat.le_of_lt hless), Nat.sub_self, Nat.div_eq_of_lt hless,
          Nat.mod_eq_of_lt hless, if_neg (Nat.ne_of_gt more)]
        rfl

/-- There are no more rounds than are needed. -/
theorem length_eq (h : SledRun count forms) : forms.length = count ⌈/⌉ longestNop := by
  rw [← List.length_map (f := List.length), h.map_length, List.length_append,
    List.length_replicate, Nat.ceilDiv_eq_add_pred_div]
  split
  · next hrest =>
      rw [List.length_nil]
      simp only [longestNop] at hrest ⊢
      omega
  · next hrest =>
      rw [List.length_singleton]
      simp only [longestNop] at hrest ⊢
      omega

end SledRun

/-- Each form is read as one instruction that does nothing. From the third form on it
    names an operand, which has no use but to take up room. -/
theorem reads_nop (h : 0 < left) :
    ∃ arguments, Reads readInstruction (nop left) (.plain .nop, arguments) := by
  -- The fields of a form say what follows them, so each form is read to its end.
  match left with
  | 1 | 2 => exact ⟨[], fun _ => rfl⟩
  | 3 | 4 | 7 => exact ⟨[.memory .dword ⟨some .eax, none, 0⟩], fun _ => rfl⟩
  | 5 | _ + 8 => exact ⟨[.memory .dword ⟨some .eax, some (.eax, .one), 0⟩], fun _ => rfl⟩
  | 6 => exact ⟨[.memory .word ⟨some .eax, some (.eax, .one), 0⟩], fun _ => rfl⟩

/-- The rounds are listed with a line for each, which does nothing and ends where the
    round did. The induction is on the rounds; the position is that of the next form. -/
theorem SledRun.listing_flatten (h : SledRun count forms) (position : Address) :
    ∃ lines, (∀ line ∈ lines, line.mnemonic = .plain .nop) ∧
      lines.map Line.length = forms.map List.length ∧
      ∀ rest, listing forms.length position (forms.flatten ++ rest) = some (lines, rest) := by
  induction h generalizing position with
  | stop => exact ⟨[], List.forall_mem_nil _, rfl, fun _ => rfl⟩
  | @round left forms more fits next ih =>
      rcases reads_nop more with ⟨arguments, hreads⟩
      let line : Line := ⟨position, (nop left).length, .plain .nop, arguments⟩
      rcases ih line.next with ⟨lines, hidle, hlengths, hlisting⟩
      refine ⟨line :: lines, List.forall_mem_cons.mpr ⟨rfl, hidle⟩, ?_, fun rest => ?_⟩
      · rw [List.map_cons, List.map_cons, hlengths]
      · have hline := readLine_of_reads hreads position (forms.flatten ++ rest)
        simp only [List.length_cons, List.flatten_cons, List.append_assoc, listing, hline,
          hlisting, line, bind, pure, Option.bind]

/-- Lines as long as the forms of a run are in the number and of the lengths of a sled. -/
theorem SledRun.idleLines (h : SledRun count forms) {lines : List Line}
    (hidle : ∀ line ∈ lines, line.mnemonic = .plain .nop)
    (hlengths : lines.map Line.length = forms.map List.length) : IdleLines count lines := by
  have hnumber : lines.length = count ⌈/⌉ longestNop := by
    rw [← h.length_eq, ← List.length_map (f := Line.length), hlengths, List.length_map]
  refine ⟨hnumber, hidle, fun line hline => ?_, fun line hline => ?_⟩
  · have hmem := List.mem_map_of_mem (f := Line.length) hline
    rw [hlengths] at hmem
    rcases List.mem_map.mp hmem with ⟨form, hform, hlength⟩
    rw [← hlength]
    exact h.length_of_mem form hform
  · -- As many lines are taken as there are full rounds.
    have hmem := List.mem_map_of_mem (f := Line.length) hline
    rw [List.map_take, hlengths, h.map_length, List.take_left' List.length_replicate] at hmem
    exact List.eq_of_mem_replicate hmem

/-- A sled of any number of bytes is filled without ever counting below zero, is exactly
    as long as asked, and cannot fail. Whatever follows it, it is listed with as many
    lines as there are rounds, each of which does nothing and ends where the round
    did. -/
theorem Writer.push_nopSled (w : Writer) (count : Nat) (position : Address) :
    (∀ forms, SledRun count forms ↔ forms = sledForms count) ∧
      w.push (.nopSled count) = (w.append (sledForms count).flatten, none) ∧
      (sledForms count).flatten.length = count ∧
      ∃ lines, IdleLines count lines ∧
        lines.map Line.length = (sledForms count).map List.length ∧
        ∀ rest, listing (count ⌈/⌉ longestNop) position ((sledForms count).flatten ++ rest) =
          some (lines, rest) := by
  have hrun : SledRun count (sledForms count) := sledRun_iff.mpr rfl
  rcases hrun.listing_flatten position with ⟨lines, hidle, hlengths, hlisting⟩
  -- As many lines are asked for as there are rounds.
  rw [hrun.length_eq] at hlisting
  have hpush : w.push (.nopSled count) = (w.append (sledForms count).flatten, none) :=
    Writer.push_of_ok rfl
  exact ⟨fun _ => sledRun_iff, hpush, hrun.length_flatten, lines, hrun.idleLines hidle hlengths,
    hlengths, hlisting⟩

end Hotpatch
