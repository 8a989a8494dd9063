import Hotpatch.Program
import Hotpatch.Proofs.Disassembly.Forms

/-!
# What a Branch Can Reach

A displacement is 32 bits wide, so there is at most one that leads from a branch
to a target: two of them differ where they arrive already in the low 32 bits. One
exists if the target is within two gigabytes either way, around the end of the
address space too, or if branch and target both lie in the first four gigabytes,
where code wraps. These are all the branches there are. Each of them is encoded
with its displacement, and each other one is refused with both ends named, except
in a sizing pass, which only wants the length.

## Main definitions

* `Near`: A target that a displacement leads to in all bits of the address.
* `BothLow`: Two addresses of the first four gigabytes.

## Theorems

* `Reaches.unique`: At most one displacement leads to a target.
* `displacement32_eq_some_iff`: The displacement is the one that leads there.
* `exists_reaches_iff`: Which targets can be reached.
* `branch_reach`: A branch reaches its target exactly if it can, and is refused
  otherwise.
-/

namespace Hotpatch

variable {next target : Address} {d : Int32}

/-- A target that a displacement leads to in all bits of the address. -/
def Near (next target : Address) : Prop :=
  ∃ d, destination next d = target

/-- Two addresses of the first four gigabytes, where code wraps. -/
def BothLow (next target : Address) : Prop :=
  next.toNat < codeSpace ∧ target.toNat < codeSpace

/-- At most one displacement leads to a target. -/
theorem Reaches.unique {d' : Int32} (h : Reaches next d target) (h' : Reaches next d' target) :
    d = d' := by
  -- The low half of where a branch arrives is the low half of where it ends, moved by `d`.
  have hlow : ∀ d : Int32, (destination next d).toUInt32 = next.toUInt32 + d.toUInt32 := fun d => by
    rw [destination, UInt64.toUInt32_add, ← toUInt32_ofInt_toInt32 d.toUInt32]
    rfl
  have hsame := h.1.trans h'.1.symm
  rw [hlow, hlow] at hsame
  exact congrArg UInt32.toInt32 ((UInt32.add_right_inj _).mp hsame)

/-- A displacement is found for where it leads. -/
theorem displacement32_destination (next : Address) (d : Int32) :
    displacement32 next (destination next d) = some d := by
  have hlow : -0x80000000 ≤ d.toInt := d.le_toInt
  have hhigh : d.toInt < 0x80000000 := d.toInt_lt
  -- The distance is `d` again when it is read as a signed number.
  have hsigned : (UInt64.ofInt d.toInt).toInt64.toInt =
      ((UInt64.ofInt d.toInt).toNat : Int).bmod 18446744073709551616 :=
    BitVec.toInt_eq_toNat_bmod (UInt64.ofInt d.toInt).toBitVec
  have hdistance : (destination next d - next).toInt64.toInt = d.toInt := by
    rw [destination, UInt64.add_comm, UInt64.add_sub_cancel, hsigned, UInt64.ofInt,
      UInt64.toNat_ofNat', Int.bmod]
    omega
  simp only [displacement32, hdistance]
  rw [if_pos ⟨hlow, hhigh⟩, Int32.ofInt_toInt]

/-- Two low addresses always reach each other. -/
theorem displacement32_of_bothLow (h : BothLow next target) :
    ∃ d, displacement32 next target = some d := by
  unfold displacement32
  dsimp only
  split
  · exact ⟨_, rfl⟩
  · exact ⟨_, if_pos h⟩

/-- The displacement is the one that leads to the target. -/
theorem displacement32_eq_some_iff :
    displacement32 next target = some d ↔ Reaches next d target := by
  refine ⟨reaches_of_displacement32, fun h => ?_⟩
  by_cases hlow : BothLow next target
  · rcases displacement32_of_bothLow hlow with ⟨d', hd'⟩
    rw [hd', h.unique (reaches_of_displacement32 hd')]
  · -- Outside of low memory a branch arrives in all bits.
    have hexact : destination next d = target := h.2 (by unfold BothLow at hlow; omega)
    rw [← hexact, displacement32_destination]

/-- Near targets can be reached, and low ones from low addresses, and no others. -/
theorem exists_reaches_iff :
    (∃ d, Reaches next d target) ↔ Near next target ∨ BothLow next target := by
  constructor
  · rintro ⟨d, -, hexact⟩
    by_cases hlow : BothLow next target
    · exact .inr hlow
    · exact .inl ⟨d, hexact (by unfold BothLow at hlow; omega)⟩
  · rintro (⟨d, rfl⟩ | hlow)
    · exact ⟨d, displacement32_eq_some_iff.mp (displacement32_destination next d)⟩
    · rcases displacement32_of_bothLow hlow with ⟨d, hd⟩
      exact ⟨d, reaches_of_displacement32 hd⟩

/-- A near target is reached in all bits of the address. -/
theorem Reaches.exact_of_near (h : Reaches next d target) (hnear : Near next target) :
    destination next d = target := by
  rcases hnear with ⟨d', rfl⟩
  rw [h.unique (displacement32_eq_some_iff.mp (displacement32_destination next d'))]

namespace Branch

variable {kind : Branch} {position : Address}

/-- A branch that can reach its target is encoded, in any pass. -/
theorem encode_of_reaches (h : Reaches (position + UInt64.ofNat size) d target) (sizing : Bool) :
    kind.encode target position sizing = .ok (kind.opcode :: littleEndian 4 d.toInt) := by
  simp only [encode, displacement32_eq_some_iff.mpr h]

/-- A branch that cannot reach its target is refused, except in a sizing pass. -/
theorem encode_of_unreachable (h : ∀ d, ¬ Reaches (position + UInt64.ofNat size) d target) :
    kind.encode target position false = .error (.targetOutOfReach position target) := by
  have hnone : displacement32 (position + UInt64.ofNat size) target = none :=
    Option.eq_none_iff_forall_ne_some.mpr fun d hd => h d (displacement32_eq_some_iff.mp hd)
  simp only [encode, hnone]
  rfl

end Branch

/-- There is a displacement exactly for the targets that can be reached, and it leads
    there. A writer puts it behind the opcode, counted from the end of the branch, and
    refuses a branch without one unless it is for sizing. -/
theorem branch_reach :
    (∀ next target : Address,
      ((∃ d, displacement32 next target = some d) ↔ Near next target ∨ BothLow next target) ∧
        ∀ d, displacement32 next target = some d → Reaches next d target) ∧
    ∀ (w : Writer) (kind : Branch) (target : Address),
      if w.sizing then
        ∃ bytes, bytes.length = Branch.size ∧ w.push (.branch kind target) = (w.append bytes, none)
      else
        (∀ d, Reaches (w.position + UInt64.ofNat Branch.size) d target →
          w.push (.branch kind target) =
            (w.append (kind.opcode :: littleEndian 4 d.toInt), none)) ∧
        ((∀ d, ¬ Reaches (w.position + UInt64.ofNat Branch.size) d target) →
          w.push (.branch kind target) = (w, some (.targetOutOfReach w.position target))) := by
  refine ⟨fun next target => ⟨?_, fun d => reaches_of_displacement32⟩, fun w kind target => ?_⟩
  · simp only [displacement32_eq_some_iff]
    exact exists_reaches_iff
  · rcases w with ⟨origin, _ | _, bytes⟩
    · refine ⟨fun d hd => ?_, fun hnone => ?_⟩
      · exact Writer.push_of_ok (Branch.encode_of_reaches hd false)
      · exact Writer.push_of_error (Branch.encode_of_unreachable hnone)
    · -- A sizing pass writes some displacement, but always as many bytes.
      rcases kind.encode_sizing target (Writer.mk origin true bytes).position with
        ⟨code, hcode, hlength⟩
      exact ⟨code, hlength, Writer.push_of_ok hcode⟩

/-- The last byte that is within reach, and the first that is not. -/
example : displacement32 0x100000000 0x17FFFFFFF = some 0x7FFFFFFF ∧
    displacement32 0x100000000 0x180000000 = none := by decide

end Hotpatch
