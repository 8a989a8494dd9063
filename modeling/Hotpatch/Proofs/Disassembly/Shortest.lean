import Hotpatch.Proofs.Disassembly.Addressing
import Hotpatch.Proofs.Encoding.Acceptance

/-!
# The Shortest Form Of An Operand

An operand in memory can be named in several ways. A displacement of a byte can be
written as four, a base without an index can be written with a SIB byte that holds no
index, and a fixed address with one that holds no base either. The encoder takes the
shortest way.

That nothing shorter exists is said of what is read, and not of what is written. For an
operand there is a least number of bytes, found from its parts alone: the ModR/M byte,
a SIB byte if there is an index or the base is `esp`, and the displacement in the
smallest mode that the base allows. No bytes that are read as the operand are fewer,
whoever wrote them, and the encoder writes exactly as many.

## Main definitions

* `EffectiveAddress.leastLength`: The number of bytes that an operand needs.
* `EffectiveAddress.ShortestForm`: Bytes that name an operand, and no fewer do.

## Theorems

* `unsigned_length`, `signedByte_range`: What a number that was read says of its bytes.
* `leastLength_readPlace`: Bytes that are read as an operand are enough.
* `length_encode`: The encoder takes no more than it needs.
* `emit_shortest`: What is appended to a buffer for an operand.
-/

namespace Hotpatch

namespace Mode

/-- The bytes of displacement that an addressing mode calls for. -/
def displacementLength : Mode → Nat
  | plain | direct => 0
  | short => 1
  | long => 4

end Mode

theorem unsigned_length {count n : Nat} {bytes rest : List UInt8}
    (h : unsigned count bytes = some (n, rest)) : bytes.length = count + rest.length := by
  induction count generalizing n bytes with
  | zero =>
      rw [unsigned, Option.some.injEq, Prod.mk.injEq] at h
      rw [h.2, Nat.zero_add]
  | succ count ih =>
      cases bytes with
      | nil => exact absurd h.symm (Option.some_ne_none _)
      | cons b bytes =>
          rcases Option.bind_eq_some_iff.mp h with ⟨⟨high, rest'⟩, hread, hpair⟩
          rcases Prod.mk.inj (Option.some.inj hpair) with ⟨-, rfl⟩
          rw [List.length_cons, ih hread]
          omega

/-- A value that was read through a function is the function of one that was read. -/
theorem Reader.map_eq_some {α β : Type} {f : α → β} {r : Reader α} {bytes rest : List UInt8}
    {b : β} (h : r.map f bytes = some (b, rest)) : ∃ a, r bytes = some (a, rest) ∧ f a = b := by
  rcases Option.map_eq_some_iff.mp h with ⟨⟨a, rest'⟩, hread, hpair⟩
  rcases Prod.mk.inj hpair with ⟨hvalue, rfl⟩
  exact ⟨a, hread, hvalue⟩

/-- A byte that is extended by its sign is a small number. -/
theorem signedByte_range {d : Int32} {bytes rest : List UInt8}
    (h : signedByte bytes = some (d, rest)) :
    (-128 ≤ d ∧ d ≤ 127) ∧ bytes.length = 1 + rest.length := by
  rcases Reader.map_eq_some h with ⟨n, hread, rfl⟩
  refine ⟨?_, unsigned_length hread⟩
  -- The order of the dwords is that of the numbers they stand for.
  have hlow : -128 ≤ (UInt8.ofNat n).toInt8.toInt := Int8.le_toInt _
  have hhigh : (UInt8.ofNat n).toInt8.toInt < 128 := Int8.toInt_lt _
  have hfirst : (-128 : Int32).toInt = -128 := rfl
  have hlast : (127 : Int32).toInt = 127 := rfl
  rw [Int32.le_iff_toInt_le, Int32.le_iff_toInt_le, Int8.toInt_toInt32]
  omega

theorem signedDword_length {d : Int32} {bytes rest : List UInt8}
    (h : signedDword bytes = some (d, rest)) : bytes.length = 4 + rest.length := by
  rcases Reader.map_eq_some h with ⟨n, hread, -⟩
  exact unsigned_length hread

/-- A field that is read as a register is its number. Only the last register stands for
    larger fields as well. -/
theorem Register.eq_number_of_ofField {r : Register .dword} (hr : r ≠ .edi) :
    ∀ {n : Nat}, Register.ofField .dword n = r → n = r.number.toNat
  | 0, h | 1, h | 2, h | 3, h | 4, h | 5, h | 6, h => h ▸ rfl
  | _ + 7, h => absurd h.symm hr

namespace EffectiveAddress

/-- The number of bytes that an operand needs for its displacement: four without a base,
    and else as many as the smallest mode takes that the base allows. -/
def leastDisplacement (a : EffectiveAddress) : Nat :=
  match a.base with
  | none => 4
  | some base => (mode base a.displacement).displacementLength

/-- The number of bytes that an operand needs: a ModR/M byte, a SIB byte if there is an
    index or the base is `esp`, and the displacement. -/
def leastLength (a : EffectiveAddress) : Nat :=
  1 + (if a.index.isSome ∨ a.base = some .esp then 1 else 0) + a.leastDisplacement

/-- Bytes that are read as an operand beside a `reg` field, whatever follows them, and
    no fewer are. -/
structure ShortestForm (bytes : List UInt8) (reg : Nat) (a : EffectiveAddress) : Prop where
  read : ∀ rest, readPlace (bytes ++ rest) = some ((reg, .memory a), rest)
  least : ∀ other rest, readPlace (other ++ rest) = some ((reg, .memory a), rest) →
    bytes.length ≤ other.length

variable {m : Mode} {base : Register .dword} {d : Int32} {bytes rest : List UInt8}
  {a : EffectiveAddress}

/-- A SIB byte is needed for an index, and for a base of `esp`. -/
theorem leastLength_of_sib (h : a.index.isSome ∨ a.base = some .esp) :
    a.leastLength = a.leastDisplacement + 2 := by
  rw [leastLength, if_pos h, Nat.add_comm]

/-- No SIB byte is needed for other operands. -/
theorem leastLength_of_unindexed (hindex : a.index = none) (hbase : a.base ≠ some .esp) :
    a.leastLength = a.leastDisplacement + 1 := by
  have hneeded : ¬ (a.index.isSome ∨ a.base = some .esp) := by
    rw [hindex]
    exact not_or_intro Bool.false_ne_true hbase
  rw [leastLength, if_neg hneeded, Nat.add_zero, Nat.add_comm]

theorem leastLength_le (a : EffectiveAddress) : a.leastLength ≤ a.leastDisplacement + 2 := by
  unfold leastLength
  split <;> omega

/-- The mode that the encoder chooses for a displacement takes no more bytes than any
    other that gives the displacement. A base of `ebp` has no mode without one. -/
theorem mode_least (hdirect : m ≠ .direct) (hbase : base = .ebp → m ≠ .plain)
    (h : readDisplacement m bytes = some (d, rest)) :
    (mode base d).displacementLength + rest.length ≤ bytes.length := by
  cases m with
  | direct => exact absurd rfl hdirect
  | plain =>
      -- No displacement was read, so it is zero, and none is written.
      rcases Prod.mk.inj (Option.some.inj h) with ⟨rfl, rfl⟩
      have hplain : mode base 0 = .plain := if_pos ⟨rfl, fun hebp => hbase hebp rfl⟩
      rw [hplain]
      exact Nat.le_of_eq (Nat.zero_add bytes.length)
  | short =>
      -- A displacement of one byte is one that the encoder writes in one, or in none.
      rcases signedByte_range h with ⟨hrange, hlength⟩
      have hshort : (mode base d).displacementLength ≤ 1 := by
        unfold mode
        rw [if_pos hrange]
        split <;> decide
      omega
  | long =>
      have hlength := signedDword_length h
      -- No mode calls for more than four bytes.
      have hlong : (mode base d).displacementLength ≤ 4 := by cases mode base d <;> decide
      omega

theorem leastLength_readScaled (hdirect : m ≠ .direct)
    (h : readScaled m bytes = some (a, rest)) :
    a.leastLength + rest.length ≤ 1 + bytes.length := by
  refine Nat.le_trans (Nat.add_le_add_right a.leastLength_le _) ?_
  cases bytes with
  | nil => exact absurd h.symm (Option.some_ne_none _)
  | cons b bytes =>
      simp only [readScaled] at h
      rw [List.length_cons]
      by_cases hnone : lowField b = 5 ∧ m = .plain
      · -- Without a base there are always four bytes of displacement.
        rw [if_pos hnone] at h
        rcases Reader.map_eq_some h with ⟨d, hread, rfl⟩
        have hlength := signedDword_length hread
        change 4 + 2 + rest.length ≤ _
        omega
      · rw [if_neg hnone] at h
        rcases Reader.map_eq_some h with ⟨d, hread, rfl⟩
        -- A base of `ebp` would be no base in this mode.
        have hlength := mode_least hdirect
          (fun hebp hplain => hnone ⟨Register.eq_number_of_ofField (by decide) hebp, hplain⟩) hread
        change (mode _ d).displacementLength + 2 + rest.length ≤ _
        omega

theorem leastLength_readMemory {rm : Nat} (hdirect : m ≠ .direct)
    (h : readMemory m rm bytes = some (a, rest)) :
    a.leastLength + rest.length ≤ 1 + bytes.length := by
  simp only [readMemory] at h
  by_cases hscaled : rm = 4
  · rw [if_pos hscaled] at h
    exact leastLength_readScaled hdirect h
  · -- There is no SIB byte, so there is no index and the base is not `esp`.
    rw [if_neg hscaled] at h
    by_cases hnone : rm = 5 ∧ m = .plain
    · rw [if_pos hnone] at h
      rcases Reader.map_eq_some h with ⟨d, hread, rfl⟩
      have hlength := signedDword_length hread
      rw [leastLength_of_unindexed rfl (Option.some_ne_none _).symm]
      change 4 + 1 + rest.length ≤ _
      omega
    · rw [if_neg hnone] at h
      rcases Reader.map_eq_some h with ⟨d, hread, rfl⟩
      have hlength := mode_least hdirect
        (fun hebp hplain => hnone ⟨Register.eq_number_of_ofField (by decide) hebp, hplain⟩) hread
      have hbase : some (Register.ofField .dword rm) ≠ some .esp :=
        fun hesp => hscaled (Register.eq_number_of_ofField (by decide) (Option.some.inj hesp))
      rw [leastLength_of_unindexed rfl hbase]
      change (mode _ d).displacementLength + 1 + rest.length ≤ _
      omega

/-- Bytes that are read as an operand are enough of them. -/
theorem leastLength_readPlace {reg : Nat} (h : readPlace bytes = some ((reg, .memory a), rest)) :
    a.leastLength + rest.length ≤ bytes.length := by
  cases bytes with
  | nil => exact absurd h.symm (Option.some_ne_none _)
  | cons b bytes =>
      rw [List.length_cons, Nat.add_comm bytes.length]
      simp only [readPlace] at h
      split at h
      · -- A register was read.
        exact Slot.noConfusion (congrArg (fun read => read.1.2) (Option.some.inj h))
      · next m hdirect =>
          rcases Reader.map_eq_some h with ⟨read, hread, hpair⟩
          rcases Slot.memory.inj (Prod.mk.inj hpair).2 with rfl
          exact leastLength_readMemory hdirect hread

theorem length_displacementBytes (d : Int32) (m : Mode) :
    (displacementBytes d m).length = m.displacementLength := by
  cases m with
  | plain | direct => rfl
  | short => exact length_littleEndian 1 d.toInt
  | long => exact length_littleEndian 4 d.toInt

/-- The encoder takes no more bytes than it needs. -/
theorem length_encode {reg : BitVec 3} (h : a.encode reg = .ok bytes) :
    bytes.length = a.leastLength := by
  rcases a with ⟨base, index, d⟩
  -- One case for each form that the encoder knows.
  unfold encode at h
  simp only at h
  split at h
  · exact absurd h nofun
  all_goals rw [← Except.ok.inj h]
  · exact congrArg (· + 1) (length_littleEndian 4 d.toInt)
  · rw [leastLength_of_sib (.inl rfl)]
    exact congrArg (· + 2) (length_littleEndian 4 d.toInt)
  · rw [leastLength_of_sib (.inr rfl)]
    exact congrArg (· + 2) (length_displacementBytes d _)
  · next base hbase =>
      rw [leastLength_of_unindexed rfl fun hesp => hbase (Option.some.inj hesp)]
      exact congrArg (· + 1) (length_displacementBytes d _)
  · rw [leastLength_of_sib (.inl rfl)]
    exact congrArg (· + 2) (length_displacementBytes d _)

theorem encode_of_esp {scale : Scale} (h : a.index = some (.esp, scale)) (reg : BitVec 3) :
    a.encode reg = .error (.badOperand a.text "esp cannot be used as an index") := by
  rcases a with ⟨base, index, d⟩
  subst h
  rcases base with _ | base
  · rfl
  · cases base <;> rfl

/-- For an operand the shortest bytes are appended that are read as it, beside the field
    that was asked for. An index of `esp` is refused, and then nothing is appended. -/
theorem emit_shortest (a : EffectiveAddress) (buffer : List UInt8) (regField : UInt8) :
    match a.index with
    | some (.esp, _) => a.emit buffer regField =
        (buffer, some (.badOperand a.text "esp cannot be used as an index"))
    | _ => ∃ bytes, a.emit buffer regField = (buffer ++ bytes, none) ∧
        ShortestForm bytes (regField.toNat % 8) a := by
  have hfield : (BitVec.ofNat 3 regField.toNat).toNat = regField.toNat % 8 :=
    BitVec.toNat_ofNat _ _
  split
  · next scale hindex => rw [emit, encode_of_esp hindex]
  · next hindex =>
      cases hencode : a.encode (BitVec.ofNat 3 regField.toNat) with
      | error fault =>
          -- Nothing else is ever refused.
          rcases (a.encode_fails_iff _).mp ⟨fault, hencode⟩ with ⟨scale, hesp⟩
          exact absurd hesp (hindex scale)
      | ok bytes =>
          have hemit : a.emit buffer regField = (buffer ++ bytes, none) := by
            rw [emit, hencode]
          refine ⟨bytes, hemit, fun rest => ?_, fun other rest hread => ?_⟩
          · rw [readPlace_address hencode, hfield]
          · have hleast := leastLength_readPlace hread
            rw [length_encode hencode]
            rw [List.length_append] at hleast
            omega

end EffectiveAddress

end Hotpatch
