import Hotpatch.Proofs.Disassembly.Decoder

/-!
# Reading Operands Back

The parts of an instruction after its opcode, each written and then read: the
fields of a byte, numbers, registers, and operands in memory. Every statement
has some bytes after those that were written and says that these are left, so
that the parts can be put together.

An effective address has one byte form and is read back as itself. That rests on
the three exceptions of the form being the same in both directions: `esp` as a
base escapes to a SIB byte, `ebp` as a base has no form without a displacement,
and `esp` as an index is no index.

## Theorems

* `toNat_packFields`: The number that a byte of three fields is.
* `unsigned_immediate`: An immediate is read as its reduction to its width.
* `signedByte_littleEndian`, `signedDword_littleEndian`: Displacements.
* `Register.ofField_code`: A register is the one of its number.
* `readPlace_address`: An effective address is read back.
* `readPlace_encode`: A place is read back beside its `reg` field.
-/

namespace Hotpatch

theorem toNat_packFields (high : BitVec 2) (middle low : BitVec 3) :
    (packFields high middle low).toNat = high.toNat * 64 + middle.toNat * 8 + low.toNat := by
  have hh : high.toNat < 4 := high.isLt
  have hm : middle.toNat < 8 := middle.isLt
  have hl : low.toNat < 8 := low.isLt
  -- The largest sum is 255, so nothing is cut off.
  rw [packFields, UInt8.toNat_ofNat']
  omega

@[simp]
theorem highField_packFields (high : BitVec 2) (middle low : BitVec 3) :
    highField (packFields high middle low) = high.toNat := by
  have hm : middle.toNat < 8 := middle.isLt
  have hl : low.toNat < 8 := low.isLt
  rw [highField, toNat_packFields]
  omega

@[simp]
theorem middleField_packFields (high : BitVec 2) (middle low : BitVec 3) :
    middleField (packFields high middle low) = middle.toNat := by
  have hm : middle.toNat < 8 := middle.isLt
  have hl : low.toNat < 8 := low.isLt
  rw [middleField, toNat_packFields]
  omega

@[simp]
theorem lowField_packFields (high : BitVec 2) (middle low : BitVec 3) :
    lowField (packFields high middle low) = low.toNat := by
  have hl : low.toNat < 8 := low.isLt
  rw [lowField, toNat_packFields]
  omega

@[simp]
theorem Mode.ofField_field (m : Mode) : Mode.ofField m.field.toNat = m := by
  cases m <;> rfl

@[simp]
theorem Scale.ofField_field (s : Scale) : Scale.ofField s.field.toNat = s := by
  cases s <;> rfl

@[simp]
theorem Register.ofField_number (r : Register .dword) :
    Register.ofField .dword r.number.toNat = r := by
  cases r <;> rfl

/-- A register is the one of its number. The sentinels have no number, so there
    is nothing to say about them. -/
theorem Register.ofField_code {w : Width} {r : Register w} {code : BitVec 3}
    (h : r.code = .ok code) : Register.ofField w code.toNat = r := by
  -- The cases of the sentinels are closed here, with the numbers of the others found.
  cases r <;>
    simp only [Register.code, Except.ok.injEq, reduceCtorEq] at h <;>
    rw [← h] <;> rfl

theorem unsigned_immediate (w : Width) (value : Int) (rest : List UInt8) :
    unsigned w.bytes (w.immediate value ++ rest) = some (w.reduce value, rest) := by
  -- For each width the bytes are the digits of the value to the base of 256.
  cases w <;>
    simp only [Width.bytes, Width.immediate, littleEndian, List.cons_append, List.nil_append,
      unsigned, bind, pure, Option.bind, Width.reduce, Width.modulus, Option.some.injEq,
      Prod.mk.injEq, and_true, UInt8.toNat_ofNat'] <;>
    omega

@[simp]
theorem readImmediate_immediate (w : Width) (value : Int) (rest : List UInt8) :
    readImmediate w (w.immediate value ++ rest) =
      some (.immediate w (w.reduce value), rest) := by
  simp only [readImmediate, Reader.map, unsigned_immediate, Option.map_some]

/-- A number between -128 and 127 is read back from its low byte. -/
theorem signedByte_littleEndian {n : Int} (h : -128 ≤ n ∧ n ≤ 127) (rest : List UInt8) :
    signedByte (littleEndian 1 n ++ rest) = some (Int32.ofInt n, rest) := by
  have hread : unsigned 1 (littleEndian 1 n ++ rest) = some (Width.byte.reduce n, rest) :=
    unsigned_immediate .byte n rest
  have hvalue : (UInt8.ofNat (Width.byte.reduce n)).toInt8.toInt32 = Int32.ofInt n := by
    -- As integers, both sides are the balanced remainder of `n`.
    apply Int32.toInt_inj.mp
    rw [Int8.toInt_toInt32, UInt8.toInt8_ofNat', Int8.toInt_ofNat', Int32.toInt_ofInt]
    simp only [Width.reduce, Width.modulus, Int8.size, Int32.size, Int.bmod]
    omega
  simp only [signedByte, Reader.map, hread, Option.map_some, hvalue]

theorem signedDword_littleEndian (d : Int32) (rest : List UInt8) :
    signedDword (littleEndian 4 d.toInt ++ rest) = some (d, rest) := by
  have hread : unsigned 4 (littleEndian 4 d.toInt ++ rest) =
      some (Width.dword.reduce d.toInt, rest) :=
    unsigned_immediate .dword d.toInt rest
  have hvalue : (UInt32.ofNat (Width.dword.reduce d.toInt)).toInt32 = d := by
    have hlow : -2147483648 ≤ d.toInt := d.le_toInt
    have hhigh : d.toInt < 2147483648 := d.toInt_lt
    apply Int32.toInt_inj.mp
    rw [UInt32.toInt32_ofNat', Int32.toInt_ofNat']
    simp only [Width.reduce, Width.modulus, Int32.size, Int.bmod]
    omega
  simp only [signedDword, Reader.map, hread, Option.map_some, hvalue]

namespace EffectiveAddress

/-- The bytes of a displacement beside a base are read as the displacement. -/
theorem readDisplacement_displacementBytes (base : Register .dword) (d : Int32)
    (rest : List UInt8) :
    readDisplacement (mode base d) (displacementBytes d (mode base d) ++ rest) =
      some (d, rest) := by
  -- The cases are those in which the mode was chosen.
  unfold mode
  by_cases hplain : d = 0 ∧ base ≠ .ebp
  · rw [if_pos hplain, hplain.1]
    rfl
  · rw [if_neg hplain]
    by_cases hshort : -128 ≤ d ∧ d ≤ 127
    · -- A displacement that fits a byte is extended by its sign to what it was.
      rw [if_pos hshort]
      have hbyte : -128 ≤ d.toInt ∧ d.toInt ≤ 127 :=
        ⟨Int32.le_iff_toInt_le.mp hshort.1, Int32.le_iff_toInt_le.mp hshort.2⟩
      have hread := signedByte_littleEndian hbyte rest
      rw [Int32.ofInt_toInt] at hread
      exact hread
    · rw [if_neg hshort]
      exact signedDword_littleEndian d rest

/-- A base with its own mode is never taken for the absence of a base: the only
    base that could be has no mode without a displacement. -/
theorem not_baseless (base : Register .dword) (d : Int32) :
    ¬ (base.number.toNat = 5 ∧ mode base d = .plain) := by
  intro h
  -- Number five is `ebp`, and `ebp` always has a displacement.
  have hbase : base = .ebp := by
    rw [← Register.ofField_number base, h.1]
    rfl
  have hmode := h.2
  unfold mode at hmode
  rw [if_neg (fun hp => hp.2 hbase)] at hmode
  split at hmode <;> exact absurd hmode (by simp only [reduceCtorEq, not_false_eq_true])

theorem mode_ne_direct (base : Register .dword) (d : Int32) : mode base d ≠ .direct := by
  unfold mode
  split
  · simp only [ne_eq, reduceCtorEq, not_false_eq_true]
  · split <;> simp only [ne_eq, reduceCtorEq, not_false_eq_true]

end EffectiveAddress

theorem Register.number_ne_four {r : Register .dword} (h : r ≠ .esp) : r.number.toNat ≠ 4 := by
  intro hr
  apply h
  -- A register is determined by its number.
  rw [← Register.ofField_number r, hr]
  rfl

theorem readScaled_based {base index : Register .dword} (hindex : index ≠ .esp) (scale : Scale)
    (d : Int32) (rest : List UInt8) :
    readScaled (EffectiveAddress.mode base d)
        (sib scale.field index.number base.number ::
          (EffectiveAddress.displacementBytes d (EffectiveAddress.mode base d) ++ rest)) =
      some (⟨some base, some (index, scale), d⟩, rest) := by
  simp only [readScaled, sib, highField_packFields, middleField_packFields,
    lowField_packFields, if_neg (Register.number_ne_four hindex),
    if_neg (EffectiveAddress.not_baseless base d), Reader.map, Option.map_some,
    EffectiveAddress.readDisplacement_displacementBytes, Register.ofField_number,
    Scale.ofField_field]

theorem readScaled_baseless {index : Register .dword} (hindex : index ≠ .esp) (scale : Scale)
    (d : Int32) (rest : List UInt8) :
    readScaled .plain
        (sib scale.field index.number 5#3 :: (littleEndian 4 d.toInt ++ rest)) =
      some (⟨none, some (index, scale), d⟩, rest) := by
  simp only [readScaled, sib, highField_packFields, middleField_packFields,
    lowField_packFields, if_neg (Register.number_ne_four hindex), BitVec.reduceToNat,
    and_self, if_true, Reader.map, signedDword_littleEndian, Option.map_some,
    Register.ofField_number, Scale.ofField_field]

/-- The SIB byte that `esp` needs as a base holds no index. -/
theorem readScaled_esp (d : Int32) (rest : List UInt8) :
    readScaled (EffectiveAddress.mode .esp d)
        (sib 0#2 4#3 4#3 ::
          (EffectiveAddress.displacementBytes d (EffectiveAddress.mode .esp d) ++ rest)) =
      some (⟨some .esp, none, d⟩, rest) := by
  have hbase : Register.ofField .dword 4 = .esp := rfl
  simp only [readScaled, sib, middleField_packFields, lowField_packFields,
    BitVec.reduceToNat, if_true, Nat.reduceEqDiff, false_and, if_false, Reader.map,
    EffectiveAddress.readDisplacement_displacementBytes, Option.map_some, hbase]

theorem readMemory_base {base : Register .dword} (hbase : base ≠ .esp) (d : Int32)
    (rest : List UInt8) :
    readMemory (EffectiveAddress.mode base d) base.number.toNat
        (EffectiveAddress.displacementBytes d (EffectiveAddress.mode base d) ++ rest) =
      some (⟨some base, none, d⟩, rest) := by
  simp only [readMemory, if_neg (Register.number_ne_four hbase),
    if_neg (EffectiveAddress.not_baseless base d), Reader.map,
    EffectiveAddress.readDisplacement_displacementBytes, Option.map_some,
    Register.ofField_number]

theorem readMemory_fixed (d : Int32) (rest : List UInt8) :
    readMemory .plain 5 (littleEndian 4 d.toInt ++ rest) = some (⟨none, none, d⟩, rest) := by
  simp only [readMemory, Nat.reduceEqDiff, if_false, and_self, if_true, Reader.map,
    signedDword_littleEndian, Option.map_some]

/-- A ModR/M byte that calls for memory is read with the operand after it. -/
theorem readPlace_modRM {m : Mode} (hm : m ≠ .direct) {reg rm : BitVec 3}
    {bytes rest : List UInt8} {a : EffectiveAddress}
    (h : readMemory m rm.toNat bytes = some (a, rest)) :
    readPlace (modRM m reg rm :: bytes) = some ((reg.toNat, .memory a), rest) := by
  cases m with
  | direct => exact absurd rfl hm
  | plain | short | long =>
      simp only [readPlace, modRM, highField_packFields, middleField_packFields,
        lowField_packFields, Mode.ofField_field, Reader.map, h, Option.map_some]

/-- An effective address is read back as itself, beside the `reg` field. -/
theorem readPlace_address {a : EffectiveAddress} {reg : BitVec 3} {bytes : List UInt8}
    (h : a.encode reg = .ok bytes) (rest : List UInt8) :
    readPlace (bytes ++ rest) = some ((reg.toNat, .memory a), rest) := by
  have hplain : Mode.plain ≠ .direct := by
    simp only [ne_eq, reduceCtorEq, not_false_eq_true]
  rcases a with ⟨base, index, d⟩
  -- One case for each form that the encoder knows.
  unfold EffectiveAddress.encode at h
  simp only at h
  split at h
  · -- An index of `esp` is refused.
    exact absurd h (by simp only [reduceCtorEq, not_false_eq_true])
  all_goals rw [Except.ok.injEq] at h; rw [← h, List.cons_append]
  · exact readPlace_modRM hplain (readMemory_fixed d rest)
  · next index scale hindex =>
      exact readPlace_modRM hplain (readScaled_baseless hindex scale d rest)
  · exact readPlace_modRM (EffectiveAddress.mode_ne_direct _ d) (readScaled_esp d rest)
  · next base hbase =>
      -- The base is not `esp`, which has the form before.
      exact readPlace_modRM (EffectiveAddress.mode_ne_direct _ d) (readMemory_base hbase d rest)
  · next base index scale hindex =>
      exact readPlace_modRM (EffectiveAddress.mode_ne_direct _ d)
        (readScaled_based hindex scale d rest)

theorem readPlace_register (reg code : BitVec 3) (rest : List UInt8) :
    readPlace (modRM .direct reg code :: rest) =
      some ((reg.toNat, .register code.toNat), rest) := by
  simp only [readPlace, modRM, highField_packFields, middleField_packFields,
    lowField_packFields, Mode.ofField_field]

/-- A place is read back beside its `reg` field. -/
theorem readPlace_encode {w : Width} {p : Place w} {a : Argument} {reg : BitVec 3}
    {bytes : List UInt8} (ha : p.argument? = some a) (h : p.encode reg = .ok bytes)
    (rest : List UInt8) :
    ∃ slot, readPlace (bytes ++ rest) = some ((reg.toNat, slot), rest) ∧
      slot.argument w = a := by
  cases p with
  | register r =>
      simp only [Place.argument?, Option.some.injEq] at ha
      simp only [Place.encode] at h
      rcases hr : r.code with fault | code
      · -- A sentinel is refused, so nothing was written.
        rw [hr] at h
        exact absurd h (by simp only [bind, Except.bind, reduceCtorEq, not_false_eq_true])
      · rw [hr] at h
        simp only [bind, Except.bind, pure, Except.pure, Except.ok.injEq] at h
        refine ⟨.register code.toNat, ?_, ?_⟩
        · rw [← h]
          exact readPlace_register reg code rest
        · rw [Slot.argument, Register.ofField_code hr, ha]
  | memory m =>
      cases m with
      | address m =>
          simp only [Place.argument?, Operand.address?, Option.map_some,
            Option.some.injEq] at ha
          exact ⟨.memory m, readPlace_address h rest, ha⟩
      | custom emit =>
          -- An operand of the user's own has no argument.
          exact absurd ha (by simp only [Place.argument?, Operand.address?, Option.map_none,
            reduceCtorEq, not_false_eq_true])

end Hotpatch
