import Hotpatch.Proofs.Memory.Contents
import Hotpatch.Proofs.Stub.Forwarder
import Hotpatch.Proofs.Triple
import Hotpatch.Trampoline

/-!
# Trampolines Forward Calls

The bytes that building a trampoline leaves in memory are the stub of its
direction and number of parameters with the target put in. So what is known of
stubs is known of trampolines.

## Theorems

* `relocate_of_template`: The template of a stub becomes its code.
* `Region.ofBytes_holds`: A region that was made from bytes holds them.
* `Trampoline.build_bridges`: A trampoline forwards calls.
-/

namespace Hotpatch

/-- The template of a stub becomes its code, for every target that fits a
    word. -/
theorem relocate_of_template (d : Direction) {arity : Nat} {target : Address}
    (h : arity ≤ maxArity) (ht : target.toNat < codeSpace) :
    ∃ template, d.template arity = .ok template ∧
      relocate template target = .ok (d.forwarder arity (BitVec.ofNat 32 target.toNat)).code := by
  have hv : (BitVec.ofNat 32 target.toNat).toNat = target.toNat := by
    rw [BitVec.toNat_ofNat]
    exact Nat.mod_eq_of_lt ht
  have hword : addressWord target = some (littleEndian 4 target.toNat) := by
    rw [addressWord, if_pos ht]
    rfl
  rcases d.splice_template h (BitVec.ofNat 32 target.toNat) with ⟨template, htemplate, hsplice⟩
  rw [hv] at hsplice
  refine ⟨template, htemplate, ?_⟩
  simp only [relocate, hword, hsplice]

namespace Region

open Hotpatch.Action

theorem allocate_size (size : Nat) :
    Triple (fun _ => True) (allocate size) (fun r _ => (∃ base, r.base = some base) ∧ r.size = size)
      fun _ _ => True := by
  unfold allocate
  dsimp only
  split
  · exact .fail_bind fun _ _ => trivial
  · refine .bind .trivial fun base => ?_
    refine .bind (.attempt (Q := fun _ _ => True) .trivial) fun result => ?_
    cases result with
    | error fault => exact .bind .trivial fun _ => .fail fun _ _ => trivial
    | ok _ =>
        -- The region is made from the base that was handed out and the size asked for.
        exact .bind_log (.ret fun _ _ => ⟨⟨base, rfl⟩, rfl⟩)

/-- Bytes that are written to the beginning of a live region are read there. -/
theorem write_holds {r : Region} {base : Address} (hbase : r.base = some base)
    (bytes : List UInt8) :
    Triple (fun _ => True) (r.write 0 bytes)
      (fun _ host => host.memory.read r.address.toNat bytes.length = bytes) fun _ _ => True := by
  have haddress : r.address = base := by
    rw [address, hbase, Option.getD_some]
  have hlocate : ∀ a, r.locate 0 bytes.length = .ok a → a = base := by
    intro a ha
    rcases locate_eq_ok.mp ha with ⟨b, hb, -, rfl⟩
    rw [Option.some.inj (hb.symm.trans hbase)]
    exact UInt64.add_zero base
  unfold write
  -- Whatever the length, an access at the beginning is one at the base.
  refine .bind (.ofExcept (Q := fun a _ => a = base) (fun a _ ha _ => hlocate a ha)
    fun _ _ _ _ => trivial) fun a => ?_
  refine .assuming (fun _ h => h) fun ha => ?_
  rw [ha, haddress]
  unfold Host.store
  split
  · exact .fail fun _ _ => trivial
  · exact .modify fun host _ => host.memory.read_write base.toNat bytes

/-- A region that was made from bytes holds them. -/
theorem ofBytes_holds (bytes : List UInt8) :
    Triple (fun _ => True) (ofBytes bytes)
      (fun r host => host.memory.read r.address.toNat r.size = bytes) fun _ _ => True := by
  unfold ofBytes
  refine .bind (allocate_size bytes.length) fun r => ?_
  refine .assuming (fun _ h => h) fun ⟨⟨base, hbase⟩, hsize⟩ => ?_
  refine .bind ((write_holds hbase bytes).before fun _ _ => trivial) fun _ => ?_
  refine .ret fun host hread => ?_
  rw [hsize]
  exact hread

end Region

namespace Trampoline

open Hotpatch.Action

/-- The bytes of a new trampoline are those of its relocated template. -/
theorem build_holds {d : Direction} {arity : Nat} {target : Address}
    {template code : List UInt8} (htemplate : d.template arity = .ok template)
    (hcode : relocate template target = .ok code) :
    Triple (fun _ => True) (build d arity target)
      (fun t host => host.memory.read t.address.toNat t.region.size = code) fun _ _ => True := by
  unfold build
  refine .bind (.ofExcept (Q := fun t _ => t = template) (fun t _ ht _ => ?_)
    fun _ _ _ _ => trivial) fun t => ?_
  · rw [htemplate] at ht
    exact (Except.ok.inj ht).symm
  · refine .assuming (fun _ h => h) fun ht => ?_
    rw [ht]
    dsimp only
    split
    · exact .fail_bind fun _ _ => trivial
    · refine .bind (.ofExcept (Q := fun c _ => c = code) (fun c _ hc _ => ?_)
        fun _ _ _ _ => trivial) fun c => ?_
      · rw [hcode] at hc
        exact (Except.ok.inj hc).symm
      · -- What is stored is the relocated template, and it is read back.
        refine .assuming (fun _ h => h) fun hc => ?_
        rw [hc]
        refine .bind ((Region.ofBytes_holds code).before fun _ _ => trivial) fun region => ?_
        exact .bind_log (.ret fun _ h => h)

/-- Whatever the host and wherever it puts the code: the bytes of a new trampoline
    forward calls of one convention to the target in the other. -/
theorem build_bridges (d : Direction) (arity : Nat) (target : Address)
    (harity : arity ≤ maxArity) (htarget : target.toNat < codeSpace) :
    ∃ code, d.Bridges arity (BitVec.ofNat 32 target.toNat) code ∧
      ∀ host t, (build d arity target host).result = .ok t →
        (build d arity target host).state.memory.read t.address.toNat t.region.size = code := by
  rcases relocate_of_template d harity htarget with ⟨template, htemplate, hcode⟩
  have hforwards := d.forwards_forwarder harity (BitVec.ofNat 32 target.toNat)
  have hwords := d.words_forwarder harity (BitVec.ofNat 32 target.toNat)
  -- What the code does and that it is what is stored are shown apart.
  refine ⟨_, bridges_of_forwards hwords ?_ hforwards, fun host t ht => ?_⟩
  · have hfew : d.outer.stackWords arity ≤ arity := Nat.sub_le _ _
    omega
  · exact (build_holds htemplate hcode).of_ok trivial ht

/-- The fastcall entry of a function at `0x401000` with three parameters, as the
    first thing that a host stores. -/
theorem build_bridges_of_three :
    Direction.fastcallToStdcall.Bridges 3 0x401000#32
      ((build .fastcallToStdcall 3 0x401000 (Host.start ⟨[], []⟩)).state.memory.read
        0x10000000 46) := by
  rcases build_bridges .fastcallToStdcall 3 0x401000 (by decide) (by decide) with
    ⟨code, hbridges, hcode⟩
  have hread := hcode (Host.start ⟨[], []⟩) ⟨⟨some 0x10000000, 46⟩, 0x401000, _, 3⟩ rfl
  exact hread ▸ hbridges

end Trampoline

end Hotpatch
