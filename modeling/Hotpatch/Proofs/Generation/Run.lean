import Hotpatch.Proofs.Generation.Outcome

/-!
# Generated Code In Memory

Code that is generated is all there in the end, or nothing is. Which of the two it is,
and with which fault, follows from what the two runs of the code give and from what the
host has left, wherever a session has come to.

If it is there, it is what the second run gave, and that run was for the address of the
region. So what is in memory reads as the very instructions that the code wrote, and its
branches lead where they were meant to. If it is not, memory maps what it mapped before,
as it was.

## Main definitions

* `Region.Generated`: Generated code, and what is left if there is none.

## Theorems

* `Performs.reads`: Every instruction of the second run is read from memory.
* `generated_of_run`: Generating code, wherever a session has come to.
* `Program.exists_ending`: Two runs of a program can end in any way.
-/

namespace Hotpatch

open Hotpatch.Action

/-- Where bytes were written, a part of them is read at its offset. -/
theorem Memory.read_write_part (m : Memory) (base : Nat) (before bytes after : List UInt8) :
    (m.write base (before ++ bytes ++ after)).read (base + before.length) bytes.length = bytes := by
  refine List.ext_getElem (length_read _ _ _) fun i _ hi => ?_
  have hin : before.length + i < (before ++ bytes ++ after).length := by
    simp only [List.length_append]
    omega
  rw [getElem_read, Nat.add_assoc, contents_write_add hin]
  simp only [List.append_assoc]
  rw [List.getElem_append_right (Nat.le_add_right _ _)]
  simp only [Nat.add_sub_cancel_left, List.getElem_append_left hi]

/-- Every instruction of a run for an address is read at its place, once the bytes of the
    run are in memory at that address. -/
theorem Program.Performs.reads {p : Program} {runs : Nat} {i : Instruction} {v : Writer}
    {base : Address} {bytes : List UInt8} (h : p.Performs runs i v (.placedAt base))
    (houtput : p.output runs (.placedAt base) = .ok bytes) (hi : i.InRepertoire) (m : Memory) :
    ∃ line length, i.Shows line ∧ ∀ rest, readLine (base + UInt64.ofNat v.length)
      ((m.write base.toNat bytes).read (base.toNat + v.length) length ++ rest) =
        some (line, rest) := by
  rcases hrun : p.run runs (.placedAt base) with ⟨w', _ | fault⟩
  · -- The instruction is in the bytes, with some before it and some after it.
    rw [output, hrun] at houtput
    rcases h.stands hrun with ⟨hbefore, encoded, hencode, hafter⟩
    rcases hafter.bytes with ⟨after, hafter⟩
    -- The writer had its place all along, so it refused branches that are out of reach.
    have hposition : v.position = base + UInt64.ofNat v.length :=
      congrArg (· + UInt64.ofNat v.length) hbefore.origin
    rw [hposition, show v.sizing = false from hbefore.sizing] at hencode
    rcases Instruction.shows_of_encode hi hencode with ⟨line, hshows, -, hline⟩
    refine ⟨line, encoded.length, hshows, ?_⟩
    rw [← Except.ok.inj houtput, hafter]
    have hread := m.read_write_part base.toNat v.bytes encoded after
    exact fun rest => hread.symm ▸ hline rest
  · rw [output, hrun] at houtput
    exact absurd houtput (by simp only [reduceCtorEq, not_false_eq_true])

namespace Region

/-- Generated code, from a host and from code that may have been run before: how it ends,
    what is in memory if there is a region, and what is left if there is none. -/
structure Generated (code : Code) (host : Host) : Prop where
  /-- The end is one of those that there are, and the only one the host and the runs
      allow. -/
  ends : ∀ result runs, Generation code host result runs ↔
    (generate (code, host)).result = result ∧
      (generate (code, host)).state.1 = { code with runs := code.runs + runs }
  /-- A region holds what the second run gave for its address, and is as long. -/
  holds : ∀ r, (generate (code, host)).result = .ok r → ∃ bytes,
    code.program.output (code.runs + 1) (.placedAt r.address) = .ok bytes ∧
      bytes.length = r.size ∧ 0 < r.size ∧
        (generate (code, host)).state.2.memory.read r.address.toNat r.size = bytes
  /-- The instructions of the second run are read where it wrote them, and relative
      branches lead to their targets. -/
  reads : ∀ r, (generate (code, host)).result = .ok r → ∀ i v, i.InRepertoire →
    code.program.Performs (code.runs + 1) i v (.placedAt r.address) → ∃ line length,
      i.Shows line ∧ ∀ rest, readLine (r.address + UInt64.ofNat v.length)
        ((generate (code, host)).state.2.memory.read (r.address.toNat + v.length) length ++
          rest) = some (line, rest)
  /-- The pages of a region were not mapped before, and can be run. -/
  executable : ∀ r, (generate (code, host)).result = .ok r → ∀ i < r.size,
    ¬ host.memory.Mapped (r.address.toNat + i) ∧
      (generate (code, host)).state.2.memory.protectionAt (r.address.toNat + i) =
        some .readWriteExecute
  /-- No more is mapped than the region, and without one no more than before. -/
  mapped : ∀ a, (generate (code, host)).state.2.memory.Mapped a ↔ host.memory.Mapped a ∨
    ∃ r, (generate (code, host)).result = .ok r ∧ r.address.toNat ≤ a ∧
      a < r.address.toNat + wholePages r.size
  /-- What was mapped before is as it was, however the generation ends. -/
  intact : ∀ a, host.memory.Mapped a →
    (generate (code, host)).state.2.memory.contents a = host.memory.contents a ∧
      (generate (code, host)).state.2.memory.protectionAt a = host.memory.protectionAt a

variable {code : Code} {host : Host} {r : Region}

/-- A region that was made has its extent from the host, and what the second run gave is
    in it. -/
theorem generate_made (positive : 0 < host.memory.next)
    (hr : (generate (code, host)).result = .ok r) :
    Allocation host r.size (.ok r) ∧ ∃ bytes m,
      code.program.output (code.runs + 1) (.placedAt r.address) = .ok bytes ∧
        bytes.length = r.size ∧ host.memory.Granted r.size m ∧
          (generate (code, host)).state.2.memory = m.write r.address.toNat bytes := by
  rcases (generate_from code positive).of_ok rfl hr with ⟨hend, -, hmade⟩
  cases hend with
  | made _ allocation _ _ => exact ⟨allocation.address.2.1.symm ▸ allocation, hmade⟩

/-- Generating code ends in a way that the host and the runs allow, and the runs are
    counted. -/
theorem generate_ends (code : Code) (positive : 0 < host.memory.next) :
    ∃ runs, Generation code host (generate (code, host)).result runs ∧
      (generate (code, host)).state.1 = { code with runs := code.runs + runs } := by
  have hfrom := generate_from code positive (code, host) rfl
  split at hfrom
  · next hok => exact ⟨2, hok ▸ hfrom.1, hfrom.2.1⟩
  · next hfault => exact hfault ▸ hfrom

/-- That is the one way in which it can end. -/
theorem generate_ends_iff (code : Code) (positive : 0 < host.memory.next)
    (result : Except Fault Region) (runs : Nat) :
    Generation code host result runs ↔ (generate (code, host)).result = result ∧
      (generate (code, host)).state.1 = { code with runs := code.runs + runs } := by
  rcases generate_ends code positive with ⟨runs', hend, hstate⟩
  refine ⟨fun h => ?_, fun h => ?_⟩
  · rcases hend.unique h with ⟨hresult, rfl⟩
    exact ⟨hresult, hstate⟩
  · have hruns : code.runs + runs' = code.runs + runs :=
      congrArg Code.runs (hstate.symm.trans h.2)
    rw [← h.1, ← Nat.add_left_cancel hruns]
    exact hend

/-- What is mapped after code was generated: what was, and the region if there is one. -/
theorem generate_mapped_iff (code : Code) (horderly : host.memory.Orderly)
    (haligned : host.memory.Aligned) (a : Nat) :
    (generate (code, host)).state.2.memory.Mapped a ↔ host.memory.Mapped a ∨
      ∃ r, (generate (code, host)).result = .ok r ∧ r.address.toNat ≤ a ∧
        a < r.address.toNat + wholePages r.size := by
  have hleaves := generate_leaves code horderly haligned (code, host) rfl
  unfold Memory.Mapped
  split at hleaves
  · next r hr =>
      -- All that was added is the one extent of the region.
      have hextents : r.extents = [⟨r.address.toNat, wholePages r.size⟩] := by
        rw [extents, address, (generate_made horderly.positive hr).1.address.1, Option.getD_some]
      rw [hextents] at hleaves
      simp only [hleaves.1.mem_iff, List.singleton_append, List.mem_cons, exists_eq_or_imp, hr,
        Except.ok.injEq, exists_eq_left', Extent.Contains]
      exact or_comm
  · next fault hf =>
      simp only [hleaves.1.mem_iff, hf, reduceCtorEq, false_and, exists_false, or_false]

/-- Generated code on a host whose memory is in order. -/
theorem generated_of_orderly (code : Code) (horderly : host.memory.Orderly)
    (haligned : host.memory.Aligned) : Generated code host where
  ends := generate_ends_iff code horderly.positive
  mapped := generate_mapped_iff code horderly haligned
  holds r hr := by
    rcases generate_made horderly.positive hr with
      ⟨hallocation, bytes, m, hplaced, hlength, -, hmemory⟩
    refine ⟨bytes, hplaced, hlength, hallocation.address.2.2.1, ?_⟩
    -- The bytes of the placed pass are the last that was written.
    rw [hmemory, ← hlength]
    exact m.read_write r.address.toNat bytes
  reads r hr i v hi h := by
    rcases generate_made horderly.positive hr with ⟨-, bytes, m, hplaced, -, -, hmemory⟩
    rw [hmemory]
    exact h.reads hplaced hi m
  executable r hr i hi := by
    rcases generate_made horderly.positive hr with
      ⟨hallocation, bytes, m, -, -, hgranted, hmemory⟩
    rw [hallocation.address.2.2.2, hmemory]
    refine ⟨fun hmapped => ?_, ?_⟩
    · -- New pages begin above all that is mapped.
      exact absurd (horderly.lt_next hmapped) (Nat.not_lt.mpr (Nat.le_add_right _ _))
    · exact hgranted.protectionAt (Nat.le_add_right _ _) (Nat.add_lt_add_left hi _)
  intact a ha := by
    have hintact : host.memory.Intact (generate (code, host)).state.2.memory := by
      have hleaves := generate_leaves code horderly haligned (code, host) rfl
      split at hleaves
      · exact hleaves.2
      · exact hleaves.2
    exact ⟨hintact.contents a (horderly.lt_next ha), hintact.protectionAt horderly ha⟩

/-- Wherever a session has come to, generated code is all there, or nothing is. -/
theorem generated_of_run (loader : Loader) (commands : List Command) (code : Code) :
    Generated code ((Session.start loader).run commands).1.host := by
  have haccounted := Session.run_accounted commands (Session.start_accounted loader)
  have haligned := Session.run_aligned commands (Session.start_aligned loader)
  exact generated_of_orderly code haccounted.owns.orderly haligned

-- The second run is one byte short, so the region is given up.
example : (generate (⟨.ifRun 0 (.ofList [.step (.plain .nop), .step (.plain .ret)])
    (.step (.plain .ret)), 0⟩, .start ⟨[], []⟩)).result = .error (.lengthChanged 2 1) := by
  rfl

end Region

/-- A program that gives some bytes, or fails. -/
def Program.ofResult : Except Fault (List UInt8) → Program
  | .ok bytes => .step (.data bytes)
  | .error fault => .fail fault

theorem Program.output_ofResult (result : Except Fault (List UInt8)) (runs : Nat) {w : Writer}
    (empty : w.bytes = []) : (ofResult result).output runs w = result := by
  cases result with
  | error fault => rfl
  | ok bytes =>
      change Except.ok (w.bytes ++ bytes) = _
      rw [empty]
      rfl

/-- There is code for every two ends of the two runs, so no end of a generation is
    impossible for want of code. -/
theorem Program.exists_ending (runs : Nat) (sizing : Except Fault (List UInt8))
    (placing : Except Fault (List UInt8)) : ∃ p : Program,
      p.output runs .forSizing = sizing ∧
        ∀ base, p.output (runs + 1) (.placedAt base) = placing := by
  refine ⟨.ifRun runs (ofResult sizing) (ofResult placing), ?_, fun base => ?_⟩
  · unfold output run
    rw [if_pos rfl]
    exact output_ofResult sizing runs rfl
  · unfold output run
    rw [if_neg (Nat.succ_ne_self runs)]
    exact output_ofResult placing (runs + 1) rfl

end Hotpatch
