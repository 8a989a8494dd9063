import Mathlib.Data.List.Forall2
import Hotpatch.Program
import Hotpatch.Proofs.Disassembly.Forms

/-!
# Listings Of Programs

The listing of an assembled program is the program. An instruction gives a line
of its own, which ends where its bytes end, so the next line begins where the
next instruction was written. By induction the listing and the program go on in
step, and relative branches are read at the very addresses they were written
for.

## Theorems

* `shows_of_encode`: An instruction is read as a line of its own.
* `listing_of_run`: The listing of what a program appends to a writer.
* `listing_of_output`: The listing of an assembled program.
-/

namespace Hotpatch

/-- A reader of instructions that takes exactly some bytes gives a line of their
    length. -/
theorem readLine_of_reads {bytes : List UInt8} {m : Mnemonic} {arguments : List Argument}
    (h : Reads readInstruction bytes (m, arguments)) (position : Address) (rest : List UInt8) :
    readLine position (bytes ++ rest) = some (⟨position, bytes.length, m, arguments⟩, rest) := by
  simp only [readLine, h rest, bind, pure, Option.bind, List.length_append,
    Nat.add_sub_cancel]

/-- An instruction is read as a line of its own, which has the length of its
    bytes. -/
theorem Instruction.shows_of_encode {i : Instruction} {position : Address} {bytes : List UInt8}
    (hi : i.InRepertoire) (h : i.encode position false = .ok bytes) :
    ∃ line, i.Shows line ∧ line.next = position + UInt64.ofNat bytes.length ∧
      ∀ rest, readLine position (bytes ++ rest) = some (line, rest) := by
  -- A relative branch is the one instruction whose line depends on where it stands.
  by_cases hbranch : ∃ kind target, i = .branch kind target
  · rcases hbranch with ⟨kind, target, rfl⟩
    rcases reads_branch h with ⟨hlength, d, hread, hreach⟩
    rw [← hlength] at hreach
    exact ⟨⟨position, bytes.length, .branch kind, [.relative d]⟩, ⟨rfl, d, rfl, hreach⟩, rfl,
      readLine_of_reads hread position⟩
  · -- Every other instruction is in the repertoire by its reading.
    have hsome : i.reading.isSome := by
      cases i <;> first | exact absurd ⟨_, _, rfl⟩ hbranch | exact hi
    rcases Option.isSome_iff_exists.mp hsome with ⟨⟨m, arguments⟩, hr⟩
    refine ⟨⟨position, bytes.length, m, arguments⟩, ?_, rfl,
      readLine_of_reads (reads_encode hr h) position⟩
    cases i <;> first | exact absurd ⟨_, _, rfl⟩ hbranch | exact hr

/-- What a successful instruction does to a writer. -/
theorem Writer.push_ok {w w' : Writer} {i : Instruction} (h : w.push i = (w', none)) :
    ∃ bytes, i.encode w.position w.sizing = .ok bytes ∧ w' = w.append bytes := by
  rw [push_eq] at h
  split at h
  · next bytes hb =>
      exact ⟨bytes, hb, (congrArg Prod.fst h).symm⟩
  · exact absurd (congrArg Prod.snd h) (by simp only [reduceCtorEq, not_false_eq_true])

theorem Writer.position_append (w : Writer) (bytes : List UInt8) :
    (w.append bytes).position = w.position + UInt64.ofNat bytes.length := by
  simp only [position, length, append, List.length_append, UInt64.ofNat_add, UInt64.add_assoc]

/-- What instructions append to a writer is listed, from where the writer stood,
    as the instructions. The induction is on the instructions; the writer is that
    between two of them. -/
theorem listing_of_run {program : List Instruction} {runs : Nat} {w w' : Writer}
    (repertoire : ∀ i ∈ program, i.InRepertoire) (placed : w.sizing = false)
    (h : (Program.ofList (program.map .step)).run runs w = (w', none)) :
    ∃ bytes, w'.bytes = w.bytes ++ bytes ∧ ∀ rest, ∃ lines,
      listing program.length w.position (bytes ++ rest) = some (lines, rest) ∧
        List.Forall₂ Instruction.Shows program lines := by
  induction program generalizing w with
  | nil =>
      have hw : w = w' := congrArg Prod.fst h
      exact ⟨[], by rw [hw, List.append_nil], fun rest => ⟨[], rfl, .nil⟩⟩
  | cons i program ih =>
      simp only [List.map_cons, Program.ofList, Program.run] at h
      split at h
      · next w₁ hpush =>
          rcases Writer.push_ok hpush with ⟨bytes, hbytes, rfl⟩
          -- A writer that has its place refuses a branch that is out of range.
          rw [placed] at hbytes
          rcases Instruction.shows_of_encode (repertoire i List.mem_cons_self) hbytes with
            ⟨line, hshows, hnext, hline⟩
          have later : ∀ j ∈ program, j.InRepertoire :=
            fun j hj => repertoire j (List.mem_cons_of_mem i hj)
          rcases ih (w := w.append bytes) later placed h with ⟨more, hmore, hlisting⟩
          refine ⟨bytes ++ more, ?_, fun rest => ?_⟩
          · rw [hmore, Writer.append, List.append_assoc]
          · rcases hlisting rest with ⟨lines, hread, hlines⟩
            -- The next line stands where the writer stood for the next instruction.
            rw [Writer.position_append, ← hnext] at hread
            refine ⟨line :: lines, ?_, .cons hshows hlines⟩
            simp only [List.length_cons, listing, List.append_assoc, hline, hread, bind, pure,
              Option.bind]
      · -- An instruction that failed would have stopped the run.
        exact absurd (congrArg Prod.snd h) (by simp only [reduceCtorEq, not_false_eq_true])

/-- An assembled program is listed as the program, whatever follows it: there is
    a line for each instruction, in order, and the lines take exactly the bytes
    that were written. -/
theorem listing_of_output {origin : Address} {program : List Instruction} {bytes : List UInt8}
    (repertoire : ∀ i ∈ program, i.InRepertoire)
    (assembled : (Program.ofList (program.map .step)).output 0 (.placedAt origin) = .ok bytes)
    (rest : List UInt8) :
    ∃ lines, listing program.length origin (bytes ++ rest) = some (lines, rest) ∧
      List.Forall₂ Instruction.Shows program lines := by
  unfold Program.output at assembled
  split at assembled
  · -- The writer was empty at first, so what was written is all there is.
    next w hrun =>
      rcases listing_of_run repertoire rfl hrun with ⟨written, hwritten, hlisting⟩
      have hposition : (Writer.placedAt origin).position = origin := UInt64.add_zero origin
      have hbytes : written = bytes := by
        rw [← Except.ok.inj assembled, hwritten]
        rfl
      rw [hposition, hbytes] at hlisting
      exact hlisting rest
  · exact absurd assembled (by simp only [reduceCtorEq, not_false_eq_true])

/-- A loop over indexed words, with a backward branch. -/
def indexedLoop : List Instruction :=
  [.aluLoad .add .ax (.address ⟨some .ebx, some (.ecx, .two), 0x1234⟩),
    .aluImmediate .sub (.register .ebp) (-2),
    .popMemory (.address ⟨some .ebp, none, 0⟩),
    .plain .lock,
    .branch .jump 0x401000]

set_option maxRecDepth 2000 in
/-- The loop is listed, with bytes after it that are no code. -/
theorem listing_of_indexedLoop :
    ∃ lines, listing indexedLoop.length 0x401000
        ([0x66, 0x03, 0x84, 0x4B, 0x34, 0x12, 0x00, 0x00, 0x83, 0xED, 0xFE, 0x8F, 0x45, 0x00,
          0xF0, 0xE9, 0xEC, 0xFF, 0xFF, 0xFF] ++ [0xFF, 0x0F]) = some (lines, [0xFF, 0x0F]) ∧
      List.Forall₂ Instruction.Shows indexedLoop lines := by
  have repertoire : ∀ i ∈ indexedLoop, i.InRepertoire := by
    intro i hi
    simp only [indexedLoop, List.mem_cons, List.not_mem_nil, or_false] at hi
    rcases hi with rfl | rfl | rfl | rfl | rfl
    all_goals first | rfl | trivial
  have assembled : (Program.ofList (indexedLoop.map .step)).output 0 (.placedAt 0x401000) =
      .ok [0x66, 0x03, 0x84, 0x4B, 0x34, 0x12, 0x00, 0x00, 0x83, 0xED, 0xFE, 0x8F, 0x45, 0x00,
        0xF0, 0xE9, 0xEC, 0xFF, 0xFF, 0xFF] := by
    rfl
  exact listing_of_output repertoire assembled [0xFF, 0x0F]

end Hotpatch
