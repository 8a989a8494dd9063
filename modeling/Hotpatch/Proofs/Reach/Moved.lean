import Hotpatch.Proofs.Generation.Placed
import Hotpatch.Proofs.Reach.Displacement
import Hotpatch.Proofs.Sizing.Prediction

/-!
# Code That Can Be Moved

A relative branch whose target is given by its distance from the branch has the same
bytes wherever it stands. Position and target both wrap at the end of the address space,
and so does the difference between them, so nothing of the position is left in the
displacement. The shortcut for the first four gigabytes does not interfere: it is only
taken where the distance itself does not fit.

So a program that asks for its place only to branch by a distance writes the same bytes
wherever it is run, or stops there at the same fault. Its bytes can be copied from one
place to another, and every branch in the copy leads as far as it did before.

## Main definitions

* `Branch.Bridges`: A distance that a branch bridges from anywhere.
* `Program.Movable`: A program that does not depend on its place.
* `Writer.movedTo`: The same bytes at another origin.

## Theorems

* `Branch.Bridges.destination_eq`: The displacement is the distance less the branch.
* `Program.run_movedTo`: A run at another place.
* `Program.Performs.movedTo`: The branches of a run at another place.
* `Code.assemble_moved`: Code that is assembled for two places.
-/

namespace Hotpatch

/-- A distance that a branch bridges from anywhere: counted from the end of the branch it
    fits in the displacement. -/
def Branch.Bridges (distance : Int) : Prop :=
  -0x80000000 ≤ distance - 5 ∧ distance - 5 < 0x80000000

instance (distance : Int) : Decidable (Branch.Bridges distance) :=
  inferInstanceAs (Decidable (_ ∧ _))

/-- Whether an instruction is a branch to an address, which depends on where it stands. -/
def Instruction.isRelative : Instruction → Bool
  | .branch _ _ => true
  | _ => false

/-- A program that asks for its place only to branch by a distance that is bridged from
    anywhere, and does not ask how often it was run. -/
def Program.Movable : Program → Prop
  | .skip | .fail _ => True
  | .step i => i.isRelative = false
  | .branchBy _ distance => Branch.Bridges distance
  | .mark l => l = .length
  | .seq first second => first.Movable ∧ second.Movable
  | .ifSizing yes no => yes.Movable ∧ no.Movable
  | .ifEmpty yes no => yes.Movable ∧ no.Movable
  | .ifRun _ _ _ => False
  | .loop _ body => body.Movable

instance Program.decidableMovable : (p : Program) → Decidable p.Movable
  | .skip | .fail _ => isTrue True.intro
  | .step i => inferInstanceAs (Decidable (i.isRelative = false))
  | .branchBy _ distance => inferInstanceAs (Decidable (Branch.Bridges distance))
  | .mark l => inferInstanceAs (Decidable (l = .length))
  | .ifRun _ _ _ => isFalse False.elim
  | .loop _ body => decidableMovable body
  | .seq p q | .ifSizing p q | .ifEmpty p q =>
    have := decidableMovable p
    have := decidableMovable q
    inferInstanceAs (Decidable (p.Movable ∧ q.Movable))

/-- A writer with the same bytes, which begin at another origin. -/
def Writer.movedTo (w : Writer) (origin : Address) : Writer :=
  { w with origin }

@[simp]
theorem Writer.movedTo_sizing (w : Writer) (origin : Address) :
    (w.movedTo origin).sizing = w.sizing := rfl

@[simp]
theorem Writer.movedTo_bytes (w : Writer) (origin : Address) :
    (w.movedTo origin).bytes = w.bytes := rfl

/-- The end of a run, moved to another origin. -/
def movedEnd (origin : Address) (out : Writer × Option Fault) : Writer × Option Fault :=
  (out.1.movedTo origin, out.2)

section Steps

variable {distance : Int} {origin : Address}

/-- Five bytes on, and five less of the distance. -/
theorem Branch.Bridges.destination_eq (h : Bridges distance) (position : Address) :
    destination (position + UInt64.ofNat size) (Int32.ofInt (distance - 5)) =
      position + UInt64.ofInt distance := by
  have hsize : UInt64.ofNat size = UInt64.ofInt 5 := rfl
  have hsum : 5 + (distance - 5) = distance := by omega
  rw [destination, Int32.toInt_ofInt_of_le h.1 h.2, UInt64.add_assoc, hsize, ← UInt64.ofInt_add,
    hsum]

/-- A branch by a distance that is bridged is written from anywhere, with the distance
    counted from its end. -/
theorem Writer.push_bridged (w : Writer) (kind : Branch) (h : Branch.Bridges distance) :
    w.push (.branch kind (w.position + UInt64.ofInt distance)) =
      (w.append (kind.opcode :: littleEndian 4 (distance - 5)), none) := by
  have hreaches : Reaches (w.position + UInt64.ofNat Branch.size)
      (Int32.ofInt (distance - 5)) (w.position + UInt64.ofInt distance) := by
    rw [← h.destination_eq]
    exact displacement32_eq_some_iff.mp (displacement32_destination _ _)
  have hencode : kind.encode (w.position + UInt64.ofInt distance) w.position w.sizing =
      .ok (kind.opcode :: littleEndian 4 (distance - 5)) := by
    rw [Branch.encode_of_reaches hreaches, Int32.toInt_ofInt_of_le h.1 h.2]
  exact Writer.push_of_ok hencode

theorem Instruction.not_branch {i : Instruction} (h : i.isRelative = false) (kind : Branch)
    (target : Address) : i ≠ .branch kind target := by
  rintro rfl
  exact Bool.noConfusion h

/-- All other instructions are written without regard to where they stand. -/
theorem Writer.push_movedTo (w : Writer) {i : Instruction} (h : i.isRelative = false) :
    (w.movedTo origin).push i = movedEnd origin (w.push i) := by
  have hsame := i.encode_eq (i.not_branch h) (w.movedTo origin).position w.position
    (w.movedTo origin).sizing w.sizing
  rw [Writer.push_eq, Writer.push_eq, hsame]
  split <;> rfl

/-- So are those that go by a distance. -/
theorem Writer.push_bridged_movedTo (w : Writer) (kind : Branch) (h : Branch.Bridges distance) :
    (w.movedTo origin).push (.branch kind ((w.movedTo origin).position + UInt64.ofInt distance)) =
      movedEnd origin (w.push (.branch kind (w.position + UInt64.ofInt distance))) := by
  rw [push_bridged _ kind h, push_bridged w kind h]
  rfl

variable {step step' next next' : Writer → Writer × Option Fault}

theorem proceed_movedEnd (h : ∀ w, next' (w.movedTo origin) = movedEnd origin (next w))
    (out : Writer × Option Fault) :
    proceed next' (movedEnd origin out) = movedEnd origin (proceed next out) := by
  rcases out with ⟨w, _ | fault⟩
  · exact h w
  · rfl

theorem repeatStep_movedTo (h : ∀ w, step' (w.movedTo origin) = movedEnd origin (step w))
    (count : Nat) (w : Writer) :
    repeatStep step' count (w.movedTo origin) = movedEnd origin (repeatStep step count w) := by
  induction count generalizing w with
  | zero => rfl
  | succ count ih => rw [repeatStep_succ, repeatStep_succ, h, proceed_movedEnd ih]

end Steps

namespace Program

variable {p : Program} {origin : Address}

/-- A run at another place writes the same bytes and ends in the same way. The induction is
    on the program; at every point of it the two writers differ only in their origin. -/
theorem run_movedTo (hp : p.Movable) (runs runs' : Nat) (w : Writer) :
    p.run runs' (w.movedTo origin) = movedEnd origin (p.run runs w) := by
  induction p generalizing w with
  | skip => rfl
  | step i => exact w.push_movedTo hp
  | branchBy kind distance => exact w.push_bridged_movedTo kind hp
  | mark l =>
      -- The length so far is the only mark that is the same anywhere.
      rw [show l = .length from hp]
      exact w.push_movedTo rfl
  | fail fault => rfl
  | seq first second hfirst hsecond =>
      rw [run_seq, run_seq, hfirst hp.1]
      exact proceed_movedEnd (hsecond hp.2) _
  | ifSizing yes no hyes hno =>
      -- What the program asks the writer for here and below was not changed by moving it.
      unfold run
      rw [Writer.movedTo_sizing]
      split
      · exact hyes hp.1 w
      · exact hno hp.2 w
  | ifEmpty yes no hyes hno =>
      unfold run
      rw [Writer.movedTo_bytes]
      split
      · exact hyes hp.1 w
      · exact hno hp.2 w
  | ifRun count yes no => exact hp.elim
  | loop count body hbody => exact repeatStep_movedTo (hbody hp) count w

/-- A run at another place comes to the same branches, at the same distance from their
    targets. -/
theorem Performs.movedTo {runs : Nat} {kind : Branch} {target : Address} {v w : Writer}
    (hp : p.Movable) (h : p.Performs runs (.branch kind target) v w) (runs' : Nat)
    (origin : Address) :
    ∃ distance, Branch.Bridges distance ∧ target = v.position + UInt64.ofInt distance ∧
      p.Performs runs' (.branch kind ((v.movedTo origin).position + UInt64.ofInt distance))
        (v.movedTo origin) (w.movedTo origin) := by
  induction p generalizing w with
  | skip => exact h.elim
  | step i => exact absurd h.1.symm (i.not_branch hp kind target)
  | branchBy kind' distance =>
      -- The only branches of a movable program are those by a distance.
      rcases h with ⟨hbranch, rfl⟩
      rcases Instruction.branch.inj hbranch with ⟨rfl, htarget⟩
      exact ⟨distance, hp, htarget, rfl, rfl⟩
  | mark l => exact Instruction.noConfusion h.1
  | fail fault => exact h.elim
  | seq first second hfirst hsecond =>
      rcases h with h | ⟨w', hrun, h⟩
      · rcases hfirst hp.1 h with ⟨distance, hbridges, htarget, hperforms⟩
        exact ⟨distance, hbridges, htarget, .inl hperforms⟩
      · rcases hsecond hp.2 h with ⟨distance, hbridges, htarget, hperforms⟩
        refine ⟨distance, hbridges, htarget, .inr ⟨w'.movedTo origin, ?_, hperforms⟩⟩
        -- The second part begins where the first one ended, at the other place too.
        rw [run_movedTo hp.1 runs runs' w, hrun]
        rfl
  | ifSizing yes no hyes hno =>
      unfold Performs at h ⊢
      rw [Writer.movedTo_sizing]
      split at h
      · next hsizing =>
        simp only [if_pos hsizing]
        exact hyes hp.1 h
      · next hsizing =>
        simp only [if_neg hsizing]
        exact hno hp.2 h
  | ifEmpty yes no hyes hno =>
      unfold Performs at h ⊢
      rw [Writer.movedTo_bytes]
      split at h
      · next hempty =>
        simp only [if_pos hempty]
        exact hyes hp.1 h
      · next hempty =>
        simp only [if_neg hempty]
        exact hno hp.2 h
  | ifRun count yes no => exact hp.elim
  | loop count body hbody =>
      rcases h with ⟨round, hround, w', hreach, h⟩
      rcases hbody hp h with ⟨distance, hbridges, htarget, hperforms⟩
      refine ⟨distance, hbridges, htarget, round, hround, w'.movedTo origin, ?_, hperforms⟩
      -- The rounds before this one were the same at both places.
      have hrun : ∀ w, body.run runs' (w.movedTo origin) = movedEnd origin (body.run runs w) :=
        run_movedTo (p := body) hp runs runs'
      rw [repeatStep_movedTo hrun, hreach]
      rfl

theorem output_movedTo (hp : p.Movable) (runs runs' : Nat) (w : Writer) :
    p.output runs' (w.movedTo origin) = p.output runs w := by
  rw [output, output, run_movedTo hp runs]
  rcases p.run runs w with ⟨_, _ | fault⟩ <;> rfl

/-- A branch by a distance that is bridged stands in the code with that distance, counted
    from its end. -/
theorem Performs.bridged {runs : Nat} {kind : Branch} {distance : Int} {v w : Writer}
    {bytes : List UInt8} (hbridges : Branch.Bridges distance)
    (h : p.Performs runs (.branch kind (v.position + UInt64.ofInt distance)) v w)
    (houtput : p.output runs w = .ok bytes) :
    (bytes.drop v.length).take Branch.size = kind.opcode :: littleEndian 4 (distance - 5) := by
  rcases hrun : p.run runs w with ⟨w', _ | fault⟩
  · -- The code is what was there before the branch, the branch, and what came after it.
    rcases h.stands hrun with ⟨-, encoded, hencoded, hlast⟩
    rcases hlast.bytes with ⟨more, hmore⟩
    rw [output, hrun] at houtput
    have hpush := v.push_bridged kind hbridges
    rw [Writer.push_of_ok hencoded, Prod.mk.injEq] at hpush
    have hencoded : encoded = kind.opcode :: littleEndian 4 (distance - 5) :=
      List.append_cancel_left (congrArg Writer.bytes hpush.1)
    have hbytes : bytes = v.bytes ++ (encoded ++ more) := by
      rw [← Except.ok.inj houtput, hmore, ← List.append_assoc]
      rfl
    rw [hbytes, Writer.length, List.drop_left, hencoded, List.take_left']
    rw [List.length_cons, length_littleEndian]
    rfl
  · rw [output, hrun] at houtput
    exact absurd houtput (by simp only [reduceCtorEq, not_false_eq_true])

end Program

/-- Code that does not depend on its place, assembled for two places: the bytes are the
    same, or the fault. Each of its branches goes by a distance that is bridged, holds that
    distance counted from its end, leads as far from wherever it is copied to, and stands in
    the code for the other place at the same offset with the same distance. -/
theorem Code.assemble_moved {program : Program} (hmovable : program.Movable)
    (base base' : Address) (runs runs' : Nat) :
    (assemble base' ⟨program, runs'⟩).result = (assemble base ⟨program, runs⟩).result ∧
      ∀ bytes, (assemble base ⟨program, runs⟩).result = .ok bytes →
        ∀ kind target v, program.Performs runs (.branch kind target) v (.placedAt base) →
          ∃ distance, Branch.Bridges distance ∧ target = v.position + UInt64.ofInt distance ∧
            (bytes.drop v.length).take Branch.size =
              kind.opcode :: littleEndian 4 (distance - 5) ∧
            (∀ position, destination (position + UInt64.ofNat Branch.size)
              (Int32.ofInt (distance - 5)) = position + UInt64.ofInt distance) ∧
            program.Performs runs'
              (.branch kind ((v.movedTo base').position + UInt64.ofInt distance))
              (v.movedTo base') (.placedAt base') := by
  rw [assemble_result, assemble_result]
  refine ⟨Program.output_movedTo hmovable runs runs' (.placedAt base), ?_⟩
  intro bytes hbytes kind target v hperforms
  rcases hperforms.movedTo hmovable runs' base' with ⟨distance, hbridges, rfl, hmoved⟩
  exact ⟨distance, hbridges, rfl, hperforms.bridged hbridges hbytes, hbridges.destination_eq,
    hmoved⟩

/-- A loop that skips ahead and calls backwards as far as a displacement goes, and notes how
    long it is. -/
def nearLoop : Program :=
  .ofList [.loop 2 (.seq (.branchBy .jump 7) (.branchBy .call (-0x7FFFFFFB))),
    .mark .length, .ifEmpty .skip (.step (.plain .ret))]

/-- The loop is the same at the beginning of the address space and across its end. -/
theorem assemble_moved_of_nearLoop :
    nearLoop.Movable ∧ (Code.assemble 0 ⟨nearLoop, 1⟩).result =
      (Code.assemble 0xFFFFFFFFFFFFFFF8 ⟨nearLoop, 0⟩).result := by
  have hmovable : nearLoop.Movable := by decide
  exact ⟨hmovable, (Code.assemble_moved hmovable 0xFFFFFFFFFFFFFFF8 0 0 1).1⟩

end Hotpatch
