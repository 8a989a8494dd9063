import Hotpatch.Proofs.Disassembly.RoundTrip
import Hotpatch.Proofs.Sizing.Lockstep

/-!
# Instructions In Their Place

Which instructions a run of a program writes, and from where. The same program writes
other instructions in another run, and its loops and choices can make it hard to see
which ones. But whatever a run that succeeds wrote on its way is in the bytes that it
ends with, at the very offset at which it was written, and encoded for the address that
this offset stands for.

So if the bytes are put where the writer stood, every relative branch among them leads
to the target that it was written for.

## Main definitions

* `Program.Performs`: The instructions of a run.
* `Program.Stands`: An instruction in what was written later.

## Theorems

* `of_repeatStep`: A repetition that succeeds goes on from all of its rounds.
* `Performs.stands`: Every instruction of a run is in what the run wrote.
-/

namespace Hotpatch

section Rounds

variable {step next : Writer → Writer × Option Fault}

/-- What goes on to a good end had no fault before. -/
theorem of_proceed {out : Writer × Option Fault} {w' : Writer}
    (h : proceed next out = (w', none)) : ∃ w, out = (w, none) ∧ next w = (w', none) := by
  rcases out with ⟨w, _ | fault⟩
  · exact ⟨w, rfl, h⟩
  · exact absurd (congrArg Prod.snd h) (Option.some_ne_none fault)

/-- A repetition that succeeds goes on from every round that it comes to. -/
theorem of_repeatStep {count round : Nat} {w w₁ w' : Writer}
    (hext : ∀ w : Writer, w.Extends (step w).1) (h : repeatStep step count w = (w', none))
    (hround : round < count) (hreach : repeatStep step round w = (w₁, none)) :
    ∃ w₂, step w₁ = (w₂, none) ∧ w₂.Extends w' := by
  induction round generalizing count w with
  | zero =>
      -- The first round is followed by the rest of the repetition.
      have hw : w = w₁ := congrArg Prod.fst hreach
      rcases Nat.exists_eq_succ_of_ne_zero (Nat.ne_of_gt hround) with ⟨rest, rfl⟩
      rw [repeatStep_succ] at h
      rcases of_proceed h with ⟨w₂, hstep, hrest⟩
      have hlast := extends_repeatStep hext rest w₂
      rw [hrest] at hlast
      exact ⟨w₂, hw ▸ hstep, hlast⟩
  | succ round ih =>
      rcases Nat.exists_eq_succ_of_ne_zero (Nat.ne_of_gt (Nat.zero_lt_of_lt hround)) with
        ⟨rest, rfl⟩
      -- Both repetitions begin with the same round.
      rw [repeatStep_succ] at h hreach
      rcases of_proceed h with ⟨w₀, hstep, hrest⟩
      rcases of_proceed hreach with ⟨w₀', hstep', hreach'⟩
      rw [hstep, Prod.mk.injEq] at hstep'
      rw [← hstep'.1] at hreach'
      exact ih hrest (Nat.lt_of_succ_lt_succ hround) hreach'

end Rounds

namespace Program

/-- The instructions of a run that begins with a writer: what is written, and the writer
    as it is then. -/
def Performs (runs : Nat) (i : Instruction) (v : Writer) : Program → Writer → Prop
  | skip, _ => False
  | step j, w => i = j ∧ v = w
  | branchBy kind distance, w =>
    i = .branch kind (w.position + UInt64.ofInt distance) ∧ v = w
  | mark l, w => i = .data (littleEndian 4 (l.value w)) ∧ v = w
  | fail _, _ => False
  | seq first second, w =>
    first.Performs runs i v w ∨ ∃ w', first.run runs w = (w', none) ∧ second.Performs runs i v w'
  | ifSizing yes no, w => if w.sizing then yes.Performs runs i v w else no.Performs runs i v w
  | ifEmpty yes no, w =>
    if w.bytes.isEmpty then yes.Performs runs i v w else no.Performs runs i v w
  | ifRun count yes no, w =>
    if runs = count then yes.Performs runs i v w else no.Performs runs i v w
  | loop count body, w =>
    ∃ round < count, ∃ w', repeatStep (body.run runs) round w = (w', none) ∧
      body.Performs runs i v w'

/-- A writer stands in what was written later, with an instruction after it that is encoded
    for where the writer stood. -/
def Stands (i : Instruction) (v w w' : Writer) : Prop :=
  w.Extends v ∧ ∃ bytes, i.encode v.position v.sizing = .ok bytes ∧ (v.append bytes).Extends w'

theorem stands_of_push {i : Instruction} {w w' : Writer} (h : w.push i = (w', none)) :
    Stands i w w w' := by
  rcases Writer.push_ok h with ⟨bytes, hbytes, hw⟩
  exact ⟨.refl w, bytes, hbytes, hw ▸ .refl _⟩

/-- Every instruction of a run that succeeds is in what the run wrote, where it was
    written and as it is encoded for that place. -/
theorem Performs.stands {p : Program} {runs : Nat} {i : Instruction} {v w w' : Writer}
    (h : p.Performs runs i v w) (hrun : p.run runs w = (w', none)) : Stands i v w w' := by
  induction p generalizing w w' with
  | skip => exact h.elim
  | step j =>
      rcases h with ⟨rfl, rfl⟩
      exact stands_of_push hrun
  | branchBy kind distance =>
      rcases h with ⟨rfl, rfl⟩
      exact stands_of_push hrun
  | mark l =>
      rcases h with ⟨rfl, rfl⟩
      exact stands_of_push hrun
  | fail fault => exact h.elim
  | seq first second hfirst hsecond =>
      rw [run_seq] at hrun
      rcases of_proceed hrun with ⟨w₁, hw₁, hrest⟩
      rcases h with h | ⟨w₁', hw₁', h⟩
      · -- What the first program wrote stays while the second goes on.
        rcases hfirst h hw₁ with ⟨hbefore, bytes, hbytes, hafter⟩
        have hlast := second.run_extends runs w₁
        rw [hrest] at hlast
        exact ⟨hbefore, bytes, hbytes, hafter.trans hlast⟩
      · -- The second program was begun where the first one ended.
        rw [hw₁, Prod.mk.injEq] at hw₁'
        rw [← hw₁'.1] at h
        have hlast := first.run_extends runs w
        rw [hw₁] at hlast
        rcases hsecond h hrest with ⟨hbefore, hafter⟩
        exact ⟨hlast.trans hbefore, hafter⟩
  | ifSizing yes no hyes hno =>
      -- The run took the same side of the choice.
      unfold Performs at h
      unfold run at hrun
      split at h
      · next hsizing => exact hyes h (by rwa [if_pos hsizing] at hrun)
      · next hsizing => exact hno h (by rwa [if_neg hsizing] at hrun)
  | ifEmpty yes no hyes hno =>
      unfold Performs at h
      unfold run at hrun
      split at h
      · next hempty => exact hyes h (by rwa [if_pos hempty] at hrun)
      · next hempty => exact hno h (by rwa [if_neg hempty] at hrun)
  | ifRun count yes no hyes hno =>
      unfold Performs at h
      unfold run at hrun
      split at h
      · next hcount => exact hyes h (by rwa [if_pos hcount] at hrun)
      · next hcount => exact hno h (by rwa [if_neg hcount] at hrun)
  | loop count body hbody =>
      rcases h with ⟨round, hround, w₁, hreach, h⟩
      -- Rounds before it are in what was there already, and later ones only append.
      rcases of_repeatStep (body.run_extends runs) hrun hround hreach with ⟨w₂, hstep, hafter⟩
      have hbefore := extends_repeatStep (body.run_extends runs) round w
      rw [hreach] at hbefore
      rcases hbody h hstep with ⟨hfirst, bytes, hbytes, hlast⟩
      exact ⟨hbefore.trans hfirst, bytes, hbytes, hlast.trans hafter⟩

end Program

end Hotpatch
