import Hotpatch.Region

/-!
# Sizing And Placing In Step

A program that is run twice, once to learn its length and once for its place. The
two runs write different bytes, but as long as the program does not ask which run
it is in, both write equally many at every step. The one thing that can part them
is a relative branch. In the sizing run it always encodes, and in the placed run
it may be out of reach of its target. Then the placed run stops there, and the
sizing run is already longer and never gets shorter.

## Main definitions

* `Program.Steady`: A program that does the same whatever run it is in.
* `Writer.InStep`: A sizing and a placed writer of one length.
* `Follows`: How a placed run ends, seen from the sizing run.
* `proceed`: What is done with a writer unless a fault came first.
* `Writer.Extends`: A writer after more was appended to it.

## Theorems

* `Instruction.encode_eq`: Only relative branches depend on where they stand.
* `Program.run_extends`: A run only appends.
* `Follows.proceed`: Two runs that go on after two others.
* `run_follows`: A placed run follows the sizing run.
-/

namespace Hotpatch

/-- A program that does the same whatever run it is in. Nothing in it asks whether
    this is a sizing pass, or how often it was run before. -/
def Program.Steady : Program → Prop
  | .skip | .step _ | .branchBy _ _ | .mark _ | .fail _ => True
  | .seq first second => first.Steady ∧ second.Steady
  | .ifSizing _ _ => False
  | .ifEmpty yes no => yes.Steady ∧ no.Steady
  | .ifRun _ _ _ => False
  | .loop _ body => body.Steady

instance Program.decidableSteady : (p : Program) → Decidable p.Steady
  | .skip | .step _ | .branchBy _ _ | .mark _ | .fail _ => isTrue True.intro
  | .seq first second =>
    have := decidableSteady first
    have := decidableSteady second
    inferInstanceAs (Decidable (first.Steady ∧ second.Steady))
  | .ifSizing _ _ => isFalse False.elim
  | .ifEmpty yes no =>
    have := decidableSteady yes
    have := decidableSteady no
    inferInstanceAs (Decidable (yes.Steady ∧ no.Steady))
  | .ifRun _ _ _ => isFalse False.elim
  | .loop _ body => decidableSteady body

/-- A sizing writer and a placed one that are equally long. -/
structure Writer.InStep (sized placed : Writer) : Prop where
  sizing : sized.sizing = true
  placing : placed.sizing = false
  length : placed.length = sized.length

/-- A placed run that stopped at a branch out of reach of its target, where the
    sizing run had gone on. -/
structure Strays (sized placed : Writer × Option Fault) : Prop where
  beyond : ∃ target, placed.2 = some (.targetOutOfReach placed.1.position target) ∧
    displacement32 (placed.1.position + UInt64.ofNat Branch.size) target = none
  earlier : placed.1.length + Branch.size ≤ sized.1.length

/-- How a placed run ends, seen from the sizing run: in step and in the same way, or
    before it at a branch that is out of reach. -/
def Follows (sized placed : Writer × Option Fault) : Prop :=
  sized.1.InStep placed.1 ∧ placed.2 = sized.2 ∨ Strays sized placed

/-- What is done with a writer, unless a fault came first. -/
def proceed (next : Writer → Writer × Option Fault) :
    Writer × Option Fault → Writer × Option Fault
  | (w, none) => next w
  | (w, some fault) => (w, some fault)

theorem Program.run_seq (first second : Program) (runs : Nat) (w : Writer) :
    (seq first second).run runs w = proceed (second.run runs) (first.run runs w) := by
  simp only [run]
  rcases first.run runs w with ⟨_, _ | _⟩ <;> rfl

theorem repeatStep_succ (step : Writer → Writer × Option Fault) (count : Nat) (w : Writer) :
    repeatStep step (count + 1) w = proceed (repeatStep step count) (step w) := by
  simp only [repeatStep]
  rcases step w with ⟨_, _ | _⟩ <;> rfl

theorem Writer.length_append (w : Writer) (bytes : List UInt8) :
    (w.append bytes).length = w.length + bytes.length :=
  List.length_append

/-- A writer after more was appended to another. -/
structure Writer.Extends (w w' : Writer) : Prop where
  origin : w'.origin = w.origin
  sizing : w'.sizing = w.sizing
  bytes : ∃ more, w'.bytes = w.bytes ++ more

namespace Writer.Extends

theorem refl (w : Writer) : w.Extends w :=
  ⟨rfl, rfl, [], (List.append_nil _).symm⟩

theorem trans {w w' w'' : Writer} (h : w.Extends w') (h' : w'.Extends w'') : w.Extends w'' := by
  rcases h.bytes with ⟨more, hmore⟩
  rcases h'.bytes with ⟨more', hmore'⟩
  refine ⟨h'.origin.trans h.origin, h'.sizing.trans h.sizing, more ++ more', ?_⟩
  rw [hmore', hmore, List.append_assoc]

/-- What was appended takes nothing back. -/
theorem length_le {w w' : Writer} (h : w.Extends w') : w.length ≤ w'.length := by
  rcases h.bytes with ⟨more, hmore⟩
  rw [Writer.length, Writer.length, hmore, List.length_append]
  exact Nat.le_add_right _ _

end Writer.Extends

section Growth

variable {step next : Writer → Writer × Option Fault}

theorem Writer.extends_append (w : Writer) (bytes : List UInt8) : w.Extends (w.append bytes) :=
  ⟨rfl, rfl, bytes, rfl⟩

theorem Writer.extends_push (w : Writer) (i : Instruction) : w.Extends (w.push i).1 := by
  rw [push_eq]
  split
  · exact w.extends_append _
  · exact .refl w

theorem extends_proceed (h : ∀ w : Writer, w.Extends (next w).1) (out : Writer × Option Fault) :
    out.1.Extends (proceed next out).1 := by
  rcases out with ⟨w, _ | fault⟩
  · exact h w
  · exact .refl w

theorem extends_repeatStep (h : ∀ w : Writer, w.Extends (step w).1) (count : Nat) (w : Writer) :
    w.Extends (repeatStep step count w).1 := by
  induction count generalizing w with
  | zero => exact .refl w
  | succ count ih =>
      rw [repeatStep_succ]
      exact (h w).trans (extends_proceed ih _)

/-- A run only appends. -/
theorem Program.run_extends (p : Program) (runs : Nat) (w : Writer) :
    w.Extends (p.run runs w).1 := by
  induction p generalizing w with
  | skip => exact .refl w
  | step i => exact w.extends_push i
  | branchBy kind distance => exact w.extends_push _
  | mark l => exact w.extends_push _
  | fail fault => exact .refl w
  | seq first second hfirst hsecond =>
      rw [run_seq]
      exact (hfirst w).trans (extends_proceed hsecond _)
  | ifSizing yes no hyes hno =>
      -- Whichever way the choice goes, the way that it goes only appends.
      unfold run
      split
      · exact hyes w
      · exact hno w
  | ifEmpty yes no hyes hno =>
      unfold run
      split
      · exact hyes w
      · exact hno w
  | ifRun count yes no hyes hno =>
      unfold run
      split
      · exact hyes w
      · exact hno w
  | loop count body hbody => exact extends_repeatStep hbody count w

end Growth

section Steps

variable {sized placed : Writer}

theorem Writer.InStep.append (h : sized.InStep placed) {bytes bytes' : List UInt8}
    (hlength : bytes'.length = bytes.length) :
    (sized.append bytes).InStep (placed.append bytes') := by
  refine ⟨h.sizing, h.placing, ?_⟩
  rw [Writer.length_append, Writer.length_append, h.length, hlength]

/-- Only relative branches depend on where they stand, and on whether this is a
    sizing pass. -/
theorem Instruction.encode_eq {i : Instruction} (h : ∀ kind target, i ≠ .branch kind target)
    (position position' : Address) (sizing sizing' : Bool) :
    i.encode position sizing = i.encode position' sizing' := by
  cases i with
  | branch kind target => exact absurd rfl (h kind target)
  | aluImmediate op target value => cases target <;> rfl
  | movImmediate target value => cases target <;> rfl
  | _ => rfl

/-- A branch of either run takes five bytes, unless the placed one is out of
    reach. The two may have different targets. -/
theorem branch_follows (h : sized.InStep placed) (kind : Branch) (target target' : Address) :
    Follows (sized.push (.branch kind target)) (placed.push (.branch kind target')) := by
  rcases Branch.encode_sizing kind target sized.position with ⟨bytes, hbytes, hlength⟩
  have hsized : sized.push (.branch kind target) = (sized.append bytes, none) :=
    Writer.push_of_ok (h.sizing ▸ hbytes)
  rw [hsized]
  cases hd : displacement32 (placed.position + UInt64.ofNat Branch.size) target' with
  | some displacement =>
      -- The bytes may differ, but there are as many of them.
      have hplaced : placed.push (.branch kind target') =
          (placed.append (kind.opcode :: littleEndian 4 displacement.toInt), none) :=
        Writer.push_of_ok (by simp only [Instruction.encode, Branch.encode, hd])
      rw [hplaced]
      refine .inl ⟨h.append ?_, rfl⟩
      rw [hlength, List.length_cons, length_littleEndian]
      rfl
  | none =>
      -- The placed branch fails and leaves its writer where it was.
      have hplaced : placed.push (.branch kind target') =
          (placed, some (.targetOutOfReach placed.position target')) :=
        Writer.push_of_error (by simp only [Instruction.encode, Branch.encode, hd, h.placing,
          Bool.false_eq_true, if_false])
      rw [hplaced]
      refine .inr ⟨⟨target', rfl, hd⟩, Nat.le_of_eq ?_⟩
      rw [Writer.length_append, h.length, hlength]

/-- Every other instruction gives both runs the same bytes, or the same fault. -/
theorem push_follows (h : sized.InStep placed) (i : Instruction) :
    Follows (sized.push i) (placed.push i) := by
  by_cases hbranch : ∃ kind target, i = .branch kind target
  · rcases hbranch with ⟨kind, target, rfl⟩
    exact branch_follows h kind target target
  · have hsame := i.encode_eq (fun kind target heq => hbranch ⟨kind, target, heq⟩)
      placed.position sized.position placed.sizing sized.sizing
    refine .inl ?_
    rw [Writer.push_eq, Writer.push_eq, hsame]
    split
    · exact ⟨h.append rfl, rfl⟩
    · exact ⟨h, rfl⟩

/-- A landmark has another value in either run, but takes four bytes in both. -/
theorem mark_follows (h : sized.InStep placed) (l : Landmark) :
    Follows (sized.push (.data (littleEndian 4 (l.value sized))))
      (placed.push (.data (littleEndian 4 (l.value placed)))) := by
  rw [Writer.push_of_ok rfl, Writer.push_of_ok rfl]
  refine .inl ⟨h.append ?_, rfl⟩
  rw [length_littleEndian, length_littleEndian]

end Steps

/-- Two runs that go on after two others. A placed run that has stopped stays where
    it is, however far the sizing run goes. -/
theorem Follows.proceed {out out' : Writer × Option Fault}
    {next next' : Writer → Writer × Option Fault} (h : Follows out out')
    (hnext : ∀ sized placed, sized.InStep placed → Follows (next sized) (next' placed))
    (hgrow : ∀ w : Writer, w.Extends (next w).1) :
    Follows (Hotpatch.proceed next out) (Hotpatch.proceed next' out') := by
  rcases out with ⟨w, fault⟩
  rcases out' with ⟨w', fault'⟩
  rcases h with ⟨hstep, heq⟩ | ⟨⟨target, hfault, hbeyond⟩, hearlier⟩
  · rw [show fault' = fault from heq]
    cases fault with
    | none => exact hnext w w' hstep
    | some fault => exact .inl ⟨hstep, rfl⟩
  · -- The placed run is over, and the sizing run takes back nothing of its lead.
    rw [show fault' = _ from hfault]
    refine .inr ⟨⟨target, rfl, hbeyond⟩, ?_⟩
    exact Nat.le_trans hearlier (extends_proceed hgrow (w, fault)).length_le

/-- Two runs of a repeated step. -/
theorem repeatStep_follows {step step' : Writer → Writer × Option Fault}
    (hstep : ∀ sized placed, sized.InStep placed → Follows (step sized) (step' placed))
    (hgrow : ∀ w : Writer, w.Extends (step w).1) (count : Nat) {sized placed : Writer}
    (h : sized.InStep placed) :
    Follows (repeatStep step count sized) (repeatStep step' count placed) := by
  induction count generalizing sized placed with
  | zero => exact .inl ⟨h, rfl⟩
  | succ count ih =>
      rw [repeatStep_succ, repeatStep_succ]
      exact (hstep sized placed h).proceed (fun _ _ => ih) (extends_repeatStep hgrow count)

/-- A placed run follows the sizing run. The induction is on the program; whatever
    comes first in it leaves the two writers in step, or the placed run is over. -/
theorem run_follows {p : Program} (hp : p.Steady) (runs runs' : Nat) {sized placed : Writer}
    (h : sized.InStep placed) : Follows (p.run runs sized) (p.run runs' placed) := by
  induction p generalizing sized placed with
  | skip => exact .inl ⟨h, rfl⟩
  | step i => exact push_follows h i
  | branchBy kind distance => exact branch_follows h kind _ _
  | mark l => exact mark_follows h l
  | fail fault => exact .inl ⟨h, rfl⟩
  | seq first second hfirst hsecond =>
      rw [Program.run_seq, Program.run_seq]
      exact (hfirst hp.1 h).proceed (fun _ _ => hsecond hp.2) (second.run_extends runs)
  | ifSizing yes no => exact hp.elim
  | ifEmpty yes no hyes hno =>
      -- Whether anything was written yet is seen from the length.
      have hempty : placed.bytes.isEmpty = sized.bytes.isEmpty := by
        have hlength := h.length
        simp only [Writer.length] at hlength
        rw [Bool.eq_iff_iff, List.isEmpty_iff_length_eq_zero, List.isEmpty_iff_length_eq_zero,
          hlength]
      simp only [Program.run, hempty]
      split
      · exact hyes hp.1 h
      · exact hno hp.2 h
  | ifRun count yes no => exact hp.elim
  | loop count body hbody =>
      exact repeatStep_follows (fun _ _ => hbody hp) (body.run_extends runs) count h

end Hotpatch
