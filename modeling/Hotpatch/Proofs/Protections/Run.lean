import Hotpatch.Proofs.Branching.Steps
import Hotpatch.Proofs.Protections.Settled

/-!
# Protections Do Not Drift

Wherever a session has come to, every page that is mapped has the protection that it
was made with. A page of the environment has the one that was asked for, and a page of
executable memory can be read, written and run. It makes no difference what was written
to the page, by which patches, whether its protection was lifted for that, and what
failed on the way.

Pages are never handed out again. So an address that is mapped now was mapped by one
command, and has been mapped since then, and no command on the way has changed the
protection of its page.

## Main definitions

* `Command.grants`: The protection of the pages that a command makes.
* `Session.Makes`: A command that maps an address.

## Theorems

* `step_settled`: Protections through one command.
* `run_kept`: The protection of a page for as long as it is mapped.
* `exists_makes`: Every mapped address was mapped by some command.
* `protections_of_run`: Protections, whatever was done.
-/

namespace Hotpatch

open Hotpatch.Action

/-- The protection of the pages that a command makes, if it makes any. -/
def Command.grants : Command → Protection
  | .mapPages _ _ given => given
  | _ => .readWriteExecute

namespace Session

variable {floor : Nat} {owned : List Extent} {s : Session} {command : Command} {a : Nat}

/-- Pages of the environment have the protection that was asked for, if there is room for
    them. -/
theorem allocatePages_settled (origin : Memory) (length : Nat) (protection : Protection) :
    Keeps (fun st => origin.Settled protection st.1.memory) id
      (Host.allocatePages length protection) := by
  have hpages : Preserves (fun host : Host => origin.Settled protection host.memory)
      (Host.allocatePages length protection) := by
    refine .pointwise fun host h => ?_
    exact (Host.allocatePages_from host length protection).weaken (fun _ hh => hh)
      (fun _ _ hh => h.reserve hh.2.2.2) fun _ _ hh => hh.2.2 ▸ h
  exact lift hpages

/-- A command leaves old pages the protections that they had, and gives new ones theirs. -/
theorem step_settled (hs : s.Accounted floor (fun _ _ => True) owned)
    (haligned : s.host.memory.Aligned) (command : Command) :
    s.host.memory.Settled command.grants (s.step command).1.host.memory := by
  have hself : ∀ given, s.host.memory.Settled given s.host.memory :=
    .self hs.owns.orderly haligned
  by_cases hbarrier : command.SetsBarrier
  · rw [(step_setsBarrier hbarrier s).1]
    exact hself _
  by_cases hmaps : ∃ id length protection, command = .mapPages id length protection
  · -- Only the environment chooses a protection.
    rcases hmaps with ⟨id, length, protection, rfl⟩
    exact (Upkeep.keep (allocatePages_settled s.host.memory length protection)).after (hself _)
  · have hgrants : command.grants = .readWriteExecute := by
      cases command <;> first | rfl | exact absurd ⟨_, _, _, rfl⟩ hmaps
    rw [hgrants]
    have hC := tending_settled s.host.memory
    have hsustains : command.Sustains
        fun st => s.host.memory.Settled .readWriteExecute st.1.memory := by
      constructor
      case map => exact fun heq => absurd ⟨_, _, _, heq⟩ hmaps
      -- A look and a write with protections lifted are over when they are put back.
      case guard =>
        exact fun _ => Host.keeps_of_lands (fun m => Host.withWritable_gets_lands m _) fun _ h => h
      case live =>
        exact fun _ => LiveCode.overwrite_keeps fun _ address bytes h => h.write address bytes
      case free => exact fun _ => hC.freePages (Nat.zero_le _)
      case poke => exact fun _ => hC.store (Nat.zero_le _) _
      case write => exact fun _ _ => hC.write fun _ _ => Nat.zero_le _
    exact (hC.perform hbarrier hsustains).after (hself _)

/-- A command that maps an address. -/
def Makes (s : Session) (command : Command) (a : Nat) : Prop :=
  ¬ s.host.memory.Mapped a ∧ (s.step command).1.host.memory.Mapped a

/-- An address that is not mapped any more is not mapped again. -/
theorem run_unmapped (commands : List Command)
    (hs : s.Accounted floor (fun _ _ => True) owned) (haligned : s.host.memory.Aligned)
    (hbelow : a < s.host.memory.next) (hunmapped : ¬ s.host.memory.Mapped a) :
    ¬ (s.run commands).1.host.memory.Mapped a := by
  induction commands generalizing s owned with
  | nil => exact hunmapped
  | cons command rest ih =>
      have hbelow' := Nat.lt_of_lt_of_le hbelow (next_le_step hs command)
      refine ih (step_accounted hs command fun _ _ _ => True.intro) (step_aligned haligned command)
        hbelow' fun hmapped => ?_
      -- What a command maps lies above all that was handed out before.
      rcases (step_settled hs haligned command).protectionAt hmapped with ⟨hold, -⟩ | ⟨hnew, -⟩
      · exact hunmapped hold
      · exact absurd hbelow (Nat.not_lt.mpr hnew)

/-- The page of an address keeps its protection for as long as the address is mapped. -/
theorem run_kept (commands : List Command) (hs : s.Accounted floor (fun _ _ => True) owned)
    (haligned : s.host.memory.Aligned) (hmapped : s.host.memory.Mapped a)
    (hend : (s.run commands).1.host.memory.Mapped a) :
    (s.run commands).1.host.memory.protectionAt a = s.host.memory.protectionAt a := by
  induction commands generalizing s owned with
  | nil => rfl
  | cons command rest ih =>
      have haccounted := step_accounted hs command fun _ _ _ => True.intro
      have haligned' := step_aligned haligned command
      have hbelow := hs.owns.orderly.lt_next hmapped
      -- If the address were not mapped on the way, it would not be mapped in the end.
      have hthere : (s.step command).1.host.memory.Mapped a := by
        by_contra hgone
        exact run_unmapped rest haccounted haligned'
          (Nat.lt_of_lt_of_le hbelow (next_le_step hs command)) hgone hend
      refine (ih haccounted haligned' hthere hend).trans ?_
      rcases (step_settled hs haligned command).protectionAt hthere with ⟨-, hkept⟩ | ⟨hnew, -⟩
      · exact hkept
      · exact absurd hbelow (Nat.not_lt.mpr hnew)

/-- An address that is mapped in the end was mapped before, or some command mapped it. -/
theorem exists_makes (commands : List Command) (hend : (s.run commands).1.host.memory.Mapped a)
    (hstart : ¬ s.host.memory.Mapped a) : ∃ before command after,
      commands = before ++ command :: after ∧ (s.run before).1.Makes command a := by
  induction commands generalizing s with
  | nil => exact absurd hend hstart
  | cons command rest ih =>
      by_cases hmapped : (s.step command).1.host.memory.Mapped a
      · exact ⟨[], command, rest, rfl, hstart, hmapped⟩
      · rcases ih hend hmapped with ⟨before, made, after, heq, hmakes⟩
        exact ⟨command :: before, made, after, congrArg (command :: ·) heq, hmakes⟩

/-- A run goes on where a shorter one ended. -/
theorem run_append (s : Session) (before after : List Command) :
    (s.run (before ++ after)).1 = ((s.run before).1.run after).1 := by
  induction before generalizing s with
  | nil => rfl
  | cons command before ih => exact ih _

/-- Every page that is mapped was mapped by some command, and has the protection that this
    command gives. -/
theorem protections_of_run (loader : Loader) (commands : List Command) (a : Nat)
    (hmapped : ((start loader).run commands).1.host.memory.Mapped a) :
    (∃ before command after, commands = before ++ command :: after ∧
        ((start loader).run before).1.Makes command a) ∧
      ∀ before command after, commands = before ++ command :: after →
        ((start loader).run before).1.Makes command a →
          ((start loader).run commands).1.host.memory.protectionAt a = some command.grants := by
  refine ⟨exists_makes commands hmapped fun ⟨e, he, _⟩ => absurd he List.not_mem_nil,
    fun before command after heq hmakes => ?_⟩
  have hbefore := run_accounted before (start_accounted loader)
  have haligned := run_aligned before (start_aligned loader)
  rw [heq, run_append] at hmapped ⊢
  -- The command gives the page its protection, and the rest of the run keeps it.
  have hkept := run_kept after (step_accounted hbefore command fun _ _ _ => True.intro)
    (step_aligned haligned command) hmakes.2 hmapped
  refine hkept.trans ?_
  rcases (step_settled hbefore haligned command).protectionAt hmakes.2 with ⟨hold, -⟩ | ⟨-, hnew⟩
  · exact absurd hold hmakes.1
  · exact hnew

/-- A call into an intercept, over two pages of their own that cannot be written. Its
    removal is refused, and so it stays when the patch goes away. -/
def refusedRemoval : List Command :=
  [.mapPages "page" 0x2000 .readExecute,
    .patch "hook" (.branchInto .call (.step (.plain .ret))) (.absolute 0x10000FFE) true,
    .install "hook", .failProtections 1, .drop "hook"]

set_option maxRecDepth 8000 in
/-- The pages cannot be written after it, and the intercept that was left can be run. -/
theorem protections_of_refusedRemoval :
    ((start ⟨[], []⟩).run refusedRemoval).1.host.memory.Mapped 0x10000FFE ∧
      ((start ⟨[], []⟩).run refusedRemoval).1.host.memory.protectionAt 0x10000FFE =
        some .readExecute ∧
      ((start ⟨[], []⟩).run refusedRemoval).1.host.memory.Mapped 0x10003000 ∧
      ((start ⟨[], []⟩).run refusedRemoval).1.host.memory.protectionAt 0x10003000 =
        some .readWriteExecute := by
  have hpage : ((start ⟨[], []⟩).run refusedRemoval).1.host.memory.Mapped 0x10000FFE :=
    ⟨⟨0x10000000, 0x2000⟩, List.mem_cons_self, by decide⟩
  have hintercept : ((start ⟨[], []⟩).run refusedRemoval).1.host.memory.Mapped 0x10003000 :=
    ⟨⟨0x10003000, 0x1000⟩, List.mem_cons_of_mem _ List.mem_cons_self, by decide⟩
  refine ⟨hpage, ?_, hintercept, ?_⟩
  · -- The first command mapped the page, and the third the intercept.
    refine (protections_of_run ⟨[], []⟩ refusedRemoval 0x10000FFE hpage).2 [] _ _ rfl ⟨?_, ?_⟩
    · exact fun ⟨e, he, _⟩ => absurd he List.not_mem_nil
    · exact ⟨⟨0x10000000, 0x2000⟩, List.mem_cons_self, by decide⟩
  · refine (protections_of_run ⟨[], []⟩ refusedRemoval 0x10003000 hintercept).2
      (refusedRemoval.take 2) (.install "hook") _ rfl ⟨?_, ?_⟩
    · rintro ⟨e, he, hcontains⟩
      rw [List.mem_singleton.mp he] at hcontains
      exact absurd hcontains.2 (by decide)
    · exact ⟨⟨0x10003000, 0x1000⟩, List.mem_cons_of_mem _ List.mem_cons_self, by decide⟩

end Session

end Hotpatch
