import Hotpatch.Proofs.Ownership.Run
import Hotpatch.Proofs.Upkeep.Commands

/-!
# Memory That Is Left Intact

What was mapped at some time is intact later if it is still mapped, with the same
bytes and the same protections. Handing out pages leaves older memory intact, and so
does anything that is done above the pages that came next at that time.

For protections this takes more than that extents are apart. Protections are by page,
so new pages must not share one with an older extent. They do not, because the pages
that come next always begin at the start of one.

## Main definitions

* `Memory.Intact`: Older memory is as it was.
* `Memory.Aligned`: New pages begin at the start of a page.

## Theorems

* `Intact.change`: Changes above older memory.
* `Intact.protectionAt`: Protections of older memory.
* `step_memory`, `run_memory`: What no change of memory breaks.
* `step_aligned`, `run_aligned`: New pages in the runs of a session.
-/

namespace Hotpatch

open Hotpatch.Action

namespace Memory

/-- Everything that an earlier memory had below the pages that came next is as it
    was. -/
structure Intact (origin m : Memory) : Prop where
  later : origin.next ≤ m.next
  extents : ∀ e ∈ origin.extents, e ∈ m.extents
  contents : ∀ a < origin.next, m.contents a = origin.contents a
  protection : ∀ page, page * pageSize < origin.next → m.protection page = origin.protection page

/-- New pages begin at the start of a page. -/
def Aligned (m : Memory) : Prop :=
  pageSize ∣ m.next

variable {origin m m' : Memory} {a : Nat}

theorem Intact.refl (m : Memory) : m.Intact m where
  later := Nat.le_refl _
  extents _ he := he
  contents _ _ := rfl
  protection _ _ := rfl

/-- A page of older memory is not touched by a range above it. -/
theorem Aligned.not_touches (haligned : origin.Aligned) {address length page : Nat}
    (habove : origin.next ≤ address) (hpage : page * pageSize < origin.next) :
    ¬ Touches address length page := by
  intro htouches
  -- The range begins at the start of a page or further up, and no earlier page reaches it.
  rcases haligned with ⟨count, hcount⟩
  have hfirst : address / pageSize ≤ page := htouches.1
  simp only [pageSize] at hcount hpage hfirst
  omega

/-- A change above older memory leaves that intact. -/
theorem Intact.change (h : origin.Intact m) (horderly : origin.Orderly)
    (haligned : origin.Aligned) (hchange : m.Change origin.next m') : origin.Intact m' := by
  cases hchange with
  | same => exact h
  | @reserve length protection base _ reserved =>
      -- New pages are above all that was handed out, and so above the older memory.
      rcases reserve_eq_some reserved with ⟨hbase, -, hextents, -, hnext, -⟩
      have hlater := h.later
      refine ⟨by omega, fun e he => ?_, fun a ha => ?_, fun page hpage => ?_⟩
      · rw [hextents]
        exact List.mem_append_left _ (h.extents e he)
      · rw [reserve_contents reserved (Nat.lt_of_lt_of_le ha hlater), h.contents a ha]
      · rw [reserve_protection reserved, if_neg (haligned.not_touches hlater hpage),
          h.protection page hpage]
  | unmap base above =>
      refine ⟨h.later, fun e he => ?_, h.contents, h.protection⟩
      -- An older extent begins below the one that goes.
      have hbelow := (horderly.placed e he).2
      exact List.mem_filter.mpr ⟨h.extents e he, decide_eq_true (by omega)⟩
  | protect address length protection above =>
      refine ⟨h.later, h.extents, h.contents, fun page hpage => ?_⟩
      rw [← h.protection page hpage]
      exact if_neg (haligned.not_touches above hpage)
  | write address bytes above =>
      refine ⟨h.later, h.extents, fun a ha => ?_, h.protection⟩
      rw [contents_write_of_lt (Nat.lt_of_lt_of_le ha above), h.contents a ha]

theorem Intact.mapped (h : origin.Intact m) (ha : origin.Mapped a) : m.Mapped a := by
  rcases ha with ⟨e, he, hcontains⟩
  exact ⟨e, h.extents e he, hcontains⟩

/-- Older addresses have the protections that they had. -/
theorem Intact.protectionAt (h : origin.Intact m) (horderly : origin.Orderly)
    (ha : origin.Mapped a) : m.protectionAt a = origin.protectionAt a := by
  rw [Memory.protectionAt, Memory.protectionAt, if_pos ha, if_pos (h.mapped ha),
    h.protection _ (page_lt_next (horderly.lt_next ha))]

/-- Whatever is done to a memory, new pages begin at the start of a page. -/
theorem Aligned.change {floor : Nat} (h : m.Aligned) (hchange : m.Change floor m') :
    m'.Aligned := by
  cases hchange with
  | same => exact h
  | @reserve length protection base _ reserved =>
      -- Whole pages are handed out, and one is left free behind them.
      rcases reserve_eq_some reserved with ⟨hbase, -, -, -, hnext, -⟩
      rw [Aligned, hnext, hbase]
      exact Nat.dvd_add (Nat.dvd_add h (Nat.dvd_mul_left _ _)) (Nat.dvd_refl _)
  | unmap base above => exact h
  | protect address length protection above => exact h
  | write address bytes above => exact h

end Memory

/-- A condition on memory that no change of it breaks. -/
theorem upkeep_memory {P : Memory → Prop} (hP : ∀ {m m'}, P m → m.Change 0 m' → P m') :
    Upkeep 0 fun st => P st.1.memory where
  later _ := Nat.zero_le _
  event _ h := h
  host _ _ _ _ hchange h := hP h hchange

namespace Session

/-- A command about the barrier changes nothing else of a host. -/
theorem step_setsBarrier {command : Command} (hbarrier : command.SetsBarrier) (s : Session) :
    (s.step command).1.host.memory = s.host.memory ∧ (s.step command).1.objects = s.objects ∧
      (s.step command).2.trace = [] := by
  cases command with
  | defineBarrier barrier => exact ⟨rfl, rfl, rfl⟩
  | clearBarrier => exact ⟨rfl, rfl, rfl⟩
  | setBarrier name =>
      -- A name that is not defined is answered, and nothing is changed.
      have hfound : (Action.gets (fun s : Session => s.host.barriers.lookup name) s).result =
          .ok (s.host.barriers.lookup name) := rfl
      have hstep : s.step (.setBarrier name) = _ :=
        congrArg (fun o => (o.state, (⟨o.result, o.trace⟩ : Reply))) (bind_ok hfound)
      rw [hstep]
      cases s.host.barriers.lookup name with
      | none => exact ⟨rfl, rfl, rfl⟩
      | some barrier => exact ⟨rfl, rfl, rfl⟩
  | _ => exact hbarrier.elim

section Changes

variable {P : Memory → Prop} (hP : ∀ {m m' : Memory}, P m → m.Change 0 m' → P m')

include hP

/-- What no change of memory breaks no command breaks. -/
theorem step_memory {s : Session} (h : P s.host.memory) (command : Command) :
    P (s.step command).1.host.memory := by
  by_cases hbarrier : command.SetsBarrier
  · rw [(step_setsBarrier hbarrier s).1]
    exact h
  · -- A write to live code is a write to memory, so it keeps the condition as well.
    have hwrite : ∀ m address bytes, P m → P (m.write address bytes) :=
      fun m address bytes hm => hP hm (.write address bytes (Nat.zero_le address))
    have hkeeps := (upkeep_memory hP).perform hbarrier fun _ => LiveCode.overwrite_keeps hwrite
    exact hkeeps.after h

theorem run_memory (commands : List Command) {s : Session} (h : P s.host.memory) :
    P (s.run commands).1.host.memory := by
  induction commands generalizing s with
  | nil => exact h
  | cons command rest ih => exact ih (step_memory hP h command)

end Changes

theorem step_aligned {s : Session} (h : s.host.memory.Aligned) (command : Command) :
    (s.step command).1.host.memory.Aligned := by
  refine step_memory (P := Memory.Aligned) ?_ h command
  exact Memory.Aligned.change

theorem run_aligned (commands : List Command) {s : Session} (h : s.host.memory.Aligned) :
    (s.run commands).1.host.memory.Aligned := by
  refine run_memory (P := Memory.Aligned) ?_ commands h
  exact Memory.Aligned.change

theorem start_aligned (loader : Loader) : (start loader).host.memory.Aligned :=
  ⟨0x10000, rfl⟩

end Session

end Hotpatch
