import Hotpatch.Proofs.Atomicity.Commands

/-!
# Atomicity Through Runs

Wherever a session has come to, a command that fails leaves memory and patches as they
were. It may have failed for want of memory, because protections could not be lifted,
or because of code that has no encoding, and it may have failed after half of its work
was done.

So what failed can be tried again. In particular a patch that could not be uninstalled
is installed still, and keeps the bytes that it is to put back.

## Theorems

* `unharmed_of_fault`: A failed command after any commands.
-/

namespace Hotpatch

namespace Session

/-- A command that fails changes nothing that was there. All that was mapped is mapped
    still, with the same bytes and protections. Every patch is installed if it was, and
    keeps the bytes that it kept. If the fault is one of encoding no barrier was
    called. -/
theorem unharmed_of_fault (loader : Loader) (commands : List Command) {s : Session}
    (hs : s = ((start loader).run commands).1) {command : Command} {fault : Fault}
    (hfault : (s.step command).2.fault? = some fault) :
    (∀ a, s.host.memory.Mapped a → (s.step command).1.host.memory.Mapped a ∧
        (s.step command).1.host.memory.contents a = s.host.memory.contents a ∧
        (s.step command).1.host.memory.protectionAt a = s.host.memory.protectionAt a) ∧
      (∀ id, ((s.step command).1.patch? id).map (fun p => (p.site, p.isInstalled, p.saved)) =
        (s.patch? id).map fun p => (p.site, p.isInstalled, p.saved)) ∧
      (fault.isEncoding = true → ∀ event ∈ (s.step command).2.trace, event.IsQuiet) := by
  have haccounted := run_accounted commands (start_accounted loader)
  have haligned := run_aligned commands (start_aligned loader)
  rw [← hs] at haccounted haligned
  have horderly := haccounted.owns.orderly
  have hharmless := step_harmless haccounted haligned hfault
  -- What is mapped is below the pages that come next, and all below them is intact.
  refine ⟨fun a ha => ⟨hharmless.intact.mapped ha, ?_, ?_⟩, fun id => ?_, hharmless.early⟩
  · exact hharmless.intact.contents a (horderly.lt_next ha)
  · exact hharmless.intact.protectionAt horderly ha
  · -- Whether a patch is installed is whether it keeps something.
    have hpatch := congrArg (Option.map fun entry => (entry.1, entry.2.isSome, entry.2))
      (hharmless.patches id)
    rw [Option.map_map, Option.map_map] at hpatch
    exact hpatch

/-- A patch in a page that is not writable, which was installed while that could be
    lifted, and cannot be uninstalled now. -/
def refusedUninstall : List Command :=
  [.mapPages "page" 16 .readExecute,
    .patch "patch" (.literal [1, 2, 3]) (.absolute 0x10000000) true,
    .install "patch", .failProtections 1]

set_option maxRecDepth 4000 in
/-- The patch stays, and can be uninstalled later. -/
theorem unharmed_of_refusedUninstall :
    (((start ⟨[], []⟩).run refusedUninstall).1.step (.uninstall "patch")).2.fault? =
        some (.protectionRefused 0x10000000 3 .systemCall) ∧
      ((((start ⟨[], []⟩).run refusedUninstall).1.step (.uninstall "patch")).1.patch?
        "patch").map (fun p => (p.site, p.isInstalled, p.saved)) =
          some (0x10000000, true, some [0, 0, 0]) := by
  have hfault : (((start ⟨[], []⟩).run refusedUninstall).1.step (.uninstall "patch")).2.fault? =
      some (.protectionRefused 0x10000000 3 .systemCall) := by rfl
  exact ⟨hfault, (unharmed_of_fault ⟨[], []⟩ refusedUninstall rfl hfault).2.1 "patch"⟩

end Session

end Hotpatch
