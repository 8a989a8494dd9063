import Hotpatch.Proofs.Branching.Steps

/-!
# Redundant Commands

To install a patch that is installed, and to uninstall one that is not, is not only
harmless but invisible. The session after it is the very same, with the failures that
are arranged and the bytes that patches keep, and nothing was let out but the answer. So
a run with any number of such commands put in at any points goes as it goes without
them.

## Main definitions

* `Session.Redundant`: A command that has nothing to do, and the reply to it.
* `Entry`: A command of a run, or one that was put in.
* `Session.Fits`: Commands that are redundant where they were put in.

## Theorems

* `Redundant.step`: A redundant command.
* `Fits.run`, `Fits.after`: A run with redundant commands.
* `run_of_fits`: A run with redundant commands, and the same one without them.
-/

namespace Hotpatch

open Hotpatch.Action

/-- A patch that is installed is not installed again. -/
theorem Patch.install_installed {p : Patch} (hinstalled : p.isInstalled = true) (host : Host) :
    install (p, host) = ⟨.ok (), (p, host), []⟩ := by
  have hinstall : install (p, host) = _ := bind_ok rfl
  rw [hinstall]
  dsimp only [gets]
  rw [if_pos hinstalled]
  rfl

/-- A patch that is not installed has nothing to put back. -/
theorem Patch.uninstall_absent {p : Patch} (habsent : p.isInstalled = false) (host : Host) :
    uninstall (p, host) = ⟨.error (.notInstalled p.site), (p, host), []⟩ := by
  have huninstall : uninstall (p, host) = _ := bind_ok rfl
  rw [isInstalled, Option.isSome_eq_false_iff, Option.isNone_iff_eq_none] at habsent
  rw [huninstall]
  dsimp only [gets]
  rw [habsent]
  rfl

/-- A command of a run, or one that was put in. -/
inductive Entry
  | given (command : Command)
  | extra (command : Command)

namespace Entry

def command : Entry → Command
  | given command => command
  | extra command => command

/-- The command, unless it was put in. -/
def given? : Entry → Option Command
  | given command => some command
  | extra _ => none

end Entry

/-- The replies to the commands that were not put in. -/
def givenReplies (entries : List Entry) (replies : List Reply) : List Reply :=
  (entries.zip replies).filterMap fun (entry, reply) => entry.given?.map fun _ => reply

namespace Session

/-- A command that has nothing to do, and the reply to it: to install a patch that is
    installed, and to uninstall one that is not. -/
inductive Redundant (s : Session) : Command → Reply → Prop
  | install {id : String} {p : Patch} (found : s.patch? id = some p)
      (installed : p.isInstalled = true) : Redundant s (.install id) ⟨.ok .done, []⟩
  | uninstall {id : String} {p : Patch} (found : s.patch? id = some p)
      (absent : p.isInstalled = false) :
      Redundant s (.uninstall id) ⟨.error (.notInstalled p.site), []⟩

/-- Commands that are redundant where they were put in. -/
def Fits (s : Session) : List Entry → Prop
  | [] => True
  | .given command :: rest => (s.step command).1.Fits rest
  | .extra command :: rest =>
    (∃ reply, s.Redundant command reply) ∧ (s.step command).1.Fits rest

variable {s : Session} {command : Command} {reply : Reply} {entries : List Entry}

/-- A redundant command changes nothing at all. -/
theorem Redundant.step (h : s.Redundant command reply) : s.step command = (s, reply) := by
  cases h with
  | install found installed =>
      rw [step_install_eq found, Patch.install_installed installed]
      exact congrArg (·, _) (insert_patch_self found)
  | uninstall found absent =>
      rw [step_uninstall_eq found, Patch.uninstall_absent absent]
      exact congrArg (·, _) (insert_patch_self found)

/-- What was put in is invisible. The induction is on the entries, and what was put in
    leaves the session as it is for those that follow. -/
theorem Fits.run (h : s.Fits entries) :
    (s.run (entries.map Entry.command)).1 = (s.run (entries.filterMap Entry.given?)).1 ∧
      givenReplies entries (s.run (entries.map Entry.command)).2 =
        (s.run (entries.filterMap Entry.given?)).2 := by
  induction entries generalizing s with
  | nil => exact ⟨rfl, rfl⟩
  | cons entry rest ih =>
      cases entry with
      | given command =>
          have hafter := ih (s := (s.step command).1) h
          exact ⟨hafter.1, congrArg (_ :: ·) hafter.2⟩
      | extra command =>
          -- The rest begins where the command was put in, and its reply is passed over.
          rcases h with ⟨⟨reply, hredundant⟩, hrest⟩
          rw [hredundant.step] at hrest
          have hafter := ih hrest
          simp only [List.map_cons, Entry.command, Session.run, hredundant.step]
          exact hafter

/-- What was put in further on is redundant when the run has come to it. -/
theorem Fits.after {before rest : List Entry} (h : s.Fits (before ++ rest)) :
    (s.run (before.map Entry.command)).1.Fits rest := by
  induction before generalizing s with
  | nil => exact h
  | cons entry before ih =>
      cases entry with
      | given command => exact ih h
      | extra command => exact ih h.2

/-- A run with redundant commands ends in the session in which it ends without them, and
    all other commands are answered as they are without them. What was put in is answered
    as what it is, and changes nothing where it stands. -/
theorem run_of_fits (h : s.Fits entries) :
    (s.run (entries.map Entry.command)).1 = (s.run (entries.filterMap Entry.given?)).1 ∧
      givenReplies entries (s.run (entries.map Entry.command)).2 =
        (s.run (entries.filterMap Entry.given?)).2 ∧
      ∀ before command after, entries = before ++ .extra command :: after → ∃ reply,
        (s.run (before.map Entry.command)).1.Redundant command reply ∧
          (s.run (before.map Entry.command)).1.step command =
            ((s.run (before.map Entry.command)).1, reply) := by
  refine ⟨h.run.1, h.run.2, fun before command after heq => ?_⟩
  rw [heq] at h
  rcases h.after.1 with ⟨reply, hredundant⟩
  exact ⟨reply, hredundant, hredundant.step⟩

/-- A call into an intercept that is uninstalled before it is installed, installed twice,
    and uninstalled twice. -/
def insistentCall : List Entry :=
  [.given (.mapPages "page" 16 .readWriteExecute),
    .given (.patch "hook" (.branchInto .call (.step (.plain .ret))) (.absolute 0x10000000) false),
    .extra (.uninstall "hook"), .given (.install "hook"), .extra (.install "hook"),
    .given (.uninstall "hook"), .extra (.uninstall "hook")]

/-- In the end memory is as if it had been asked for once. -/
theorem run_of_insistentCall :
    (start ⟨[], []⟩).Fits insistentCall ∧
      ((start ⟨[], []⟩).run (insistentCall.map Entry.command)).1 =
        ((start ⟨[], []⟩).run (insistentCall.filterMap Entry.given?)).1 := by
  have hfits : (start ⟨[], []⟩).Fits insistentCall :=
    ⟨⟨_, .uninstall rfl rfl⟩, ⟨_, .install rfl rfl⟩, ⟨_, .uninstall rfl rfl⟩, True.intro⟩
  exact ⟨hfits, (run_of_fits hfits).1⟩

end Session

end Hotpatch
