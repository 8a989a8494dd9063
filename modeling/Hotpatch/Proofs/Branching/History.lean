import Hotpatch.Proofs.Branching.Handled
import Hotpatch.Proofs.Branching.Installing

/-!
# The Branches Of A Run

Which branches are in memory is a matter of what was done, and of how it ended. A
branch enters memory when its patch is installed, and leaves it when the patch is
uninstalled, or at the end of the patch if it can be uninstalled then. A patch that
goes away while it cannot be uninstalled leaves its branch behind, and from then on
the branch has no owner. A command that fails changes none of this.

An account of the branches says that each of them is in memory, that they do not
overlap, and who keeps the intercepts that they lead to. It is the patch as long as
there is one, and nobody else after that.

## Main definitions

* `LiveBranch`: A branch that was installed and not removed since.
* `Session.branchesAfter`, `Session.branches`: The branches after commands.
* `Session.Permits`, `Session.PermitsAll`: What is asked of the commands.
* `Session.Anchored`: Branches that are in memory.
* `Session.BranchesAccounted`: An account of the branches and of their owners.

## Theorems

* `mem_removed`, `mem_abandoned`: The branches after a patch let go of its own.
* `Anchored.transfer`: Branches that nobody writes to.
* `Anchored.add`: One more branch.
-/

namespace Hotpatch

open Hotpatch.Action

/-- Two patches whose branches do not overlap. -/
def Patch.Apart (p q : Patch) : Prop :=
  p.site.toNat + Branch.size ≤ q.site.toNat ∨ q.site.toNat + Branch.size ≤ p.site.toNat

/-- A patch that branches into an intercept, generated or not. -/
def Patch.Intercepts (p : Patch) : Prop :=
  ∃ kind code memory, p.source = .branch kind (.intercept code memory)

/-- A branch that was installed and not removed since, with the patch as it was when it
    was installed. -/
structure LiveBranch where
  /-- The name of the patch, unless it went away. -/
  owner : Option String
  patch : Patch

/-- The branch after the patch of a name went away without removing it. -/
def LiveBranch.abandoned (id : String) (b : LiveBranch) : LiveBranch :=
  if b.owner = some id then { b with owner := none } else b

theorem LiveBranch.patch_abandoned (id : String) (b : LiveBranch) :
    (b.abandoned id).patch = b.patch := by
  unfold abandoned
  split <;> rfl

namespace Session

/-- The branches without that of a patch. -/
def removed (live : List LiveBranch) (id : String) : List LiveBranch :=
  live.filter (·.owner ≠ some id)

/-- The branches after a command. What counts is whether the command succeeded, and at
    the end of a patch whether it could be uninstalled. -/
def branchesAfter (s : Session) (live : List LiveBranch) : Command → List LiveBranch
  | .install id =>
    match (s.step (.install id)).2.result, (s.step (.install id)).1.patch? id with
    | .ok .done, some p => ⟨some id, p⟩ :: removed live id
    | _, _ => live
  | .uninstall id =>
    match (s.step (.uninstall id)).2.result with
    | .ok .done => removed live id
    | _ => live
  | .drop id =>
    match s.patch? id with
    | some p =>
      if (Patch.uninstall (p, s.host)).result.isOk then removed live id
      else live.map (LiveBranch.abandoned id)
    | none => live
  | _ => live

/-- The branches after a list of commands. -/
def branches (s : Session) (live : List LiveBranch) : List Command → List LiveBranch
  | [] => live
  | command :: rest => (s.step command).1.branches (s.branchesAfter live command) rest

/-- What is asked of a command. Only patches that branch into intercepts are installed,
    in memory that is mapped and where no other branch is. All that is done with patches
    apart from that is permitted, and so are failures. No other command writes to the
    branches. -/
def Permits (s : Session) (live : List LiveBranch) : Command → Prop
  | .install id => ∀ p, s.patch? id = some p → p.isInstalled = false →
      p.Intercepts ∧ (∀ i < Branch.size, s.host.memory.Mapped (p.site.toNat + i)) ∧
        ∀ b ∈ live, b.patch.Apart p
  | .patch _ _ _ _ | .uninstall _ | .target _ | .drop _ => True
  | .failAllocations _ | .arrangeProtections _ => True
  | command => ∀ b ∈ live, ∀ i < Branch.size,
      (s.step command).1.host.memory.contents (b.patch.site.toNat + i) =
        s.host.memory.contents (b.patch.site.toNat + i)

/-- What is asked of a list of commands. -/
def PermitsAll (s : Session) (live : List LiveBranch) : List Command → Prop
  | [] => True
  | command :: rest => s.Permits live command ∧
      (s.step command).1.PermitsAll (s.branchesAfter live command) rest

/-- Branches that are in memory, each in a range of its own, over bytes that were kept. -/
structure Anchored (live : List LiveBranch) (m : Memory) : Prop where
  stands : ∀ b ∈ live, b.patch.Stands m
  saved : ∀ b ∈ live, ∃ saved, b.patch.saved = some saved ∧ saved.length = Branch.size
  placed : ∀ b ∈ live, ∀ i < Branch.size, b.patch.site.toNat + i < m.next
  apart : ∀ b ∈ live, ∀ b' ∈ live, b = b' ∨ b.patch.Apart b'.patch

/-- An account of the branches, next to pages that no object owns any more. -/
structure BranchesAccounted (owned : List Extent) (live : List LiveBranch) (s : Session) :
    Prop where
  anchored : Anchored live s.host.memory
  /-- The branches that have an owner are those of the patches that are installed. -/
  owners : ∀ id p, (⟨some id, p⟩ : LiveBranch) ∈ live ↔
    s.patch? id = some p ∧ p.isInstalled = true
  /-- Nobody owns the intercepts of the others, so they are never freed. -/
  orphans : ∀ p, (⟨none, p⟩ : LiveBranch) ∈ live → ∀ e ∈ p.extents, e ∈ owned

variable {owned : List Extent} {live live' : List LiveBranch} {m m' : Memory} {s : Session}
  {id : String} {p : Patch}

theorem mem_removed {b : LiveBranch} : b ∈ removed live id ↔ b ∈ live ∧ b.owner ≠ some id := by
  rw [removed, List.mem_filter, decide_eq_true_eq]

theorem mem_abandoned {b : LiveBranch} : b ∈ live.map (LiveBranch.abandoned id) ↔
    b ∈ live ∧ b.owner ≠ some id ∨ b.owner = none ∧ ⟨some id, b.patch⟩ ∈ live := by
  rw [List.mem_map]
  refine ⟨fun ⟨b₀, hb₀, heq⟩ => ?_, fun h => ?_⟩
  · -- A branch loses its owner if it is the one, and stays as it is otherwise.
    by_cases howner : b₀.owner = some id
    · rw [LiveBranch.abandoned, if_pos howner] at heq
      rw [← heq, ← howner]
      exact .inr ⟨rfl, hb₀⟩
    · rw [LiveBranch.abandoned, if_neg howner] at heq
      exact .inl (heq ▸ ⟨hb₀, howner⟩)
  · rcases h with ⟨hb, howner⟩ | ⟨hnone, hb⟩
    · exact ⟨b, hb, if_neg howner⟩
    · refine ⟨_, hb, ?_⟩
      rw [LiveBranch.abandoned, if_pos rfl, ← hnone]

/-- The branches of other patches are not removed. -/
theorem owner_mem_removed {other : String} :
    (⟨some other, p⟩ : LiveBranch) ∈ removed live id ↔
      other ≠ id ∧ (⟨some other, p⟩ : LiveBranch) ∈ live := by
  rw [mem_removed, Ne, Option.some.injEq, and_comm]

/-- Nor do they lose their owners. -/
theorem owner_mem_abandoned {other : String} :
    (⟨some other, p⟩ : LiveBranch) ∈ live.map (LiveBranch.abandoned id) ↔
      other ≠ id ∧ (⟨some other, p⟩ : LiveBranch) ∈ live := by
  rw [mem_abandoned, or_iff_left fun h => Option.some_ne_none other h.1, Ne, Option.some.injEq,
    and_comm]

theorem anchored_nil (m : Memory) : Anchored [] m where
  stands _ hb := absurd hb List.not_mem_nil
  saved _ hb := absurd hb List.not_mem_nil
  placed _ hb := absurd hb List.not_mem_nil
  apart _ hb := absurd hb List.not_mem_nil

/-- Branches stay in memory as long as nobody writes to them, whoever owns them. -/
theorem Anchored.transfer (h : Anchored live m) (f : LiveBranch → LiveBranch)
    (hf : ∀ b, (f b).patch = b.patch) (hlive : ∀ b ∈ live', ∃ b₀ ∈ live, f b₀ = b)
    (hnext : m.next ≤ m'.next)
    (hbytes : ∀ b ∈ live', ∀ i < Branch.size,
      m'.contents (b.patch.site.toNat + i) = m.contents (b.patch.site.toNat + i)) :
    Anchored live' m' where
  -- Each branch is one from before, with the same patch, and nobody wrote to it.
  stands b hb := by
    have hsame := hbytes b hb
    rcases hlive b hb with ⟨b₀, hb₀, rfl⟩
    rw [hf] at hsame ⊢
    exact (h.stands b₀ hb₀).congr hsame
  saved b hb := by
    rcases hlive b hb with ⟨b₀, hb₀, rfl⟩
    rw [hf]
    exact h.saved b₀ hb₀
  placed b hb i hi := by
    rcases hlive b hb with ⟨b₀, hb₀, rfl⟩
    rw [hf]
    exact Nat.lt_of_lt_of_le (h.placed b₀ hb₀ i hi) hnext
  apart b hb b' hb' := by
    rcases hlive b hb with ⟨b₀, hb₀, rfl⟩
    rcases hlive b' hb' with ⟨b₀', hb₀', rfl⟩
    rw [hf, hf]
    -- What is one branch before is one branch after, whoever owns it now.
    rcases h.apart b₀ hb₀ b₀' hb₀' with heq | hapart
    · exact .inl (congrArg f heq)
    · exact .inr hapart

/-- Some of the branches, while nobody writes to them. -/
theorem Anchored.subset (h : Anchored live m) (hlive : ∀ b ∈ live', b ∈ live)
    (hnext : m.next ≤ m'.next)
    (hbytes : ∀ b ∈ live', ∀ i < Branch.size,
      m'.contents (b.patch.site.toNat + i) = m.contents (b.patch.site.toNat + i)) :
    Anchored live' m' := by
  refine h.transfer (fun b => b) (fun _ => rfl) (fun b hb => ?_) hnext hbytes
  exact ⟨b, hlive b hb, rfl⟩

/-- One more branch, beside the others. -/
theorem Anchored.add {b : LiveBranch} (h : Anchored live m) (hstands : b.patch.Stands m)
    (hsaved : ∃ saved, b.patch.saved = some saved ∧ saved.length = Branch.size)
    (hplaced : ∀ i < Branch.size, b.patch.site.toNat + i < m.next)
    (hapart : ∀ b' ∈ live, b'.patch.Apart b.patch) : Anchored (b :: live) m where
  stands b' hb' := by
    rcases List.mem_cons.mp hb' with rfl | hb'
    · exact hstands
    · exact h.stands b' hb'
  saved b' hb' := by
    rcases List.mem_cons.mp hb' with rfl | hb'
    · exact hsaved
    · exact h.saved b' hb'
  placed b' hb' := by
    rcases List.mem_cons.mp hb' with rfl | hb'
    · exact hplaced
    · exact h.placed b' hb'
  apart b₁ hb₁ b₂ hb₂ := by
    -- The new branch is apart from all others, and these are apart from each other.
    rcases List.mem_cons.mp hb₁ with h₁ | h₁
    · rcases List.mem_cons.mp hb₂ with h₂ | h₂
      · exact .inl (h₁.trans h₂.symm)
      · rw [h₁]
        exact .inr (hapart b₂ h₂).symm
    · rcases List.mem_cons.mp hb₂ with h₂ | h₂
      · rw [h₂]
        exact .inr (hapart b₁ h₁)
      · exact h.apart b₁ h₁ b₂ h₂

/-- A write to the place of one patch leaves the branches that are apart from it. -/
theorem contents_of_apart {q : Patch} {saved : List UInt8} (hlength : saved.length = Branch.size)
    (hapart : p.Apart q) (hcontents : m'.contents = (m.write p.site.toNat saved).contents)
    {i : Nat} (hi : i < Branch.size) :
    m'.contents (q.site.toNat + i) = m.contents (q.site.toNat + i) := by
  rw [hcontents]
  refine Memory.contents_write_of_outside ?_
  rw [hlength]
  rcases hapart with hbefore | hafter <;> omega

end Session

end Hotpatch
