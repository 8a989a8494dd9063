import Hotpatch.Proofs.Bracketing.Patches
import Hotpatch.Proofs.Reach.Displacement
import Hotpatch.Proofs.Resolving.Attempts

/-!
# How A Branch Is Installed

A patch with a branch first resolves its target and then writes the branch. Both may
touch memory, in different places. An intercept goes into new pages, so all older memory
is intact when the branch is encoded, and then only the five bytes of the branch change.
The displacement is counted from the patched address, which is where the bytes are read
again.

A target that was resolved once is known. What it answered then it answers from then on,
whatever happens to the host.

## Main definitions

* `Memory.BranchesTo`: A branch that is read in memory and leads to an address.

## Theorems

* `Branch.branchesTo_of_encode`: A branch that was encoded for a site leads to its target.
* `Target.resolve_again`: A target that was resolved is known.
* `Target.resolve_intact`: Older memory while a target is resolved.
* `Patch.install_branch`: What installing a patch with a branch does, step by step.
-/

namespace Hotpatch

open Hotpatch.Action

variable {kind : Branch} {target : Target} {host : Host} {address site : Address}
  {bytes : List UInt8}

/-- A branch is read at a site, and it leads to an address: in the 32 bits of the
    generated code always, and in all bits if a displacement is wide enough for that. -/
def Memory.BranchesTo (m : Memory) (site : Address) (kind : Branch) (address : Address) : Prop :=
  ∃ d, (∀ rest, readLine site (m.read site.toNat Branch.size ++ rest) =
      some (⟨site, Branch.size, .branch kind, [.relative d]⟩, rest)) ∧
    (destination (site + UInt64.ofNat Branch.size) d).toUInt32 = address.toUInt32 ∧
    (Near (site + UInt64.ofNat Branch.size) address →
      destination (site + UInt64.ofNat Branch.size) d = address)

/-- A branch that was encoded for a site leads from there to its target. -/
theorem Branch.branchesTo_of_encode {m : Memory} (h : kind.encode address site false = .ok bytes)
    (hread : m.read site.toNat Branch.size = bytes) : m.BranchesTo site kind address := by
  rcases reads_branch h with ⟨hlength, d, hreads, hreaches⟩
  refine ⟨d, fun rest => ?_, hreaches.1, hreaches.exact_of_near⟩
  rw [hread, readLine_of_reads hreads, hlength]

/-- A write over older memory leaves alone what is beside it. -/
theorem Memory.Intact.beside_write {origin m m' : Memory} {base a : Nat} (h : origin.Intact m)
    (horderly : origin.Orderly) (hsame : (m.write base bytes).Same m') (ha : origin.Mapped a)
    (hout : a < base ∨ base + bytes.length ≤ a) :
    m'.Mapped a ∧ m'.contents a = origin.contents a := by
  refine ⟨?_, ?_⟩
  · rcases h.mapped ha with ⟨e, he, hcontains⟩
    refine ⟨e, ?_, hcontains⟩
    -- A write maps nothing and unmaps nothing.
    rw [hsame.extents]
    exact he
  · rw [hsame.contents, contents_write_of_outside hout, h.contents a (horderly.lt_next ha)]

namespace Target

/-- A target that was resolved once is known on every host, and nothing is done to find
    it. -/
theorem resolve_again (h : (resolve kind (target, host)).result = .ok address) (host' : Host) :
    resolve kind ((resolve kind (target, host)).state.1, host') =
      ⟨.ok address, ((resolve kind (target, host)).state.1, host'), []⟩ := by
  cases target with
  | fixed a =>
      -- A fixed target is only looked at, and the host has no say in that.
      have haddress : branchTarget a = .ok address := h
      change (⟨branchTarget a, (fixed a, host'), []⟩ : Outcome _ _) = _
      rw [haddress]
      rfl
  | intercept code memory =>
      cases memory with
      | some region =>
          -- A region that was live then is live now, and where it was.
          have haddress : region.liveAddress = .ok address := h
          change (⟨region.liveAddress, (intercept code (some region), host'), []⟩ :
            Outcome _ _) = _
          rw [haddress]
          rfl
      | none =>
          -- What was generated the first time is kept, and live, so it is found again.
          rcases resolve_pending kind code host with ⟨hresult, hstate⟩
          rw [h] at hresult
          rw [hstate]
          cases hgenerated : (Region.generate (code, host)).result with
          | error fault =>
              rw [hgenerated] at hresult
              exact absurd hresult nofun
          | ok region =>
              rw [hgenerated] at hresult
              have hlive := Region.generate_live.of_ok True.intro hgenerated
              rw [Except.ok.inj hresult]
              exact resolve_known hlive

/-- To find a target leaves older memory as it is. -/
theorem resolve_intact (kind : Branch) (target : Target) (horderly : host.memory.Orderly)
    (haligned : host.memory.Aligned) :
    host.memory.Intact (resolve kind (target, host)).state.2.memory := by
  have hresolve := (upkeep_prepared horderly haligned host.slot).tending.resolve kind
  have hprepared := hresolve.after (s := (target, host)) (.start host)
  exact hprepared.intact

end Target

namespace Patch

variable {p : Patch}

/-- The target of a patch that is known, found without doing anything. -/
theorem target_of_resolve (hsource : p.source = .branch kind target)
    (h : Target.resolve kind (target, host) = ⟨.ok address, (target, host), []⟩) :
    Patch.target (p, host) = ⟨.ok (some address), (p, host), []⟩ := by
  rcases p with ⟨site, source, saved, unprotected⟩
  subst hsource
  -- The target is resolved in its place in the patch, and put back as it was.
  have hresolve : onSource ((Target.resolve kind).within (fun state => (target, state.2))
      fun _ part => (.branch kind part.1, part.2))
        (⟨site, .branch kind target, saved, unprotected⟩, host) =
      ⟨.ok address, (⟨site, .branch kind target, saved, unprotected⟩, host), []⟩ := by
    simp only [onSource, within, h]
  have htarget : Patch.target (⟨site, .branch kind target, saved, unprotected⟩, host) = _ :=
    bind_ok rfl
  rw [htarget]
  dsimp only
  rw [map_eq, gets, hresolve]
  rfl

/-- A patch with a branch that is installed has resolved its target, has written the branch
    to it over the memory that was there then, and keeps what that covered. -/
theorem install_branch (hnew : p.isInstalled = false) (hsource : p.source = .branch kind target) :
    Triple (fun st => st = (p, host)) install
      (fun _ st => ∃ address bytes, (Target.resolve kind (target, host)).result = .ok address ∧
        kind.encode address p.site false = .ok bytes ∧
        st.1 = { p with
          source := .branch kind (Target.resolve kind (target, host)).state.1
          saved := some ((Target.resolve kind (target, host)).state.2.memory.read p.site.toNat
            Branch.size) } ∧
        ((Target.resolve kind (target, host)).state.2.memory.write p.site.toNat bytes).Same
          st.2.memory)
      fun _ _ => True := by
  rcases Source.payload_branch p.site kind target host with ⟨hresult, hstate⟩
  rw [← hsource] at hresult hstate
  refine install_from hnew (fun bytes hbytes => ?_) fun _ _ => True.intro
  rw [hstate]
  rw [hresult] at hbytes
  cases hresolved : (Target.resolve kind (target, host)).result with
  | error fault =>
      -- Without a target there is no branch to write.
      rw [hresolved] at hbytes
      exact absurd hbytes nofun
  | ok address =>
      rw [hresolved] at hbytes
      have hencode : kind.encode address p.site false = .ok bytes := hbytes
      -- A branch is never empty, so it is written over what the attempt left.
      have hlength : bytes.length = Branch.size := (reads_branch hencode).1
      rw [if_neg (by rw [List.isEmpty_iff_length_eq_zero, hlength]; decide)]
      have hwrites := writeReplacement_writes (Target.resolve kind (target, host)).state.2.memory
        (p.withSource (.branch kind (Target.resolve kind (target, host)).state.1)) bytes
      refine hwrites.weaken (fun st h => ?_) (fun _ st h => ?_) fun _ _ _ => True.intro
      · rw [h]
        exact ⟨rfl, .refl _⟩
      · rw [hlength] at h
        exact ⟨address, bytes, rfl, hencode, h.1, h.2⟩

end Patch

end Hotpatch
