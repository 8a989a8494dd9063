import Hotpatch.Proofs.Patching.Effects
import Hotpatch.Proofs.Disassembly.RoundTrip

/-!
# Branches Into Intercepts

A patch that is installed with a branch to an intercept holds on to the intercept. What
it wrote is the branch from its place to the intercept, which is live, and both are as
they were until the patch is uninstalled. A patch that goes away gives its intercept
back once the branch is gone. If the branch cannot be removed, the patch goes away
without touching memory at all.

## Main definitions

* `Source.IsLive`: A source whose intercept is live, if it has one.
* `Patch.Stands`: A patch whose branch to an intercept is in memory.
* `Patch.Landed`: What a patch with a branch is when it was installed.

## Theorems

* `resolve_live`, `payload_live`: A branch leads to where its intercept is.
* `install_live`, `install_landed`: A patch that is installed.
* `target_stays`, `target_known`: A patch that is asked for its target.
* `drop_abandons`: The end of a patch whose branch cannot be removed.
* `Stands.reads`: A branch in memory is read as one.
-/

namespace Hotpatch

open Hotpatch.Action

/-- A new region is live. -/
theorem Region.allocate_live (size : Nat) :
    Triple (fun _ => True) (allocate size) (fun r _ => r.isReleased = false) fun _ _ => True := by
  unfold allocate
  dsimp only
  split
  · exact .fail_bind fun _ _ => True.intro
  · refine .bind .trivial fun base => ?_
    refine .bind (Q := fun _ _ => True) (.attempt .trivial) fun result => ?_
    cases result with
    | error fault => exact .bind .trivial fun _ => .fail fun _ _ => True.intro
    | ok _ => exact .bind_log (.ret fun _ _ => rfl)

theorem Region.generate_live :
    Triple (fun _ => True) generate (fun r _ => r.isReleased = false) fun _ _ => True := by
  unfold generate
  refine .bind .trivial fun expected => .bind (allocate_live expected).onSecond fun r => ?_
  -- The region that is answered is the one that was allocated, and is live from then on.
  refine .assuming (fun _ h => h) fun hlive => ?_
  refine .bind (Q := fun _ _ => True) (.attempt .trivial) fun result => ?_
  cases result with
  | error fault => exact .bind .trivial fun _ => .fail fun _ _ => True.intro
  | ok bytes =>
      dsimp only
      split
      · exact .bind .trivial fun _ => .ret fun _ _ => hlive
      · exact .bind .trivial fun _ => .fail fun _ _ => True.intro

/-- The intercept of a target is live, if it is generated. -/
def Target.IsLive (t : Target) : Prop :=
  ∀ region, t.memory? = some region → region.isReleased = false

def Source.IsLive (source : Source) : Prop :=
  ∀ t, source.target? = some t → t.IsLive

theorem Target.IsLive.branch {t : Target} (h : t.IsLive) (kind : Branch) :
    (Source.branch kind t).IsLive := by
  intro _ ht
  exact Option.some.inj ht ▸ h

theorem Patch.isLive_iff {p : Patch} :
    p.source.IsLive ↔ ∀ region, p.intercept? = some region → region.isReleased = false := by
  refine ⟨fun h region hregion => ?_, fun h t ht region hregion => h region ?_⟩
  · rcases Option.bind_eq_some_iff.mp hregion with ⟨t, ht, hmemory⟩
    exact h t ht region hmemory
  · exact Option.bind_eq_some_iff.mpr ⟨t, ht, hregion⟩

/-- A target that is resolved leads to its intercept, which is live then. -/
theorem Target.resolve_live (kind : Branch) {target : Target} (hlive : target.IsLive) :
    Triple (fun st : Target × Host => st.1 = target) (resolve kind)
      (fun address st => st.1.IsLive ∧ ∀ code memory, target = .intercept code memory →
        ∃ code region, st.1 = .intercept code (some region) ∧ region.address = address)
      fun _ st => st.1.IsLive := by
  unfold resolve
  refine .bind_known (a := target) (fun _ h => h) ?_
  split
  · -- A fixed target is no intercept.
    refine .ofExcept (fun _ st _ h => ⟨h ▸ hlive, fun code memory heq => ?_⟩)
      fun _ st _ h => h ▸ hlive
    exact absurd heq (by simp only [reduceCtorEq, not_false_eq_true])
  · -- An intercept that exists is answered by its address, and stays what it is.
    next code region =>
      refine .ofExcept (fun address st haddress h => ⟨h ▸ hlive, fun _ _ _ => ?_⟩)
        fun _ st _ h => h ▸ hlive
      refine ⟨code, region, h, ?_⟩
      unfold Region.liveAddress at haddress
      split at haddress
      · next base hbase =>
          rw [Region.address, hbase]
          exact Except.ok.inj haddress
      · exact absurd haddress (by simp only [reduceCtorEq, not_false_eq_true])
  · -- A pending intercept is generated, and without a region it is live in any case.
    next code =>
      refine .bind (Q := fun r st => (∃ code, st.1 = .intercept code none) ∧
        r.isReleased = false) (.within fun st h => ?_) fun r => ?_
      · refine Region.generate_live.weaken (fun _ _ => True.intro)
          (fun _ part h => ⟨⟨part.1, rfl⟩, h⟩) fun _ part _ region hregion => ?_
        exact absurd hregion (Option.some_ne_none region).symm
      · refine .bind_log (.bind_modify (.ret fun _ h => h) fun st h => ?_)
        rcases h with ⟨⟨code, hcode⟩, hlive⟩
        have htarget : st.1.withMemory r = .intercept code (some r) :=
          congrArg (Target.withMemory r) hcode
        refine ⟨fun region hregion => ?_, fun _ _ _ => ⟨code, r, htarget, rfl⟩⟩
        rw [htarget] at hregion
        rw [← Option.some.inj hregion]
        exact hlive

/-- The target of a branch, resolved in its place. -/
theorem Source.branch_live (kind : Branch) {target : Target} (hlive : target.IsLive) :
    Triple (fun _ : Source × Host => True)
      ((Target.resolve kind).within (fun st => (target, st.2))
        fun _ part => (.branch kind part.1, part.2))
      (fun address st => st.1.IsLive ∧ ∀ code memory, target = .intercept code memory →
        ∃ code region, st.1 = .branch kind (.intercept code (some region)) ∧
          region.address = address) fun _ st => st.1.IsLive := by
  refine .within fun st _ => ?_
  refine (Target.resolve_live kind hlive).weaken (fun part h => h ▸ rfl)
    (fun address part h => ⟨h.1.branch kind, fun code memory heq => ?_⟩)
      fun _ part h => h.branch kind
  -- The branch is to what the target has become.
  rcases h.2 code memory heq with ⟨code, region, htarget, haddress⟩
  exact ⟨code, region, congrArg (Source.branch kind) htarget, haddress⟩

/-- What is written to branch into an intercept leads to where the intercept then is. -/
theorem Source.payload_live (site : Address) {source : Source} (hlive : source.IsLive) :
    Triple (fun st : Source × Host => st.1 = source) (payload site)
      (fun bytes st => st.1.IsLive ∧ ∀ kind code memory,
        source = .branch kind (.intercept code memory) →
          ∃ code region, st.1 = .branch kind (.intercept code (some region)) ∧
            kind.encode region.address site false = .ok bytes)
      fun _ st => st.1.IsLive := by
  have hother : ∀ source : Source, source.target? = none → source.IsLive := fun source h t ht =>
    absurd (h.symm.trans ht) (Option.some_ne_none t).symm
  unfold payload
  refine .bind_known (a := source) (fun _ h => h) ?_
  -- Only a branch says anything of an intercept, and the other sources are no branches.
  split
  · refine .ret fun st h => ⟨h ▸ hlive, fun kind code memory heq => ?_⟩
    exact absurd heq (by simp only [reduceCtorEq, not_false_eq_true])
  · refine .within fun st _ => ?_
    refine Triple.trivial.weaken (fun _ h => h)
      (fun _ part _ => ⟨hother _ rfl, fun kind code memory heq => ?_⟩) fun _ _ _ => hother _ rfl
    exact absurd heq (by simp only [reduceCtorEq, not_false_eq_true])
  · -- The target is resolved first, and encoded as it was then found.
    next kind target =>
      have hbranch := branch_live kind (hlive target rfl)
      refine .bind (hbranch.before fun _ _ => True.intro) fun address => ?_
      refine .ofExcept (fun bytes st hbytes h => ⟨h.1, ?_⟩) fun _ _ _ h => h.1
      intro kind' code memory heq
      rw [Source.branch.injEq] at heq
      rcases h.2 code memory heq.2 with ⟨code, region, hsource, haddress⟩
      rw [← heq.1]
      exact ⟨code, region, hsource, haddress ▸ hbytes⟩

namespace Patch

/-- A patch whose branch to its intercept is in memory. -/
def Stands (m : Memory) (p : Patch) : Prop :=
  ∃ kind code region, p.source = .branch kind (.intercept code (some region)) ∧
    region.isReleased = false ∧
      kind.encode region.address p.site false = .ok (m.read p.site.toNat Branch.size)

/-- A branch of a patch entered memory, and the patch keeps the bytes that were there.
    No other bytes of older memory changed. -/
structure Landed (p : Patch) (origin : Memory) (st : Patch × Host) : Prop where
  site : st.1.site = p.site
  saved : ∃ saved, st.1.saved = some saved ∧ saved.length = Branch.size
  stands : st.1.Stands st.2.memory
  others : ∀ a < origin.next, a < p.site.toNat ∨ p.site.toNat + Branch.size ≤ a →
    st.2.memory.contents a = origin.contents a

variable {p : Patch} {host : Host} {floor : Nat} {owned : List Extent} {kind : Branch}
  {code : Code} {memory : Option Region} {m m' : Memory}

/-- A branch stands as long as its bytes do. -/
theorem Stands.congr (h : p.Stands m)
    (hbytes : ∀ i < Branch.size, m'.contents (p.site.toNat + i) = m.contents (p.site.toNat + i)) :
    p.Stands m' := by
  rcases h with ⟨kind, code, region, hsource, hlive, hencode⟩
  refine ⟨kind, code, region, hsource, hlive, ?_⟩
  rw [Memory.read_congr hbytes]
  exact hencode

/-- A branch that stands is read as a branch to its intercept. -/
theorem Stands.reads (h : p.Stands m) :
    ∃ kind code region line, p.source = .branch kind (.intercept code (some region)) ∧
      region.isReleased = false ∧ (Instruction.branch kind region.address).Shows line ∧
        ∀ rest, readLine p.site (m.read p.site.toNat Branch.size ++ rest) = some (line, rest) := by
  rcases h with ⟨kind, code, region, hsource, hlive, hencode⟩
  rcases Instruction.shows_of_encode (i := .branch kind region.address) True.intro hencode with
    ⟨line, hshows, -, hread⟩
  exact ⟨kind, code, region, line, hsource, hlive, hshows, hread⟩

/-- A patch that is installed holds on to the intercept that it branches into. -/
theorem install_live (hlive : p.source.IsLive) :
    Triple (fun st => st = (p, host)) install
      (fun _ st => st.1.source.IsLive ∧ (p.isInstalled = false → ∀ kind code memory,
        p.source = .branch kind (.intercept code memory) → st.1.isInstalled = true ∧
          ∃ code region bytes, st.1.source = .branch kind (.intercept code (some region)) ∧
            p.replacement host = .ok bytes ∧
              kind.encode region.address p.site false = .ok bytes))
      fun _ st => st.1.source.IsLive := by
  unfold install
  refine .bind_known (a := p) (fun _ h => h ▸ rfl) ?_
  split
  · next hinstalled =>
      refine .ret fun st h => ⟨?_, fun hnew => ?_⟩
      · rw [h]
        exact hlive
      · rw [hinstalled] at hnew
        exact absurd hnew.symm Bool.false_ne_true
  · refine .bind (Q := fun bytes st => p.replacement host = .ok bytes ∧ st.1.source.IsLive ∧
      ∀ kind code memory, p.source = .branch kind (.intercept code memory) →
        ∃ code region, st.1.source = .branch kind (.intercept code (some region)) ∧
          kind.encode region.address p.site false = .ok bytes)
      (.within fun st h => ?_) fun bytes => ?_
    · have hpayload : Triple (fun part => part = (p.source, host)) (Source.payload p.site) _ _ :=
        (Source.payload_live p.site hlive).before fun part hpart => hpart ▸ rfl
      rw [h]
      exact hpayload.recorded.weaken (fun _ h => h) (fun _ _ hpart => hpart)
        fun _ _ hpart => hpart.2
    · refine .assuming (fun _ h => h.1) fun hbytes => ?_
      split
      · next hempty =>
          -- A branch is never empty.
          refine .log fun st h => ⟨h.2.1, fun _ kind code memory heq => ?_⟩
          rcases h.2.2 kind code memory heq with ⟨_, _, _, hencode⟩
          have hlength := (reads_branch hencode).1
          rw [List.isEmpty_iff.mp hempty] at hlength
          exact absurd hlength (by decide)
      · -- The write leaves the source alone, so it is still the one that was resolved.
        refine .pointwise fun st h => ?_
        refine (writeReplacement_writes st.2.memory st.1 bytes).weaken
          (fun st' h => h ▸ ⟨rfl, .refl _⟩) (fun _ st' h' => ?_) fun _ st' h' => ?_
        · rw [h'.1]
          refine ⟨h.2.1, fun _ kind code memory heq => ⟨rfl, ?_⟩⟩
          rcases h.2.2 kind code memory heq with ⟨code, region, hsource, hencode⟩
          exact ⟨code, region, bytes, hsource, hbytes, hencode⟩
        · rw [h'.1]
          exact h.2.1

/-- A patch that is installed already stays as it is. -/
theorem install_held (hinstalled : p.isInstalled = true) :
    Triple (fun st => st = (p, host)) install (fun _ st => st = (p, host)) fun _ _ => False := by
  unfold install
  refine .bind_known (a := p) (fun _ h => h ▸ rfl) ?_
  rw [if_pos hinstalled]
  exact .ret fun _ h => h

/-- A patch with a branch into an intercept that is installed lands it, or nothing
    happened. -/
theorem install_landed (howns : host.Owns floor (p.extents ++ owned)) (hlive : p.source.IsLive)
    (hsource : p.source = .branch kind (.intercept code memory)) (hnew : p.isInstalled = false) :
    Triple (fun st => st = (p, host)) install (fun _ => p.Landed host.memory)
      fun _ => p.Stays host.memory := by
  refine ((install_lands howns).both (install_live hlive)).weaken (fun _ h => ⟨h, h⟩)
    (fun _ st h => ?_) fun _ _ h => h.1
  rcases h with ⟨hlands, hlive, hbranch⟩
  rcases hbranch hnew kind code memory hsource with
    ⟨hinstalled, code, region, bytes', hbranch, hbytes', hencode⟩
  rcases hlands with hstays | ⟨-, bytes, hbytes, m, hm, hsite, hsaved, hcontents⟩
  · -- The patch is installed now and was not before, so it did not stay.
    rw [isInstalled, hstays.saved] at hinstalled
    rw [isInstalled, hinstalled] at hnew
    exact absurd hnew (by simp only [Bool.true_eq_false, not_false_eq_true])
  · -- The bytes that landed are those that were encoded, as there is one replacement.
    rw [hbytes, Except.ok.injEq] at hbytes'
    rw [← hbytes'] at hencode
    have hlength : bytes.length = Branch.size := (reads_branch hencode).1
    have hread : st.2.memory.read p.site.toNat Branch.size = bytes := by
      rw [← hlength]
      exact (Memory.read_congr fun i _ => congrFun hcontents _).trans (m.read_write _ bytes)
    refine ⟨hsite, ⟨_, hsaved, by rw [Memory.length_read, hlength]⟩, ?_, fun a ha hout => ?_⟩
    · refine ⟨kind, code, region, hbranch, ?_, ?_⟩
      · rw [hbranch] at hlive
        exact hlive _ rfl region rfl
      · rw [hsite, hread]
        exact hencode
    · rw [hcontents, Memory.contents_write_of_outside (by rw [hlength]; exact hout), hm a ha]

/-- Finding the target of a branch is no more than generating it. -/
theorem target_stays (howns : host.Owns floor (p.extents ++ owned)) :
    Triple (fun st => st = (p, host)) target (fun _ => p.Stays host.memory)
      fun _ => p.Stays host.memory := by
  have htarget : Triple (fun st : Patch × Host => st.1 = p ∧
      st.2.OwnsSince host.memory (p.extents ++ owned)) _ _ _ := p.target_owns
  exact htarget.weaken (fun st h => h ▸ ⟨rfl, howns.since⟩) (fun _ _ h => h.stays)
    fun _ _ h => h.stays

/-- The target of a branch that stands is known, so nothing is done to find it. -/
theorem target_known {region : Region}
    (hsource : p.source = .branch kind (.intercept code (some region))) :
    (target (p, host)).state = (p, host) := by
  rcases p with ⟨site, source, saved, unprotected⟩
  simp only at hsource
  rw [hsource]
  rcases region with ⟨_ | base, size⟩ <;> rfl

theorem target_live (hlive : p.source.IsLive) :
    Triple (fun st => st = (p, host)) target (fun _ st => st.1.source.IsLive)
      fun _ st => st.1.source.IsLive := by
  unfold target
  refine .bind_known (a := p.source) (fun _ h => h ▸ rfl) ?_
  split
  · next kind target hsource =>
      -- The source is put back with the target resolved, and is live as it is.
      refine .bind (Q := fun _ st => st.1.source.IsLive) (.within fun st _ => ?_)
        fun _ => .ret fun _ h => h
      refine (Source.branch_live kind (hlive target ?_)).weaken (fun _ _ => True.intro)
        (fun _ _ h => h.1) fun _ _ h => h
      rw [hsource]
      rfl
  · refine .ret fun st h => ?_
    rw [h]
    exact hlive

/-- A patch that can be uninstalled is installed. -/
theorem saved_of_uninstall (hok : (uninstall (p, host)).result.isOk) :
    ∃ saved, p.saved = some saved := by
  cases hresult : (uninstall (p, host)).result with
  | error fault =>
      rw [hresult] at hok
      exact absurd hok Bool.false_ne_true
  | ok _ =>
      rcases (p.uninstall_clears host).of_ok rfl hresult with ⟨saved, hsaved, -⟩
      exact ⟨saved, hsaved⟩

/-- A patch that cannot be uninstalled goes away without a change to memory. -/
theorem drop_abandons (hinstalled : p.isInstalled = true)
    (hfail : (uninstall (p, host)).result.isOk = false) :
    Triple (fun h => h = host) p.drop (fun _ h => h.memory.contents = host.memory.contents)
      fun _ _ => False := by
  unfold drop
  rw [if_pos hinstalled]
  refine .bind (Q := fun result h => result.isOk = false ∧
    h.memory.contents = host.memory.contents) (fun h hh => ?_) fun result => ?_
  · rw [hh]
    refine ⟨hfail, ?_⟩
    -- Bytes that cannot be written back are not written in part either.
    have hend := p.uninstall_clears host (p, host) rfl
    split at hend
    · next hok =>
        rw [hok] at hfail
        exact absurd hfail.symm Bool.false_ne_true
    · exact hend.2.contents
  · refine .assuming (fun _ h => h.1) fun hresult => ?_
    cases result with
    | ok _ => exact absurd hresult.symm Bool.false_ne_true
    | error fault =>
        -- To keep the intercept is to forget it, with a note.
        refine .bind_log ?_
        unfold keepIntercept
        split
        · exact .log fun _ h => h.2
        · exact .ret fun _ h => h.2

end Patch

end Hotpatch
