import Hotpatch.Proofs.Access.Bounds
import Hotpatch.Proofs.Access.Frame

/-!
# Accesses Through Runs

Wherever a session has come to, the bounds of a region decide what can be done with it.
A write that they admit changes the bytes that it is for and no others, neither those of
another object nor those between the end of the region and the end of its last page. The
bytes stay until a command is told to write over them.

That no address of a region wraps is an invariant of the whole session: pages are handed
out upwards, and never past the end of the address space.

## Main definitions

* `Memory.Bounded`: No page is past the end of the address space.
* `Session.Stored`: What a write to a region leaves of a session.

## Theorems

* `Accounted.apart`: Two objects share no memory.
* `Accounted.seated`: Regions are away from both ends of the address space.
* `Accounted.read_run`: What is read of a region after commands that do not write there.
* `access_of_run`: The accesses of a region after any commands.
-/

namespace Hotpatch

/-- No page is past the end of the address space, and none will be that comes next. -/
def Memory.Bounded (m : Memory) : Prop :=
  m.next ≤ addressSpace

theorem Memory.Bounded.change {floor : Nat} {m m' : Memory} (h : m.Bounded)
    (hchange : m.Change floor m') : m'.Bounded := by
  cases hchange with
  | reserve reserved =>
      rcases reserve_eq_some reserved with ⟨-, hfits, -, -, hnext, -⟩
      rw [Bounded, hnext]
      exact hfits
  | _ => exact h

namespace Session

variable {floor : Nat} {kept : String → Option (Address × List UInt8) → Prop}
  {owned : List Extent} {s : Session} {id other : String} {o o' : Object} {r : Region}

/-- Two objects share no memory. -/
theorem Accounted.apart (hs : s.Accounted floor kept owned) (hget : s.get? id = some o)
    (hother : s.get? other = some o') (hne : other ≠ id) {e e' : Extent} (he : e ∈ o.extents)
    (he' : e' ∈ o'.extents) : e.Apart e' := by
  have hperm := hs.owns.extents.trans
    ((Objects.extents_of_get? hs.proper.names hget).append_right owned)
  have hapart := (hperm.pairwise_iff fun hxy => Extent.Apart.symm hxy).mp hs.owns.orderly.apart
  rw [List.append_assoc, List.pairwise_append] at hapart
  -- The other object is among those that are left when the first is taken out.
  have hrest : (s.objects.erase id).get? other = some o' :=
    (Objects.get?_erase_of_ne hne).trans hother
  have hnames : ((s.objects.erase id).map Prod.fst).Nodup :=
    hs.proper.names.sublist (List.filter_sublist.map _)
  have hmem : e' ∈ (s.objects.erase id).extents :=
    (Objects.extents_of_get? hnames hrest).mem_iff.mpr (List.mem_append_left _ he')
  exact hapart.2.2 e he e' (List.mem_append_left _ hmem)

/-- Regions are away from both ends of the address space. -/
theorem Accounted.seated (hs : s.Accounted floor kept owned) (hbounded : s.host.memory.Bounded)
    (hget : s.get? id = some o) (hr : o.memory? = some r) : r.Seated := by
  intro hlive
  have hplaced := hs.owns.orderly.placed _ (hs.region_mapped hget hr hlive)
  have hwhole := le_wholePages r.size
  simp only [Memory.Bounded] at hbounded
  simp only at hplaced
  omega

/-- What is read of a region is read again after commands that do not write there. -/
theorem Accounted.read_run (hs : s.Accounted floor (fun _ _ => True) owned)
    (hbounded : s.host.memory.Bounded) (hget : s.get? id = some o) (hr : o.memory? = some r)
    {offset length : Nat} (commands : List Command)
    (hoff : s.KeepOff (r.range offset length) commands) :
    (r.read offset length (s.run commands).1.host).result =
      (r.read offset length s.host).result := by
  have hseated := hs.seated hbounded hget hr
  by_cases h : r.Admits offset length
  · -- What may be accessed lies in the pages of the region, which were handed out.
    have hplaced := hs.owns.orderly.placed _ (hs.region_mapped hget hr h.1)
    have hwhole := le_wholePages r.size
    have hin := h.2
    have hbelow : r.address.toNat + offset + length ≤ s.host.memory.next := by
      simp only at hplaced
      omega
    rw [hseated.read_eq h, hseated.read_eq h]
    refine congrArg Except.ok (Memory.read_congr fun i hi => ?_)
    exact run_contents commands hs hbelow hoff
      ⟨Nat.le_add_right _ i, Nat.add_lt_add_left hi _⟩
  · rw [Region.read_refused h, Region.read_refused h]

/-- What a write to the region of an object leaves of a session. -/
structure Stored (s : Session) (id : String) (r : Region) (offset : Nat) (bytes : List UInt8)
    (s' : Session) : Prop where
  objects : s'.objects = s.objects
  host : r.Wrote offset bytes s.host s'.host
  /-- Nothing that other objects own has changed. -/
  beside : ∀ other o, other ≠ id → s.get? other = some o → ∀ e ∈ o.extents, ∀ a,
    e.Contains a → s'.host.memory.contents a = s.host.memory.contents a
  /-- Any part of the bytes is read as it was written, after commands that do not write to
      it. -/
  lasting : ∀ later i length, i + length ≤ bytes.length →
    s'.KeepOff (r.range (offset + i) length) later →
      (r.read (offset + i) length (s'.run later).1.host).result =
        .ok ((bytes.drop i).take length)

/-- The session after a write to the region of an object. -/
theorem Accounted.stored (hs : s.Accounted floor (fun _ _ => True) owned)
    (hbounded : s.host.memory.Bounded) (hget : s.get? id = some o) (hr : o.memory? = some r)
    {offset : Nat} {bytes : List UInt8} (hadmits : r.Admits offset bytes.length) :
    s.Stored id r offset bytes { s with host := (r.write offset bytes s.host).state } := by
  have hseated := hs.seated hbounded hget hr
  have hwrote := hseated.wrote hadmits s.host
  have hafter : Accounted floor (fun _ _ => True) owned
      { s with host := (r.write offset bytes s.host).state } :=
    ⟨hs.proper, (r.write_owns offset bytes).after hs.owns⟩
  have hbounded' : (r.write offset bytes s.host).state.memory.Bounded := by
    rw [hseated.write_eq hadmits]
    exact hbounded
  refine ⟨rfl, hwrote, fun other o' hne hother e he a ha => hwrote.others a fun hcontains => ?_,
    fun later i length hlength hoff => ?_⟩
  · -- A byte that is written is in the pages of this object, which no other shares.
    have hown : ⟨r.address.toNat, wholePages r.size⟩ ∈ o.extents := by
      rw [Object.extents_of_memory? hr]
      exact Region.extent_of_live hadmits.1
    have hwithin := hwrote.within a hcontains
    have hwhole := le_wholePages r.size
    rcases hs.apart hget hother hne hown he with happ | happ <;>
      simp only [Extent.Contains] at ha happ <;> omega
  · -- A part of what was written is read in one go, and byte by byte it is what was written.
    have hpart : r.Admits (offset + i) length := by
      have hin := hadmits.2
      exact ⟨hadmits.1, by omega⟩
    rw [hafter.read_run hbounded' hget hr later hoff, hseated.read_eq hpart]
    refine congrArg Except.ok (List.ext_getElem ?_ fun j hj _ => ?_)
    · rw [Memory.length_read, List.length_take, List.length_drop]
      omega
    · rw [Memory.length_read] at hj
      have haddress : r.address.toNat + (offset + i) + j = r.address.toNat + offset + (i + j) := by
        omega
      rw [Memory.getElem_read, List.getElem_take, List.getElem_drop, haddress]
      exact hwrote.written (i + j) (by omega)

theorem start_bounded (loader : Loader) : (start loader).host.memory.Bounded := by
  change 0x10000000 ≤ 0x10000000000000000
  decide

/-- The bounds of a region decide its accesses, whatever was done before. A write that they
    admit changes the bytes that it is for and no others, and they are read as they were
    written until a command writes over them. -/
theorem access_of_run (loader : Loader) (commands : List Command) {s : Session}
    (hs : s = ((start loader).run commands).1) {id : String} {o : Object} {r : Region}
    (hget : s.get? id = some o) (hr : o.memory? = some r) :
    r.Guarded s.host ∧ ∀ offset bytes, (r.write offset bytes s.host).result.isOk →
      s.Stored id r offset bytes { s with host := (r.write offset bytes s.host).state } := by
  have haccounted := run_accounted commands (start_accounted loader)
  have hbounded := run_memory Memory.Bounded.change commands (start_bounded loader)
  rw [← hs] at haccounted hbounded
  have hguarded := (haccounted.seated hbounded hget hr).guarded s.host
  refine ⟨hguarded, fun offset bytes hok => ?_⟩
  have hadmits : r.Admits offset bytes.length := (hguarded.writes offset bytes).mp hok
  exact haccounted.stored hbounded hget hr hadmits

/-- A region with a neighbour. -/
def neighbouring : Session :=
  ((start ⟨[], []⟩).run [.allocate "code" 16, .ofBytes "next" [0xC3]]).1

def sixteen : Region :=
  ⟨some 0x10000000, 16⟩

/-- The region after a write near its end. -/
def endWritten : Session :=
  { neighbouring with host := (sixteen.write 13 [7, 8, 9] neighbouring.host).state }

/-- What was written up to the end is read there after the beginning was written over and
    the neighbour is gone. -/
theorem access_of_endWritten :
    neighbouring.get? "code" = some (.region sixteen) ∧
      (sixteen.read 14 2
        (endWritten.run [.write "code" 0 [1, 2], .release "next"]).1.host).result =
          .ok [8, 9] := by
  have hget : neighbouring.get? "code" = some (.region sixteen) := by rfl
  have hstored : neighbouring.Stored "code" sixteen 13 [7, 8, 9] endWritten :=
    (access_of_run ⟨[], []⟩ _ rfl hget rfl).2 13 [7, 8, 9] rfl
  have hoff : endWritten.KeepOff (sixteen.range 14 2)
      [.write "code" 0 [1, 2], .release "next"] := by
    refine ⟨?_, fun a _ ⟨e, hwritten, _⟩ => Option.not_mem_none e hwritten, True.intro⟩
    rintro a ha ⟨e, hwritten, hcontains⟩
    -- Only the first two bytes are written, and what is read begins twelve further on.
    have hwritten' : e = ⟨0x10000000, 2⟩ := (Option.some.inj hwritten).symm
    rw [hwritten'] at hcontains
    exact Nat.not_lt.mpr ha.1 (Nat.lt_trans hcontains.2 (by decide))
  exact ⟨hget, hstored.lasting _ 1 2 (by decide) hoff⟩

end Session

end Hotpatch
