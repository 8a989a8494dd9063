import Hotpatch.Proofs.Ownership.Patch
import Hotpatch.Session.Objects

/-!
# Ownership Of Objects

What an object of a session owns, and what all of them own together. Pages are
owned as they are. Every other object owns the region it has, if it has one and
has not released it.

The objects of a session are a list, and a name stands in it once. So taking the
object of a name out of the account, doing something with it, and entering what
came of it is one and the same step for every command.

## Main definitions

* `Object.memory?`, `Object.extents`: What an object owns.
* `Object.leaks`: What an object leaves mapped when it goes away.
* `Object.replaced?`: What an installed patch replaced, and where.
* `Objects.extents`: What all objects own.
* `Objects.Proper`: Each name once, and conditions on the patches.

## Theorems

* `Object.drop_owns`: The end of an object.
* `Objects.extents_of_get?`: The account without the object of a name.
* `Objects.extents_insert`: The account with another object under a name.
-/

namespace Hotpatch

open Hotpatch.Action

namespace Object

/-- The region that an object owns, live or released. -/
def memory? : Object → Option Region
  | page _ _ => none
  | region r => some r
  | resident _ => none
  | routine r => r.region?
  | trampoline t => some t.region
  | patch p => p.intercept?

/-- The pages that an object owns. -/
def extents : Object → List Extent
  | page base length => [⟨base.toNat, length⟩]
  | o => (o.memory?.map Region.extents).getD []

/-- What an object leaves mapped when it goes away. -/
def leaks (o : Object) (host : Host) : List Extent :=
  match o with
  | patch p => p.leaks host
  | _ => []

/-- The bytes that an installed patch replaced, and where. -/
def replaced? : Object → Option (Address × List UInt8)
  | patch p => p.saved.map (p.site, ·)
  | _ => none

variable {floor : Nat} {owned : List Extent} {o : Object}

theorem eq_of_region? {r : Region} (h : o.region? = some r) : o = .region r := by
  cases o <;> simp only [region?, Option.some.injEq, reduceCtorEq] at h
  rw [h]

theorem eq_of_routine? {r : Routine} (h : o.routine? = some r) : o = .routine r := by
  cases o <;> simp only [routine?, Option.some.injEq, reduceCtorEq] at h
  rw [h]

theorem eq_of_patch? {p : Patch} (h : o.patch? = some p) : o = .patch p := by
  cases o <;> simp only [patch?, Option.some.injEq, reduceCtorEq] at h
  rw [h]

/-- An object that becomes a routine owns what it owned. -/
theorem extents_of_toRoutine? {r : Routine} (h : o.toRoutine? = some r) :
    (routine r).extents = o.extents ∧ o.replaced? = none := by
  cases o <;> simp only [toRoutine?, Option.some.injEq, reduceCtorEq] at h
  · rw [← h]
    exact ⟨rfl, rfl⟩
  · rw [← h]
    exact ⟨rfl, rfl⟩

theorem extents_patch (p : Patch) : (patch p).extents = p.extents :=
  p.extents_eq_intercept.symm

/-- An object that has a region owns what the region owns. -/
theorem extents_of_memory? {r : Region} (h : o.memory? = some r) : o.extents = r.extents := by
  have howned : (o.memory?.map Region.extents).getD [] = r.extents := by
    rw [h]
    rfl
  cases o with
  | page base length =>
      -- Pages are owned without a region.
      exact absurd h (by simp only [memory?, reduceCtorEq, not_false_eq_true])
  | _ => exact howned

theorem releaseRoutine_keeps (r : Routine) :
    Triple (Host.Owns floor ((routine r).extents ++ owned)) r.release
      (fun r' host => host.Owns floor ((routine r').extents ++ owned)) fun _ _ => False := by
  cases r with
  | resident live => exact .ret fun _ h => h
  | owned region => exact .bind region.release_keeps fun _ => .ret fun _ h => h

/-- An object that goes away gives back what it owns, but for what it leaks. -/
theorem drop_owns (o : Object) (host : Host) (howns : host.Owns floor (o.extents ++ owned)) :
    Triple (fun h => h = host) o.drop (fun _ => Host.Owns floor (o.leaks host ++ owned))
      fun _ _ => False := by
  -- Four kinds of object do nothing at their end but give back their region.
  have hregion : ∀ {α : Type} (r : Region) (after : Region → α), o.extents = r.extents →
      Triple (fun h => h = host) (do return after (← r.release)) (fun _ => Host.Owns floor owned)
        fun _ _ => False := by
    intro α r after hr
    refine .bind (r.release_gone.before fun h hh => ?_) fun _ => .ret fun _ h => h.1
    rw [hh, ← hr]
    exact howns
  cases o with
  | page base length =>
      have hfree : Triple (Host.OwnsSince host.memory (⟨base.toNat, length⟩ :: owned)) _ _ _ :=
        Host.freePages_owns base length
      exact hfree.weaken (fun h hh => hh ▸ howns.since) (fun _ _ h => h.owns howns.later)
        fun _ _ h => h
  | region r => exact hregion r (fun _ => ()) rfl
  | resident live => exact .ret fun h hh => hh ▸ howns
  | routine r =>
      cases r with
      | resident live => exact .ret fun h hh => hh ▸ howns
      | owned r => exact .bind (hregion r Routine.owned rfl) fun _ => .ret fun _ h => h
  | trampoline t => exact hregion t.region (fun _ => ()) rfl
  | patch p =>
      -- A patch may not get its intercept back, and is the only object that leaks.
      rw [extents_patch] at howns
      exact p.drop_owns host howns

end Object

namespace Objects

/-- The pages that the objects own. -/
def extents (os : Objects) : List Extent :=
  os.flatMap fun entry => entry.2.extents

/-- The bytes that the installed patch of a name replaced, and where. -/
def replaced? (os : Objects) (id : String) : Option (Address × List UInt8) :=
  (os.get? id).bind Object.replaced?

/-- Every name stands for one object, and a condition holds of what the patch of
    each name replaced. -/
structure Proper (kept : String → Option (Address × List UInt8) → Prop) (os : Objects) :
    Prop where
  names : (os.map Prod.fst).Nodup
  kept : ∀ id, kept id (os.replaced? id)

variable {kept : String → Option (Address × List UInt8) → Prop} {id : String} {o : Object}
  {os : Objects}

theorem erase_of_get?_none (h : os.get? id = none) : os.erase id = os := by
  induction os with
  | nil => rfl
  | cons head rest ih =>
      by_cases hid : head.1 = id
      · simp only [get?, hid, if_true, reduceCtorEq] at h
      · simp only [get?, hid, if_false] at h
        have hrest := ih h
        rw [erase] at hrest
        simp only [erase, List.filter_cons, ne_eq, hid, not_false_eq_true, decide_true, if_true]
        rw [hrest]

theorem get?_erase_of_ne {other : String} (h : other ≠ id) :
    (os.erase id).get? other = os.get? other := by
  induction os with
  | nil => rfl
  | cons head rest ih =>
      rw [erase] at ih
      by_cases hid : head.1 = id
      · simp only [erase, List.filter_cons, ne_eq, hid, not_true_eq_false, decide_false,
          Bool.false_eq_true, if_false, get?, h.symm]
        exact ih
      · simp only [erase, List.filter_cons, ne_eq, hid, not_false_eq_true, decide_true, if_true,
          get?]
        rw [ih]

/-- Up to order, an object stored under a name stands beside all others. -/
theorem insert_perm (h : (os.map Prod.fst).Nodup) :
    (os.insert id o).Perm ((id, o) :: os.erase id) := by
  induction os with
  | nil => exact .refl _
  | cons head rest ih =>
      rw [List.map_cons, List.nodup_cons] at h
      by_cases hid : head.1 = id
      · -- The name is not in the rest, so nothing is taken out of it.
        have hrest : rest.filter (fun e => e.1 ≠ id) = rest := by
          refine List.filter_eq_self.mpr fun e he => decide_eq_true ?_
          intro heq
          exact h.1 (List.mem_map.mpr ⟨e, he, heq.trans hid.symm⟩)
        simp only [insert, hid, if_true, erase, List.filter_cons, ne_eq, not_true_eq_false,
          decide_false, Bool.false_eq_true, if_false]
        rw [hrest]
      · simp only [insert, hid, if_false, erase, List.filter_cons, ne_eq, not_false_eq_true,
          decide_true, if_true]
        exact ((ih h.2).cons head).trans (.swap _ _ _)

theorem map_fst_insert (id : String) (o : Object) (os : Objects) :
    (os.insert id o).map Prod.fst = os.map Prod.fst ∨
      os.get? id = none ∧ (os.insert id o).map Prod.fst = os.map Prod.fst ++ [id] := by
  induction os with
  | nil => exact .inr ⟨rfl, rfl⟩
  | cons head rest ih =>
      by_cases hid : head.1 = id
      · simp only [insert, hid, if_true, List.map_cons, true_or]
      · simp only [insert, hid, if_false, List.map_cons, get?, List.cons_append]
        rcases ih with ih | ⟨hnone, ih⟩
        · exact .inl (congrArg _ ih)
        · exact .inr ⟨hnone, congrArg _ ih⟩

theorem not_mem_of_get?_none (h : os.get? id = none) : id ∉ os.map Prod.fst := by
  intro hmem
  rcases List.mem_map.mp hmem with ⟨e, he, hname⟩
  rw [← erase_of_get?_none h, erase, List.mem_filter] at he
  exact of_decide_eq_true he.2 hname

/-- What the objects own after one was stored under a name. -/
theorem extents_insert (h : (os.map Prod.fst).Nodup) :
    (os.insert id o).extents.Perm (o.extents ++ (os.erase id).extents) := by
  have hperm : (os.insert id o).Perm ((id, o) :: os.erase id) := insert_perm h
  exact hperm.flatMap_right _

/-- What the objects own, with that of a name first. -/
theorem extents_of_get? (h : (os.map Prod.fst).Nodup) (hget : os.get? id = some o) :
    os.extents.Perm (o.extents ++ (os.erase id).extents) := by
  -- To store the object once more under its own name changes nothing.
  have hperm : (os.insert id o).extents.Perm _ := extents_insert h
  rwa [insert_of_get? hget] at hperm

theorem Proper.insert (h : os.Proper kept) (hkept : kept id o.replaced?) :
    (os.insert id o).Proper kept := by
  refine ⟨?_, fun other => ?_⟩
  · rcases map_fst_insert id o os with hnames | ⟨hnone, hnames⟩
    · rw [hnames]
      exact h.names
    · -- The name is new, so it was not among the others.
      rw [hnames]
      refine List.nodup_append.mpr ⟨h.names, List.pairwise_singleton _ _, fun a ha b hb => ?_⟩
      rw [List.mem_singleton] at hb
      rw [hb]
      exact fun heq => not_mem_of_get?_none hnone (heq ▸ ha)
  · -- Under the name there is the new object now, and under all others what there was.
    by_cases hother : other = id
    · rw [hother, replaced?, get?_insert_self]
      exact hkept
    · rw [replaced?, get?_insert_of_ne hother]
      exact h.kept other

theorem Proper.erase (h : os.Proper kept) (hkept : kept id none) : (os.erase id).Proper kept := by
  refine ⟨h.names.sublist (List.filter_sublist.map _), fun other => ?_⟩
  by_cases hother : other = id
  · rw [hother, replaced?, get?_erase_self]
    exact hkept
  · rw [replaced?, get?_erase_of_ne hother]
    exact h.kept other

/-- Among objects that are no installed patches, no name is that of one. -/
theorem replaced?_eq_none (h : ∀ entry ∈ os, entry.2.replaced? = none) (id : String) :
    os.replaced? id = none := by
  rw [replaced?]
  induction os with
  | nil => rfl
  | cons head rest ih =>
      by_cases hid : head.1 = id
      · simp only [get?, hid, if_true, Option.bind_some]
        exact h head List.mem_cons_self
      · simp only [get?, hid, if_false]
        exact ih fun entry hentry => h entry (List.mem_cons_of_mem head hentry)

end Objects

end Hotpatch
