import Hotpatch.Proofs.Loading.Search
import Mathlib.Data.List.Forall2

/-!
# The Order Of Program Headers

An object lists its program headers in some order, and nothing depends on it. That is
clear of where one object begins, which is the least of some addresses. It holds of all
that is asked of a loader as well: two loaders whose objects differ in no more than that
order answer alike, ask for the same files, and differ in no more afterwards.

An action that is put together from actions of that kind is one too, so only the search
and the opening of a file are looked into.

## Main definitions

* `Image.Reordered`, `Loader.Reordered`: What differs only in the order of headers.
* `Action.Unordered`: An action that does not depend on it.

## Theorems

* `Image.Reordered.goesBy`, `Image.Reordered.base`: The names of an object, and where it
  begins.
* `Loader.Reordered.find`, `Loader.Reordered.lookup`: What is found, and what a file adds.
* `Action.Unordered.bind`: One action after another.
* `Resolver.base_unordered`: The base of a module.
-/

namespace Hotpatch

namespace Image

variable {image image' : Image} {name : String} {address : Address}

/-- Two objects that differ at most in the order of their program headers. -/
structure Reordered (image image' : Image) : Prop where
  path : image'.path = image.path
  bias : image'.bias = image.bias
  segments : image'.segments.Perm image.segments

theorem Reordered.goesBy (h : image.Reordered image') :
    image'.GoesBy name ↔ image.GoesBy name := by
  rw [GoesBy, GoesBy, h.path]

theorem Lowest.reordered (hlowest : image.Lowest address) (h : image.Reordered image') :
    image'.Lowest address := by
  cases hlowest with
  | least mem kind least =>
      exact .least (h.segments.mem_iff.mpr mem) kind fun other hother =>
        least other (h.segments.mem_iff.mp hother)
  | none kind => exact .none fun segment hmem => kind segment (h.segments.mem_iff.mp hmem)

theorem Reordered.base (h : image.Reordered image') : image'.base = image.base := by
  rw [Image.base, Image.base, h.bias, (image.firstAddress_lowest.reordered h).unique]

end Image

namespace Loader

variable {l m : Loader} {name file : String}

/-- Two loaders whose objects differ at most in the order of their program headers, those
    that are loaded as well as those that a file would add. -/
structure Reordered (l m : Loader) : Prop where
  loaded : List.Forall₂ Image.Reordered l.loaded m.loaded
  loadable : List.Forall₂ (fun entry entry' => entry'.1 = entry.1 ∧
    List.Forall₂ Image.Reordered entry.2 entry'.2) l.loadable m.loadable

theorem Reordered.find (h : l.Reordered m) : m.find name = l.find name := by
  rw [Loader.find, Loader.find]
  have hloaded := h.loaded
  generalize l.loaded = images at hloaded ⊢
  generalize m.loaded = images' at hloaded ⊢
  induction hloaded with
  | nil => rfl
  | @cons image image' _ _ hhead _ ih =>
      have hnamed : decide (image'.AnswersTo name) = decide (image.AnswersTo name) := by
        rw [decide_eq_decide, Image.answersTo_iff_goesBy, Image.answersTo_iff_goesBy,
          hhead.goesBy]
      -- Both searches stop at the same place of the list.
      simp only [List.find?_cons, hnamed]
      cases decide (image.AnswersTo name) with
      | true => exact congrArg some hhead.base
      | false => exact ih

theorem Reordered.lookup (h : l.Reordered m) (file : String) :
    Option.Rel (List.Forall₂ Image.Reordered) (l.loadable.lookup file)
      (m.loadable.lookup file) := by
  have hloadable := h.loadable
  generalize l.loadable = entries at hloadable ⊢
  generalize m.loadable = entries' at hloadable ⊢
  induction hloadable with
  | nil => exact .none
  | @cons entry entry' _ _ hhead _ ih =>
      rw [List.lookup_cons, List.lookup_cons, hhead.1]
      cases file == entry.1 with
      | true => exact .some hhead.2
      | false => exact ih

/-- What two files add is added to both loaders. -/
theorem Reordered.append {images images' : List Image} (h : l.Reordered m)
    (himages : List.Forall₂ Image.Reordered images images') :
    Reordered { l with loaded := l.loaded ++ images }
      { m with loaded := m.loaded ++ images' } where
  loaded := List.rel_append h.loaded himages
  loadable := h.loadable

end Loader

namespace Action

variable {α β : Type} {act : Action Loader α}

/-- An action that does not depend on the order of program headers. -/
def Unordered (act : Action Loader α) : Prop :=
  ∀ l m : Loader, l.Reordered m → (act m).result = (act l).result ∧
    (act m).trace = (act l).trace ∧ (act l).state.Reordered (act m).state

theorem Unordered.bind {next : α → Action Loader β} (h : act.Unordered)
    (hnext : ∀ a, (next a).Unordered) : (act >>= next).Unordered := by
  intro l m hlm
  rcases h l m hlm with ⟨hresult, htrace, hstate⟩
  -- The second action is the same for both, because the first one's answer is.
  cases hl : (act l).result with
  | error fault =>
      rw [bind_error hl, bind_error (hresult.trans hl)]
      exact ⟨rfl, htrace, hstate⟩
  | ok a =>
      rcases hnext a _ _ hstate with ⟨hresult', htrace', hstate'⟩
      rw [bind_ok hl, bind_ok (hresult.trans hl)]
      exact ⟨hresult', congrArg₂ (· ++ ·) htrace htrace', hstate'⟩

theorem unordered_pure (a : α) : (pure a : Action Loader α).Unordered := by
  intro _ _ h
  exact ⟨rfl, rfl, h⟩

theorem unordered_fail (fault : Fault) : (Action.fail fault : Action Loader α).Unordered := by
  intro _ _ h
  exact ⟨rfl, rfl, h⟩

theorem unordered_emit (event : Event) : (Action.emit event : Action Loader Unit).Unordered := by
  intro _ _ h
  exact ⟨rfl, rfl, h⟩

theorem unordered_gets {f : Loader → α} (h : ∀ l m : Loader, l.Reordered m → f m = f l) :
    (Action.gets f).Unordered := by
  intro l m hlm
  exact ⟨congrArg Except.ok (h l m hlm), rfl, hlm⟩

end Action

namespace Loader

open Hotpatch.Action

theorem load_unordered (file : String) : (load file).Unordered := by
  rw [load]
  by_cases hnul : '\x00' ∈ file.toList
  · rw [if_pos hnul]
    exact unordered_pure false
  rw [if_neg hnul]
  refine (unordered_emit _).bind fun _ => ?_
  -- The images that a file adds may differ, so what is looked up is not the same.
  intro l m hlm
  rw [bind_ok rfl, bind_ok rfl]
  simp only [Action.gets]
  have hknown := hlm.lookup file
  generalize l.loadable.lookup file = known at hknown ⊢
  generalize m.loadable.lookup file = known' at hknown ⊢
  cases hknown with
  | none => exact ⟨rfl, rfl, hlm⟩
  | some himages => exact ⟨rfl, rfl, hlm.append himages⟩

theorem openFirst_unordered (name : String) (files : List String) :
    (openFirst name files).Unordered := by
  induction files with
  | nil => exact unordered_fail _
  | cons file rest ih =>
      rw [openFirst]
      refine (load_unordered file).bind fun success => ?_
      cases success with
      | false => exact ih
      | true =>
          -- What is found is an address and no object, so it is the same for both loaders.
          refine (unordered_gets fun l m hlm => ?_).bind fun found => ?_
          · rw [hlm.find, hlm.find]
          · cases found with
            | none => exact ih
            | some base => exact unordered_pure base

theorem resolve_unordered (name : String) : (resolve name).Unordered := by
  rw [resolve]
  refine (unordered_gets fun l m hlm => hlm.find).bind fun found => ?_
  cases found with
  | none => exact openFirst_unordered name _
  | some base => exact unordered_pure base

end Loader

namespace Resolver

open Hotpatch.Action

theorem base_unordered (r : Resolver) (name : String) : (r.base name).Unordered := by
  cases r with
  | system =>
      rw [base]
      split
      · exact unordered_fail _
      · exact (Loader.resolve_unordered name).bind fun base =>
          (unordered_emit _).bind fun _ => unordered_pure base
  | table bases =>
      rw [base]
      split
      · exact unordered_pure _
      · exact unordered_fail _

end Resolver

end Hotpatch
