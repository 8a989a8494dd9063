import Hotpatch.Proofs.Memory.Contents

/-!
# Layers Of Patches

Installed patches as layers on top of a memory. The topmost layer that covers an
address decides what is seen there, and what no layer covers is what it was.

A patch keeps the bytes that it replaced, which are what its range showed below
it. If no layer above reaches into that range, putting them back shows just what
is seen without the layer, and no other layer has to change what it keeps.

## Main definitions

* `Layer`: The bytes of an installed patch.
* `shown`: What is seen of a memory under layers.
* `Layer.replaced`: What is under a layer.
* `Saved`: Every layer keeps what is under it.

## Theorems

* `write_layer`: A layer that enters memory.
* `shown_restore`: A layer whose bytes are put back.
* `Saved.remove`: What the others keep when a layer goes.
-/

namespace Hotpatch

/-- The bytes that a patch wrote when it was installed. -/
structure Layer where
  id : String
  site : Address
  bytes : List UInt8
  deriving DecidableEq, Repr

namespace Layer

/-- The byte of the layer at an address, if it covers the address. -/
def byte? (l : Layer) (a : Nat) : Option UInt8 :=
  if l.site.toNat ≤ a then l.bytes[a - l.site.toNat]? else none

/-- The addresses that the layer covers. -/
def Covers (l : Layer) (a : Nat) : Prop :=
  l.site.toNat ≤ a ∧ a < l.site.toNat + l.bytes.length

/-- Two layers that cover an address together. -/
def Overlaps (l l' : Layer) : Prop :=
  ∃ a, l.Covers a ∧ l'.Covers a

theorem byte?_of_not_covers {l : Layer} {a : Nat} (h : ¬ l.Covers a) : l.byte? a = none := by
  rw [byte?]
  by_cases hlow : l.site.toNat ≤ a
  · rw [if_pos hlow, List.getElem?_eq_none_iff]
    rw [Covers] at h
    omega
  · rw [if_neg hlow]

end Layer

/-- What is seen of a memory under layers, the topmost of which comes first. -/
def shown (under : Nat → UInt8) (layers : List Layer) (a : Nat) : UInt8 :=
  (layers.findSome? (·.byte? a)).getD (under a)

/-- What a layer replaced: the bytes that are seen under it. -/
def Layer.replaced (under : Nat → UInt8) (below : List Layer) (l : Layer) : List UInt8 :=
  (List.range l.bytes.length).map fun i => shown under below (l.site.toNat + i)

variable {under : Nat → UInt8} {above below layers : List Layer} {l : Layer} {a : Nat}

@[simp]
theorem Layer.length_replaced : (l.replaced under below).length = l.bytes.length := by
  rw [replaced, List.length_map, List.length_range]

@[simp]
theorem shown_nil : shown under [] a = under a :=
  rfl

theorem shown_cons : shown under (l :: layers) a = (l.byte? a).getD (shown under layers a) := by
  rw [shown, List.findSome?_cons]
  cases l.byte? a with
  | none => rfl
  | some byte => rfl

/-- A layer is not seen where it covers nothing. -/
theorem shown_of_not_covers (h : ¬ l.Covers a) :
    shown under (above ++ l :: below) a = shown under (above ++ below) a := by
  simp only [shown, List.findSome?_append, List.findSome?_cons, Layer.byte?_of_not_covers h]

/-- Layers are not seen where none of them covers anything. -/
theorem shown_append (h : ∀ l ∈ above, ¬ l.Covers a) :
    shown under (above ++ below) a = shown under below a := by
  induction above with
  | nil => rfl
  | cons head rest ih =>
      rw [List.cons_append, shown_cons, Layer.byte?_of_not_covers (h head List.mem_cons_self)]
      exact ih fun l hl => h l (List.mem_cons_of_mem head hl)

/-- Writing the bytes of a layer puts it on top. -/
theorem write_layer (m : Memory) (l : Layer) (a : Nat) :
    (m.write l.site.toNat l.bytes).contents a = (l.byte? a).getD (m.contents a) := by
  by_cases h : l.Covers a
  · -- Where the layer covers the address, the byte written is the one at that distance.
    rcases h with ⟨hlow, hhigh⟩
    have hi : a - l.site.toNat < l.bytes.length := by omega
    have hwritten :
        (m.write l.site.toNat l.bytes).contents (l.site.toNat + (a - l.site.toNat)) = _ :=
      Memory.contents_write_add hi
    rw [show l.site.toNat + (a - l.site.toNat) = a by omega] at hwritten
    rw [hwritten, Layer.byte?, if_pos hlow, List.getElem?_eq_getElem hi]
    rfl
  · rw [Layer.byte?_of_not_covers h]
    refine Memory.contents_write_of_outside ?_
    rw [Layer.Covers] at h
    omega

/-- Putting back what a layer replaced shows what is seen without the layer, if no
    layer above overlaps it. -/
theorem shown_restore {m : Memory} (htop : ∀ l' ∈ above, ¬ l'.Overlaps l)
    (hm : m.contents a = shown under (above ++ l :: below) a) :
    (m.write l.site.toNat (l.replaced under below)).contents a =
      shown under (above ++ below) a := by
  by_cases h : l.Covers a
  · -- Nothing above is seen here, so what was put back decides.
    have habove : ∀ l' ∈ above, ¬ l'.Covers a := fun l' hl' hcovers => htop l' hl' ⟨a, hcovers, h⟩
    rcases h with ⟨hlow, hhigh⟩
    have hi : a - l.site.toNat < (l.replaced under below).length := by
      rw [Layer.length_replaced]
      omega
    have hwritten : (m.write l.site.toNat (l.replaced under below)).contents
        (l.site.toNat + (a - l.site.toNat)) = _ := Memory.contents_write_add hi
    have haddress : l.site.toNat + (a - l.site.toNat) = a := by omega
    rw [haddress] at hwritten
    rw [hwritten, shown_append habove]
    simp only [Layer.replaced, List.getElem_map, List.getElem_range, haddress]
  · -- Elsewhere nothing is written, and the layer was not seen either.
    rw [← shown_of_not_covers h, ← hm]
    refine Memory.contents_write_of_outside ?_
    rw [Layer.length_replaced]
    rw [Layer.Covers] at h
    omega

/-- Every layer keeps what is under it. -/
def Saved (under : Nat → UInt8) (kept : String → Option (Address × List UInt8)) :
    List Layer → Prop
  | [] => True
  | l :: below => kept l.id = some (l.site, l.replaced under below) ∧ Saved under kept below

variable {kept kept' : String → Option (Address × List UInt8)}

theorem Saved.congr (h : Saved under kept layers) (hkept : ∀ l ∈ layers, kept' l.id = kept l.id) :
    Saved under kept' layers := by
  induction layers with
  | nil => exact True.intro
  | cons head rest ih =>
      refine ⟨(hkept head List.mem_cons_self).trans h.1, ih h.2 fun l hl => ?_⟩
      exact hkept l (List.mem_cons_of_mem head hl)

theorem Saved.of_append (h : Saved under kept (above ++ l :: below)) :
    kept l.id = some (l.site, l.replaced under below) := by
  induction above with
  | nil => exact h.1
  | cons head rest ih => exact ih h.2

/-- A layer that no layer above overlaps can go without the others noticing. -/
theorem Saved.remove (h : Saved under kept (above ++ l :: below))
    (htop : ∀ l' ∈ above, ¬ l'.Overlaps l) : Saved under kept (above ++ below) := by
  induction above with
  | nil => exact h.2
  | cons head rest ih =>
      -- A layer above does not see the one that goes, as the two do not overlap.
      have hreplaced : head.replaced under (rest ++ l :: below) =
          head.replaced under (rest ++ below) := by
        refine List.map_inj_left.mpr fun i hi => shown_of_not_covers fun hcovers => ?_
        rw [List.mem_range] at hi
        exact htop head List.mem_cons_self ⟨_, ⟨Nat.le_add_right _ _, by omega⟩, hcovers⟩
      refine ⟨h.1.trans (congrArg (fun bytes => some (head.site, bytes)) hreplaced), ?_⟩
      exact ih h.2 fun l' hl' => htop l' (List.mem_cons_of_mem head hl')

end Hotpatch
