import Hotpatch.Memory

/-!
# Extents

The mapped extents of an address space, as they are after any number of
reservations and releases. New pages always come from above everything that was
ever handed out, with a page left free between, and that is the whole reason why
extents are apart and why no base is handed out twice.

## Main definitions

* `Extent.Apart`: Two extents with something between them.
* `Memory.Orderly`: The extents of an address space that only hands out pages.

## Theorems

* `Orderly.reserve`: New pages.
* `Orderly.unmap`: An extent unmapped.
* `reserve_contents`: New pages leave alone what is below them.
-/

namespace Hotpatch

namespace Extent

/-- Two extents that have something between them. -/
def Apart (e e' : Extent) : Prop :=
  e.base + e.length < e'.base ∨ e'.base + e'.length < e.base

theorem Apart.symm {e e' : Extent} (h : e.Apart e') : e'.Apart e :=
  Or.symm h

theorem Apart.base_ne {e e' : Extent} (h : e.Apart e') : e'.base ≠ e.base := by
  rcases h with h | h <;> omega

end Extent

/-- The whole pages of a length hold it. -/
theorem le_wholePages (length : Nat) : length ≤ wholePages length := by
  simp only [wholePages, pageSize]
  omega

/-- The page of an address of a range holds a byte of the range. -/
theorem touches_of_lt {base size a : Nat} (hlow : base ≤ a) (hhigh : a < base + size) :
    Touches base size (pageOf a) := by
  have hstart : pageOf a * pageSize ≤ a := Nat.div_mul_le_self a pageSize
  refine ⟨?_, ?_⟩
  · exact Nat.div_le_div_right hlow
  · exact Nat.lt_of_le_of_lt hstart hhigh

namespace Memory

/-- An address space that hands out pages upwards. Every mapped extent, and every
    base that was asked to be unmapped, is below the pages that come next. -/
structure Orderly (m : Memory) : Prop where
  apart : m.extents.Pairwise Extent.Apart
  placed : ∀ e ∈ m.extents, 0 < e.base ∧ e.base + e.length < m.next
  once : m.unmapped.Nodup
  gone : ∀ b ∈ m.unmapped, b < m.next ∧ ∀ e ∈ m.extents, e.base ≠ b
  positive : 0 < m.next

variable {m m' : Memory} {base length : Nat} {protection : Protection}

theorem orderly_empty : Memory.empty.Orderly where
  apart := .nil
  placed _ he := absurd he List.not_mem_nil
  once := .nil
  gone _ hb := absurd hb List.not_mem_nil
  positive := Nat.le_of_ble_eq_true rfl

/-- Nothing but extents and what is next makes a memory orderly. -/
theorem Orderly.congr (h : m.Orderly) (extents : m'.extents = m.extents)
    (next : m'.next = m.next) (unmapped : m'.unmapped = m.unmapped) : m'.Orderly where
  apart := by rw [extents]; exact h.apart
  placed := by rw [extents, next]; exact h.placed
  once := by rw [unmapped]; exact h.once
  gone := by rw [unmapped, extents, next]; exact h.gone
  positive := by rw [next]; exact h.positive

/-- Mapped addresses are below the pages that come next. -/
theorem Orderly.lt_next (h : m.Orderly) {a : Nat} (ha : m.Mapped a) : a < m.next := by
  rcases ha with ⟨e, he, hlow, hhigh⟩
  have := (h.placed e he).2
  omega

/-- What a reservation hands out. -/
theorem reserve_eq_some (h : m.reserve length protection = some (base, m')) :
    base = m.next ∧ base + wholePages length + pageSize ≤ addressSpace ∧
      m'.extents = m.extents ++ [⟨base, wholePages length⟩] ∧
      m'.contents = cleared base (wholePages length) m.contents ∧
      m'.next = base + wholePages length + pageSize ∧ m'.unmapped = m.unmapped := by
  simp only [reserve] at h
  split at h
  · next hfits =>
      rw [Option.some.injEq, Prod.mk.injEq] at h
      rw [← h.1, ← h.2]
      exact ⟨rfl, hfits.2, rfl, rfl, rfl, rfl⟩
  · exact absurd h (by simp only [reduceCtorEq, not_false_eq_true])

/-- Pages end within the address space, so the word of their base is the base itself. -/
theorem toNat_of_reserve (hr : m.reserve length protection = some (base, m')) :
    (UInt64.ofNat base).toNat = base := by
  rcases reserve_eq_some hr with ⟨-, hfits, -⟩
  have hpage : 0 < pageSize := Nat.le_of_ble_eq_true rfl
  simp only [addressSpace] at hfits
  rw [UInt64.toNat_ofNat']
  exact Nat.mod_eq_of_lt (by omega)

/-- New pages are above all others. -/
theorem Orderly.reserve (h : m.Orderly) (hr : m.reserve length protection = some (base, m')) :
    m'.Orderly := by
  rcases reserve_eq_some hr with ⟨hbase, -, hextents, -, hnext, hunmapped⟩
  have hpage : 0 < pageSize := Nat.le_of_ble_eq_true rfl
  refine ⟨?_, ?_, ?_, ?_, ?_⟩
  · -- The page between is what keeps the new extent apart from all others.
    rw [hextents, List.pairwise_append]
    refine ⟨h.apart, List.pairwise_singleton _ _, fun e he e' he' => ?_⟩
    rw [List.mem_singleton] at he'
    rw [he']
    have hbelow := (h.placed e he).2
    exact .inl (by simp only [hbase]; exact hbelow)
  · -- The page behind the new ones is kept free, so they end below what is next.
    intro e he
    rw [hextents, List.mem_append, List.mem_singleton] at he
    rcases he with he | rfl
    · have hbelow := h.placed e he
      omega
    · have hpositive := h.positive
      simp only
      omega
  · rw [hunmapped]
    exact h.once
  · -- What was unmapped is below, so the new pages are not among it.
    intro b hb
    rw [hunmapped] at hb
    rcases h.gone b hb with ⟨hlt, hne⟩
    refine ⟨by omega, fun e he => ?_⟩
    rw [hextents, List.mem_append, List.mem_singleton] at he
    rcases he with he | rfl
    · exact hne e he
    · simp only
      omega
  · omega

/-- New pages leave alone what is below them. -/
theorem reserve_contents (hr : m.reserve length protection = some (base, m')) {a : Nat}
    (ha : a < m.next) : m'.contents a = m.contents a := by
  rcases reserve_eq_some hr with ⟨hbase, -, -, hcontents, -, -⟩
  -- Only the new pages are cleared, and they begin at what was next.
  have hout : ¬ (base ≤ a ∧ a < base + wholePages length) := by omega
  rw [hcontents, cleared, if_neg hout]

/-- The page of an address below the next page is below it. -/
theorem page_lt_next (h : a < m.next) : pageOf a * pageSize < m.next := by
  have hstart : pageOf a * pageSize ≤ a := Nat.div_mul_le_self a pageSize
  omega

/-- New pages have the protection that was asked for, and others are not touched. -/
theorem reserve_protection (hr : m.reserve length protection = some (base, m')) (page : Nat) :
    m'.protection page =
      if Touches m.next (wholePages length) page then protection else m.protection page := by
  simp only [reserve] at hr
  split at hr
  · rw [Option.some.injEq, Prod.mk.injEq] at hr
    rw [← hr.2]
    rfl
  · exact absurd hr (by simp only [reduceCtorEq, not_false_eq_true])

/-- Unmapping takes out the one extent that begins at the base. -/
theorem Orderly.unmap_extents (h : m.Orderly) {rest : List Extent}
    (hm : m.extents.Perm (⟨base, length⟩ :: rest)) : (m.unmap base).extents.Perm rest := by
  -- All others are apart from it, so they begin elsewhere and stay.
  have hapart := (hm.pairwise_iff fun hxy => Extent.Apart.symm hxy).mp h.apart
  have hrest : rest.filter (fun e => e.base ≠ base) = rest := by
    refine List.filter_eq_self.mpr fun e he => decide_eq_true ?_
    exact (List.rel_of_pairwise_cons hapart he).base_ne
  have hfilter := hm.filter fun e => e.base ≠ base
  simp only [List.filter_cons, ne_eq, not_true_eq_false, decide_false, Bool.false_eq_true,
    if_false] at hfilter
  exact hfilter.trans (.of_eq hrest)

/-- A base that is unmapped was mapped until then, so it was not unmapped
    before. -/
theorem Orderly.unmap (h : m.Orderly) {rest : List Extent}
    (hm : m.extents.Perm (⟨base, length⟩ :: rest)) : (m.unmap base).Orderly := by
  have hmem : (⟨base, length⟩ : Extent) ∈ m.extents := hm.mem_iff.mpr List.mem_cons_self
  have hbelow := h.placed _ hmem
  refine ⟨h.apart.filter _, ?_, ?_, ?_, h.positive⟩
  · intro e he
    exact h.placed e (List.mem_filter.mp he).1
  · -- A base that was unmapped before is not mapped, and this one is.
    refine List.nodup_append.mpr ⟨h.once, List.pairwise_singleton _ _, fun b hb b' hb' => ?_⟩
    rw [List.mem_singleton] at hb'
    rw [hb']
    exact fun heq => (h.gone b hb).2 _ hmem heq.symm
  · intro b hb
    rw [Memory.unmap, List.mem_append, List.mem_singleton] at hb
    rcases hb with hb | rfl
    · rcases h.gone b hb with ⟨hlt, hne⟩
      exact ⟨hlt, fun e he => hne e (List.mem_filter.mp he).1⟩
    · -- The extent that began at the base is filtered out, and no other begins there.
      refine ⟨?_, fun e he => of_decide_eq_true (List.mem_filter.mp he).2⟩
      have hlt := hbelow.2
      simp only at hlt
      exact Nat.lt_of_le_of_lt (Nat.le_add_right _ _) hlt

end Memory

end Hotpatch
