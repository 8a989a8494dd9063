import Mathlib.Data.List.Infix
import Mathlib.Data.Nat.Find
import Hotpatch.Stub.Relocation

/-!
# Where a Target Goes

The bytes of a placeholder are all alike, so the placeholders of a template
lie in the maximal runs of that byte, and a run of `length` of them holds
`length / 4` placeholders from its front on. This is said without a scan: a
template becomes code when that many words take the front of every maximal
run, whatever bytes the words are made of, and all else stays.

A scan falls apart at the ends of such a run, since no placeholder goes over
them. That is what takes it to the run alone.

## Main definitions

* `MaximalRun`: A run of the placeholder's byte that goes on as far as it can.
* `Relocated`: What a template becomes for a word.

## Theorems

* `splice_append`: A scan begins anew wherever a run ends.
* `splice_replicate`: What a run alone becomes.
* `MaximalRun.split`, `MaximalRun.exists_of_getElem?`: Where the runs of a
  template are.
* `relocate_runs`: What relocating answers, for every template and target.
-/

namespace Hotpatch

variable {word template pre post rest : List UInt8} {byte : UInt8}

/-- A run of the placeholder's byte that goes on as far as it can: `length` bytes from
    `start` on are that byte, and the ones beside them are not. -/
structure MaximalRun (template : List UInt8) (start length : Nat) : Prop where
  nonempty : 0 < length
  within : ∀ i < length, template[start + i]? = some 0xF0
  before : ∀ i, i + 1 = start → template[i]? ≠ some 0xF0
  after : template[start + length]? ≠ some 0xF0

theorem splice_placeholder (word rest : List UInt8) :
    splice word (placeholder ++ rest) = (word ++ (splice word rest).1, (splice word rest).2 + 1) :=
  rfl

/-- A byte that begins no placeholder stays. -/
theorem splice_cons (h : ¬ placeholder <+: byte :: rest) :
    splice word (byte :: rest) = (byte :: (splice word rest).1, (splice word rest).2) := by
  rw [splice]
  rintro tail rfl rfl
  exact h ⟨tail, rfl⟩

/-- The steps of a scan: a placeholder is taken, or a byte that begins none is kept. -/
theorem scan_induction {motive : List UInt8 → Prop} (nil : motive [])
    (taken : ∀ rest, motive rest → motive (placeholder ++ rest))
    (kept : ∀ byte rest, ¬ placeholder <+: byte :: rest → motive rest → motive (byte :: rest))
    (template : List UInt8) : motive template := by
  fun_induction splice [] template with
  | case1 rest _ _ _ ih => exact taken rest ih
  | case2 byte rest hne _ _ _ ih =>
      refine kept byte rest (fun ⟨tail, htail⟩ => ?_) ih
      rw [placeholder, List.cons_append, List.cons.injEq] at htail
      exact hne tail htail.1.symm htail.2.symm
  | case3 => exact nil

theorem eq_of_mem_placeholder (h : byte ∈ placeholder) : byte = 0xF0 := by
  simpa only [placeholder, List.mem_cons, List.not_mem_nil, or_false, or_self] using h

/-- No placeholder goes over the end of a run. -/
theorem not_prefix_append (hpre : pre ≠ []) (hnone : ¬ placeholder <+: pre)
    (hends : pre.getLast? ≠ some 0xF0 ∨ post.head? ≠ some 0xF0) :
    ¬ placeholder <+: pre ++ post := by
  rintro ⟨tail, htail⟩
  rcases List.append_eq_append_iff.mp htail with ⟨t, hpre', -⟩ | ⟨t, hsplit, hpost⟩
  · exact hnone ⟨t, hpre'.symm⟩
  · -- What is split is a placeholder, so there is its byte on both sides.
    have hbyte : ∀ b ∈ pre ++ t, b = 0xF0 := fun b hb => eq_of_mem_placeholder (hsplit ▸ hb)
    rcases hends with hlast | hhead
    · -- The last byte before the end would be that byte.
      refine hlast ?_
      rw [List.getLast?_eq_some_getLast hpre,
        hbyte _ (List.mem_append_left t (List.getLast_mem hpre))]
    · cases t with
      | nil =>
          rw [List.append_nil] at hsplit
          exact hnone ⟨[], by rw [List.append_nil, hsplit]⟩
      | cons b t =>
          -- The first byte after the end would be.
          refine hhead ?_
          rw [hpost, List.cons_append, List.head?_cons,
            hbyte b (List.mem_append_right pre List.mem_cons_self)]

/-- A scan begins anew wherever a run ends. -/
theorem splice_append (h : pre.getLast? ≠ some 0xF0 ∨ post.head? ≠ some 0xF0) :
    splice word (pre ++ post) = ((splice word pre).1 ++ (splice word post).1,
      (splice word pre).2 + (splice word post).2) := by
  induction pre using scan_induction with
  | nil => rw [List.nil_append, splice, List.nil_append, Nat.zero_add]
  | taken rest ih =>
      -- The end of the run is still ahead after a placeholder was taken, or after a byte.
      have hrest : rest.getLast? ≠ some 0xF0 ∨ post.head? ≠ some 0xF0 := by
        cases rest with
        | nil => exact .inl nofun
        | cons b rest => rwa [List.getLast?_append_cons] at h
      rw [List.append_assoc, splice_placeholder, splice_placeholder, ih hrest,
        List.append_assoc, Nat.add_right_comm]
  | kept b rest hnone ih =>
      have hrest : rest.getLast? ≠ some 0xF0 ∨ post.head? ≠ some 0xF0 := by
        cases rest with
        | nil => exact .inl nofun
        | cons b' rest => rwa [List.getLast?_cons_cons] at h
      have happend := not_prefix_append (List.cons_ne_nil b rest) hnone h
      rw [List.cons_append] at happend ⊢
      rw [splice_cons happend, splice_cons hnone, ih hrest, List.cons_append]

/-- A run gives as many placeholders as fit into it, from its front on. -/
theorem splice_replicate (word : List UInt8) (n : Nat) :
    splice word (List.replicate n 0xF0) =
      ((List.replicate (n / 4) word).flatten ++ List.replicate (n % 4) 0xF0, n / 4) := by
  induction n using Nat.strongRecOn with
  | ind n ih =>
      by_cases hshort : n < 4
      · -- Nothing fits into a short run.
        match n with
        | 0 | 1 | 2 | 3 => rfl
      · obtain ⟨m, rfl⟩ : ∃ m, n = 4 + m := ⟨n - 4, by omega⟩
        have hdiv : (4 + m) / 4 = m / 4 + 1 := by omega
        have hmod : (4 + m) % 4 = m % 4 := by omega
        have hsplit : List.replicate (4 + m) 0xF0 = placeholder ++ List.replicate m 0xF0 :=
          List.replicate_add 4 m 0xF0
        rw [hsplit, splice_placeholder, ih m (by omega), hdiv, hmod, List.replicate_succ,
          List.flatten_cons, List.append_assoc]

/-- A word takes the place of four bytes, so all bytes stay where they are. -/
theorem length_splice (hword : word.length = 4) (template : List UInt8) :
    (splice word template).1.length = template.length := by
  induction template using scan_induction with
  | nil => rfl
  | taken rest ih =>
      rw [splice_placeholder, List.length_append, List.length_append, ih, hword]
      rfl
  | kept b rest hnone ih => rw [splice_cons hnone, List.length_cons, List.length_cons, ih]

/-- Nothing is found exactly if there is no placeholder anywhere. -/
theorem splice_found_eq_zero_iff (word template : List UInt8) :
    (splice word template).2 = 0 ↔ ¬ placeholder <:+: template := by
  induction template using scan_induction with
  | nil => exact iff_of_true rfl (by rw [List.infix_nil]; exact List.cons_ne_nil _ _)
  | taken rest ih =>
      rw [splice_placeholder]
      have hinfix : placeholder <:+: placeholder ++ rest :=
        List.infix_append' [] placeholder rest
      exact iff_of_false (Nat.succ_ne_zero _) (not_not_intro hinfix)
  | kept b rest hnone ih => rw [splice_cons hnone, ih, List.infix_cons_iff, or_iff_right hnone]

namespace MaximalRun

variable {start length i : Nat}

/-- A template around a maximal run. -/
theorem split (h : MaximalRun template start length) :
    ∃ pre post, template = pre ++ (List.replicate length 0xF0 ++ post) ∧ pre.length = start ∧
      pre.getLast? ≠ some 0xF0 ∧ post.head? ≠ some 0xF0 := by
  have hstart : start < template.length := by
    have hfirst := h.within 0 h.nonempty
    rw [Nat.add_zero] at hfirst
    exact (List.getElem?_eq_some_iff.mp hfirst).1
  refine ⟨template.take start, template.drop (start + length), ?_, ?_, fun hlast => ?_, ?_⟩
  · -- From the start of the run on there are its bytes, and then what follows it.
    have hrun : template.drop start =
        List.replicate length 0xF0 ++ template.drop (start + length) := by
      refine List.ext_getElem? fun i => ?_
      rw [List.getElem?_drop]
      by_cases hi : i < length
      · rw [h.within i hi, List.getElem?_append_left (by rwa [List.length_replicate]),
          List.getElem?_replicate_of_lt hi]
      · rw [List.getElem?_append_right (by rw [List.length_replicate]; omega),
          List.length_replicate, List.getElem?_drop]
        congr 1
        omega
    rw [← hrun, List.take_append_drop]
  · exact List.length_take_of_le (Nat.le_of_lt hstart)
  · cases start with
    | zero => exact absurd hlast nofun
    | succ k =>
        -- The last byte before the run is the one that must not be of that kind.
        rw [List.getLast?_take, if_neg k.succ_ne_zero, Nat.add_sub_cancel,
          List.getElem?_eq_getElem (by omega), Option.some_or,
          ← List.getElem?_eq_getElem (by omega)] at hlast
        exact h.before k rfl hlast
  · rw [List.head?_drop]
    exact h.after

/-- Every byte of the placeholder's kind lies in a maximal run. -/
theorem exists_of_getElem? (h : template[i]? = some 0xF0) :
    ∃ start length, MaximalRun template start length ∧ start ≤ i ∧ i < start + length := by
  classical
  -- The first index from which all is that byte up to `i`, and the first after `i` that is not.
  have hfirst : ∃ s, ∀ j, s ≤ j → j ≤ i → template[j]? = some 0xF0 :=
    ⟨i, fun j hlow hhigh => Nat.le_antisymm hlow hhigh ▸ h⟩
  have hlast : ∃ e, i ≤ e ∧ template[e]? ≠ some 0xF0 := by
    refine ⟨max i template.length, Nat.le_max_left _ _, ?_⟩
    rw [List.getElem?_eq_none (Nat.le_max_right _ _)]
    exact nofun
  have hs := Nat.find_spec hfirst
  have he := Nat.find_spec hlast
  have hsi : Nat.find hfirst ≤ i := Nat.find_min' hfirst
    fun j hlow hhigh => Nat.le_antisymm hlow hhigh ▸ h
  have hie : i < Nat.find hlast := Nat.lt_of_le_of_ne he.1 fun heq => he.2 (heq ▸ h)
  refine ⟨Nat.find hfirst, Nat.find hlast - Nat.find hfirst, ⟨by omega, fun j hj => ?_,
    fun k hk hbyte => ?_, ?_⟩, hsi, by omega⟩
  · by_cases hji : Nat.find hfirst + j ≤ i
    · exact hs _ (Nat.le_add_right _ _) hji
    · -- After `i` a byte of another kind would be found sooner.
      by_contra hbyte
      exact Nat.find_min hlast (by omega) ⟨by omega, hbyte⟩
  · -- If the byte before were of that kind, the run would begin there.
    refine Nat.find_min hfirst (m := k) (by omega) fun j hlow hhigh => ?_
    rcases Nat.eq_or_lt_of_le hlow with rfl | hlt
    · exact hbyte
    · exact hs j (by omega) hhigh
  · rw [Nat.add_sub_cancel' (by omega)]
    exact he.2

end MaximalRun

/-- What a template becomes for a word: as many words as fit from the front of every
    maximal run on, and all else as it was. -/
structure Relocated (word template out : List UInt8) : Prop where
  length : out.length = template.length
  runs : ∀ start length, MaximalRun template start length →
    (out.drop start).take length =
      (List.replicate (length / 4) word).flatten ++ List.replicate (length % 4) 0xF0
  others : ∀ i, (∀ start length, MaximalRun template start length →
    i < start ∨ start + length ≤ i) → out[i]? = template[i]?

theorem splice_run (hword : word.length = 4) {start length : Nat}
    (h : MaximalRun template start length) :
    ((splice word template).1.drop start).take length =
      (List.replicate (length / 4) word).flatten ++ List.replicate (length % 4) 0xF0 := by
  rcases h.split with ⟨pre, post, rfl, rfl, hleft, hright⟩
  have hlength := length_splice hword (List.replicate length 0xF0)
  rw [List.length_replicate] at hlength
  rw [splice_append (.inl hleft), splice_append (.inr hright),
    List.drop_left' (length_splice hword pre), List.take_left' hlength, splice_replicate]

/-- A byte of another kind stays where it is. -/
theorem splice_other (hword : word.length = 4) {i : Nat} (h : template[i]? ≠ some 0xF0) :
    (splice word template).1[i]? = template[i]? := by
  by_cases hi : i < template.length
  · obtain ⟨pre, b, post, rfl, rfl⟩ : ∃ pre b post, template = pre ++ b :: post ∧ pre.length = i :=
      ⟨template.take i, template[i], template.drop (i + 1), by
        rw [List.getElem_cons_drop, List.take_append_drop],
        List.length_take_of_le (Nat.le_of_lt hi)⟩
    rw [List.getElem?_append_right (Nat.le_refl _), Nat.sub_self, List.getElem?_cons_zero] at h ⊢
    -- No placeholder begins with the byte, so it is where one run may end.
    have hnone : ¬ placeholder <+: b :: post := fun ⟨tail, htail⟩ =>
      h (congrArg some (List.cons.inj htail).1.symm)
    have hhead : (b :: post).head? ≠ some 0xF0 := h
    have hlength := length_splice hword pre
    rw [splice_append (.inr hhead), splice_cons hnone, List.getElem?_append_right (by omega),
      hlength, Nat.sub_self, List.getElem?_cons_zero]
  · rw [List.getElem?_eq_none (by rw [length_splice hword]; omega),
      List.getElem?_eq_none (by omega)]

/-- What a scan gives. -/
theorem relocated_splice (hword : word.length = 4) (template : List UInt8) :
    Relocated word template (splice word template).1 where
  length := length_splice hword template
  runs _ _ h := splice_run hword h
  others i h := by
    -- Beside all maximal runs there is no byte of the placeholder's kind.
    have hother : template[i]? ≠ some 0xF0 := by
      intro hbyte
      rcases MaximalRun.exists_of_getElem? hbyte with ⟨start, length, hrun, hlow, hhigh⟩
      rcases h start length hrun with hbefore | hafter
      · omega
      · omega
    exact splice_other hword hother

/-- A template becomes code for every target that a word holds, if there is a placeholder
    in it. -/
theorem relocate_runs (template : List UInt8) (target : Address) :
    if codeSpace ≤ target.toNat then
      relocate template target = .error (.badArgument "address" "does not fit in 32 bits")
    else if placeholder <:+: template then
      ∃ out, relocate template target = .ok out ∧
        Relocated (littleEndian 4 target.toNat) template out
    else relocate template target = .error (.noPlaceholder template.length) := by
  have hword : addressWord target =
      if target.toNat < codeSpace then some (littleEndian 4 target.toNat) else none := rfl
  split
  · next hwide =>
      rw [if_neg (Nat.not_lt.mpr hwide)] at hword
      simp only [relocate, hword]
  · next hfits =>
      rw [if_pos (Nat.lt_of_not_le hfits)] at hword
      -- What matters of the scan is its output, and whether it found anything.
      have hrelocated := relocated_splice (length_littleEndian 4 target.toNat) template
      have hfound := splice_found_eq_zero_iff (littleEndian 4 target.toNat) template
      simp only [relocate, hword]
      rcases hsplice : splice (littleEndian 4 target.toNat) template with ⟨out, _ | found⟩ <;>
        rw [hsplice] at hfound hrelocated
      · rw [if_neg (hfound.mp rfl)]
      · rw [if_pos (by_contra fun h => absurd (hfound.mpr h) found.succ_ne_zero)]
        exact ⟨out, rfl, hrelocated⟩

/-- An address with the placeholder's byte in it makes new ones with what is left over of a
    run, and they stay. -/
example : relocate [0xF0, 0xF0, 0xF0, 0xF0, 0xF0, 0x90, 0xF0, 0xF0, 0xF0] 0xF0F0F012 =
    .ok [0x12, 0xF0, 0xF0, 0xF0, 0xF0, 0x90, 0xF0, 0xF0, 0xF0] := by decide

end Hotpatch
