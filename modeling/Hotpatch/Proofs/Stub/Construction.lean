import Hotpatch.Proofs.Access.Bounds
import Hotpatch.Proofs.Generation.Outcome
import Hotpatch.Proofs.Stub.Forwarder
import Hotpatch.Proofs.Stub.Placeholders

/-!
# How Building A Trampoline Ends

Every template has the placeholder's byte in one place only, four times in a row. So
relocating a template puts the target there and keeps the rest, and the bytes of the
target are never taken for another placeholder, whatever they are.

A trampoline is built in steps, and what comes of it is settled by the first step that
fails: the number of parameters, the null target, the target that does not fit a word,
and then the two requests for memory. Up to the requests nothing happens to the host, and
if one of them is refused, nothing that was mapped has changed.

## Main definitions

* `Direction.Fills`: Code that is a template with a target in its one field.
* `Direction.stub`: The code for a direction, a number of parameters and a target.
* `Trampoline.Construction`: How building a trampoline ends.
* `Trampoline.Constructed`: All there is to know of building one on a host.

## Theorems

* `Direction.template_field`: Where the target goes in a template.
* `Direction.fills_stub`, `Direction.fills_iff`: The code is a filled template.
* `Region.ofBytes_from`: A region made from bytes, step by step.
* `Trampoline.build_ends_iff`: One end for each host.
* `Trampoline.constructed_of_orderly`: Building a trampoline on a host.
-/

namespace Hotpatch

open Hotpatch.Action

/-- A scan finds nothing where the placeholder's byte is not. -/
theorem splice_of_not_mem {word template : List UInt8} (h : 0xF0 ∉ template) :
    splice word template = (template, 0) := by
  induction template with
  | nil => rfl
  | cons byte rest ih =>
      rw [List.mem_cons, not_or] at h
      have hnone : ¬ placeholder <+: byte :: rest := fun ⟨tail, htail⟩ =>
        h.1 (List.cons.inj htail).1
      rw [splice_cons hnone, ih h.2]

/-- A scan finds the one placeholder between other bytes. -/
theorem splice_field (word : List UInt8) {before after : List UInt8} (hbefore : 0xF0 ∉ before)
    (hafter : 0xF0 ∉ after) :
    splice word (before ++ placeholder ++ after) = (before ++ word ++ after, 1) := by
  have hleft : before.getLast? ≠ some 0xF0 := fun hlast => hbefore (List.mem_of_getLast? hlast)
  rw [List.append_assoc, splice_append (.inl hleft), splice_of_not_mem hbefore,
    splice_placeholder, splice_of_not_mem hafter, List.append_assoc, Nat.zero_add]

namespace Direction

variable {d : Direction} {arity : Nat} {target : Address} {code : List UInt8}

/-- Code that is the template for a number of parameters, but for one field of four bytes,
    the only place where the template has the placeholder's byte. The field holds the
    target. -/
def Fills (d : Direction) (arity : Nat) (target : Address) (code : List UInt8) : Prop :=
  ∃ before after, d.template arity = .ok (before ++ placeholder ++ after) ∧
    0xF0 ∉ before ∧ 0xF0 ∉ after ∧ code = before ++ littleEndian 4 target.toNat ++ after

/-- The code for a number of parameters and a target. -/
def stub (d : Direction) (arity : Nat) (target : Address) : List UInt8 :=
  (splice (littleEndian 4 target.toNat) ((d.template arity).toOption.getD [])).1

/-- Where the target goes in a template: there is one field for it, and the placeholder's
    byte is nowhere else. -/
theorem template_field (d : Direction) (h : arity ≤ maxArity) :
    ∃ before after, d.template arity = .ok (before ++ placeholder ++ after) ∧
      0xF0 ∉ before ∧ 0xF0 ∉ after := by
  -- The field begins after the frame was set up, and after what is stored before the target.
  have hfield : ∀ start template, d.template arity = .ok template →
      template = template.take start ++ placeholder ++ template.drop (start + 4) →
      0xF0 ∉ template.take start → 0xF0 ∉ template.drop (start + 4) →
      ∃ before after, d.template arity = .ok (before ++ placeholder ++ after) ∧
        0xF0 ∉ before ∧ 0xF0 ∉ after := by
    intro start template htemplate hsplit hbefore hafter
    refine ⟨template.take start, template.drop (start + 4), ?_, hbefore, hafter⟩
    exact htemplate.trans (congrArg _ hsplit)
  cases d with
  | fastcallToStdcall =>
      rcases arity_cases h with rfl | rfl | rfl | rfl
      · exact hfield 12 _ rfl (by decide) (by decide) (by decide)
      · exact hfield 15 _ rfl (by decide) (by decide) (by decide)
      · exact hfield 18 _ rfl (by decide) (by decide) (by decide)
      · exact hfield 18 _ rfl (by decide) (by decide) (by decide)
  | stdcallToFastcall =>
      rcases arity_cases h with rfl | rfl | rfl | rfl <;>
        exact hfield 12 _ rfl (by decide) (by decide) (by decide)

theorem template_of_many (d : Direction) (h : maxArity < arity) :
    d.template arity = .error (.noStub arity) := by
  have hnone : d.templates[arity]? = none := by
    cases d <;> exact List.getElem?_eq_none h
  simp only [template, hnone]

/-- The code around the field of a template, and in it. -/
theorem stub_eq {before after : List UInt8}
    (htemplate : d.template arity = .ok (before ++ placeholder ++ after))
    (hbefore : 0xF0 ∉ before) (hafter : 0xF0 ∉ after) (target : Address) :
    d.stub arity target = before ++ littleEndian 4 target.toNat ++ after := by
  rw [stub, htemplate]
  exact congrArg Prod.fst (splice_field _ hbefore hafter)

/-- The code is the template, but for the field that holds the target. -/
theorem fills_stub (d : Direction) (h : arity ≤ maxArity) (target : Address) :
    d.Fills arity target (d.stub arity target) := by
  rcases d.template_field h with ⟨before, after, htemplate, hbefore, hafter⟩
  exact ⟨before, after, htemplate, hbefore, hafter, stub_eq htemplate hbefore hafter target⟩

/-- No other code is. -/
theorem fills_iff (h : arity ≤ maxArity) :
    d.Fills arity target code ↔ code = d.stub arity target := by
  refine ⟨?_, fun hcode => hcode ▸ d.fills_stub h target⟩
  rintro ⟨before, after, htemplate, hbefore, hafter, rfl⟩
  exact (stub_eq htemplate hbefore hafter target).symm

theorem stub_ne_nil (d : Direction) (h : arity ≤ maxArity) (target : Address) :
    d.stub arity target ≠ [] := by
  rcases d.fills_stub h target with ⟨before, after, -, -, -, hcode⟩
  have hlength := congrArg List.length hcode
  simp only [List.length_append, length_littleEndian] at hlength
  exact List.ne_nil_of_length_pos (by omega)

/-- A template becomes the code, for every target that fits a word. -/
theorem relocate_template (d : Direction) (h : arity ≤ maxArity)
    (ht : target.toNat < codeSpace) :
    ∃ template, d.template arity = .ok template ∧
      relocate template target = .ok (d.stub arity target) := by
  rcases d.template_field h with ⟨before, after, htemplate, hbefore, hafter⟩
  have hword : addressWord target = some (littleEndian 4 target.toNat) := if_pos ht
  refine ⟨_, htemplate, ?_⟩
  simp only [relocate, hword, splice_field _ hbefore hafter,
    stub_eq htemplate hbefore hafter target]

end Direction

namespace Region

variable {host : Host}

/-- A region that was just allocated is away from both ends of the address space. -/
theorem Allocation.seated {size : Nat} {r : Region} (h : Allocation host size (.ok r))
    (positive : 0 < host.memory.next) : r.Seated := by
  intro _
  rcases h.address with ⟨-, hsize, -, haddress⟩
  cases h with
  | granted _ room _ =>
      have hfits := room.2.2
      have hwhole := le_wholePages size
      have hpage : 0 < pageSize := Nat.le_of_ble_eq_true rfl
      omega

/-- It is live, and has room for as many bytes as were asked for. -/
theorem Allocation.admits {size : Nat} {r : Region} (h : Allocation host size (.ok r)) :
    r.Admits 0 size := by
  cases h with
  | granted _ _ _ => exact ⟨rfl, Nat.le_of_eq (Nat.zero_add size)⟩

/-- A region that is made from bytes ends as its allocation does, and holds the bytes if
    there is one. -/
theorem ofBytes_from (bytes : List UInt8) (positive : 0 < host.memory.next) :
    Triple (fun h => h = host) (ofBytes bytes)
      (fun r h => Allocation host bytes.length (.ok r) ∧
        h.memory.read r.address.toNat bytes.length = bytes)
      fun fault _ => Allocation host bytes.length (.error fault) := by
  unfold ofBytes
  refine .bind ((allocate_from host bytes.length).weaken (fun _ h => h) (fun _ _ h => h.1)
    fun _ _ h => h.1) fun r => ?_
  refine .assuming (fun _ h => h) fun hr => ?_
  -- The region is new and long enough, so the write into it does not fail.
  have hwrite : Triple (fun _ => True) (r.write 0 bytes)
      (fun _ h => h.memory.read r.address.toNat bytes.length = bytes) fun _ _ => False := by
    intro h _
    rw [(hr.seated positive).write_eq hr.admits h]
    exact h.memory.read_write r.address.toNat bytes
  refine .bind (hwrite.weaken (fun _ _ => True.intro) (fun _ _ h => h) fun _ _ h => h.elim)
    fun _ => ?_
  exact .ret fun _ h => ⟨hr, h⟩

end Region

namespace Trampoline

variable {d : Direction} {arity : Nat} {target : Address} {host : Host}

/-- How building a trampoline ends on a host. The arguments are looked at first, in this
    order, and then there are the ends of an allocation. -/
inductive Construction (d : Direction) (arity : Nat) (target : Address) (host : Host) :
    Except Fault Trampoline → Prop
  | noStub (many : maxArity < arity) : Construction d arity target host
      (.error (.noStub arity))
  | nullTarget (few : arity ≤ maxArity) (null : target = 0) : Construction d arity target host
      (.error (.nullAddress "FastCallWrapper target"))
  | wideTarget (few : arity ≤ maxArity) (wide : codeSpace ≤ target.toNat) :
      Construction d arity target host
        (.error (.badArgument "address" "does not fit in 32 bits"))
  | unallocated (few : arity ≤ maxArity) (given : target ≠ 0) (fits : target.toNat < codeSpace)
      {fault : Fault}
      (allocation : Region.Allocation host (d.stub arity target).length (.error fault)) :
      Construction d arity target host (.error fault)
  | built (few : arity ≤ maxArity) (given : target ≠ 0) (fits : target.toNat < codeSpace)
      {r : Region}
      (allocation : Region.Allocation host (d.stub arity target).length (.ok r)) :
      Construction d arity target host (.ok ⟨r, target, d, arity⟩)

/-- A target that does not fit a word is not null. -/
theorem ne_zero_of_wide (h : codeSpace ≤ target.toNat) : target ≠ 0 := by
  rintro rfl
  exact absurd h (by decide)

/-- From one host building a trampoline ends in one way. -/
theorem Construction.unique {result result' : Except Fault Trampoline}
    (h : Construction d arity target host result)
    (h' : Construction d arity target host result') : result = result' := by
  -- The arguments exclude each other, and allocations end in one way.
  cases h <;> cases h' <;> grind [Region.Allocation.unique, ne_zero_of_wide]

theorem build_of_many (h : maxArity < arity) (host : Host) :
    build d arity target host = ⟨.error (.noStub arity), host, []⟩ := by
  rw [build, d.template_of_many h]
  rfl

theorem build_of_null (h : arity ≤ maxArity) (host : Host) :
    build d arity 0 host = ⟨.error (.nullAddress "FastCallWrapper target"), host, []⟩ := by
  rcases d.template_field h with ⟨before, after, htemplate, -⟩
  rw [build, htemplate]
  rfl

/-- With a template and a target, what is left is to relocate the one to the other and to
    store the code. -/
theorem build_eq {template : List UInt8} (htemplate : d.template arity = .ok template)
    (hsome : target ≠ 0) : build d arity target = (do
      let code ← Action.ofExcept (relocate template target)
      let region ← Region.ofBytes code
      Action.log (.built d arity region.address target)
      return ⟨region, target, d, arity⟩) := by
  rw [build, htemplate]
  change (pure template >>= _) = _
  rw [pure_bind]
  dsimp only
  rw [if_neg hsome]

theorem build_of_wide (h : arity ≤ maxArity) (hwide : codeSpace ≤ target.toNat) (host : Host) :
    build d arity target host =
      ⟨.error (.badArgument "address" "does not fit in 32 bits"), host, []⟩ := by
  rcases d.template_field h with ⟨before, after, htemplate, -⟩
  have hword : addressWord target = none := if_neg (Nat.not_lt.mpr hwide)
  rw [build_eq htemplate (ne_zero_of_wide hwide)]
  simp only [relocate, hword]
  rfl

/-- If nothing is wrong with the arguments, building a trampoline is storing its code. -/
theorem build_from (h : arity ≤ maxArity) (hsome : target ≠ 0) (ht : target.toNat < codeSpace)
    (positive : 0 < host.memory.next) :
    Triple (fun st => st = host) (build d arity target)
      (fun t st => Region.Allocation host (d.stub arity target).length (.ok t.region) ∧
        t = ⟨t.region, target, d, arity⟩ ∧
        st.memory.read t.address.toNat (d.stub arity target).length = d.stub arity target)
      fun fault _ => Region.Allocation host (d.stub arity target).length (.error fault) := by
  rcases d.relocate_template h ht with ⟨template, htemplate, hrelocate⟩
  rw [build_eq htemplate hsome, hrelocate]
  refine .bind (Q := fun code st => code = d.stub arity target ∧ st = host)
    (fun st hst => ⟨rfl, hst⟩) fun code => ?_
  refine .assuming (fun _ hst => hst.1) fun hcode => ?_
  rw [hcode]
  refine .bind ((Region.ofBytes_from _ positive).before fun _ hst => hst.2) fun r => ?_
  exact .bind_log (.ret fun st hst => ⟨hst.1, rfl, hst.2⟩)

/-- Building a trampoline ends in a way that the arguments and the host allow. -/
theorem build_ends (d : Direction) (arity : Nat) (target : Address)
    (positive : 0 < host.memory.next) :
    Construction d arity target host (build d arity target host).result := by
  by_cases h : arity ≤ maxArity
  · by_cases hnull : target = 0
    · rw [hnull, build_of_null h]
      exact .nullTarget h rfl
    · by_cases ht : target.toNat < codeSpace
      · have hend := build_from (d := d) h hnull ht positive host rfl
        split at hend
        · next t hok =>
            rw [hok, hend.2.1]
            exact .built h hnull ht hend.1
        · -- With the arguments in order, only the allocation is left to fail.
          next fault hfault =>
            rw [hfault]
            exact .unallocated h hnull ht hend
      · rw [build_of_wide h (Nat.le_of_not_lt ht)]
        exact .wideTarget h (Nat.le_of_not_lt ht)
  · rw [build_of_many (Nat.lt_of_not_le h)]
    exact .noStub (Nat.lt_of_not_le h)

/-- That is the one way in which it can end. -/
theorem build_ends_iff (d : Direction) (arity : Nat) (target : Address)
    (positive : 0 < host.memory.next) (result : Except Fault Trampoline) :
    Construction d arity target host result ↔ (build d arity target host).result = result := by
  have hend := build_ends d arity target positive
  exact ⟨fun h => hend.unique h, fun h => h ▸ hend⟩

/-- Building a trampoline leaves older memory intact, and a failure leaves no pages. -/
theorem build_leaves (d : Direction) (arity : Nat) (target : Address)
    (horderly : host.memory.Orderly) (haligned : host.memory.Aligned) :
    Triple (fun st => st = host) (build d arity target)
      (fun _ st => host.memory.Intact st.memory)
      fun _ st => st.memory.extents.Perm host.memory.extents ∧
        host.memory.Intact st.memory := by
  have hbuild := (upkeep_prepared horderly haligned host.slot).tending.build d arity target
  have hprepared := hbuild.after (s := host) (.start host)
  have hends := build_owns d arity target host (Host.ownsSince_self horderly)
  intro st hst
  rw [hst]
  split
  · exact hprepared.intact
  · -- All pages that were asked for on the way were given back.
    next hfault =>
      rw [hfault] at hends
      exact ⟨hends.extents, hprepared.intact⟩

/-- Building a trampoline on a host: how it ends, and what it leaves. -/
structure Constructed (d : Direction) (arity : Nat) (target : Address) (host : Host) :
    Prop where
  /-- The end is one of those that there are, and the only one the arguments and the host
      allow. -/
  ends : ∀ result,
    Construction d arity target host result ↔ (build d arity target host).result = result
  /-- No memory is asked for unless there is nothing wrong with the arguments. -/
  rejected : maxArity < arity ∨ target = 0 ∨ codeSpace ≤ target.toNat →
    (build d arity target host).state = host
  /-- If nothing is, all that can fail is one of the two requests for memory. -/
  refused : arity ≤ maxArity → target ≠ 0 → target.toNat < codeSpace → ∀ fault,
    (build d arity target host).result = .error fault →
      fault = .outOfMemory (d.stub arity target).length .systemCall ∨
        fault = .protectionRefused host.nextBase (d.stub arity target).length .systemCall
  /-- Without a trampoline no more is mapped than before. -/
  mapped : ∀ fault, (build d arity target host).result = .error fault → ∀ a,
    (build d arity target host).state.memory.Mapped a ↔ host.memory.Mapped a
  /-- What was mapped before is as it was, however it ends. -/
  intact : ∀ a, host.memory.Mapped a →
    (build d arity target host).state.memory.contents a = host.memory.contents a ∧
      (build d arity target host).state.memory.protectionAt a = host.memory.protectionAt a
  /-- The code is at the address of the trampoline, and is all that its region holds. -/
  holds : ∀ t, (build d arity target host).result = .ok t →
    (build d arity target host).state.memory.read t.address.toNat
        (d.stub arity target).length = d.stub arity target ∧
      (t.region.readAll (build d arity target host).state).result = .ok (d.stub arity target)

/-- The region of a new trampoline is as long as its code, and holds it. -/
theorem build_holds_stub {t : Trampoline} (positive : 0 < host.memory.next)
    (ht : (build d arity target host).result = .ok t) :
    Region.Allocation host (d.stub arity target).length (.ok t.region) ∧
      (build d arity target host).state.memory.read t.address.toNat
        (d.stub arity target).length = d.stub arity target := by
  have hend := (build_ends_iff d arity target positive _).mpr ht
  cases hend with
  | built few given fits allocation =>
      have hfrom := (build_from few given fits positive).of_ok rfl ht
      exact ⟨allocation, hfrom.2.2⟩

/-- Building a trampoline on a host whose memory is in order. -/
theorem constructed_of_orderly (d : Direction) (arity : Nat) (target : Address)
    (horderly : host.memory.Orderly) (haligned : host.memory.Aligned) :
    Constructed d arity target host where
  ends := build_ends_iff d arity target horderly.positive
  rejected h := by
    -- The three faults of the arguments come before anything is asked of the host.
    by_cases hmany : maxArity < arity
    · rw [build_of_many hmany]
    · have hfew := Nat.le_of_not_lt hmany
      rcases h with h | rfl | hwide
      · exact absurd h hmany
      · rw [build_of_null hfew]
      · rw [build_of_wide hfew hwide]
  refused hfew hgiven hfits fault hfault := by
    cases (build_ends_iff d arity target horderly.positive _).mpr hfault with
    | noStub many => exact absurd hfew (Nat.not_le.mpr many)
    | nullTarget _ null => exact absurd null hgiven
    | wideTarget _ wide => exact absurd hfits (Nat.not_lt.mpr wide)
    | unallocated _ _ _ allocation =>
        cases allocation with
        | empty none =>
            -- No stub is empty.
            exact absurd (List.eq_nil_of_length_eq_zero none) (d.stub_ne_nil hfew target)
        | noRoom _ _ => exact .inl rfl
        | refused _ _ _ => exact .inr rfl
  mapped fault hfault a := by
    have hleaves := build_leaves d arity target horderly haligned host rfl
    rw [hfault] at hleaves
    simp only [Memory.Mapped, hleaves.1.mem_iff]
  intact a ha := by
    have hleaves := build_leaves d arity target horderly haligned host rfl
    have hintact : host.memory.Intact (build d arity target host).state.memory := by
      split at hleaves
      · exact hleaves
      · exact hleaves.2
    exact ⟨hintact.contents a (horderly.lt_next ha), hintact.protectionAt horderly ha⟩
  holds t ht := by
    rcases build_holds_stub horderly.positive ht with ⟨hallocation, hread⟩
    refine ⟨hread, ?_⟩
    -- To read the whole region is to read from its first address on.
    have hadmits : t.region.Admits 0 t.region.size := by
      rw [hallocation.address.2.1]
      exact hallocation.admits
    rw [Region.readAll, (hallocation.seated horderly.positive).read_eq hadmits,
      hallocation.address.2.1]
    exact congrArg Except.ok hread

end Trampoline

end Hotpatch
