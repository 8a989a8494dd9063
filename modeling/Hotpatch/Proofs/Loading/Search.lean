import Hotpatch.Module.Resolver

/-!
# The Search For A Module

A module is looked for from the front of the list of loaded objects, and the first that
goes by its name is taken. Here is said without a search which object that is and where
it begins.

The list only ever gets longer, and only at its end. So an object that was found is
found again, whatever was loaded in between; but one that was missing may have come.

## Main definitions

* `Image.GoesBy`: The names of an object.
* `Image.Lowest`, `Image.BeginsAt`: Where an object begins.
* `Loader.First`, `Loader.Lacks`: The object that a name means, if there is one.
* `Loader.Becomes`: What may become of a loader.

## Theorems

* `Image.answersTo_iff_goesBy`, `Image.beginsAt_iff`: The code agrees.
* `Loader.find_eq_some_iff`, `Loader.find_eq_none_iff`: What the search finds.
* `Loader.First.unique`, `Loader.first_or_lacks`: A name means one object or none.
* `Loader.Becomes.first`, `Loader.Becomes.lacks`: What is found stays found, and what is
  missing was missing before.
-/

namespace Hotpatch

/-- What answers to a name is the name itself, or goes on with a mark. -/
theorem Path.answersTo_iff_mark (file name : List UInt8) :
    Path.AnswersTo file name ↔ file = name ∨
      ∃ mark rest, (mark = Path.dot ∨ mark = Path.dash) ∧ file = name ++ mark :: rest := by
  constructor
  · rintro ⟨rest, hfile, hmark⟩
    cases rest with
    | nil => exact .inl (hfile.trans (List.append_nil name))
    | cons mark rest =>
        -- What follows the name must begin with a mark.
        simp only [List.head?_cons, Option.all_some, Bool.or_eq_true, beq_iff_eq] at hmark
        exact .inr ⟨mark, rest, hmark, hfile⟩
  · rintro (rfl | ⟨mark, rest, hmark, rfl⟩)
    · exact ⟨[], (List.append_nil file).symm, rfl⟩
    · refine ⟨mark :: rest, rfl, ?_⟩
      simpa only [List.head?_cons, Option.all_some, Bool.or_eq_true, beq_iff_eq] using hmark

namespace Image

variable {image : Image} {name : String} {base address : Address}

/-- An object goes by the name of its file, and by what stands in front of a dot or a dash
    in it. Without a path that names a file it goes by no name. -/
def GoesBy (image : Image) (name : String) : Prop :=
  ∃ path file, image.path = some path ∧ Path.fileName path = some file ∧
    (file = name.toUTF8.toList ∨ ∃ mark rest, (mark = Path.dot ∨ mark = Path.dash) ∧
      file = name.toUTF8.toList ++ mark :: rest)

theorem answersTo_iff_goesBy : image.AnswersTo name ↔ image.GoesBy name := by
  simp only [AnswersTo, GoesBy, Path.answersTo_iff_mark, Option.mem_def,
    Option.bind_eq_some_iff]
  constructor
  · rintro ⟨file, ⟨path, hpath, hfile⟩, hname⟩
    exact ⟨path, file, hpath, hfile, hname⟩
  · rintro ⟨path, file, hpath, hfile, hname⟩
    exact ⟨file, ⟨path, hpath, hfile⟩, hname⟩

/-- The least address of a loadable segment, or zero if there is none. The order of the
    segments does not enter. -/
inductive Lowest (image : Image) : Address → Prop
  | least {segment : Segment} (mem : segment ∈ image.segments)
      (kind : segment.kind = Segment.loadable)
      (least : ∀ other ∈ image.segments, other.kind = Segment.loadable →
        segment.address ≤ other.address) : Lowest image segment.address
  | none (kind : ∀ segment ∈ image.segments, segment.kind ≠ Segment.loadable) : Lowest image 0

theorem firstAddress_lowest (image : Image) : image.Lowest image.firstAddress := by
  rw [firstAddress]
  cases hmin : ((image.segments.filter (·.kind = Segment.loadable)).map (·.address)).min? with
  | none =>
      rw [List.min?_eq_none_iff, List.map_eq_nil_iff, List.filter_eq_nil_iff] at hmin
      exact .none fun segment hmem => by simpa only [decide_eq_true_eq] using hmin segment hmem
  | some address =>
      -- The minimum of the list is the address of one of its segments.
      simp only [List.min?_eq_some_iff, List.mem_map, List.mem_filter, decide_eq_true_eq,
        forall_exists_index, and_imp] at hmin
      rcases hmin with ⟨⟨segment, ⟨hmem, hkind⟩, rfl⟩, hleast⟩
      exact .least hmem hkind fun other hother hkind' => hleast _ other hother hkind' rfl

theorem Lowest.unique (h : image.Lowest address) : address = image.firstAddress := by
  have hfirst := image.firstAddress_lowest
  generalize image.firstAddress = first at hfirst
  cases h with
  | @least segment mem kind least =>
      cases hfirst with
      | @least segment' mem' kind' least' =>
          -- Each of two least addresses is at most the other.
          exact UInt64.le_antisymm (least segment' mem' kind') (least' segment mem kind)
      | none hnone => exact absurd kind (hnone segment mem)
  | none hnone =>
      cases hfirst with
      | @least segment' mem' kind' _ => exact absurd kind' (hnone segment' mem')
      | none _ => rfl

/-- An object begins at the lowest of its addresses, moved by as much as the object was.
    The sum wraps. -/
def BeginsAt (image : Image) (base : Address) : Prop :=
  ∃ lowest, image.Lowest lowest ∧
    base.toNat = (image.bias.toNat + lowest.toNat) % addressSpace

theorem beginsAt_iff : image.BeginsAt base ↔ base = image.base := by
  have hbase : image.base.toNat =
      (image.bias.toNat + image.firstAddress.toNat) % addressSpace :=
    UInt64.toNat_add image.bias image.firstAddress
  constructor
  · rintro ⟨lowest, hlowest, heq⟩
    rw [hlowest.unique, ← hbase] at heq
    exact UInt64.toNat_inj.mp heq
  · rintro rfl
    exact ⟨image.firstAddress, image.firstAddress_lowest, hbase⟩

end Image

namespace Loader

variable {l l' : Loader} {name : String} {image : Image} {base : Address}

/-- The first loaded object that goes by a name. -/
def First (l : Loader) (name : String) (image : Image) : Prop :=
  image.GoesBy name ∧ ∃ front back, l.loaded = front ++ image :: back ∧
    ∀ other ∈ front, ¬ other.GoesBy name

/-- No loaded object goes by a name. -/
def Lacks (l : Loader) (name : String) : Prop :=
  ∀ image ∈ l.loaded, ¬ image.GoesBy name

theorem first_iff : l.First name image ↔ l.loaded.find? (·.AnswersTo name) = some image := by
  simp only [First, List.find?_eq_some_iff_append, decide_eq_true_eq, Bool.not_eq_true',
    decide_eq_false_iff_not, Image.answersTo_iff_goesBy]

theorem lacks_iff : l.Lacks name ↔ l.loaded.find? (·.AnswersTo name) = none := by
  simp only [Lacks, List.find?_eq_none, decide_eq_true_eq, Image.answersTo_iff_goesBy]

theorem find_eq_some_iff :
    l.find name = some base ↔ ∃ image, l.First name image ∧ image.BeginsAt base := by
  simp only [find, Option.map_eq_some_iff, first_iff, Image.beginsAt_iff, @eq_comm _ base]

theorem find_eq_none_iff : l.find name = none ↔ l.Lacks name := by
  rw [find, Option.map_eq_none_iff, lacks_iff]

theorem First.mem (h : l.First name image) : image ∈ l.loaded := by
  rcases h with ⟨_, front, back, hloaded, _⟩
  exact hloaded ▸ List.mem_append_right front List.mem_cons_self

theorem First.not_lacks (h : l.First name image) : ¬ l.Lacks name := by
  intro hlacks
  exact hlacks image h.mem h.1

/-- A name means one object at most. -/
theorem First.unique {image' : Image} (h : l.First name image) (h' : l.First name image') :
    image' = image := by
  rw [first_iff] at h h'
  rw [h', Option.some.injEq] at h
  exact h

/-- A name means an object or none. -/
theorem first_or_lacks (l : Loader) (name : String) :
    (∃ image base, l.First name image ∧ image.BeginsAt base) ∨ l.Lacks name := by
  cases hfind : l.find name with
  | none => exact .inr (find_eq_none_iff.mp hfind)
  | some base =>
      rcases find_eq_some_iff.mp hfind with ⟨image, hfirst, hbegins⟩
      exact .inl ⟨image, base, hfirst, hbegins⟩

/-- What may become of a loader: objects are added at the end, and the files that can be
    opened are the same. -/
def Becomes (l l' : Loader) : Prop :=
  (∃ images, l'.loaded = l.loaded ++ images) ∧ l'.loadable = l.loadable

namespace Becomes

variable {m : Loader}

theorem refl (l : Loader) : l.Becomes l :=
  ⟨⟨[], (List.append_nil l.loaded).symm⟩, rfl⟩

theorem trans (h : l.Becomes m) (h' : m.Becomes l') : l.Becomes l' := by
  rcases h with ⟨⟨images, hloaded⟩, hloadable⟩
  rcases h' with ⟨⟨images', hloaded'⟩, hloadable'⟩
  refine ⟨⟨images ++ images', ?_⟩, hloadable'.trans hloadable⟩
  rw [hloaded', hloaded, List.append_assoc]

/-- The object that a name means stays the same. -/
theorem first (h : l.Becomes l') (hfirst : l.First name image) : l'.First name image := by
  rcases h.1 with ⟨images, hloaded⟩
  rw [first_iff] at hfirst ⊢
  rw [hloaded, List.find?_append, hfirst, Option.some_or]

/-- A name that means none meant none before. -/
theorem lacks (h : l.Becomes l') (hlacks : l'.Lacks name) : l.Lacks name := by
  rcases h.1 with ⟨images, hloaded⟩
  intro image hmem
  exact hlacks image (hloaded ▸ List.mem_append_left images hmem)

end Becomes

end Loader

end Hotpatch
