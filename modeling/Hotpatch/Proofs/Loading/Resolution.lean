import Hotpatch.Proofs.Loading.Headers

/-!
# How A Module Is Found

The loader is asked for a file only if no loaded object goes by the name of the module.
Then it is asked for the file of that name, and if that does not bring the module, for
the shared library of the name, and for nothing else. What comes of it is told here case
by case, in terms of the search alone.

The cases exclude each other, because a name means at most one object and an attempt to
open a file goes in one way only. So they are not just what may happen: what is said in
the case that applies is what happens.

## Main definitions

* `Loader.Tried`: What comes of an attempt to open a file.
* `Loader.Resolution`: What comes of asking for the base of a module.
* `Event.opened?`: What the loader was asked to open.

## Theorems

* `Loader.Tried.load`, `Loader.exists_tried`: An attempt to open a file.
* `Loader.Resolution.resolve`, `Loader.exists_resolution`: The cases are those of the code.
* `Resolver.base_resolution`, `Resolver.resolution_base`: So are those of the resolver.
* `Resolver.base_system`: The base of a module that the system's resolver is asked for.
-/

namespace Hotpatch

open Hotpatch.Action

/-- The file that the loader was asked to open. -/
def Event.opened? : Event → Option String
  | .opened file => some file
  | _ => none

theorem Event.opened?_map (files : List String) :
    (files.map Event.opened).filterMap Event.opened? = files := by
  rw [List.filterMap_map]
  exact List.filterMap_some

namespace Loader

variable {l l₁ l' : Loader} {name file : String} {rest asked : List String} {base : Address}
  {success : Bool} {result : Except Fault Address}

/-- The file of a shared library. -/
def libraryFile (name : String) : String :=
  "lib" ++ name ++ ".so"

/-- An attempt to open a file: whether it was opened, what becomes of the loader, and what
    the loader was asked for. -/
inductive Tried (l : Loader) (file : String) : Bool → Loader → List String → Prop
  /-- A name that holds a NUL does not reach the loader. -/
  | unseen (nul : '\x00' ∈ file.toList) : Tried l file false l []
  | refused (seen : '\x00' ∉ file.toList) (unknown : l.loadable.lookup file = none) :
      Tried l file false l [file]
  | opened {images : List Image} (seen : '\x00' ∉ file.toList)
      (known : l.loadable.lookup file = some images) :
      Tried l file true { l with loaded := l.loaded ++ images } [file]

theorem exists_tried (l : Loader) (file : String) :
    ∃ success l₁ asked, l.Tried file success l₁ asked := by
  by_cases hnul : '\x00' ∈ file.toList
  · exact ⟨_, _, _, .unseen hnul⟩
  · cases hlookup : l.loadable.lookup file with
    | none => exact ⟨_, _, _, .refused hnul hlookup⟩
    | some images => exact ⟨_, _, _, .opened hnul hlookup⟩

theorem Tried.load (h : l.Tried file success l₁ asked) :
    Loader.load file l = ⟨.ok success, l₁, asked.map .opened⟩ := by
  cases h with
  | unseen nul =>
      rw [Loader.load, if_pos nul]
      rfl
  | refused seen unknown =>
      rw [Loader.load, if_neg seen, bind_ok rfl, bind_ok rfl]
      simp only [Action.emit, Action.gets, unknown]
      rfl
  | opened seen known =>
      rw [Loader.load, if_neg seen, bind_ok rfl, bind_ok rfl]
      simp only [Action.emit, Action.gets, known]
      rfl

/-- Only the end of the list of loaded objects is touched. -/
theorem Tried.becomes (h : l.Tried file success l₁ asked) : l.Becomes l₁ := by
  cases h with
  | unseen _ => exact .refl l
  | refused _ _ => exact .refl l
  | opened _ _ => exact ⟨⟨_, rfl⟩, rfl⟩

/-- The module is found after a file was opened. -/
theorem openFirst_found (htried : l.Tried file true l₁ asked)
    (hfound : (l₁.find file).or (l₁.find name) = some base) :
    openFirst name (file :: rest) l = ⟨.ok base, l₁, asked.map .opened⟩ := by
  have hload := htried.load
  rw [openFirst, bind_ok (congrArg Outcome.result hload), hload]
  simp only [if_true]
  rw [bind_ok rfl]
  simp only [Action.gets, hfound]
  exact congrArg _ (List.append_nil _)

/-- The module is not found, so the other files are tried. -/
theorem openFirst_next (htried : l.Tried file success l₁ asked)
    (hmissing : success = true → (l₁.find file).or (l₁.find name) = none) :
    openFirst name (file :: rest) l = ⟨(openFirst name rest l₁).result,
      (openFirst name rest l₁).state,
      asked.map .opened ++ (openFirst name rest l₁).trace⟩ := by
  have hload := htried.load
  rw [openFirst, bind_ok (congrArg Outcome.result hload), hload]
  cases success with
  | false => rfl
  | true =>
      simp only [if_true]
      rw [bind_ok rfl]
      simp only [Action.gets, hmissing rfl]
      rfl

/-- The file of a name was tried and did not bring the module. -/
structure InVain (l : Loader) (name : String) (l₁ : Loader) (asked : List String) : Prop where
  lacks : l.Lacks name
  tried : ∃ success, l.Tried name success l₁ asked
  still : l₁.Lacks name

/-- What comes of asking for the base of a module: the answer or the fault, what becomes of
    the loader, and the files that it was asked to open. -/
inductive Resolution (l : Loader) (name : String) :
    Except Fault Address → Loader → List String → Prop
  /-- A loaded object goes by the name. -/
  | resident {image : Image} {base : Address} (first : l.First name image)
      (begins : image.BeginsAt base) :
      Resolution l name (.ok base) l []
  /-- To open the file of the name brings an object that goes by it. -/
  | opened {l₁ : Loader} {asked : List String} {image : Image} {base : Address}
      (lacks : l.Lacks name) (tried : l.Tried name true l₁ asked)
      (first : l₁.First name image) (begins : image.BeginsAt base) :
      Resolution l name (.ok base) l₁ asked
  /-- It does not, and the shared library is opened and goes by its own name. -/
  | library {l₁ l₂ : Loader} {asked asked' : List String} {image : Image} {base : Address}
      (vain : l.InVain name l₁ asked) (next : l₁.Tried (libraryFile name) true l₂ asked')
      (first : l₂.First (libraryFile name) image) (begins : image.BeginsAt base) :
      Resolution l name (.ok base) l₂ (asked ++ asked')
  /-- To open the shared library brings no object that goes by its name, but one that goes by
      that of the module. -/
  | within {l₁ l₂ : Loader} {asked asked' : List String} {image : Image} {base : Address}
      (vain : l.InVain name l₁ asked) (next : l₁.Tried (libraryFile name) true l₂ asked')
      (other : l₂.Lacks (libraryFile name)) (first : l₂.First name image)
      (begins : image.BeginsAt base) :
      Resolution l name (.ok base) l₂ (asked ++ asked')
  /-- The shared library is not opened, or brings neither. -/
  | missing {l₁ l₂ : Loader} {success : Bool} {asked asked' : List String}
      (vain : l.InVain name l₁ asked)
      (next : l₁.Tried (libraryFile name) success l₂ asked')
      (neither : success = true → l₂.Lacks (libraryFile name) ∧ l₂.Lacks name) :
      Resolution l name (.error (.noModule name)) l₂ (asked ++ asked')

/-- One of the cases applies. -/
theorem exists_resolution (l : Loader) (name : String) :
    ∃ result l' asked, l.Resolution name result l' asked := by
  rcases l.first_or_lacks name with ⟨image, base, hfirst, hbegins⟩ | hlacks
  · exact ⟨_, _, _, .resident hfirst hbegins⟩
  -- The file of the name is tried before that of the library.
  rcases l.exists_tried name with ⟨success, l₁, asked, htried⟩
  rcases l₁.first_or_lacks name with ⟨image, base, hfirst, hbegins⟩ | hstill
  · cases success with
    | true => exact ⟨_, _, _, .opened hlacks htried hfirst hbegins⟩
    | false =>
        -- Nothing was opened, so the loader still lacks the name.
        have hsame : l₁ = l := by cases htried <;> rfl
        exact absurd (hsame ▸ hlacks) hfirst.not_lacks
  have hvain : l.InVain name l₁ asked := ⟨hlacks, ⟨success, htried⟩, hstill⟩
  rcases l₁.exists_tried (libraryFile name) with ⟨success', l₂, asked', hnext⟩
  cases success' with
  | false => exact ⟨_, _, _, .missing hvain hnext nofun⟩
  | true =>
      -- The library goes by its own name before it goes by that of the module.
      rcases l₂.first_or_lacks (libraryFile name) with ⟨image, base, hfirst, hbegins⟩ | hother
      · exact ⟨_, _, _, .library hvain hnext hfirst hbegins⟩
      rcases l₂.first_or_lacks name with ⟨image, base, hfirst, hbegins⟩ | hname
      · exact ⟨_, _, _, .within hvain hnext hother hfirst hbegins⟩
      · exact ⟨_, _, _, .missing hvain hnext fun _ => ⟨hother, hname⟩⟩

/-- Neither the file just opened nor the module is found. -/
theorem find_or_eq_none (hfile : l.Lacks file) (hname : l.Lacks name) :
    (l.find file).or (l.find name) = none := by
  rw [find_eq_none_iff.mpr hfile, find_eq_none_iff.mpr hname, Option.none_or]

theorem resolve_lacks (h : l.Lacks name) :
    resolve name l = openFirst name [name, libraryFile name] l := by
  rw [resolve, bind_ok rfl]
  simp only [Action.gets, find_eq_none_iff.mpr h]
  rfl

/-- After an attempt in vain only the shared library is left. -/
theorem InVain.resolve (h : l.InVain name l₁ asked) :
    Loader.resolve name l = ⟨(openFirst name [libraryFile name] l₁).result,
      (openFirst name [libraryFile name] l₁).state,
      asked.map .opened ++ (openFirst name [libraryFile name] l₁).trace⟩ := by
  rcases h.tried with ⟨success, htried⟩
  rw [resolve_lacks h.lacks, openFirst_next htried fun _ => find_or_eq_none h.still h.still]

/-- The resolution goes as the case says that applies. -/
theorem Resolution.resolve (h : l.Resolution name result l' asked) :
    Loader.resolve name l = ⟨result, l', asked.map .opened⟩ := by
  cases h with
  | resident first begins =>
      -- The search comes first, and nothing is opened if it finds the module.
      rw [Loader.resolve, bind_ok rfl]
      simp only [Action.gets, find_eq_some_iff.mpr ⟨_, first, begins⟩]
      rfl
  | opened lacks tried first begins =>
      have hfind := find_eq_some_iff.mpr ⟨_, first, begins⟩
      rw [resolve_lacks lacks]
      exact openFirst_found tried (by rw [hfind, Option.some_or])
  | library vain next first begins =>
      have hfind := find_eq_some_iff.mpr ⟨_, first, begins⟩
      rw [vain.resolve, openFirst_found next (by rw [hfind, Option.some_or]), List.map_append]
  | within vain next other first begins =>
      -- The name of the library finds nothing, so that of the module is taken.
      have hfind := find_eq_some_iff.mpr ⟨_, first, begins⟩
      rw [vain.resolve, openFirst_found next (by
        rw [find_eq_none_iff.mpr other, hfind, Option.none_or]), List.map_append]
  | missing vain next neither =>
      -- After the library there is no file left to try.
      have hneither := fun hsuccess =>
        find_or_eq_none (neither hsuccess).1 (neither hsuccess).2
      rw [vain.resolve, openFirst_next next hneither, List.map_append]
      exact congrArg _ (congrArg _ (List.append_nil _))

theorem InVain.becomes (h : l.InVain name l₁ asked) : l.Becomes l₁ := by
  rcases h.tried with ⟨_, htried⟩
  exact htried.becomes

theorem Resolution.becomes (h : l.Resolution name result l' asked) : l.Becomes l' := by
  cases h with
  | resident _ _ => exact .refl l
  | opened _ tried _ _ => exact tried.becomes
  | library vain next _ _ => exact vain.becomes.trans next.becomes
  | within vain next _ _ _ => exact vain.becomes.trans next.becomes
  | missing vain next _ => exact vain.becomes.trans next.becomes

end Loader

namespace Resolver

/-- A resolution is followed by a note of the base that was found. -/
theorem base_resolution {l l' : Loader} {name : String} {result : Except Fault Address}
    {asked : List String} (hname : name ≠ "") (h : l.Resolution name result l' asked) :
    (base name system l).result = result ∧ (base name system l).state = l' ∧
      (base name system l).trace.filterMap Event.opened? = asked := by
  have hresolve := h.resolve
  have hisEmpty : name.isEmpty = false := String.isEmpty_eq_false_iff.mpr hname
  rw [base, hisEmpty, if_neg Bool.false_ne_true]
  cases result with
  | error fault =>
      rw [bind_error (congrArg Outcome.result hresolve), hresolve]
      exact ⟨rfl, rfl, Event.opened?_map asked⟩
  | ok b =>
      rw [bind_ok (congrArg Outcome.result hresolve), hresolve, bind_ok rfl]
      refine ⟨rfl, rfl, ?_⟩
      -- The note of the base is no opening.
      rw [List.filterMap_append, Event.opened?_map]
      exact List.append_nil asked

/-- What is answered, becomes of the loader and is asked of it is what the resolution
    tells. -/
theorem resolution_base (l : Loader) (name : String) (hname : name ≠ "") :
    l.Resolution name (base name system l).result (base name system l).state
      ((base name system l).trace.filterMap Event.opened?) := by
  rcases l.exists_resolution name with ⟨result, l', asked, h⟩
  rcases base_resolution hname h with ⟨hresult, hstate, hasked⟩
  rwa [hresult, hstate, hasked]

/-- The base of a module that the system's resolver is asked for. Exactly what the
    resolution tells is answered, becomes of the loader and is asked of it. Objects are
    only added at the end of its list, and the order of program headers does not matter. -/
theorem base_system (l : Loader) (name : String) (hname : name ≠ "") :
    (∀ result l' asked, l.Resolution name result l' asked ↔
      (base name system l).result = result ∧ (base name system l).state = l' ∧
        (base name system l).trace.filterMap Event.opened? = asked) ∧
      l.Becomes (base name system l).state ∧
      ∀ m : Loader, l.Reordered m →
        (base name system m).result = (base name system l).result ∧
        (base name system m).trace = (base name system l).trace ∧
        (base name system l).state.Reordered (base name system m).state := by
  have h := resolution_base l name hname
  refine ⟨fun result l' asked => ⟨base_resolution hname, ?_⟩, h.becomes,
    base_unordered system name l⟩
  rintro ⟨rfl, rfl, rfl⟩
  exact h

theorem eq_ok_of_toOption {result : Except Fault Address} {base : Address}
    (h : result.toOption = some base) : result = .ok base := by
  cases result with
  | error _ => exact absurd h.symm (Option.some_ne_none base)
  | ok _ => exact congrArg _ (Option.some.inj h)

/-- An object whose program headers are not in the order of their addresses. -/
def gameImage : Image :=
  ⟨some "/usr/lib/libgame.so".toUTF8.toList, 0x10000, [⟨6, 0⟩, ⟨1, 0x3000⟩, ⟨1, 0x1000⟩]⟩

/-- A loader that can open a game, but only as a library. -/
def gameLoader : Loader :=
  ⟨[⟨none, 0x1000, []⟩, ⟨some "/usr/lib/gamedata".toUTF8.toList, 0x2000, []⟩],
    [("libgame.so", [gameImage])]⟩

/-- The file of the name is asked for first and the library then, and the least of the
    addresses counts. -/
theorem base_system_of_game :
    "game" ≠ "" ∧ gameLoader.Resolution "game" (.ok 0x11000)
      { gameLoader with loaded := gameLoader.loaded ++ [gameImage] } ["game", "libgame.so"] := by
  have hname : "game" ≠ "" := by decide
  refine ⟨hname, ((base_system gameLoader "game" hname).1 _ _ _).mpr ⟨?_, ?_, ?_⟩⟩
  · exact eq_ok_of_toOption (by decide +kernel)
  · decide +kernel
  · decide +kernel

end Resolver

end Hotpatch
