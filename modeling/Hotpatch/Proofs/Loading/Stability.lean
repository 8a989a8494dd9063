import Hotpatch.Proofs.Loading.Resolution

/-!
# A Module Asked For Again

Once a module was found, it is found ever after, because nothing is unloaded. But it
need not be found in the same place. A module that was found by its own name stays where
it is: the object that the name meant is still the first that goes by it. A module that
was found by the name of its library does not, since the next search is for its own name
again, and by then another object may go by that.

So the address of a module is that of the first object that goes by its name, as soon as
there is one, and is that of the library until then.

## Main definitions

* `Query`, `Loader.after`: Questions to resolvers, one after the other.
* `Loader.Again`: How a name that was answered is answered again.

## Theorems

* `Loader.after_becomes`: What becomes of a loader that is asked.
* `Loader.Resolution.named_or_library`: By which name a module was found.
* `Loader.Resolution.again`: The resolution of a name that was resolved before.
* `Resolver.base_again`: A module asked for again after any questions.
-/

namespace Hotpatch

open Hotpatch.Action

/-- A question to a resolver: where a module begins, or the address at an offset into
    it. -/
structure Query where
  resolver : Resolver
  name : String
  offset : Option Address

namespace Query

def ask (q : Query) : Action Loader Address :=
  match q.offset with
  | none => q.resolver.base q.name
  | some offset => q.resolver.locate q.name offset

end Query

theorem Resolver.locate_eq (r : Resolver) (name : String) (offset : Address) (l : Loader) :
    r.locate name offset l = ⟨(r.base name l).result.map (· + offset), (r.base name l).state,
      (r.base name l).trace⟩ :=
  map_eq (r.base name) (· + offset) l

theorem Resolver.base_becomes (r : Resolver) (name : String) (l : Loader) :
    l.Becomes (r.base name l).state := by
  cases r with
  | system =>
      by_cases hname : name = ""
      · rw [hname]
        exact .refl l
      · exact (resolution_base l name hname).becomes
  | table bases =>
      rw [base]
      cases bases.lookup name <;> exact .refl l

theorem Query.ask_becomes (q : Query) (l : Loader) : l.Becomes (q.ask l).state := by
  rcases q with ⟨r, name, _ | offset⟩
  · exact r.base_becomes name l
  · change l.Becomes (r.locate name offset l).state
    rw [Resolver.locate_eq]
    exact r.base_becomes name l

namespace Loader

variable {l l₀ l₁ l₂ m : Loader} {name file : String} {asked : List String} {base : Address}
  {success : Bool}

/-- What becomes of a loader when questions are asked one after the other, whether they are
    answered or not. -/
def after (l : Loader) : List Query → Loader
  | [] => l
  | q :: queries => (q.ask l).state.after queries

theorem after_becomes (l : Loader) (queries : List Query) : l.Becomes (l.after queries) := by
  induction queries generalizing l with
  | nil => exact .refl l
  | cons q queries ih => exact (q.ask_becomes l).trans (ih (q.ask l).state)

/-- Another loader that can open the same files opens this one likewise, and what it adds
    was added here. -/
theorem Tried.again (h : l.Tried file success l₁ asked) (hloadable : m.loadable = l.loadable) :
    ∃ m₁, m.Tried file success m₁ asked ∧
      ∀ image ∈ m₁.loaded, image ∈ m.loaded ∨ image ∈ l₁.loaded := by
  cases h with
  | unseen nul => exact ⟨m, .unseen nul, fun _ => .inl⟩
  | refused seen unknown => exact ⟨m, .refused seen (hloadable ▸ unknown), fun _ => .inl⟩
  | opened seen known =>
      refine ⟨_, .opened seen (hloadable ▸ known), fun image hmem => ?_⟩
      exact (List.mem_append.mp hmem).imp_right (List.mem_append_right l.loaded)

/-- What was tried in vain is tried in vain later as well, if the name still means no
    object. -/
theorem InVain.again (h : l.InVain name l₁ asked) (hbecomes : l.Becomes m)
    (hlacks : m.Lacks name) : ∃ m₁, m.InVain name m₁ asked := by
  rcases h.tried with ⟨success, htried⟩
  rcases htried.again hbecomes.2 with ⟨m₁, htried', hadded⟩
  refine ⟨m₁, hlacks, ⟨success, htried'⟩, fun image hmem => ?_⟩
  -- What is added now was added then, and did not go by the name.
  exact (hadded image hmem).elim (hlacks image) (h.still image)

/-- A module was found by its own name, or else by the name of its library, after the file
    of its own name was tried in vain. -/
theorem Resolution.named_or_library (h : l.Resolution name (.ok base) l₁ asked) :
    (∃ image, l₁.First name image ∧ image.BeginsAt base) ∨
      ∃ l₀ asked₀, l.InVain name l₀ asked₀ ∧
        l₀.Tried (libraryFile name) true l₁ [libraryFile name] ∧
        asked = asked₀ ++ [libraryFile name] ∧
        ∃ image, l₁.First (libraryFile name) image ∧ image.BeginsAt base := by
  cases h with
  | resident first begins => exact .inl ⟨_, first, begins⟩
  | opened _ _ first begins => exact .inl ⟨_, first, begins⟩
  | within _ _ _ first begins => exact .inl ⟨_, first, begins⟩
  | library vain next first begins =>
      -- A file that was opened is one that the loader was asked for.
      cases next with
      | opened seen known =>
          exact .inr ⟨_, _, vain, .opened seen known, rfl, _, first, begins⟩

/-- How a name is answered again. It was answered with `base` when `l` became `l₁` and was
    asked for files, and `l₁` has become `l₂` since. -/
structure Again (l l₁ l₂ : Loader) (name : String) (asked : List String)
    (base base' : Address) : Prop where
  /-- What the name means by now counts. -/
  found : ∀ image, l₂.First name image → image.BeginsAt base'
  /-- If it means nothing, the answer is the same. -/
  absent : l₂.Lacks name → base' = base
  /-- If the answer was what the name meant, it is the same. -/
  kept : ∀ image, l₁.First name image → image.BeginsAt base → base' = base
  /-- So if it is not the same, the module was found by the name of the library. -/
  changed : base' ≠ base → l.Lacks name ∧ libraryFile name ∈ asked ∧
    ∃ image, l₁.First (libraryFile name) image ∧ image.BeginsAt base

theorem Again.self (hlacks : l₂.Lacks name) : l.Again l₁ l₂ name asked base base where
  found _ hfirst := absurd hlacks hfirst.not_lacks
  absent _ := rfl
  kept _ _ _ := rfl
  changed hne := absurd rfl hne

/-- If the name means an object by now, the answer is where that begins. -/
theorem Resolution.again_found {image : Image} {base' : Address}
    (h : l.Resolution name (.ok base) l₁ asked) (hbecomes : l₁.Becomes l₂)
    (hfirst : l₂.First name image) (hbegins : image.BeginsAt base') :
    l.Again l₁ l₂ name asked base base' := by
  have hkept : ∀ image', l₁.First name image' → image'.BeginsAt base → base' = base := by
    intro image' hfirst' hbegins'
    -- The object that the name meant is still the first that goes by it.
    have hsame : image' = image := hfirst.unique (hbecomes.first hfirst')
    rw [Image.beginsAt_iff.mp hbegins, Image.beginsAt_iff.mp hbegins', hsame]
  refine ⟨?_, ?_, hkept, ?_⟩
  · intro image' hfirst'
    rwa [hfirst.unique hfirst']
  · exact fun hlacks => absurd hlacks hfirst.not_lacks
  · -- Another answer rules out that the module was found by its own name.
    intro hne
    rcases h.named_or_library with ⟨image', hfirst', hbegins'⟩ | hlibrary
    · exact absurd (hkept image' hfirst' hbegins') hne
    · rcases hlibrary with ⟨l₀, asked₀, vain, _, rfl, hfound⟩
      exact ⟨vain.lacks, List.mem_append_right asked₀ List.mem_cons_self, hfound⟩

/-- If the name means nothing yet, the library is opened again, and found where it was. -/
theorem Resolution.again_absent (h : l.Resolution name (.ok base) l₁ asked)
    (hbecomes : l₁.Becomes l₂) (hlacks : l₂.Lacks name) :
    ∃ l₃ asked', l₂.Resolution name (.ok base) l₃ asked' := by
  rcases h.named_or_library with ⟨image', hfirst', _⟩ | hlibrary
  · exact absurd (hbecomes.lacks hlacks) hfirst'.not_lacks
  rcases hlibrary with ⟨l₀, asked₀, vain, next, rfl, image, hfirst, hbegins⟩
  have hsince : l₀.Becomes l₂ := next.becomes.trans hbecomes
  rcases vain.again (vain.becomes.trans hsince) hlacks with ⟨m₁, vain'⟩
  -- The same files can be opened as before.
  have hloadable : m₁.loadable = l₀.loadable := vain'.becomes.2.trans hsince.2
  rcases next.again hloadable with ⟨l₃, next', _⟩
  -- The list has only grown, so the library is the first of its name as before.
  have hstays := (hbecomes.trans (vain'.becomes.trans next'.becomes)).first hfirst
  exact ⟨l₃, _, .library vain' next' hstays hbegins⟩

theorem Resolution.again (h : l.Resolution name (.ok base) l₁ asked)
    (hbecomes : l₁.Becomes l₂) :
    ∃ base' l₃ asked', l₂.Resolution name (.ok base') l₃ asked' ∧
      l.Again l₁ l₂ name asked base base' := by
  rcases l₂.first_or_lacks name with ⟨image, base', hfirst, hbegins⟩ | hlacks
  · exact ⟨base', l₂, [], .resident hfirst hbegins, h.again_found hbecomes hfirst hbegins⟩
  · rcases h.again_absent hbecomes hlacks with ⟨l₃, asked', hagain⟩
    exact ⟨base, l₃, asked', hagain, .self hlacks⟩

end Loader

namespace Resolver

/-- A module that the system's resolver found is found again after any questions to any
    resolvers. Where it begins is the same, unless it was found by the name of its library
    and another object goes by its own name by now. Addresses at an offset differ by no
    more than that. -/
theorem base_again (l : Loader) (name : String) (b : Address)
    (hbase : (base name system l).result = .ok b) (queries : List Query) {l₁ l₂ : Loader}
    (h₁ : l₁ = (base name system l).state) (h₂ : l₂ = l₁.after queries) :
    ∃ b', (base name system l₂).result = .ok b' ∧
      (∀ offset, (locate system name offset l).result = .ok (b + offset) ∧
        (locate system name offset l₂).result = .ok (b' + offset)) ∧
      l.Again l₁ l₂ name ((base name system l).trace.filterMap Event.opened?) b b' := by
  have hname : name ≠ "" := by
    -- The empty name is refused.
    rintro rfl
    exact absurd hbase nofun
  have hresolution := resolution_base l name hname
  rw [hbase, ← h₁] at hresolution
  rcases hresolution.again (h₂ ▸ l₁.after_becomes queries) with ⟨b', l₃, asked, hagain, hlike⟩
  have hbase' : (base name system l₂).result = .ok b' := (base_resolution hname hagain).1
  refine ⟨b', hbase', fun offset => ?_, hlike⟩
  rw [locate_eq, locate_eq, hbase, hbase']
  exact ⟨rfl, rfl⟩

/-- The library of a game stays its answer while nothing goes by the name of the game. -/
theorem base_again_of_game :
    (base "game" system gameLoader).result = .ok 0x11000 ∧
      (base "game" system ((base "game" system gameLoader).state.after
        [⟨system, "physics", some 8⟩])).result = .ok 0x11000 := by
  have hbase : (base "game" system gameLoader).result = .ok 0x11000 :=
    eq_ok_of_toOption (by decide +kernel)
  rcases base_again gameLoader "game" 0x11000 hbase [⟨system, "physics", some 8⟩] rfl rfl with
    ⟨b', hagain, _, hlike⟩
  have hlacks : ((base "game" system gameLoader).state.after
      [⟨system, "physics", some 8⟩]).Lacks "game" :=
    Loader.find_eq_none_iff.mp (by decide +kernel)
  rw [hlike.absent hlacks] at hagain
  exact ⟨hbase, hagain⟩

/-- A loader that can open a game as a library, and an overlay that goes by the name of the
    game. -/
def overlayLoader : Loader where
  loaded := []
  loadable := [
    ("libgame.so", [⟨some "/usr/lib/libgame.so".toUTF8.toList, 0x10000, [⟨1, 0⟩]⟩]),
    ("game-overlay.so", [⟨some "/opt/game-overlay.so".toUTF8.toList, 0x20000, [⟨1, 0⟩]⟩])]

/-- The game is found elsewhere after its overlay was asked for, and so is an address in
    it. -/
theorem base_moved_by_overlay :
    (base "game" system overlayLoader).result = .ok 0x10000 ∧
      (base "game" system ((base "game" system overlayLoader).state.after
        [⟨system, "game-overlay.so", none⟩])).result = .ok 0x20000 ∧
      (locate system "game" 0x40 overlayLoader).result = .ok 0x10040 ∧
      (locate system "game" 0x40 ((locate system "game" 0x40 overlayLoader).state.after
        [⟨system, "game-overlay.so", none⟩])).result = .ok 0x20040 := by
  refine ⟨?_, ?_, ?_, ?_⟩ <;> exact eq_ok_of_toOption (by decide +kernel)

end Resolver

end Hotpatch
