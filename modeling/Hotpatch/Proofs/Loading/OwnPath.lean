import Hotpatch.Proofs.Loading.Stability

/-!
# Modules Asked For By Their Paths

A file may be opened by any name that the loader understands, and a path is one. The
search goes by the names of files only. So the two agree as long as the name is a file's
name itself: what was opened is found then. They do not agree on a path with a slash in
it. No object goes by such a name, whatever is loaded, because a file's name has no slash
and what an object goes by is the start of its file's name. So the object is opened and
stays loaded, and the module is reported missing, and no question in between changes that.

## Theorems

* `Path.slash_notMem_fileName`: A file's name has no slash.
* `Path.fileName_of_plain`: What has no slash is the name of the file itself.
* `Loader.lacks_of_slash`: A name with a slash means no object.
* `Loader.Resolution.of_slash`: A name with a slash is looked for in vain.
* `Resolver.base_own_path`: A module that is opened by its own path.
-/

namespace Hotpatch

namespace Path

variable {path file : List UInt8}

theorem slash_notMem_parts {piece : List UInt8} (h : piece ∈ parts path) : slash ∉ piece := by
  induction path generalizing piece with
  | nil =>
      rw [parts, List.mem_singleton] at h
      rw [h]
      exact List.not_mem_nil
  | cons c rest ih =>
      rw [parts] at h
      split at h
      · -- A slash begins a new piece, and is in none itself.
        rcases List.mem_cons.mp h with rfl | hrest
        · exact List.not_mem_nil
        · exact ih hrest
      · next hc =>
        -- The character joins the first piece of the rest, if there is one.
        cases hparts : parts rest with
        | nil =>
            rw [hparts, List.mem_singleton] at h
            rw [h, List.mem_singleton]
            exact Ne.symm hc
        | cons first pieces =>
            rw [hparts] at h ih
            rcases List.mem_cons.mp h with rfl | hpieces
            · rw [List.mem_cons, not_or]
              exact ⟨Ne.symm hc, ih List.mem_cons_self⟩
            · exact ih (List.mem_cons_of_mem first hpieces)

/-- A path without a slash is in one piece. -/
theorem parts_of_plain (h : slash ∉ path) : parts path = [path] := by
  induction path with
  | nil => rfl
  | cons c rest ih =>
      rw [List.mem_cons, not_or] at h
      rw [parts, if_neg (Ne.symm h.1), ih h.2]

theorem mem_parts_of_fileName (h : fileName path = some file) : file ∈ parts path := by
  rw [fileName] at h
  cases hrest : (parts path).reverse.dropWhile isIdle with
  | nil =>
      rw [hrest] at h
      exact absurd h.symm (Option.some_ne_none file)
  | cons last others =>
      -- The name is the last piece that is not skipped.
      have hmem : last ∈ parts path := List.mem_reverse.mp
        ((List.dropWhile_sublist isIdle).subset (hrest ▸ List.mem_cons_self))
      rw [hrest] at h
      dsimp only at h
      split at h
      · exact absurd h.symm (Option.some_ne_none file)
      · rwa [← Option.some.inj h]

theorem slash_notMem_fileName (h : fileName path = some file) : slash ∉ file := by
  have hmem := mem_parts_of_fileName h
  exact slash_notMem_parts hmem

/-- What has no slash is the name of its file itself, if it names one. -/
theorem fileName_of_plain (h : fileName path = some file) (hplain : slash ∉ path) :
    file = path := by
  have hmem := mem_parts_of_fileName h
  rwa [parts_of_plain hplain, List.mem_singleton] at hmem

end Path

/-- The loop that lists an array of bytes goes on behind what it has listed. -/
theorem byteArray_toList_loop (bytes : ByteArray) (i : Nat) (listed : List UInt8) :
    ByteArray.toList.loop bytes i listed = listed.reverse ++ bytes.data.toList.drop i := by
  induction hleft : bytes.size - i generalizing i listed with
  | zero =>
      rw [ByteArray.toList.loop, if_neg (by omega), List.drop_eq_nil_of_le, List.append_nil]
      rw [Array.length_toList, ByteArray.size_data]
      omega
  | succ n ih =>
      -- There is a byte left, which is listed before the loop goes on.
      have hi : i < bytes.data.toList.length := by
        rw [Array.length_toList, ByteArray.size_data]
        omega
      rw [ByteArray.toList.loop, if_pos (by omega), ih (i + 1) _ (by omega),
        List.drop_eq_getElem_cons hi, List.reverse_cons, List.append_assoc, List.singleton_append]
      congr 2
      rw [ByteArray.get!, Array.getElem_toList]
      exact getElem!_pos bytes.data i hi

/-- The bytes of two texts, one behind the other. -/
theorem utf8_append (s t : String) :
    (s ++ t).toUTF8.toList = s.toUTF8.toList ++ t.toUTF8.toList := by
  simp only [ByteArray.toList, byteArray_toList_loop, List.reverse_nil, List.nil_append,
    List.drop_zero, String.toUTF8_eq_toByteArray, String.toByteArray_append,
    ByteArray.data_append, Array.toList_append]

/-- A name with a slash is none that an object goes by. -/
theorem Image.not_goesBy_of_slash {image : Image} {name : String}
    (h : Path.slash ∈ name.toUTF8.toList) : ¬ image.GoesBy name := by
  rintro ⟨path, file, -, hfile, hname | ⟨mark, rest, -, hname⟩⟩
  · exact Path.slash_notMem_fileName hfile (hname ▸ h)
  · exact Path.slash_notMem_fileName hfile (hname ▸ List.mem_append_left (mark :: rest) h)

namespace Loader

variable {l l' : Loader} {name : String} {images : List Image} {asked : List String}
  {result : Except Fault Address}

theorem lacks_of_slash (l : Loader) (h : Path.slash ∈ name.toUTF8.toList) : l.Lacks name := by
  intro _ _
  exact Image.not_goesBy_of_slash h

/-- The library of a name with a slash has a slash in its name, too. -/
theorem slash_mem_libraryFile (h : Path.slash ∈ name.toUTF8.toList) :
    Path.slash ∈ (libraryFile name).toUTF8.toList := by
  rw [libraryFile, utf8_append, utf8_append]
  exact List.mem_append_left _ (List.mem_append_right _ h)

/-- A name with a slash is looked for in vain, after every attempt to open a file. -/
theorem Resolution.of_slash (hslash : Path.slash ∈ name.toUTF8.toList)
    (h : l.Resolution name result l' asked) : result = .error (.noModule name) := by
  cases h with
  | resident first _ => exact absurd (l.lacks_of_slash hslash) first.not_lacks
  | opened _ _ first _ => exact absurd (lacks_of_slash _ hslash) first.not_lacks
  | library _ _ first _ =>
      exact absurd (lacks_of_slash _ (slash_mem_libraryFile hslash)) first.not_lacks
  | within _ _ _ first _ => exact absurd (lacks_of_slash _ hslash) first.not_lacks
  | missing _ _ _ => rfl

/-- What a name means first among objects that were added is one of them, if it meant none
    before. -/
theorem First.mem_added {found : Image}
    (h : Loader.First { l with loaded := l.loaded ++ images } name found)
    (hlacks : l.Lacks name) : found ∈ images := by
  rcases List.mem_append.mp h.mem with hold | hnew
  · exact absurd h.1 (hlacks found hold)
  · exact hnew

end Loader

namespace Resolver

/-- The system's resolver does not find a module by a name with a slash. -/
theorem base_of_slash (l : Loader) {name : String} (h : Path.slash ∈ name.toUTF8.toList) :
    (base name system l).result = .error (.noModule name) := by
  have hname : name ≠ "" := by
    rintro rfl
    exact absurd h (by decide +kernel)
  exact (resolution_base l name hname).of_slash h

/-- A module that no loaded object goes by, and that is opened by its own path. If the path
    is a file's name, the module is found where the first object of that name begins. If
    there is a slash in it, the module is reported missing although its object is loaded,
    then and whenever it is asked for again. -/
theorem base_own_path (l : Loader) (name : String) {images : List Image} {image : Image}
    {file : List UInt8} (hlacks : l.Lacks name) (hnul : '\x00' ∉ name.toList)
    (hopens : l.loadable.lookup name = some images) (hmem : image ∈ images)
    (hpath : image.path = some name.toUTF8.toList)
    (hfile : Path.fileName name.toUTF8.toList = some file) :
    (Path.slash ∉ name.toUTF8.toList →
      (base name system l).state = { l with loaded := l.loaded ++ images } ∧
      (base name system l).trace.filterMap Event.opened? = [name] ∧
      ∃ found ∈ images, ∃ b, (base name system l).state.First name found ∧ found.BeginsAt b ∧
        (base name system l).result = .ok b) ∧
    (Path.slash ∈ name.toUTF8.toList →
      (base name system l).result = .error (.noModule name) ∧
      image ∈ (base name system l).state.loaded ∧
      ∀ queries, image ∈ ((base name system l).state.after queries).loaded ∧
        (base name system ((base name system l).state.after queries)).result =
          .error (.noModule name)) := by
  have hname : name ≠ "" := by
    -- The empty path names no file.
    rintro rfl
    exact absurd (hfile.symm.trans (by decide +kernel)) (Option.some_ne_none file)
  have htried : l.Tried name true { l with loaded := l.loaded ++ images } [name] :=
    .opened hnul hopens
  have hloaded : image ∈ l.loaded ++ images := List.mem_append_right l.loaded hmem
  refine ⟨fun hplain => ?_, fun hslash => ?_⟩
  · -- The object that was opened goes by the name, so the search after that finds one.
    have hgoes : image.GoesBy name :=
      ⟨_, file, hpath, hfile, .inl (Path.fileName_of_plain hfile hplain)⟩
    rcases Loader.first_or_lacks { l with loaded := l.loaded ++ images } name with
      ⟨found, b, hfirst, hbegins⟩ | hstill
    · rcases base_resolution hname (.opened hlacks htried hfirst hbegins) with
        ⟨hresult, hstate, hasked⟩
      refine ⟨hstate, hasked, found, hfirst.mem_added hlacks, b, ?_, hbegins, hresult⟩
      rwa [hstate]
    · exact absurd hgoes (hstill image hloaded)
  · -- Neither the path nor that of its library is the name of any file.
    have hvain : l.InVain name { l with loaded := l.loaded ++ images } [name] :=
      ⟨hlacks, ⟨true, htried⟩, Loader.lacks_of_slash _ hslash⟩
    rcases Loader.exists_tried { l with loaded := l.loaded ++ images }
      (Loader.libraryFile name) with ⟨success, l₂, asked, hnext⟩
    have hneither : l₂.Lacks (Loader.libraryFile name) ∧ l₂.Lacks name :=
      ⟨Loader.lacks_of_slash _ (Loader.slash_mem_libraryFile hslash),
        Loader.lacks_of_slash _ hslash⟩
    rcases base_resolution hname (.missing hvain hnext fun _ => hneither) with
      ⟨hresult, hstate, -⟩
    -- What was loaded is not unloaded, however often it is asked for.
    have hstays : ∀ {m}, Loader.Becomes { l with loaded := l.loaded ++ images } m →
        image ∈ m.loaded := by
      rintro m ⟨⟨added, hm⟩, -⟩
      exact hm ▸ List.mem_append_left added hloaded
    rw [hstate]
    refine ⟨hresult, hstays hnext.becomes, fun queries => ⟨?_, base_of_slash _ hslash⟩⟩
    exact hstays (hnext.becomes.trans (l₂.after_becomes queries))

/-- A game whose path is the name of its file. -/
def plainImage : Image :=
  ⟨some "game.so".toUTF8.toList, 0x10000, [⟨1, 0⟩]⟩

def plainLoader : Loader :=
  ⟨[], [("game.so", [plainImage])]⟩

/-- The game is opened and found. -/
theorem base_own_path_of_plain :
    plainLoader.loadable.lookup "game.so" = some [plainImage] ∧
      (base "game.so" system plainLoader).state.loaded = [plainImage] ∧
      ∃ b, (base "game.so" system plainLoader).result = .ok b := by
  have hopens : plainLoader.loadable.lookup "game.so" = some [plainImage] := rfl
  have hfile : Path.fileName "game.so".toUTF8.toList = some "game.so".toUTF8.toList := by
    decide +kernel
  have hfound := (base_own_path plainLoader "game.so" nofun (by decide) hopens
    List.mem_cons_self rfl hfile).1 (by decide +kernel)
  rcases hfound with ⟨hstate, -, _, -, b, -, -, hresult⟩
  exact ⟨hopens, congrArg Loader.loaded hstate, b, hresult⟩

/-- A game that is asked for by its path. -/
def pathImage : Image :=
  ⟨some "/opt/lib/game.so".toUTF8.toList, 0x10000, [⟨1, 0⟩]⟩

def pathLoader : Loader :=
  ⟨[], [("/opt/lib/game.so", [pathImage])]⟩

/-- The game is opened and stays loaded, and is reported missing. -/
theorem base_lost_at_path :
    pathLoader.Lacks "/opt/lib/game.so" ∧
      pathLoader.loadable.lookup "/opt/lib/game.so" = some [pathImage] ∧
      pathImage.path = some "/opt/lib/game.so".toUTF8.toList ∧
      Path.fileName "/opt/lib/game.so".toUTF8.toList = some "game.so".toUTF8.toList ∧
      (base "/opt/lib/game.so" system pathLoader).state.loaded = [pathImage] ∧
      (base "/opt/lib/game.so" system pathLoader).result =
        .error (.noModule "/opt/lib/game.so") := by
  refine ⟨nofun, rfl, rfl, ?_, ?_, ?_⟩
  · decide +kernel
  · decide +kernel
  · exact base_of_slash pathLoader (by decide +kernel)

end Resolver

end Hotpatch
