import Hotpatch.Action
import Hotpatch.Module.FileName

/-!
# The Loader

The objects that the operating system has loaded into the process, in the
order in which it lists them, and the files it is able to load. Loading only
ever appends to the list.

A module is looked for among the loaded objects first. Only if none answers to
its name is the loader asked to open a file: the name itself, and then the name
as that of a shared library. After each file that opens, the object is looked
for by the file's name and by the module's name.

## Main definitions

* `Segment`, `Image`: A loaded object and its program headers.
* `Image.base`: Where the object begins in memory.
* `Loader`: The state of the loader.
* `Loader.find`: The first loaded object that answers to a name.
* `Loader.load`: A request to open a file.
* `Loader.resolve`: The base of a module, loaded if need be.
-/

namespace Hotpatch

/-- A program header of a loaded object. -/
structure Segment where
  kind : Nat
  address : Address
  deriving DecidableEq, Repr

namespace Segment

/-- The kind of a segment that is mapped into memory. -/
def loadable : Nat := 1

end Segment

/-- A loaded object: its path, unless the loader names none, the distance by
    which it was moved, and its program headers. -/
structure Image where
  path : Option (List UInt8)
  bias : Address
  segments : List Segment
  deriving DecidableEq, Repr

namespace Image

/-- The lowest address of a mapped segment, before the object was moved; zero
    if it has none. -/
def firstAddress (image : Image) : Address :=
  (((image.segments.filter (·.kind = Segment.loadable)).map (·.address)).min?).getD 0

/-- Where the object begins in memory. -/
def base (image : Image) : Address :=
  image.bias + image.firstAddress

/-- Whether the object's file answers to the name of a module. An object
    without a path, or whose path names no file, answers to none. -/
def AnswersTo (image : Image) (name : String) : Prop :=
  ∃ file ∈ image.path.bind Path.fileName, Path.AnswersTo file name.toUTF8.toList

instance (image : Image) (name : String) : Decidable (image.AnswersTo name) :=
  match h : image.path.bind Path.fileName with
  | none => isFalse (by simp only [AnswersTo, h, Option.not_mem_none, false_and,
      exists_false, not_false_eq_true])
  | some file => decidable_of_iff (Path.AnswersTo file name.toUTF8.toList) (by
      simp only [AnswersTo, h, Option.mem_some_iff, exists_eq_left'])

end Image

/-- The state of the loader: what is loaded, and what each file that can be
    opened would add. -/
structure Loader where
  loaded : List Image
  loadable : List (String × List Image)
  deriving DecidableEq, Repr

namespace Loader

/-- The base of the first loaded object that answers to a name. -/
def find (loader : Loader) (name : String) : Option Address :=
  (loader.loaded.find? (·.AnswersTo name)).map Image.base

/-- Asks the loader to open a file, and says whether it did. A name that holds
    a NUL cannot be handed over, so that request fails unseen. -/
def load (file : String) : Action Loader Bool := do
  if '\x00' ∈ file.toList then
    return false
  Action.emit (.opened file)
  match (← Action.gets fun loader => loader.loadable.lookup file) with
  | none => return false
  | some images =>
    Action.modify fun loader => { loader with loaded := loader.loaded ++ images }
    return true

/-- Opens files one after the other until the module is found under the name
    of the file just opened or under its own. -/
def openFirst (name : String) : List String → Action Loader Address
  | [] => Action.fail (.noModule name)
  | file :: rest => do
    if (← load file) then
      match (← Action.gets fun loader => (loader.find file).or (loader.find name)) with
      | some base => return base
      | none => openFirst name rest
    else
      openFirst name rest

/-- The base of a module, which is loaded if it is not. -/
def resolve (name : String) : Action Loader Address := do
  match (← Action.gets fun loader => loader.find name) with
  | some base => return base
  | none => openFirst name [name, "lib" ++ name ++ ".so"]

end Loader

end Hotpatch
