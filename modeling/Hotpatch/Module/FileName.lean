/-!
# File Names

The last part of a path, and the rule by which a file answers to the name of a
module. Paths are byte strings, because a file system allows any bytes in them
but the slash.

A module is asked for by the start of its file's name: `libc` means `libc.so.6`
as well as `libc-2.31.so`, but not `libcrypto.so.3`. So what follows the name
has to begin with a dot or a dash.

## Main definitions

* `parts`: The pieces of a path between its slashes.
* `fileName`: The last part of a path, if it names a file.
* `AnswersTo`: Whether a file's name answers to the name of a module.
-/

namespace Hotpatch

namespace Path

def slash : UInt8 := 0x2F

/-- The dot that stands for the same directory, and before an extension. -/
def dot : UInt8 := 0x2E

/-- The dash that stands before a version. -/
def dash : UInt8 := 0x2D

/-- The pieces of a path between its slashes, some of which may be empty. -/
def parts : List UInt8 → List (List UInt8)
  | [] => [[]]
  | c :: rest =>
    if c = slash then [] :: parts rest
    else match parts rest with
      | [] => [[c]]
      | piece :: pieces => (c :: piece) :: pieces

/-- Whether a piece of a path leads nowhere: it is empty or a single dot. -/
def isIdle (piece : List UInt8) : Bool :=
  piece.isEmpty || piece = [dot]

/-- The last part of a path. Trailing slashes and single dots are ignored; a
    path that ends in two dots, or has nothing else, names no file. -/
def fileName (path : List UInt8) : Option (List UInt8) :=
  match (parts path).reverse.dropWhile isIdle with
  | [] => none
  | last :: _ => if last = [dot, dot] then none else some last

/-- Whether a file's name is a module's name, or begins with it and goes on
    with a dot or a dash. -/
def AnswersTo (file name : List UInt8) : Prop :=
  ∃ rest, file = name ++ rest ∧ rest.head?.all fun c => c == dot || c == dash

/-- Whether a file's name answers to a module's name, by taking the name off
    its start. -/
def answersTo (file name : List UInt8) : Bool :=
  match file, name with
  | file, [] => file.head?.all fun c => c == dot || c == dash
  | [], _ :: _ => false
  | c :: file, d :: name => c == d && answersTo file name

/-- Taking the name off the start decides whether the file answers to it. -/
theorem answersTo_iff (file name : List UInt8) :
    answersTo file name = true ↔ AnswersTo file name := by
  induction name generalizing file with
  | nil => cases file <;> simp only [answersTo, AnswersTo, List.nil_append, exists_eq_left']
  | cons d name ih =>
    cases file with
    | nil => simp only [answersTo, AnswersTo, List.cons_append, reduceCtorEq, false_and,
        exists_false]
    | cons c file =>
      simp only [answersTo, AnswersTo, Bool.and_eq_true, beq_iff_eq, ih, List.cons_append,
        List.cons.injEq]
      constructor
      · rintro ⟨rfl, rest, rfl, h⟩
        exact ⟨rest, ⟨rfl, rfl⟩, h⟩
      · rintro ⟨rest, ⟨rfl, rfl⟩, h⟩
        exact ⟨rfl, rest, rfl, h⟩

instance (file name : List UInt8) : Decidable (AnswersTo file name) :=
  decidable_of_iff _ (answersTo_iff file name)

end Path

end Hotpatch
