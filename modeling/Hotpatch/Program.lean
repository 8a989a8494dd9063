import Hotpatch.X86.Writer

/-!
# Programs

Code that does not yet have a place: a program is run against a writer that
stands at some origin, and writes instructions to it. Besides instructions a program
has what the body of a code generator has. It can ask the writer where it
stands and whether this is a sizing pass, repeat itself, fail, and behave
differently the next time it is run.

A program stops at its first fault. What it wrote before stays in the writer.

## Main definitions

* `Landmark`: What a program can ask a writer for.
* `Program`: A generator of code.
* `Program.run`: A program run against a writer.
* `Program.output`: All bytes of a run, if it does not fail.
-/

namespace Hotpatch

/-- What a program can ask a writer for and put into the code. -/
inductive Landmark
  | origin
  | position
  | length
  deriving DecidableEq, Repr

namespace Landmark

def value (w : Writer) : Landmark → Nat
  | origin => w.origin.toNat
  | position => w.position.toNat
  | length => w.length

end Landmark

/-- A generator of code. -/
inductive Program
  | skip
  | step (i : Instruction)
  /-- A branch to a target at a distance from where the branch stands. -/
  | branchBy (kind : Branch) (distance : Int)
  /-- The low 32 bits of a landmark, as a dword. -/
  | mark (l : Landmark)
  | fail (fault : Fault)
  /-- One program, and another unless the first fails. -/
  | seq (first second : Program)
  /-- A choice by whether this is a sizing pass. -/
  | ifSizing (yes no : Program)
  /-- A choice by whether nothing was written yet. -/
  | ifEmpty (yes no : Program)
  /-- A choice by whether the whole program was run `count` times before. -/
  | ifRun (count : Nat) (yes no : Program)
  | loop (count : Nat) (body : Program)

/-- A step repeated until it fails or the count is used up. -/
def repeatStep (step : Writer → Writer × Option Fault) :
    Nat → Writer → Writer × Option Fault
  | 0, w => (w, none)
  | count + 1, w =>
    match step w with
    | (w, none) => repeatStep step count w
    | (w, some fault) => (w, some fault)

namespace Program

def ofList : List Program → Program
  | [] => skip
  | p :: rest => seq p (ofList rest)

/-- One program for each run, counted from `count`; the last serves all later
    runs. -/
def byRun (count : Nat) : List Program → Program
  | [] => skip
  | [p] => p
  | p :: rest => ifRun count p (byRun (count + 1) rest)

/-- A program run against a writer, after `runs` earlier runs. -/
def run (runs : Nat) : Program → Writer → Writer × Option Fault
  | skip, w => (w, none)
  | step i, w => w.push i
  | branchBy kind distance, w =>
    w.push (.branch kind (w.position + UInt64.ofInt distance))
  | mark l, w => w.push (.data (littleEndian 4 (l.value w)))
  | fail fault, w => (w, some fault)
  | seq first second, w =>
    match first.run runs w with
    | (w, none) => second.run runs w
    | (w, some fault) => (w, some fault)
  | ifSizing yes no, w => if w.sizing then yes.run runs w else no.run runs w
  | ifEmpty yes no, w => if w.bytes.isEmpty then yes.run runs w else no.run runs w
  | ifRun count yes no, w => if runs = count then yes.run runs w else no.run runs w
  | loop count body, w => repeatStep (body.run runs) count w

/-- All bytes of a run, if it does not fail. -/
def output (p : Program) (runs : Nat) (w : Writer) : Except Fault (List UInt8) :=
  match p.run runs w with
  | (w, none) => .ok w.bytes
  | (_, some fault) => .error fault

end Program

end Hotpatch
