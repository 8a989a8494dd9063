import Hotpatch.Session.Object

/-!
# Named Objects

The objects of a session, in the order in which their names were first used.
An object that takes the place of another under the same name keeps its
position, so storing an object that did not change changes nothing.

## Main definitions

* `Objects`: Objects by name.
* `Objects.get?`, `Objects.insert`, `Objects.erase`: Access by name.

## Theorems

* `Objects.get?_insert_self`: An object that was stored is found.
* `Objects.get?_insert_of_ne`: Storing an object hides no other.
* `Objects.insert_of_get?`: Storing what is stored already changes nothing.
* `Objects.get?_erase_self`: An object that was taken out is not found.
-/

namespace Hotpatch

/-- Objects by name. -/
abbrev Objects : Type :=
  List (String × Object)

namespace Objects

def get? (id : String) : Objects → Option Object
  | [] => none
  | (name, o) :: rest => if name = id then some o else get? id rest

/-- The objects with one stored under a name. -/
def insert (id : String) (o : Object) : Objects → Objects
  | [] => [(id, o)]
  | (name, old) :: rest =>
    if name = id then (name, o) :: rest else (name, old) :: insert id o rest

/-- The objects without that of a name. -/
def erase (id : String) (os : Objects) : Objects :=
  os.filter (·.1 ≠ id)

theorem get?_insert_self (id : String) (o : Object) (os : Objects) :
    get? id (insert id o os) = some o := by
  induction os with
  | nil => simp only [insert, get?, if_true]
  | cons head rest ih =>
    by_cases h : head.1 = id <;> simp only [insert, get?, h, if_true, if_false, ih]

/-- Storing an object hides no other. -/
theorem get?_insert_of_ne {id other : String} (h : other ≠ id) (o : Object) (os : Objects) :
    get? other (insert id o os) = get? other os := by
  induction os with
  | nil => simp only [insert, get?, h.symm, if_false]
  | cons head rest ih =>
    by_cases hid : head.1 = id
    · simp only [insert, get?, hid, if_true, h.symm, if_false]
    · simp only [insert, hid, if_false, get?, ih]

/-- Storing what is stored already changes nothing. -/
theorem insert_of_get? {id : String} {o : Object} {os : Objects} (h : get? id os = some o) :
    insert id o os = os := by
  induction os with
  | nil => simp only [get?, reduceCtorEq] at h
  | cons head rest ih =>
    by_cases hid : head.1 = id
    · simp only [get?, hid, if_true, Option.some.injEq] at h
      simp only [insert, hid, if_true, ← h]
      simp only [← hid]
    · simp only [get?, hid, if_false] at h
      simp only [insert, hid, if_false, ih h]

theorem get?_erase_self (id : String) (os : Objects) : get? id (erase id os) = none := by
  induction os with
  | nil => rfl
  | cons head rest ih =>
    by_cases h : head.1 = id
    · simp only [erase, List.filter_cons, h, ne_eq, not_true_eq_false, decide_false,
        Bool.false_eq_true, if_false]
      exact ih
    · simp only [erase, List.filter_cons, h, ne_eq, not_false_eq_true, decide_true, if_true,
        get?, if_false]
      exact ih

end Objects

end Hotpatch
