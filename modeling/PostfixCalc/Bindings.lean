import PostfixCalc.Binary64.Basic

/-!
# Values of names

Bindings give names their values.  Each name occurs at most once, the one set last being first.

Main results:

- `get?_set_self`, `get?_set_of_ne`: setting a name changes the value of that name only.
-/

namespace PostfixCalc

/-- The values that names stand for. -/
structure Bindings where
  /-- The names with their values, the latest first. -/
  entries : List (String × Binary64)

namespace Bindings

/-- The value of a name. -/
def get? (bindings : Bindings) (name : String) : Option Binary64 := bindings.entries.lookup name

/-- Give a name a value, in place of the one it had. -/
def set (bindings : Bindings) (name : String) (value : Binary64) : Bindings :=
  ⟨(name, value) :: bindings.entries.filter (·.1 != name)⟩

/-- The ratio of a circle's circumference to its diameter and the base of the natural logarithm. -/
def constants : Bindings :=
  ⟨[("pi", .ofBits 0x400921FB54442D18), ("e", .ofBits 0x4005BF0A8B145769)]⟩

/-- A name has the value that it was given. -/
@[simp] theorem get?_set_self (bindings : Bindings) (name : String) (value : Binary64) :
    (bindings.set name value).get? name = some value := by
  simp [get?, set]

/-- The other names keep their values. -/
theorem get?_set_of_ne {name other : String} (h : other ≠ name) (bindings : Bindings)
    (value : Binary64) : (bindings.set name value).get? other = bindings.get? other := by
  have hne : (other == name) = false := by simpa using h
  simp only [get?, set, List.lookup_cons, hne]
  induction bindings.entries with
  | nil => rfl
  | cons entry entries ih =>
    obtain ⟨key, keyValue⟩ := entry
    by_cases hkey : key = name
    · subst hkey
      simpa [List.lookup_cons, hne] using ih
    · cases hother : other == key <;> simp_all [List.lookup_cons]

end Bindings

end PostfixCalc
