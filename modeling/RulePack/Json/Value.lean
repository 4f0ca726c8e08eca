/-!
# JSON values

A document is a value; objects keep the order of their members, and a key stands once.  Whole
numbers of the 64-bit ranges are exact, all other numbers are floating-point numbers.

* `Json`, `Json.Number`: values and numbers;
* `Json.Members`: the members of an object, with look-up `get?` and insertion `insert`;
* `Json.kind`: what to call a value in a message.
-/

namespace RulePack

/-- A number of a document. -/
inductive Json.Number where
  | whole (n : Int)
  | real (x : Float)

/-- A value of a document. -/
inductive Json where
  | null
  | bool (b : Bool)
  | number (n : Json.Number)
  | string (s : String)
  | array (elements : List Json)
  | object (members : List (String × Json))

namespace Json

/-- The members of an object in document order. -/
abbrev Members := List (String × Json)

/-- The value of a key. -/
def Members.get? (key : String) : Members → Option Json
  | [] => none
  | (k, v) :: rest => if k = key then some v else Members.get? key rest

/-- Sets the value of a key: in its place if it is there, at the end if it is not. -/
def Members.insert (key : String) (value : Json) : Members → Members
  | [] => [(key, value)]
  | (k, v) :: rest =>
    if k = key then (k, value) :: rest else (k, v) :: Members.insert key value rest

/-- The keys in document order. -/
def Members.keys (ms : Members) : List String := ms.map Prod.fst

@[simp] theorem Members.get?_insert_self (key : String) (value : Json) (ms : Members) :
    (ms.insert key value).get? key = some value := by
  induction ms with
  | nil => simp [Members.insert, Members.get?]
  | cons m rest ih =>
    obtain ⟨k, v⟩ := m
    by_cases hk : k = key <;> simp [Members.insert, Members.get?, hk, ih]

theorem Members.get?_insert_of_ne {key other : String} (h : other ≠ key) (value : Json)
    (ms : Members) : (ms.insert key value).get? other = ms.get? other := by
  have hne : key ≠ other := fun he => h he.symm
  induction ms with
  | nil => simp [Members.insert, Members.get?, hne]
  | cons m rest ih =>
    obtain ⟨k, v⟩ := m
    by_cases hk : k = key
    · simp [Members.insert, Members.get?, hk, hne]
    · rw [Members.insert, if_neg hk, Members.get?, Members.get?, ih]

theorem Members.insert_insert (key : String) (value value' : Json) (ms : Members) :
    (ms.insert key value).insert key value' = ms.insert key value' := by
  induction ms with
  | nil => simp [Members.insert]
  | cons m rest ih =>
    obtain ⟨k, v⟩ := m
    by_cases hk : k = key
    · simp [Members.insert, hk]
    · simp [Members.insert, hk, ih]

/-- The other members stay as they are. -/
theorem Members.filter_insert (key : String) (value : Json) (ms : Members) :
    (ms.insert key value).filter (·.1 ≠ key) = ms.filter (·.1 ≠ key) := by
  induction ms with
  | nil => simp [Members.insert]
  | cons m rest ih =>
    obtain ⟨k, v⟩ := m
    by_cases hk : k = key
    · simp [Members.insert, hk]
    · rw [Members.insert, if_neg hk, List.filter_cons_of_pos (by simpa using hk),
        List.filter_cons_of_pos (by simpa using hk), ih]

/-- A key that was there keeps its place, and a new one comes last. -/
theorem Members.keys_insert (key : String) (value : Json) (ms : Members) :
    (ms.insert key value).keys = if key ∈ ms.keys then ms.keys else ms.keys ++ [key] := by
  induction ms with
  | nil => simp [Members.insert, Members.keys]
  | cons m rest ih =>
    obtain ⟨k, v⟩ := m
    by_cases hk : k = key
    · simp [Members.insert, Members.keys, hk]
    · have hne : key ≠ k := fun he => hk he.symm
      simp only [Members.keys] at ih
      by_cases hin : key ∈ rest.map Prod.fst <;>
        simp [Members.insert, Members.keys, hk, hne, ih, hin]

/-- What a message calls a value. -/
def kind : Json → String
  | null => "null"
  | bool _ => "a boolean"
  | number _ => "a number"
  | string _ => "a string"
  | array _ => "an array"
  | object _ => "an object"

/-- The list of texts as a value. -/
def strings (texts : List String) : Json := array (texts.map string)

end Json

end RulePack
