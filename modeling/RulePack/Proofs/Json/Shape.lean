import RulePack.Json.Reader

/-!
# The shape of documents

* `Fits depth v` — in `v` at most `depth` arrays and objects lie in one another, and no object has a
  key twice;
* `Whole v` — the numbers of `v` are whole numbers of 64 bits;
* `value_fits` — the values that are read fit the depth they are read with;
* `Members.ofList_eq_self` — setting members with different keys gives just these members.
-/

namespace RulePack.Json

/-- At most `depth` arrays and objects lie in one another, and keys stand once. -/
inductive Fits : Nat → Json → Prop
  | null {depth : Nat} : Fits depth null
  | bool {depth : Nat} (b : Bool) : Fits depth (bool b)
  | number {depth : Nat} (n : Number) : Fits depth (number n)
  | string {depth : Nat} (s : String) : Fits depth (string s)
  | array {depth : Nat} {vs : List Json} : (∀ v ∈ vs, Fits depth v) → Fits (depth + 1) (array vs)
  | object {depth : Nat} {ms : Members} :
      ms.keys.Nodup → (∀ m ∈ ms, Fits depth m.2) → Fits (depth + 1) (object ms)

/-- All numbers are whole numbers of 64 bits. -/
inductive Whole : Json → Prop
  | null : Whole null
  | bool (b : Bool) : Whole (bool b)
  | number {n : Int} : -(magnitudeLimit : Int) ≤ n → n < wordLimit → Whole (number (.whole n))
  | string (s : String) : Whole (string s)
  | array {vs : List Json} : (∀ v ∈ vs, Whole v) → Whole (array vs)
  | object {ms : Members} : (∀ m ∈ ms, Whole m.2) → Whole (object ms)

theorem Fits.mono {depth deeper : Nat} {v : Json} (h : Fits depth v) (hle : depth ≤ deeper) :
    Fits deeper v := by
  induction h generalizing deeper with
  | null => exact .null
  | bool b => exact .bool b
  | number n => exact .number n
  | string s => exact .string s
  | array _ ih =>
    obtain ⟨d, rfl⟩ : ∃ d, deeper = d + 1 := ⟨deeper - 1, by omega⟩
    exact .array fun v hv => ih v hv (by omega)
  | object hkeys _ ih =>
    obtain ⟨d, rfl⟩ : ∃ d, deeper = d + 1 := ⟨deeper - 1, by omega⟩
    exact .object hkeys fun m hm => ih m hm (by omega)

theorem strings_fits (texts : List String) : Fits 1 (strings texts) := by
  refine .array fun v hv => ?_
  obtain ⟨s, -, rfl⟩ := List.mem_map.mp hv
  exact .string s

theorem strings_whole (texts : List String) : Whole (strings texts) := by
  refine .array fun v hv => ?_
  obtain ⟨s, -, rfl⟩ := List.mem_map.mp hv
  exact .string s

/-! ### Setting members -/

theorem Members.nodup_keys_insert {ms : Members} (h : ms.keys.Nodup) (key : String)
    (value : Json) : (ms.insert key value).keys.Nodup := by
  rw [Members.keys_insert]
  split
  · exact h
  · rename_i hnew
    refine List.nodup_append.mpr ⟨h, by simp, ?_⟩
    intro a ha b hb hab
    exact hnew (List.mem_singleton.mp hb ▸ hab ▸ ha)

/-- The members are those that were there and the one that is set. -/
theorem Members.mem_insert {ms : Members} {key : String} {value : Json} {m : String × Json}
    (h : m ∈ ms.insert key value) : m ∈ ms ∨ m = (key, value) := by
  induction ms with
  | nil => exact Or.inr (List.mem_singleton.mp h)
  | cons head rest ih =>
    obtain ⟨k, v⟩ := head
    by_cases hk : k = key
    · rw [Members.insert, if_pos hk, List.mem_cons] at h
      rcases h with rfl | hm
      · exact Or.inr (by rw [hk])
      · exact Or.inl (List.mem_cons_of_mem _ hm)
    · rw [Members.insert, if_neg hk, List.mem_cons] at h
      rcases h with rfl | hm
      · exact Or.inl List.mem_cons_self
      · exact (ih hm).imp_left (List.mem_cons_of_mem _)

theorem Members.insert_of_not_mem {ms : Members} {key : String} (h : key ∉ ms.keys)
    (value : Json) : ms.insert key value = ms ++ [(key, value)] := by
  induction ms with
  | nil => rfl
  | cons head rest ih =>
    obtain ⟨k, v⟩ := head
    simp only [Members.keys, List.map_cons, List.mem_cons, not_or] at h
    rw [Members.insert, if_neg (fun hk => h.1 hk.symm), ih h.2, List.cons_append]

/-- The members that result from setting further ones. -/
def Members.insertAll (ms : Members) (pairs : List (String × Json)) : Members :=
  pairs.foldl (fun ms m => ms.insert m.1 m.2) ms

theorem Members.insertAll_cons (ms : Members) (m : String × Json) (pairs : List (String × Json)) :
    ms.insertAll (m :: pairs) = (ms.insert m.1 m.2).insertAll pairs := rfl

/-- Setting members with new and different keys puts them at the end. -/
theorem Members.insertAll_of_nodup {ms pairs : Members} (h : (ms ++ pairs).keys.Nodup) :
    ms.insertAll pairs = ms ++ pairs := by
  induction pairs generalizing ms with
  | nil => exact (List.append_nil ms).symm
  | cons head rest ih =>
    obtain ⟨k, v⟩ := head
    have hnew : k ∉ ms.keys := by
      intro hk
      rw [Members.keys, List.map_append, List.nodup_append] at h
      exact h.2.2 k hk k List.mem_cons_self rfl
    rw [Members.insertAll_cons, Members.insert_of_not_mem hnew, ih (by simpa using h),
      List.append_assoc, List.singleton_append]

theorem Members.ofList_eq_self {ms : Members} (h : ms.keys.Nodup) : Members.ofList ms = ms :=
  Members.insertAll_of_nodup h

/-- Whatever is set, keys stand once and only values that are set are there. -/
theorem Members.insertAll_fits {depth : Nat} {ms : Members} {pairs : List (String × Json)}
    (hkeys : ms.keys.Nodup) (hms : ∀ m ∈ ms, Fits depth m.2)
    (hpairs : ∀ m ∈ pairs, Fits depth m.2) : Fits (depth + 1) (object (ms.insertAll pairs)) := by
  induction pairs generalizing ms with
  | nil => exact .object hkeys hms
  | cons head rest ih =>
    rw [List.forall_mem_cons] at hpairs
    refine ih (Members.nodup_keys_insert hkeys head.1 head.2) (fun m hm => ?_) hpairs.2
    rcases Members.mem_insert hm with hold | rfl
    · exact hms m hold
    · exact hpairs.1

theorem Members.ofList_fits {depth : Nat} {pairs : List (String × Json)}
    (h : ∀ m ∈ pairs, Fits depth m.2) : Fits (depth + 1) (object (Members.ofList pairs)) :=
  Members.insertAll_fits List.nodup_nil (fun _ hm => absurd hm List.not_mem_nil) h

/-! ### What is read -/

/-- What holds of all that a reader gives. -/
def Gives (inner : List Char → Reading α) (P : α → Prop) : Prop :=
  ∀ cs v rest, inner cs = .ok (v, rest) → P v

variable {α : Type} {inner : List Char → Reading α} {P : α → Prop}

theorem elementsRest_gives (h : Gives inner P) (fuel : Nat) :
    Gives (elementsRest inner fuel) (fun vs => ∀ v ∈ vs, P v) := by
  induction fuel with
  | zero =>
    intro cs vs rest hread
    cases hread
  | succ fuel ih =>
    intro cs vs rest hread
    rw [elementsRest] at hread
    split at hread
    · cases hread
    split at hread
    · cases hread
      exact fun v hv => absurd hv List.not_mem_nil
    split at hread
    · split at hread
      · cases hread
      split at hread
      · cases hread
      obtain ⟨v, left, hv, hmore⟩ := Reading.andThen_eq_ok.mp hread
      obtain ⟨ws, hws, rfl⟩ := Reading.mapValue_eq_ok.mp hmore
      exact List.forall_mem_cons.mpr ⟨h _ _ _ hv, ih _ _ _ hws⟩
    · cases hread

theorem elements_gives (h : Gives inner P) : Gives (elements inner) (fun vs => ∀ v ∈ vs, P v) := by
  intro cs vs rest hread
  rw [elements] at hread
  split at hread
  · cases hread
  split at hread
  · cases hread
    exact fun v hv => absurd hv List.not_mem_nil
  obtain ⟨v, left, hv, hmore⟩ := Reading.andThen_eq_ok.mp hread
  obtain ⟨ws, hws, rfl⟩ := Reading.mapValue_eq_ok.mp hmore
  exact List.forall_mem_cons.mpr ⟨h _ _ _ hv, elementsRest_gives h _ _ _ _ hws⟩

theorem member_gives (h : Gives inner P) : Gives (member inner) (fun m => P m.2) := by
  intro cs m rest hread
  obtain ⟨key, left, -, hmore⟩ := Reading.andThen_eq_ok.mp hread
  obtain ⟨-, behind, -, hvalue⟩ := Reading.andThen_eq_ok.mp hmore
  obtain ⟨v, hv, rfl⟩ := Reading.mapValue_eq_ok.mp hvalue
  exact h _ _ _ hv

theorem membersRest_gives (h : Gives inner P) (fuel : Nat) :
    Gives (membersRest inner fuel) (fun ms => ∀ m ∈ ms, P m.2) := by
  induction fuel with
  | zero =>
    intro cs ms rest hread
    cases hread
  | succ fuel ih =>
    intro cs ms rest hread
    rw [membersRest] at hread
    split at hread
    · cases hread
    split at hread
    · cases hread
      exact fun m hm => absurd hm List.not_mem_nil
    split at hread
    · split at hread
      · cases hread
      split at hread
      · obtain ⟨m, left, hm, hmore⟩ := Reading.andThen_eq_ok.mp hread
        obtain ⟨ws, hws, rfl⟩ := Reading.mapValue_eq_ok.mp hmore
        exact List.forall_mem_cons.mpr ⟨member_gives h _ _ _ hm, ih _ _ _ hws⟩
      · split at hread <;> cases hread
    · cases hread

theorem members_gives (h : Gives inner P) :
    Gives (members inner) (fun ms => ∀ m ∈ ms, P m.2) := by
  intro cs ms rest hread
  rw [members] at hread
  split at hread
  · cases hread
  split at hread
  · cases hread
    exact fun m hm => absurd hm List.not_mem_nil
  split at hread
  · obtain ⟨m, left, hm, hmore⟩ := Reading.andThen_eq_ok.mp hread
    obtain ⟨ws, hws, rfl⟩ := Reading.mapValue_eq_ok.mp hmore
    exact List.forall_mem_cons.mpr ⟨member_gives h _ _ _ hm, membersRest_gives h _ _ _ _ hws⟩
  · cases hread

/-- Words, texts and numbers fit any depth; arrays and objects are one level deeper than what their
parts are read with. -/
theorem valueWith_gives {deeper : Option (List Char → Reading Json)} {depth : Nat}
    (h : ∀ inner ∈ deeper, ∃ less, depth = less + 1 ∧ Gives inner (Fits less)) :
    Gives (valueWith deeper) (Fits depth) := by
  intro cs v rest hread
  rw [valueWith] at hread
  split at hread
  · cases hread
  split at hread
  · obtain ⟨s, -, rfl⟩ := Reading.mapValue_eq_ok.mp hread
    exact .string _
  split at hread
  · split at hread
    · cases hread
    · obtain ⟨less, rfl, hinner⟩ := h _ rfl
      obtain ⟨vs, hvs, rfl⟩ := Reading.mapValue_eq_ok.mp hread
      exact .array (elements_gives hinner _ _ _ hvs)
  split at hread
  · split at hread
    · cases hread
    · obtain ⟨less, rfl, hinner⟩ := h _ rfl
      obtain ⟨ms, hms, rfl⟩ := Reading.mapValue_eq_ok.mp hread
      exact Members.ofList_fits (members_gives hinner _ _ _ hms)
  split at hread
  · obtain ⟨n, -, rfl⟩ := Reading.mapValue_eq_ok.mp hread
    exact .number n
  split at hread
  · obtain ⟨n, -, rfl⟩ := Reading.mapValue_eq_ok.mp hread
    exact .number n
  split at hread
  · obtain ⟨-, -, rfl⟩ := Reading.mapValue_eq_ok.mp hread
    exact .bool true
  split at hread
  · obtain ⟨-, -, rfl⟩ := Reading.mapValue_eq_ok.mp hread
    exact .bool false
  split at hread
  · obtain ⟨-, -, rfl⟩ := Reading.mapValue_eq_ok.mp hread
    exact .null
  · cases hread

/-- A value that is read fits the depth it is read with. -/
theorem value_fits (depth : Nat) : Gives (value depth) (Fits depth) := by
  induction depth with
  | zero => exact valueWith_gives (fun inner h => by cases h)
  | succ depth ih =>
    refine valueWith_gives fun inner h => ⟨depth, rfl, ?_⟩
    cases h
    exact ih

end RulePack.Json
