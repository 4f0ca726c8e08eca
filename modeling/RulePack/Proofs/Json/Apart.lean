import RulePack.Proofs.Json.Grammar

/-!
# Words stand apart

* `Apart` — tokens among which no word stands directly behind another one;
* `spells_apart` — the tokens of a value are such;
* `tokens_cons_congr`, `apart_of_cons` — tokens behind one more character of a word.
-/

namespace RulePack.Json

/-- No word stands directly behind another one. -/
def Apart : List Token → Prop
  | .word _ :: .word _ :: _ => False
  | _ :: ts => Apart ts
  | [] => True

theorem apart_tail {t : Token} {ts : List Token} (h : Apart (t :: ts)) : Apart ts := by
  cases t with
  | mark c => exact h
  | literal inside => exact h
  | word w =>
    cases ts with
    | nil => exact h
    | cons u ts =>
      cases u with
      | word w' => exact h.elim
      | mark c => exact h
      | literal inside => exact h

theorem apart_append_right {ts more : List Token} (h : Apart (ts ++ more)) : Apart more := by
  induction ts with
  | nil => exact h
  | cons t ts ih => exact ih (apart_tail h)

/-- Whether words stand apart does not depend on what the first one is. -/
theorem apart_word (w w' : List Char) (ts : List Token) :
    Apart (.word w :: ts) ↔ Apart (.word w' :: ts) := by
  cases ts with
  | nil => exact Iff.rfl
  | cons u ts =>
    cases u with
    | word v => exact Iff.rfl
    | mark c => exact Iff.rfl
    | literal inside => exact Iff.rfl

/-- A mark keeps words apart. -/
theorem apart_append_mark {ts more : List Token} {c : Char} (hts : Apart ts) (hmore : Apart more) :
    Apart (ts ++ .mark c :: more) := by
  induction ts with
  | nil => exact hmore
  | cons t ts ih =>
    have htail := ih (apart_tail hts)
    cases t with
    | mark d => exact htail
    | literal inside => exact htail
    | word w =>
      cases ts with
      | nil => exact hmore
      | cons u ts =>
        cases u with
        | word w' => exact hts.elim
        | mark d => exact htail
        | literal inside => exact htail

/-! ### Values -/

section
variable {Part : List Token → α → Prop} {closer : Char} {ts : List Token}

theorem following_apart (hpart : ∀ {ts a}, Part ts a → Apart ts) {as : List α}
    (h : Following closer Part ts as) : ∃ c more, ts = .mark c :: more ∧ Apart more := by
  induction h with
  | closed => exact ⟨closer, [], rfl, trivial⟩
  | part hfirst hmore ih =>
    obtain ⟨c, rest, rfl, hrest⟩ := ih
    exact ⟨',', _, rfl, apart_append_mark (hpart hfirst) hrest⟩

theorem enclosed_apart (hpart : ∀ {ts a}, Part ts a → Apart ts) {as : List α}
    (h : Enclosed closer Part ts as) : Apart ts := by
  cases h with
  | empty => trivial
  | parts hfirst hmore =>
    obtain ⟨c, rest, rfl, hrest⟩ := following_apart hpart hmore
    exact apart_append_mark (hpart hfirst) hrest

theorem pair_apart (hpart : ∀ {ts a}, Part ts a → Apart ts) {m : String × α}
    (h : Pair Part ts m) : Apart ts := by
  cases h with
  | pair hkey hvalue =>
    have htail := hpart hvalue
    exact htail

end

/-- The words of a value stand apart. -/
theorem spells_apart {depth : Nat} {ts : List Token} {v : Json} (h : Spells depth ts v) :
    Apart ts := by
  have single (t : Token) : Apart [t] := by cases t <;> trivial
  induction depth generalizing ts v with
  | zero =>
    cases h with
    | scalar hmeans => exact single _
  | succ depth ih =>
    cases h with
    | scalar hmeans => exact single _
    | array henclosed =>
      have htail := enclosed_apart ih henclosed
      exact htail
    | object henclosed =>
      have htail := enclosed_apart (pair_apart ih) henclosed
      exact htail

/-! ### One more character of a word -/

section
variable {c : Char} (hc : isWordChar c = true) {cs ds : List Char}
include hc

theorem tokens_cons_of_ends (h : Ends cs) : tokens (c :: cs) = .word [c] :: tokens cs :=
  tokens_word (List.cons_ne_nil c []) (fun _ hd => List.mem_singleton.mp hd ▸ hc) h

omit hc in
/-- Where a word does not end, one begins. -/
theorem tokens_of_not_ends (h : ¬Ends cs) :
    ∃ d rest, cs = d :: rest ∧ isWordChar d = true := by
  cases cs with
  | nil => exact absurd ends_nil h
  | cons d rest =>
    cases hd : isWordChar d with
    | true => exact ⟨d, rest, rfl, hd⟩
    | false => exact absurd (ends_cons hd rest) h

theorem tokens_cons_of_not_ends (h : ¬Ends cs) :
    ∃ w more, tokens cs = .word w :: more ∧ tokens (c :: cs) = .word (c :: w) :: more := by
  obtain ⟨d, rest, rfl, hd⟩ := tokens_of_not_ends h
  refine ⟨_, _, tokens_wordChar hd rest, ?_⟩
  rw [tokens_wordChar hc, List.takeWhile_cons_of_pos hd, List.dropWhile_cons_of_pos hd]

/-- One more character of a word makes no difference between texts of the same tokens. -/
theorem tokens_cons_congr (hends : Ends cs ↔ Ends ds) (h : tokens cs = tokens ds) :
    tokens (c :: cs) = tokens (c :: ds) := by
  by_cases hcs : Ends cs
  · rw [tokens_cons_of_ends hc hcs, tokens_cons_of_ends hc (hends.mp hcs), h]
  · obtain ⟨w, more, hw, hcons⟩ := tokens_cons_of_not_ends hc hcs
    obtain ⟨w', more', hw', hcons'⟩ := tokens_cons_of_not_ends hc (fun hds => hcs (hends.mpr hds))
    rw [hw, hw'] at h
    cases h
    rw [hcons, hcons']

theorem apart_of_cons (h : Apart (tokens (c :: cs))) : Apart (tokens cs) := by
  by_cases hcs : Ends cs
  · rw [tokens_cons_of_ends hc hcs] at h
    exact apart_tail h
  · obtain ⟨w, more, hw, hcons⟩ := tokens_cons_of_not_ends hc hcs
    rw [hcons] at h
    rw [hw]
    exact (apart_word _ _ more).mp h

end

end RulePack.Json
