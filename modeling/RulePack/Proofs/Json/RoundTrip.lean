import RulePack.Proofs.Json.Shape
import RulePack.Proofs.Json.Tokens

/-!
# Printed documents are read back

* `ReadsAs`, `ReadsBack` — what a reader gives for the printed form of a value, whatever stands
  behind it;
* `elements_print`, `members_print` — the parts of a printed array or object;
* `value_print` — a printed value of bounded depth;
* `read_render`, `read_render_newline` — a printed document.
-/

namespace RulePack.Json

/-! ### Blanks -/

theorem skipBlanks_cons {c : Char} (hc : isBlank c = false) (cs : List Char) :
    skipBlanks (c :: cs) = c :: cs := by
  rw [skipBlanks, List.dropWhile_cons_of_neg (by simp [hc])]

theorem skipBlanks_blank {c : Char} (hc : isBlank c = true) (cs : List Char) :
    skipBlanks (c :: cs) = skipBlanks cs := by
  rw [skipBlanks, List.dropWhile_cons_of_pos hc, skipBlanks]

theorem skipBlanks_newLine (level : Nat) (cs : List Char) :
    skipBlanks (newLine level ++ cs) = skipBlanks cs := by
  rw [newLine, List.cons_append, skipBlanks_blank rfl]
  induction 2 * level with
  | zero => rfl
  | succ n ih => rw [List.replicate_succ, List.cons_append, skipBlanks_blank rfl, ih]

theorem valueWith_blank (deeper : Option (List Char → Reading Json)) {c : Char}
    (hc : isBlank c = true) (cs : List Char) :
    valueWith deeper (c :: cs) = valueWith deeper cs := by
  rw [valueWith, valueWith, skipBlanks_blank hc]

theorem value_blank (depth : Nat) {c : Char} (hc : isBlank c = true) (cs : List Char) :
    value depth (c :: cs) = value depth cs := by
  cases depth with
  | zero => exact valueWith_blank none hc cs
  | succ depth => exact valueWith_blank (some (value depth)) hc cs

/-! ### How printed values begin -/

theorem isBlank_of_isDigit {c : Char} (h : c.isDigit = true) : isBlank c = false := by
  simp only [isBlank, Bool.or_eq_false_iff, decide_eq_false_iff_not]
  refine ⟨⟨⟨?_, ?_⟩, ?_⟩, ?_⟩ <;>
    · rintro rfl
      exact absurd h (by decide)

theorem toDigits_eq_cons (n : Nat) :
    ∃ d ds, Nat.toDigits 10 n = d :: ds ∧ d.isDigit = true := by
  cases h : Nat.toDigits 10 n with
  | nil => exact absurd h Nat.toDigits_ne_nil
  | cons d ds => exact ⟨d, ds, rfl, isDigit_of_mem_toDigits (h ▸ List.mem_cons_self)⟩

theorem Number.text_whole (n : Int) :
    (Number.whole n).text = (if n < 0 then ['-'] else []) ++ Nat.toDigits 10 n.natAbs := by
  rw [Number.text, Nat.toList_repr]

/-- No printed value begins with a blank or a closing bracket. -/
theorem print_eq_cons {v : Json} (h : Whole v) (level : Nat) :
    ∃ c cs, print level v = c :: cs ∧ isBlank c = false ∧ c ≠ ']' := by
  cases h with
  | null => exact ⟨_, _, by rw [print]; rfl, by decide, by decide⟩
  | bool b =>
    cases b
    · exact ⟨_, _, by rw [print]; rfl, by decide, by decide⟩
    · exact ⟨_, _, by rw [print]; rfl, by decide, by decide⟩
  | @number n _ _ =>
    rw [print, Number.text_whole]
    by_cases hn : n < 0
    · exact ⟨'-', _, by rw [if_pos hn]; rfl, by decide, by decide⟩
    · obtain ⟨d, ds, hd, hdigit⟩ := toDigits_eq_cons n.natAbs
      refine ⟨d, ds, by rw [if_neg hn, hd]; rfl, isBlank_of_isDigit hdigit, ?_⟩
      rintro rfl
      exact absurd hdigit (by decide)
  | string s => exact ⟨_, _, by rw [print]; rfl, by decide, by decide⟩
  | @array vs _ =>
    cases vs
    · exact ⟨_, _, by rw [print], by decide, by decide⟩
    · exact ⟨_, _, by rw [print]; rfl, by decide, by decide⟩
  | @object ms _ =>
    cases ms
    · exact ⟨_, _, by rw [print], by decide, by decide⟩
    · exact ⟨_, _, by rw [print]; rfl, by decide, by decide⟩

/-! ### The parts of arrays and objects -/

theorem behind_newLine (level : Nat) (rest : List Char) : Behind (newLine level ++ rest) :=
  behind_cons (by decide) _

theorem behind_printElements (level : Nat) (vs : List Json) {rest : List Char}
    (hrest : Behind rest) : Behind (printElements level vs ++ rest) := by
  cases vs with
  | nil => exact hrest
  | cons v vs =>
    rw [printElements]
    exact behind_cons (by decide) _

theorem behind_printMembers (level : Nat) (ms : Members) {rest : List Char}
    (hrest : Behind rest) : Behind (printMembers level ms ++ rest) := by
  cases ms with
  | nil => exact hrest
  | cons m ms =>
    rw [printMembers]
    exact behind_cons (by decide) _

theorem length_le_printElements (level : Nat) (vs : List Json) :
    vs.length ≤ (printElements level vs).length := by
  induction vs with
  | nil => exact Nat.zero_le _
  | cons v vs ih =>
    simp only [printElements, List.cons_append, List.length_cons, List.length_append]
    omega

theorem length_le_printMembers (level : Nat) (ms : Members) :
    ms.length ≤ (printMembers level ms).length := by
  induction ms with
  | nil => exact Nat.zero_le _
  | cons m ms ih =>
    simp only [printMembers, List.cons_append, List.length_cons, List.length_append]
    omega

/-- A reader gives something for the printed form of a value. -/
def ReadsAs (inner : List Char → Reading α) (v : Json) (a : α) : Prop :=
  ∀ level rest, Behind rest → inner (print level v ++ rest) = .ok (a, rest)

/-- A reader gives a value back from its printed form. -/
def ReadsBack (inner : List Char → Reading Json) (v : Json) : Prop :=
  ∀ level rest, Behind rest → inner (print level v ++ rest) = .ok (v, rest)

section
variable {inner : List Char → Reading α} {shown : α → Json}

theorem elementsRest_print {as : List α}
    (has : ∀ a ∈ as, Whole (shown a) ∧ ReadsAs inner (shown a) a) (fuel : Nat)
    (hfuel : as.length < fuel) (level outer : Nat) (rest : List Char) :
    elementsRest inner fuel (printElements level (as.map shown) ++ (newLine outer ++ ']' :: rest))
      = .ok (as, rest) := by
  induction as generalizing fuel with
  | nil =>
    obtain ⟨fuel, rfl⟩ : ∃ f, fuel = f + 1 := ⟨fuel - 1, by omega⟩
    rw [List.map_nil, printElements, List.nil_append, elementsRest, skipBlanks_newLine,
      skipBlanks_cons rfl]
    rfl
  | cons a as ih =>
    rw [List.forall_mem_cons] at has
    rw [List.length_cons] at hfuel
    obtain ⟨fuel, rfl⟩ : ∃ f, fuel = f + 1 := ⟨fuel - 1, by omega⟩
    have hmore := ih has.2 fuel (by omega)
    have ha := has.1.2 level _
      (behind_printElements level (as.map shown) (behind_newLine outer (']' :: rest)))
    obtain ⟨d, ds, hd, hblank, hne⟩ := print_eq_cons has.1.1 level
    rw [hd, List.cons_append] at ha
    rw [List.map_cons, printElements, elementsRest]
    simp only [List.cons_append, List.append_assoc, hd]
    rw [skipBlanks_cons rfl]
    simp only [skipBlanks_newLine, skipBlanks_cons hblank, if_neg hne, ha, Reading.andThen_ok]
    rw [hmore]
    rfl

/-- A printed array is read element by element from behind its opening bracket. -/
theorem elements_print (shown : α → Json) {as : List α}
    (has : ∀ a ∈ as, Whole (shown a) ∧ ReadsAs inner (shown a) a) (level : Nat)
    (rest : List Char) : ∃ inside, print level (array (as.map shown)) ++ rest = '[' :: inside
      ∧ elements inner inside = .ok (as, rest) := by
  cases as with
  | nil => exact ⟨']' :: rest, by rw [List.map_nil, print]; rfl, rfl⟩
  | cons a as =>
    rw [List.forall_mem_cons] at has
    have ha := has.1.2 (level + 1) _
      (behind_printElements (level + 1) (as.map shown) (behind_newLine level (']' :: rest)))
    obtain ⟨d, ds, hd, hblank, hne⟩ := print_eq_cons has.1.1 (level + 1)
    rw [hd, List.cons_append] at ha
    have hmore := elementsRest_print has.2
      ((printElements (level + 1) (as.map shown) ++ (newLine level ++ ']' :: rest)).length + 1)
      (by
        have := length_le_printElements (level + 1) (as.map shown)
        simp only [List.length_append, List.length_map] at this ⊢
        omega)
      (level + 1) level rest
    refine ⟨newLine (level + 1) ++ (print (level + 1) (shown a)
      ++ (printElements (level + 1) (as.map shown) ++ (newLine level ++ ']' :: rest))), ?_, ?_⟩
    · rw [List.map_cons, print]
      simp only [List.cons_append, List.append_assoc, List.nil_append]
    · rw [elements]
      simp only [hd, List.cons_append, skipBlanks_newLine, skipBlanks_cons hblank, if_neg hne, ha,
        Reading.andThen_ok]
      rw [hmore]
      rfl

end

section
variable {inner : List Char → Reading Json}

/-- A member is read back from behind the opening quote of its key. -/
theorem member_print (hspace : ∀ cs, inner (' ' :: cs) = inner cs) {m : String × Json}
    (hm : ReadsBack inner m.2) (level : Nat) {rest : List Char} (hrest : Behind rest) :
    member inner (m.1.toList.flatMap escaped ++ '"' :: ':' :: ' ' :: (print level m.2 ++ rest))
      = .ok (m, rest) := by
  rw [member, readString_flatMap_escaped, Reading.andThen_ok, colon, skipBlanks_cons rfl]
  simp only [if_true, Reading.andThen_ok]
  rw [hspace, hm level rest hrest, Reading.mapValue_ok, String.ofList_toList]

theorem membersRest_print (hspace : ∀ cs, inner (' ' :: cs) = inner cs) {ms : Members}
    (hms : ∀ m ∈ ms, ReadsBack inner m.2) (fuel : Nat) (hfuel : ms.length < fuel)
    (level outer : Nat) (rest : List Char) :
    membersRest inner fuel (printMembers level ms ++ (newLine outer ++ '\x7d' :: rest))
      = .ok (ms, rest) := by
  induction ms generalizing fuel with
  | nil =>
    obtain ⟨fuel, rfl⟩ : ∃ f, fuel = f + 1 := ⟨fuel - 1, by omega⟩
    rw [printMembers, List.nil_append, membersRest, skipBlanks_newLine, skipBlanks_cons rfl]
    rfl
  | cons m ms ih =>
    rw [List.forall_mem_cons] at hms
    rw [List.length_cons] at hfuel
    obtain ⟨fuel, rfl⟩ : ∃ f, fuel = f + 1 := ⟨fuel - 1, by omega⟩
    have hmore := ih hms.2 fuel (by omega)
    have hm := member_print hspace hms.1 level
      (behind_printMembers level ms (behind_newLine outer ('\x7d' :: rest)))
    rw [printMembers, membersRest, quoted]
    simp only [List.cons_append, List.append_assoc, List.nil_append]
    rw [skipBlanks_cons rfl]
    simp only [skipBlanks_newLine]
    rw [skipBlanks_cons rfl]
    simp only [if_true]
    rw [hm, Reading.andThen_ok, hmore]
    rfl

theorem members_print (hspace : ∀ cs, inner (' ' :: cs) = inner cs) {m : String × Json}
    {ms : Members} (hms : ∀ n ∈ m :: ms, ReadsBack inner n.2) (level outer : Nat)
    (rest : List Char) :
    members inner (newLine level ++ quoted m.1 ++ ':' :: ' ' :: print level m.2
      ++ printMembers level ms ++ newLine outer ++ '\x7d' :: rest) = .ok (m :: ms, rest) := by
  rw [List.forall_mem_cons] at hms
  have hm := member_print hspace hms.1 level
    (behind_printMembers level ms (behind_newLine outer ('\x7d' :: rest)))
  have hmore := membersRest_print hspace hms.2
    ((printMembers level ms ++ (newLine outer ++ '\x7d' :: rest)).length + 1)
    (by have := length_le_printMembers level ms; simp only [List.length_append]; omega)
    level outer rest
  rw [members, quoted]
  simp only [List.append_assoc, List.cons_append, List.nil_append, skipBlanks_newLine]
  rw [skipBlanks_cons rfl]
  simp only [if_true]
  rw [hm, Reading.andThen_ok, hmore]
  rfl

end

/-! ### Values -/

/-- The characters that may stand at the front of a number. -/
theorem valueWith_toDigits (deeper : Option (List Char → Reading Json)) {n : Nat}
    (hn : n < wordLimit) {rest : List Char} (hrest : Behind rest) :
    valueWith deeper (Nat.toDigits 10 n ++ rest) = .ok (number (.whole n), rest) := by
  obtain ⟨d, ds, hd, hdigit⟩ := toDigits_eq_cons n
  have hread := readNumber_toDigits hn false hrest
  have hne (c : Char) (hc : c.isDigit = false) : d ≠ c := by
    rintro rfl
    exact absurd hdigit (by simp [hc])
  rw [hd, List.cons_append] at hread ⊢
  rw [valueWith, skipBlanks_cons (isBlank_of_isDigit hdigit)]
  simp only [if_neg (hne '"' rfl), if_neg (hne '[' rfl), if_neg (hne '\x7b' rfl),
    if_neg (hne '-' rfl), if_pos hdigit, hread]
  rfl

/-- A whole number of 64 bits is read back. -/
theorem valueWith_whole (deeper : Option (List Char → Reading Json)) {n : Int}
    (hlow : -(magnitudeLimit : Int) ≤ n) (hhigh : n < wordLimit) {rest : List Char}
    (hrest : Behind rest) :
    valueWith deeper ((Number.whole n).text ++ rest) = .ok (number (.whole n), rest) := by
  have hlimits : magnitudeLimit < wordLimit := by decide
  rw [Number.text_whole]
  by_cases hn : n < 0
  · have hread := readNumber_toDigits (n := n.natAbs) (by omega) true hrest
    have hwhole : wholeOf true n.natAbs = .whole n := by
      rw [wholeOf, if_pos rfl, if_neg (by omega)]
      congr 1
      omega
    rw [if_pos hn, List.singleton_append, List.cons_append, valueWith, skipBlanks_cons rfl]
    simp only [hread, hwhole]
    rfl
  · have hread := valueWith_toDigits deeper (n := n.natAbs) (by omega) hrest
    rw [Int.natAbs_of_nonneg (by omega)] at hread
    rw [if_neg hn, List.nil_append, hread]

theorem value_eq_valueWith (depth : Nat) : ∃ deeper, value depth = valueWith deeper := by
  cases depth with
  | zero => exact ⟨none, rfl⟩
  | succ depth => exact ⟨some (value depth), rfl⟩

/-- **A printed value is read back**, given a depth that it fits. -/
theorem value_print {depth : Nat} {v : Json} (hfits : Fits depth v) (hwhole : Whole v) :
    ReadsBack (value depth) v := by
  induction hfits with
  | @null depth =>
    intro level rest _
    obtain ⟨deeper, hvalue⟩ := value_eq_valueWith depth
    rw [print, hvalue]
    rfl
  | @bool depth b =>
    intro level rest _
    obtain ⟨deeper, hvalue⟩ := value_eq_valueWith depth
    rw [hvalue]
    cases b
    · rw [print]
      rfl
    · rw [print]
      rfl
  | @number depth n =>
    intro level rest hrest
    obtain ⟨deeper, hvalue⟩ := value_eq_valueWith depth
    rw [print, hvalue]
    cases hwhole with
    | number hlow hhigh => exact valueWith_whole deeper hlow hhigh hrest
  | @string depth s =>
    intro level rest _
    obtain ⟨deeper, hvalue⟩ := value_eq_valueWith depth
    obtain ⟨inside, hquoted, hread⟩ := readString_quoted s rest
    rw [print, hvalue, hquoted, valueWith, skipBlanks_cons rfl]
    simp only [if_true, hread, Reading.mapValue_ok, String.ofList_toList]
  | @array depth vs _ ih =>
    intro level rest _
    cases hwhole with
    | array hparts =>
      obtain ⟨inside, hprint, hread⟩ := elements_print id
        (fun w hw => ⟨hparts w hw, ih w hw (hparts w hw)⟩) level rest
      rw [List.map_id] at hprint
      show valueWith (some (value depth)) _ = _
      rw [hprint, valueWith, skipBlanks_cons rfl]
      simp [hread]
  | @object depth ms hkeys _ ih =>
    intro level rest _
    cases hwhole with
    | object hparts =>
      show valueWith (some (value depth)) _ = _
      cases ms with
      | nil =>
        rw [print]
        rfl
      | cons m ms =>
        have hread := members_print (value_blank depth rfl)
          (fun n hn => ih n hn (hparts n hn)) (level + 1) level rest
        rw [print]
        simp only [List.cons_append, List.append_assoc, List.nil_append] at hread ⊢
        rw [valueWith, skipBlanks_cons rfl]
        simp [hread, Members.ofList_eq_self hkeys]

/-- A printed document is read back, whatever blanks stand behind it. -/
theorem readAll_print {v : Json} (hfits : Fits depthLimit v) (hwhole : Whole v)
    {rest : List Char} (hrest : Behind rest) (hblank : skipBlanks rest = []) :
    readAll (value depthLimit) (print 0 v ++ rest) = .ok v := by
  rw [readAll, value_print hfits hwhole 0 rest hrest]
  simp only [hblank]

theorem read_render {v : Json} (hfits : Fits depthLimit v) (hwhole : Whole v) :
    read v.render = .ok v := by
  have hread := readAll_print hfits hwhole behind_nil rfl
  rwa [List.append_nil, ← String.toList_ofList (l := print 0 v)] at hread

theorem read_render_newline {v : Json} (hfits : Fits depthLimit v) (hwhole : Whole v) :
    read (v.render ++ "\n") = .ok v := by
  have htext : (v.render ++ "\n").toList = print 0 v ++ ['\n'] := by
    rw [String.toList_append, render, String.toList_ofList]
    rfl
  rw [read, htext]
  exact readAll_print hfits hwhole (behind_cons (by decide) []) rfl

end RulePack.Json
