import RulePack.Proofs.Json.Words

/-!
# The grammar of JSON texts

* `Spells` — which value tokens spell, arrays and objects nested up to a depth;
* `Reads` — a reader gives what a grammar of its parts says, and nothing else;
* `elements_sound`, `elements_complete`, `members_sound`, `members_complete` — arrays and objects;
* `reads_value` — values of bounded depth;
* `read_eq_ok_iff` — a text is read as a value exactly if its tokens spell the value.
-/

namespace RulePack.Json

/-! ### The grammar -/

/-- The value that a single token is. -/
def Token.Means : Token → Json → Prop
  | .mark _, _ => False
  | .word letters, v => readScalar letters = .ok (v, [])
  | .literal inside, v => ∃ s, readString inside = .ok (s, []) ∧ v = .string (String.ofList s)

/-- What stands behind the first part of an array or object: further parts, each with a comma
before it, and the mark that closes it. -/
inductive Following (closer : Char) (Part : List Token → α → Prop) : List Token → List α → Prop
  | closed : Following closer Part [.mark closer] []
  | part {ts more : List Token} {a : α} {as : List α} (hpart : Part ts a)
    (hmore : Following closer Part more as) :
    Following closer Part (.mark ',' :: (ts ++ more)) (a :: as)

/-- What stands behind the mark that opens an array or object. -/
inductive Enclosed (closer : Char) (Part : List Token → α → Prop) : List Token → List α → Prop
  | empty : Enclosed closer Part [.mark closer] []
  | parts {ts more : List Token} {a : α} {as : List α} (hpart : Part ts a)
    (hmore : Following closer Part more as) : Enclosed closer Part (ts ++ more) (a :: as)

/-- A key and its value, with a colon between them. -/
inductive Pair (Part : List Token → α → Prop) : List Token → String × α → Prop
  | pair {inside : List Char} {ts : List Token} {key : List Char} {a : α}
    (hkey : readString inside = .ok (key, [])) (hpart : Part ts a) :
    Pair Part (.literal inside :: .mark ':' :: ts) (String.ofList key, a)

/-- The value that tokens spell, if the parts of arrays and objects are spelled as `inner` says; if
it says nothing, there is neither. -/
inductive SpellsWith : Option (List Token → Json → Prop) → List Token → Json → Prop
  | scalar {inner : Option (List Token → Json → Prop)} {t : Token} {v : Json} (h : t.Means v) :
    SpellsWith inner [t] v
  | array {inner : List Token → Json → Prop} {ts : List Token} {vs : List Json}
    (h : Enclosed ']' inner ts vs) : SpellsWith (some inner) (.mark '[' :: ts) (.array vs)
  | object {inner : List Token → Json → Prop} {ts : List Token} {ms : List (String × Json)}
    (h : Enclosed '\x7d' (Pair inner) ts ms) :
    SpellsWith (some inner) (.mark '\x7b' :: ts) (.object (Members.ofList ms))

/-- The value that tokens spell, with at most `depth` arrays and objects open at a time. -/
def Spells : Nat → List Token → Json → Prop
  | 0 => SpellsWith none
  | depth + 1 => SpellsWith (some (Spells depth))

theorem Following.length_lt {closer : Char} {Part : List Token → α → Prop} {ts : List Token}
    {as : List α} (h : Following closer Part ts as) : as.length < ts.length := by
  induction h with
  | closed => exact Nat.one_pos
  | part hpart hmore ih =>
    simp only [List.length_cons, List.length_append]
    omega

/-! ### Readers that follow the grammar -/

/-- A reader takes the tokens of a part from the front of a text and gives what the part means.
Only behind a part does it have to be known that a word ends there. -/
structure Reads (f : List Char → Reading α) (Part : List Token → α → Prop) : Prop where
  sound : ∀ {cs a rest}, f cs = .ok (a, rest) → Ends rest →
    ∃ ts, tokens cs = ts ++ tokens rest ∧ Part ts a
  complete : ∀ {cs ts a more}, Part ts a → tokens cs = ts ++ more →
    ∃ rest, f cs = .ok (a, rest) ∧ tokens rest = more
  begins : ∀ {ts a}, Part ts a → ∃ t more, ts = t :: more ∧ t ≠ .mark ']'

section
variable {cs rest : List Char} {c : Char}

theorem tokens_of_skipBlanks (h : skipBlanks cs = c :: rest) (hquote : c ≠ '"')
    (hword : isWordChar c = false) : tokens cs = .mark c :: tokens rest := by
  rw [← tokens_skipBlanks cs, h, tokens_mark (isBlank_of_skipBlanks h) hquote hword]

/-- A word ends before blanks and before a mark. -/
theorem ends_of_skipBlanks (h : skipBlanks cs = c :: rest) (hword : isWordChar c = false) :
    Ends cs := by
  cases cs with
  | nil => exact ends_nil
  | cons d more =>
    refine ends_cons ?_ more
    cases hblank : isBlank d with
    | true => exact isWordChar_of_isBlank hblank
    | false =>
      rw [skipBlanks, List.dropWhile_cons_of_neg (by simp [hblank])] at h
      cases h
      exact hword

theorem ends_of_blanks (h : skipBlanks cs = []) : Ends cs := by
  cases cs with
  | nil => exact ends_nil
  | cons d more =>
    refine ends_cons (isWordChar_of_isBlank ?_) more
    cases hblank : isBlank d with
    | true => rfl
    | false =>
      rw [skipBlanks, List.dropWhile_cons_of_neg (by simp [hblank])] at h
      cases h

end

/-! ### Arrays -/

section
variable {inner : List Char → Reading α} {Part : List Token → α → Prop} (hinner : Reads inner Part)
include hinner

theorem elementsRest_sound {fuel : Nat} {cs rest : List Char} {as : List α}
    (h : elementsRest inner fuel cs = .ok (as, rest)) :
    Ends cs ∧ ∃ ts, tokens cs = ts ++ tokens rest ∧ Following ']' Part ts as := by
  induction fuel generalizing cs as with
  | zero => cases h
  | succ fuel ih =>
    rw [elementsRest] at h
    split at h
    · cases h
    rename_i c behind hskip
    split at h
    · rename_i hc
      subst hc
      cases h
      exact ⟨ends_of_skipBlanks hskip rfl, [.mark ']'],
        tokens_of_skipBlanks hskip (by decide) rfl, .closed⟩
    split at h
    · rename_i hc
      subst hc
      split at h
      · cases h
      rename_i d more hmore
      split at h
      · cases h
      obtain ⟨a, left, ha, hleft⟩ := Reading.andThen_eq_ok.mp h
      obtain ⟨bs, hbs, rfl⟩ := Reading.mapValue_eq_ok.mp hleft
      obtain ⟨hends, ts, hts, hfollowing⟩ := ih hbs
      obtain ⟨part, hpart, hmeans⟩ := hinner.sound ha hends
      refine ⟨ends_of_skipBlanks hskip rfl, .mark ',' :: (part ++ ts), ?_, .part hmeans hfollowing⟩
      rw [tokens_of_skipBlanks hskip (by decide) rfl, ← tokens_skipBlanks behind, hmore, hpart, hts,
        List.cons_append, List.append_assoc]
    · cases h

theorem elements_sound {cs rest : List Char} {as : List α}
    (h : elements inner cs = .ok (as, rest)) :
    ∃ ts, tokens cs = ts ++ tokens rest ∧ Enclosed ']' Part ts as := by
  rw [elements] at h
  split at h
  · cases h
  rename_i c behind hskip
  split at h
  · rename_i hc
    subst hc
    cases h
    exact ⟨[.mark ']'], tokens_of_skipBlanks hskip (by decide) rfl, .empty⟩
  · obtain ⟨a, left, ha, hleft⟩ := Reading.andThen_eq_ok.mp h
    obtain ⟨bs, hbs, rfl⟩ := Reading.mapValue_eq_ok.mp hleft
    obtain ⟨hends, ts, hts, hfollowing⟩ := elementsRest_sound hinner hbs
    obtain ⟨part, hpart, hmeans⟩ := hinner.sound ha hends
    refine ⟨part ++ ts, ?_, .parts hmeans hfollowing⟩
    rw [← tokens_skipBlanks cs, hskip, hpart, hts, List.append_assoc]

/-- A part is found behind blanks, and it is not the end of the array. -/
theorem Reads.complete_skipBlanks {cs : List Char} {ts more : List Token} {a : α}
    (hpart : Part ts a) (h : tokens cs = ts ++ more) :
    ∃ d behind rest, skipBlanks cs = d :: behind ∧ d ≠ ']'
      ∧ inner (d :: behind) = .ok (a, rest) ∧ tokens rest = more := by
  rw [← tokens_skipBlanks cs] at h
  obtain ⟨rest, hread, hrest⟩ := hinner.complete hpart h
  obtain ⟨t, others, rfl, hne⟩ := hinner.begins hpart
  cases hskip : skipBlanks cs with
  | nil =>
    rw [hskip, tokens_nil] at h
    cases h
  | cons d behind =>
    rw [hskip] at h hread
    refine ⟨d, behind, rest, rfl, ?_, hread, hrest⟩
    rintro rfl
    rw [tokens_mark (by decide) (by decide) rfl, List.cons_append, List.cons.injEq] at h
    exact hne h.1.symm

theorem elementsRest_complete {fuel : Nat} {cs : List Char} {ts more : List Token} {as : List α}
    (h : Following ']' Part ts as) (hcs : tokens cs = ts ++ more) (hfuel : as.length < fuel) :
    ∃ rest, elementsRest inner fuel cs = .ok (as, rest) ∧ tokens rest = more := by
  induction h generalizing cs fuel with
  | closed =>
    cases fuel with
    | zero => cases hfuel
    | succ fuel =>
      obtain ⟨rest, hskip, hrest⟩ := tokens_eq_mark hcs
      refine ⟨rest, ?_, hrest⟩
      rw [elementsRest, hskip]
      rfl
  | @part ts others a as hpart hmore ih =>
    cases fuel with
    | zero => cases hfuel
    | succ fuel =>
      rw [List.cons_append, List.append_assoc] at hcs
      obtain ⟨behind, hskip, hbehind⟩ := tokens_eq_mark hcs
      obtain ⟨d, tail, left, hd, hne, hread, hleft⟩ := hinner.complete_skipBlanks hpart hbehind
      obtain ⟨rest, hrest, hmore⟩ := ih hleft (Nat.lt_of_succ_lt_succ hfuel)
      refine ⟨rest, ?_, hmore⟩
      rw [elementsRest, hskip]
      simp [hd, hne, hread, hrest]

theorem elements_complete {cs : List Char} {ts more : List Token} {as : List α}
    (h : Enclosed ']' Part ts as) (hcs : tokens cs = ts ++ more) :
    ∃ rest, elements inner cs = .ok (as, rest) ∧ tokens rest = more := by
  cases h with
  | empty =>
    obtain ⟨rest, hskip, hrest⟩ := tokens_eq_mark hcs
    refine ⟨rest, ?_, hrest⟩
    rw [elements, hskip]
    rfl
  | @parts ts others a as hpart hfollowing =>
    rw [List.append_assoc] at hcs
    obtain ⟨d, tail, left, hd, hne, hread, hleft⟩ := hinner.complete_skipBlanks hpart hcs
    have hfuel : as.length < left.length + 1 := by
      have hlt := hfollowing.length_lt
      have hle := length_tokens_le left
      rw [hleft, List.length_append] at hle
      omega
    obtain ⟨rest, hrest, hmore⟩ := elementsRest_complete hinner hfollowing hleft hfuel
    refine ⟨rest, ?_, hmore⟩
    rw [elements, hd]
    simp [hne, hread, hrest]

end

/-! ### Objects -/

section
variable {inner : List Char → Reading α} {Part : List Token → α → Prop} (hinner : Reads inner Part)
include hinner

/-- The quote has been read; a word ends behind the value. -/
theorem member_sound {cs rest : List Char} {m : String × α}
    (h : member inner cs = .ok (m, rest)) (hrest : Ends rest) :
    ∃ ts, tokens ('"' :: cs) = ts ++ tokens rest ∧ Pair Part ts m := by
  obtain ⟨key, behind, hkey, hbehind⟩ := Reading.andThen_eq_ok.mp h
  obtain ⟨_, left, hcolon, hleft⟩ := Reading.andThen_eq_ok.mp hbehind
  obtain ⟨a, ha, rfl⟩ := Reading.mapValue_eq_ok.mp hleft
  obtain ⟨body, hbody, rfl, hread⟩ := readString_closed hkey
  rw [colon] at hcolon
  split at hcolon
  · cases hcolon
  rename_i c after hskip
  split at hcolon
  · rename_i hc
    subst hc
    cases hcolon
    obtain ⟨ts, hts, hpart⟩ := hinner.sound ha hrest
    refine ⟨.literal body :: .mark ':' :: ts, ?_, .pair ?_ hpart⟩
    · rw [tokens_literal hbody, tokens_of_skipBlanks hskip (by decide) rfl, hts]
      rfl
    · have hwhole := hread []
      rwa [List.append_nil] at hwhole
  · cases hcolon

theorem member_complete {cs : List Char} {ts more : List Token} {m : String × α}
    (h : Pair Part ts m) (hcs : tokens cs = ts ++ more) :
    ∃ behind rest, skipBlanks cs = '"' :: behind ∧ member inner behind = .ok (m, rest)
      ∧ tokens rest = more := by
  cases h with
  | @pair inside ts key a hkey hpart =>
    obtain ⟨behind, hskip, hbehind⟩ := tokens_eq_literal hcs
    obtain ⟨after, hcolon, hafter⟩ := tokens_eq_mark hbehind
    obtain ⟨rest, hread, hrest⟩ := hinner.complete hpart hafter
    obtain ⟨body, -, hinside, hall⟩ := readString_closed hkey
    rw [List.append_nil] at hinside
    refine ⟨inside ++ behind, rest, hskip, ?_, hrest⟩
    rw [member, hinside, hall, Reading.andThen_ok, colon, hcolon]
    simp [hread]

theorem membersRest_sound {fuel : Nat} {cs rest : List Char} {ms : List (String × α)}
    (h : membersRest inner fuel cs = .ok (ms, rest)) :
    Ends cs ∧ ∃ ts, tokens cs = ts ++ tokens rest ∧ Following '\x7d' (Pair Part) ts ms := by
  induction fuel generalizing cs ms with
  | zero => cases h
  | succ fuel ih =>
    rw [membersRest] at h
    split at h
    · cases h
    rename_i c behind hskip
    split at h
    · rename_i hc
      subst hc
      cases h
      exact ⟨ends_of_skipBlanks hskip rfl, [.mark '\x7d'],
        tokens_of_skipBlanks hskip (by decide) rfl, .closed⟩
    split at h
    · rename_i hc
      subst hc
      split at h
      · cases h
      rename_i d more hmore
      split at h
      · rename_i hd
        subst hd
        obtain ⟨m, left, hm, hleft⟩ := Reading.andThen_eq_ok.mp h
        obtain ⟨others, hothers, rfl⟩ := Reading.mapValue_eq_ok.mp hleft
        obtain ⟨hends, ts, hts, hfollowing⟩ := ih hothers
        obtain ⟨part, hpart, hmeans⟩ := member_sound hinner hm hends
        refine ⟨ends_of_skipBlanks hskip rfl, .mark ',' :: (part ++ ts), ?_,
          .part hmeans hfollowing⟩
        rw [tokens_of_skipBlanks hskip (by decide) rfl, ← tokens_skipBlanks behind, hmore, hpart,
          hts, List.cons_append, List.append_assoc]
      split at h <;> cases h
    · cases h

theorem members_sound {cs rest : List Char} {ms : List (String × α)}
    (h : members inner cs = .ok (ms, rest)) :
    ∃ ts, tokens cs = ts ++ tokens rest ∧ Enclosed '\x7d' (Pair Part) ts ms := by
  rw [members] at h
  split at h
  · cases h
  rename_i c behind hskip
  split at h
  · rename_i hc
    subst hc
    cases h
    exact ⟨[.mark '\x7d'], tokens_of_skipBlanks hskip (by decide) rfl, .empty⟩
  split at h
  · rename_i hc
    subst hc
    obtain ⟨m, left, hm, hleft⟩ := Reading.andThen_eq_ok.mp h
    obtain ⟨others, hothers, rfl⟩ := Reading.mapValue_eq_ok.mp hleft
    obtain ⟨hends, ts, hts, hfollowing⟩ := membersRest_sound hinner hothers
    obtain ⟨part, hpart, hmeans⟩ := member_sound hinner hm hends
    refine ⟨part ++ ts, ?_, .parts hmeans hfollowing⟩
    rw [← tokens_skipBlanks cs, hskip, hpart, hts, List.append_assoc]
  · cases h

theorem membersRest_complete {fuel : Nat} {cs : List Char} {ts more : List Token}
    {ms : List (String × α)} (h : Following '\x7d' (Pair Part) ts ms)
    (hcs : tokens cs = ts ++ more) (hfuel : ms.length < fuel) :
    ∃ rest, membersRest inner fuel cs = .ok (ms, rest) ∧ tokens rest = more := by
  induction h generalizing cs fuel with
  | closed =>
    cases fuel with
    | zero => cases hfuel
    | succ fuel =>
      obtain ⟨rest, hskip, hrest⟩ := tokens_eq_mark hcs
      refine ⟨rest, ?_, hrest⟩
      rw [membersRest, hskip]
      rfl
  | @part ts others m ms hpart hmore ih =>
    cases fuel with
    | zero => cases hfuel
    | succ fuel =>
      rw [List.cons_append, List.append_assoc] at hcs
      obtain ⟨behind, hskip, hbehind⟩ := tokens_eq_mark hcs
      obtain ⟨inside, left, hquote, hread, hleft⟩ := member_complete hinner hpart hbehind
      obtain ⟨rest, hrest, hmore⟩ := ih hleft (Nat.lt_of_succ_lt_succ hfuel)
      refine ⟨rest, ?_, hmore⟩
      rw [membersRest, hskip]
      simp [hquote, hread, hrest]

theorem members_complete {cs : List Char} {ts more : List Token} {ms : List (String × α)}
    (h : Enclosed '\x7d' (Pair Part) ts ms) (hcs : tokens cs = ts ++ more) :
    ∃ rest, members inner cs = .ok (ms, rest) ∧ tokens rest = more := by
  cases h with
  | empty =>
    obtain ⟨rest, hskip, hrest⟩ := tokens_eq_mark hcs
    refine ⟨rest, ?_, hrest⟩
    rw [members, hskip]
    rfl
  | @parts ts others m ms hpart hfollowing =>
    rw [List.append_assoc] at hcs
    obtain ⟨inside, left, hquote, hread, hleft⟩ := member_complete hinner hpart hcs
    have hfuel : ms.length < left.length + 1 := by
      have hlt := hfollowing.length_lt
      have hle := length_tokens_le left
      rw [hleft, List.length_append] at hle
      omega
    obtain ⟨rest, hrest, hmore⟩ := membersRest_complete hinner hfollowing hleft hfuel
    refine ⟨rest, ?_, hmore⟩
    rw [members, hquote]
    simp [hread, hrest]

end

/-! ### Values -/

/-- What is neither a literal nor an array or object is one word. -/
theorem valueWith_scalar (inner : Option (List Char → Reading Json)) {cs rest : List Char}
    {c : Char} (hskip : skipBlanks cs = c :: rest) (hquote : c ≠ '"') (hbracket : c ≠ '[')
    (hbrace : c ≠ '\x7b') : valueWith inner cs = readScalar (c :: rest) := by
  rw [valueWith, hskip]
  simp only [if_neg hquote, if_neg hbracket, if_neg hbrace]
  rfl

section
variable {inner : Option (List Char → Reading Json)} {Part : Option (List Token → Json → Prop)}
  (hinner : Option.Rel Reads inner Part)
include hinner

theorem valueWith_sound {cs rest : List Char} {v : Json} (h : valueWith inner cs = .ok (v, rest))
    (hrest : Ends rest) : ∃ ts, tokens cs = ts ++ tokens rest ∧ SpellsWith Part ts v := by
  cases hskip : skipBlanks cs with
  | nil =>
    rw [valueWith, hskip] at h
    cases h
  | cons c behind =>
    by_cases hquote : c = '"'
    · subst hquote
      rw [valueWith, hskip] at h
      obtain ⟨s, hs, rfl⟩ := Reading.mapValue_eq_ok.mp h
      obtain ⟨body, hbody, rfl, hread⟩ := readString_closed hs
      refine ⟨[.literal body], ?_, .scalar ⟨s, ?_, rfl⟩⟩
      · rw [← tokens_skipBlanks cs, hskip, tokens_literal hbody]
        rfl
      · have hwhole := hread []
        rwa [List.append_nil] at hwhole
    by_cases hbracket : c = '['
    · subst hbracket
      rw [valueWith, hskip] at h
      cases hinner with
      | none => cases h
      | some hreads =>
        obtain ⟨vs, hvs, rfl⟩ := Reading.mapValue_eq_ok.mp h
        obtain ⟨ts, hts, henclosed⟩ := elements_sound hreads hvs
        refine ⟨.mark '[' :: ts, ?_, .array henclosed⟩
        rw [tokens_of_skipBlanks hskip (by decide) rfl, hts]
        rfl
    by_cases hbrace : c = '\x7b'
    · subst hbrace
      rw [valueWith, hskip] at h
      cases hinner with
      | none => cases h
      | some hreads =>
        obtain ⟨ms, hms, rfl⟩ := Reading.mapValue_eq_ok.mp h
        obtain ⟨ts, hts, henclosed⟩ := members_sound hreads hms
        refine ⟨.mark '\x7b' :: ts, ?_, .object henclosed⟩
        rw [tokens_of_skipBlanks hskip (by decide) rfl, hts]
        rfl
    · rw [valueWith_scalar inner hskip hquote hbracket hbrace] at h
      obtain ⟨hword, hbehind⟩ := wordReader_readScalar.reads_word hrest h
      have hne : (c :: behind).takeWhile isWordChar ≠ [] := by
        intro hnil
        rw [hnil] at hword
        cases hword
      refine ⟨[.word ((c :: behind).takeWhile isWordChar)], ?_, .scalar hword⟩
      have htokens := tokens_word hne (List.all_eq_true.mp List.all_takeWhile) hrest
      rw [hbehind, List.takeWhile_append_dropWhile, ← hbehind] at htokens
      rw [← tokens_skipBlanks cs, hskip, htokens]
      rfl

theorem valueWith_complete {cs : List Char} {ts more : List Token} {v : Json}
    (h : SpellsWith Part ts v) (hcs : tokens cs = ts ++ more) :
    ∃ rest, valueWith inner cs = .ok (v, rest) ∧ tokens rest = more := by
  cases h with
  | @scalar _ t v hmeans =>
    cases t with
    | mark c => exact hmeans.elim
    | word w =>
      obtain ⟨rest, hskip, hne, hrest, hmore⟩ := tokens_eq_word hcs
      have hread := wordReader_readScalar.reads_append hrest hmeans
      cases w with
      | nil => exact absurd rfl hne
      | cons c w =>
        have hfirst (d : Char) (hd : ∀ w, ∃ stop, readScalar (d :: w) = .error stop) : c ≠ d := by
          rintro rfl
          obtain ⟨stop, hstop⟩ := hd w
          rw [Token.Means, hstop] at hmeans
          cases hmeans
        refine ⟨rest, ?_, hmore⟩
        rw [valueWith_scalar inner hskip (hfirst '"' fun _ => ⟨_, rfl⟩)
          (hfirst '[' fun _ => ⟨_, rfl⟩) (hfirst '\x7b' fun _ => ⟨_, rfl⟩)]
        exact hread
    | literal inside =>
      obtain ⟨rest, hskip, hmore⟩ := tokens_eq_literal hcs
      obtain ⟨s, hs, rfl⟩ := hmeans
      obtain ⟨body, -, hinside, hall⟩ := readString_closed hs
      rw [List.append_nil] at hinside
      refine ⟨rest, ?_, hmore⟩
      rw [valueWith, hskip, hinside]
      simp [hall]
  | array henclosed =>
    cases hinner with
    | some hreads =>
      obtain ⟨behind, hskip, hbehind⟩ := tokens_eq_mark hcs
      obtain ⟨rest, hread, hmore⟩ := elements_complete hreads henclosed hbehind
      refine ⟨rest, ?_, hmore⟩
      rw [valueWith, hskip]
      simp [hread]
  | object henclosed =>
    cases hinner with
    | some hreads =>
      obtain ⟨behind, hskip, hbehind⟩ := tokens_eq_mark hcs
      obtain ⟨rest, hread, hmore⟩ := members_complete hreads henclosed hbehind
      refine ⟨rest, ?_, hmore⟩
      rw [valueWith, hskip]
      simp [hread]

theorem reads_valueWith : Reads (valueWith inner) (SpellsWith Part) where
  sound := valueWith_sound hinner
  complete := valueWith_complete hinner
  begins h := by
    cases h with
    | @scalar _ t v hmeans =>
      refine ⟨t, [], rfl, ?_⟩
      rintro rfl
      exact hmeans
    | array henclosed => exact ⟨_, _, rfl, by decide⟩
    | object henclosed => exact ⟨_, _, rfl, by decide⟩

end

theorem reads_value (depth : Nat) : Reads (value depth) (Spells depth) := by
  induction depth with
  | zero => exact reads_valueWith .none
  | succ depth ih => exact reads_valueWith (.some ih)

/-- **Reading is what the grammar says.**  A text is read as a value exactly if its tokens spell
the value. -/
theorem read_eq_ok_iff {text : String} {v : Json} :
    read text = .ok v ↔ Spells depthLimit (tokens text.toList) v := by
  have hreads := reads_value depthLimit
  rw [read, readAll]
  constructor
  · intro h
    split at h
    · cases h
    rename_i w rest hread
    split at h
    · rename_i hblanks
      cases h
      obtain ⟨ts, hts, hspells⟩ := hreads.sound hread (ends_of_blanks hblanks)
      rw [hts, ← tokens_skipBlanks rest, hblanks, tokens_nil, List.append_nil]
      exact hspells
    · cases h
  · intro h
    obtain ⟨rest, hread, hrest⟩ := hreads.complete h (List.append_nil _).symm
    simp only [hread, tokens_eq_nil hrest]

end RulePack.Json
