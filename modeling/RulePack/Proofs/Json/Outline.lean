import RulePack.Proofs.Json.Grammar
import RulePack.Proofs.Json.Numerals
import RulePack.Proofs.Json.RoundTrip

/-!
# What printed documents are read as

A floating-point number need not be read back as it was printed.  Whatever it is read as, the rest
of a printed document is read back.

* `outline`, `hasTokens_print` — the tokens of a printed value;
* `Like` — values that are the same but for the numbers of the first one;
* `Determines` — tokens that leave open neither where a part ends nor what it is like;
* `outline_determines` — those of a printed value are such;
* `like_of_read` — what a printed document is read as is like it.
-/

namespace RulePack.Json

/-! ### The tokens of a value -/

/-- The tokens behind the first part of an array or object, given those of the other parts. -/
def follow (closer : Char) : List (List Token) → List Token
  | [] => [.mark closer]
  | ts :: more => .mark ',' :: (ts ++ follow closer more)

/-- The tokens behind the mark that opens an array or object, given those of its parts. -/
def enclose (closer : Char) : List (List Token) → List Token
  | [] => [.mark closer]
  | ts :: more => ts ++ follow closer more

/-- The token of a key. -/
def keyToken (key : String) : Token := .literal (key.toList.flatMap escaped ++ ['"'])

mutual

/-- The tokens of a printed value. -/
def outline : Json → List Token
  | .null => [.word "null".toList]
  | .bool true => [.word "true".toList]
  | .bool false => [.word "false".toList]
  | .number n => [.word n.text]
  | .string s => [keyToken s]
  | .array vs => .mark '[' :: enclose ']' (outlines vs)
  | .object ms => .mark '\x7b' :: enclose '\x7d' (memberOutlines ms)

/-- The tokens of each element. -/
def outlines : List Json → List (List Token)
  | [] => []
  | v :: vs => outline v :: outlines vs

/-- The tokens of each member. -/
def memberOutlines : List (String × Json) → List (List Token)
  | [] => []
  | (k, v) :: ms => (keyToken k :: .mark ':' :: outline v) :: memberOutlines ms

end

/-- The tokens of a member. -/
def memberOutline (m : String × Json) : List Token := keyToken m.1 :: .mark ':' :: outline m.2

theorem outlines_eq_map (vs : List Json) : outlines vs = vs.map outline := by
  induction vs with
  | nil => rw [outlines, List.map_nil]
  | cons v vs ih => rw [outlines, List.map_cons, ih]

theorem memberOutlines_eq_map (ms : Members) : memberOutlines ms = ms.map memberOutline := by
  induction ms with
  | nil => rw [memberOutlines, List.map_nil]
  | cons m ms ih => rw [memberOutlines, List.map_cons, ih, memberOutline]

/-! ### Printing -/

theorem printElements_eq_flatMap (level : Nat) (vs : List Json) :
    printElements level vs = vs.flatMap fun v => ',' :: newLine level ++ print level v := by
  induction vs with
  | nil => rw [printElements, List.flatMap_nil]
  | cons v vs ih => rw [printElements, List.flatMap_cons, ih]

/-- A member as it is printed. -/
def printMember (level : Nat) (m : String × Json) : List Char :=
  quoted m.1 ++ ':' :: ' ' :: print level m.2

theorem printMembers_eq_flatMap (level : Nat) (ms : Members) :
    printMembers level ms = ms.flatMap fun m => ',' :: newLine level ++ printMember level m := by
  induction ms with
  | nil => rw [printMembers, List.flatMap_nil]
  | cons m ms ih =>
    rw [printMembers, List.flatMap_cons, ih, printMember]
    simp

theorem tokens_newLine (level : Nat) (cs : List Char) :
    tokens (newLine level ++ cs) = tokens cs := by
  rw [← tokens_skipBlanks, skipBlanks_newLine, tokens_skipBlanks]

/-- What is printed has these tokens, in front of anything that does not continue a word. -/
def HasTokens (cs : List Char) (ts : List Token) : Prop :=
  ∀ rest, Ends rest → tokens (cs ++ rest) = ts ++ tokens rest

theorem hasTokens_quoted (text : String) : HasTokens (quoted text) [keyToken text] := by
  intro rest _
  have hread := readString_flatMap_escaped text.toList []
  obtain ⟨body, hclosed, hbody, -⟩ := readString_closed hread
  rw [List.append_nil] at hbody
  rw [quoted, List.cons_append, hbody, List.cons_append, tokens_literal hclosed, keyToken, hbody]
  rfl

theorem hasTokens_word {w : List Char} (hne : w ≠ []) (hw : AllWord w) :
    HasTokens w [.word w] :=
  fun _ hrest => tokens_word hne hw hrest

theorem tokens_comma (cs : List Char) : tokens (',' :: cs) = .mark ',' :: tokens cs :=
  tokens_mark rfl (by decide) rfl cs

theorem ends_newLine (level : Nat) (rest : List Char) : Ends (newLine level ++ rest) :=
  ends_cons rfl _

section
variable {text : α → List Char} {toks : α → List Token} {closer : Char}
  (hclose : ∀ rest, tokens (closer :: rest) = .mark closer :: tokens rest)

/-- What stands behind a part begins with a comma or a new line. -/
theorem ends_parts (level outer : Nat) (as : List α) (rest : List Char) :
    Ends (as.flatMap (fun a => ',' :: newLine level ++ text a) ++ (newLine outer ++ rest)) := by
  cases as with
  | nil => exact ends_newLine outer rest
  | cons a as => exact ends_cons rfl _

include hclose

theorem tokens_follow {as : List α} (h : ∀ a ∈ as, HasTokens (text a) (toks a))
    (level outer : Nat) (rest : List Char) :
    tokens (as.flatMap (fun a => ',' :: newLine level ++ text a)
        ++ (newLine outer ++ closer :: rest))
      = follow closer (as.map toks) ++ tokens rest := by
  induction as with
  | nil =>
    rw [List.flatMap_nil, List.nil_append, tokens_newLine, hclose]
    rfl
  | cons a as ih =>
    rw [List.forall_mem_cons] at h
    rw [List.flatMap_cons, List.append_assoc, List.cons_append, List.cons_append, tokens_comma,
      List.append_assoc, tokens_newLine, h.1 _ (ends_parts level outer as _), ih h.2,
      List.map_cons, follow, List.cons_append, List.append_assoc]

theorem tokens_enclose {a : α} {as : List α} (h : ∀ b ∈ a :: as, HasTokens (text b) (toks b))
    (level outer : Nat) (rest : List Char) :
    tokens (newLine level ++ (text a ++ (as.flatMap (fun a => ',' :: newLine level ++ text a)
        ++ (newLine outer ++ closer :: rest))))
      = enclose closer ((a :: as).map toks) ++ tokens rest := by
  rw [List.forall_mem_cons] at h
  rw [tokens_newLine, h.1 _ (ends_parts level outer as _), tokens_follow hclose h.2,
    List.map_cons, enclose, List.append_assoc]

end

theorem hasTokens_printMember {m : String × Json} {level : Nat}
    (h : HasTokens (print level m.2) (outline m.2)) :
    HasTokens (printMember level m) (memberOutline m) := by
  intro rest hrest
  rw [printMember, List.append_assoc, List.cons_append, hasTokens_quoted m.1 _ (ends_cons rfl _),
    tokens_mark rfl (by decide) rfl, List.cons_append, List.cons_append, tokens_blank rfl,
    h rest hrest]
  rfl

/-- The tokens of a printed value. -/
theorem hasTokens_print {depth : Nat} {v : Json} (h : Fits depth v) (level : Nat) :
    HasTokens (print level v) (outline v) := by
  induction h generalizing level with
  | null =>
    rw [print, outline]
    exact hasTokens_word (by decide) (List.all_eq_true.mp rfl)
  | bool b =>
    cases b
    · rw [print, outline]
      exact hasTokens_word (by decide) (List.all_eq_true.mp rfl)
    · rw [print, outline]
      exact hasTokens_word (by decide) (List.all_eq_true.mp rfl)
  | number n =>
    rw [print, outline]
    exact hasTokens_word n.text_word.1 n.text_word.2
  | string s =>
    rw [print, outline]
    exact hasTokens_quoted s
  | @array depth vs _ ih =>
    intro rest _
    have hclose := tokens_mark (c := ']') rfl (by decide) rfl
    rw [outline, outlines_eq_map]
    cases vs with
    | nil =>
      rw [print, List.cons_append, tokens_mark rfl (by decide) rfl, List.cons_append, hclose]
      rfl
    | cons v vs =>
      have hparts := tokens_enclose hclose (fun w hw => ih w hw (level + 1)) (level + 1) level rest
      rw [print, printElements_eq_flatMap]
      simp only [List.cons_append, List.append_assoc, List.nil_append] at hparts ⊢
      rw [tokens_mark rfl (by decide) rfl, hparts]
  | @object depth ms _ _ ih =>
    intro rest _
    have hclose := tokens_mark (c := '\x7d') rfl (by decide) rfl
    rw [outline, memberOutlines_eq_map]
    cases ms with
    | nil =>
      rw [print, List.cons_append, tokens_mark rfl (by decide) rfl, List.cons_append, hclose]
      rfl
    | cons m ms =>
      have hparts := tokens_enclose hclose (fun n hn => hasTokens_printMember (ih n hn (level + 1)))
        (level + 1) level rest
      rw [print, printMembers_eq_flatMap]
      simp only [printMember, List.cons_append, List.append_assoc, List.nil_append] at hparts ⊢
      rw [tokens_mark rfl (by decide) rfl, hparts]

/-! ### Values that are read -/

/-- The values are the same, but for the numbers of the first one. -/
inductive Like : Json → Json → Prop
  | null : Like null null
  | bool (b : Bool) : Like (bool b) (bool b)
  | number (n : Number) (v : Json) : Like (number n) v
  | string (s : String) : Like (string s) (string s)
  | array {vs ws : List Json} : vs.length = ws.length → (∀ p ∈ vs.zip ws, Like p.1 p.2) →
      Like (array vs) (array ws)
  | object {ms ns : Members} : ms.keys = ns.keys → (∀ p ∈ ms.zip ns, Like p.1.2 p.2.2) →
      Like (object ms) (object ns)

/-- Tokens that do not begin with a given mark. -/
def Opens (closer : Char) (ts : List Token) : Prop := ∃ t more, ts = t :: more ∧ t ≠ .mark closer

theorem Opens.append_ne {closer : Char} {ts more rest : List Token} (h : Opens closer ts) :
    ts ++ more ≠ .mark closer :: rest := by
  obtain ⟨t, others, rfl, hne⟩ := h
  intro heq
  rw [List.cons_append, List.cons.injEq] at heq
  exact hne heq.1

/-- A part that these tokens begin with is all of them, and stands for something with a property. -/
def Determines (ts : List Token) (Part : List Token → β → Prop) (R : β → Prop) : Prop :=
  ∀ ⦃us more rest : List Token⦄ ⦃b : β⦄, Part us b → ts ++ more = us ++ rest → more = rest ∧ R b

/-- Entries of two lists are related one by one. -/
def Pointwise (R : α → β → Prop) (as : List α) (bs : List β) : Prop :=
  as.length = bs.length ∧ ∀ p ∈ as.zip bs, R p.1 p.2

theorem pointwise_nil (R : α → β → Prop) : Pointwise R [] [] :=
  ⟨rfl, fun _ hp => absurd hp List.not_mem_nil⟩

theorem pointwise_cons {R : α → β → Prop} {a : α} {b : β} {as : List α} {bs : List β} :
    Pointwise R (a :: as) (b :: bs) ↔ R a b ∧ Pointwise R as bs := by
  rw [Pointwise, Pointwise, List.zip_cons_cons, List.forall_mem_cons, List.length_cons,
    List.length_cons, Nat.add_right_cancel_iff]
  exact and_left_comm

section
variable {Part : List Token → β → Prop} {toks : α → List Token} {R : α → β → Prop} {closer : Char}
  (hcomma : closer ≠ ',')

include hcomma

/-- The parts behind the first one are found one by one. -/
theorem follow_determines {as : List α} (h : ∀ a ∈ as, Determines (toks a) Part (R a)) :
    Determines (follow closer (as.map toks)) (Following closer Part) (Pointwise R as) := by
  intro us more rest bs hus heq
  induction as generalizing us bs with
  | nil =>
    cases hus with
    | closed =>
      cases heq
      exact ⟨rfl, pointwise_nil R⟩
    | part hpart hmore =>
      cases heq
      exact absurd rfl hcomma
  | cons a as ih =>
    rw [List.forall_mem_cons] at h
    cases hus with
    | closed =>
      cases heq
      exact absurd rfl hcomma
    | part hpart hmore =>
      rw [List.map_cons, follow, List.cons_append, List.cons_append, List.cons.injEq,
        List.append_assoc, List.append_assoc] at heq
      obtain ⟨htail, hfirst⟩ := h.1 hpart heq.2
      obtain ⟨hrest, hall⟩ := ih h.2 hmore htail
      exact ⟨hrest, pointwise_cons.mpr ⟨hfirst, hall⟩⟩

theorem enclose_determines {as : List α} (h : ∀ a ∈ as, Determines (toks a) Part (R a))
    (htoks : ∀ a, Opens closer (toks a)) (hparts : ∀ ts b, Part ts b → Opens closer ts) :
    Determines (enclose closer (as.map toks)) (Enclosed closer Part) (Pointwise R as) := by
  intro us more rest bs hus heq
  cases as with
  | nil =>
    cases hus with
    | empty =>
      cases heq
      exact ⟨rfl, pointwise_nil R⟩
    | parts hpart hmore =>
      rw [List.append_assoc] at heq
      exact absurd heq.symm (hparts _ _ hpart).append_ne
  | cons a as =>
    rw [List.forall_mem_cons] at h
    rw [List.map_cons, enclose, List.append_assoc] at heq
    cases hus with
    | empty => exact absurd heq (htoks a).append_ne
    | parts hpart hmore =>
      rw [List.append_assoc] at heq
      obtain ⟨htail, hfirst⟩ := h.1 hpart heq
      obtain ⟨hrest, hall⟩ := follow_determines hcomma h.2 hmore htail
      exact ⟨hrest, pointwise_cons.mpr ⟨hfirst, hall⟩⟩

end

theorem outline_opens (v : Json) : Opens ']' (outline v) := by
  cases v with
  | null => exact ⟨_, _, rfl, Token.noConfusion⟩
  | bool b => cases b <;> exact ⟨_, _, rfl, Token.noConfusion⟩
  | number n => exact ⟨_, _, rfl, Token.noConfusion⟩
  | string s => exact ⟨_, _, rfl, Token.noConfusion⟩
  | array vs => exact ⟨_, _, rfl, by decide⟩
  | object ms => exact ⟨_, _, rfl, by decide⟩

/-- Members with the same keys and like values. -/
def LikeMember (m n : String × Json) : Prop := m.1 = n.1 ∧ Like m.2 n.2

theorem keys_eq_of_pointwise {ms ns : Members} (h : Pointwise LikeMember ms ns) :
    ms.keys = ns.keys := by
  induction ms generalizing ns with
  | nil =>
    cases ns with
    | nil => rfl
    | cons n ns => cases h.1
  | cons m ms ih =>
    cases ns with
    | nil => cases h.1
    | cons n ns =>
      obtain ⟨hfirst, hrest⟩ := pointwise_cons.mp h
      rw [Members.keys, List.map_cons, hfirst.1]
      exact congrArg _ (ih hrest)

/-- A value that begins with a bracket is an array. -/
theorem spells_array {depth : Nat} {ts : List Token} {v : Json}
    (h : Spells depth (.mark '[' :: ts) v) :
    ∃ less vs, Enclosed ']' (Spells less) ts vs ∧ v = .array vs := by
  cases depth with
  | zero =>
    cases h with
    | scalar hmeans => exact hmeans.elim
  | succ less =>
    cases h with
    | scalar hmeans => exact hmeans.elim
    | array henclosed => exact ⟨less, _, henclosed, rfl⟩

/-- A value that begins with a brace is an object. -/
theorem spells_object {depth : Nat} {ts : List Token} {v : Json}
    (h : Spells depth (.mark '\x7b' :: ts) v) :
    ∃ less ms, Enclosed '\x7d' (Pair (Spells less)) ts ms ∧ v = .object (Members.ofList ms) := by
  cases depth with
  | zero =>
    cases h with
    | scalar hmeans => exact hmeans.elim
  | succ less =>
    cases h with
    | scalar hmeans => exact hmeans.elim
    | object henclosed => exact ⟨less, _, henclosed, rfl⟩

/-- A token that opens nothing determines what it means. -/
theorem token_determines {t : Token} {depth : Nat} {P : Json → Prop}
    (harray : t ≠ .mark '[') (hobject : t ≠ .mark '\x7b') (h : ∀ w, t.Means w → P w) :
    Determines [t] (Spells depth) P := by
  intro us more rest w hus heq
  obtain ⟨inner, hinner⟩ : ∃ inner, Spells depth = SpellsWith inner := by
    cases depth with
    | zero => exact ⟨_, rfl⟩
    | succ depth => exact ⟨_, rfl⟩
  rw [hinner] at hus
  cases hus with
  | scalar hmeans =>
    cases heq
    exact ⟨rfl, h w hmeans⟩
  | array henclosed =>
    cases heq
    exact absurd rfl harray
  | object henclosed =>
    cases heq
    exact absurd rfl hobject

theorem word_determines {w : List Char} {depth : Nat} {P : Json → Prop}
    (h : ∀ v, readScalar w = .ok (v, []) → P v) : Determines [.word w] (Spells depth) P :=
  token_determines Token.noConfusion Token.noConfusion fun v hv => h v hv

/-- A key is read back. -/
theorem key_of_readString {key : String} {s : List Char}
    (h : readString (key.toList.flatMap escaped ++ ['"']) = .ok (s, [])) :
    key = String.ofList s := by
  rw [readString_flatMap_escaped] at h
  cases h
  exact String.ofList_toList.symm

theorem Pair.opens {Part : List Token → α → Prop} {ts : List Token} {m : String × α}
    (h : Pair Part ts m) (closer : Char) : Opens closer ts := by
  cases h with
  | pair hkey hpart => exact ⟨_, _, rfl, Token.noConfusion⟩

theorem memberOutline_determines {m : String × Json} {depth : Nat}
    (h : Determines (outline m.2) (Spells depth) (Like m.2)) :
    Determines (memberOutline m) (Pair (Spells depth)) (LikeMember m) := by
  intro us more rest n hus heq
  cases hus with
  | pair hkey hvalue =>
    rw [memberOutline, keyToken, List.cons_append, List.cons_append, List.cons_append,
      List.cons_append, List.cons.injEq, List.cons.injEq, Token.literal.injEq] at heq
    obtain ⟨rfl, -, hbehind⟩ := heq
    obtain ⟨hrest, hlike⟩ := h hvalue hbehind
    exact ⟨hrest, key_of_readString hkey, hlike⟩

/-- What is spelled by tokens that begin with those of a value is like it. -/
theorem outline_determines {depth : Nat} {v : Json} (h : Fits depth v) (deeper : Nat) :
    Determines (outline v) (Spells deeper) (Like v) := by
  induction h generalizing deeper with
  | null =>
    rw [outline]
    refine word_determines fun w hw => ?_
    cases hw
    exact .null
  | bool b =>
    cases b
    · rw [outline]
      refine word_determines fun w hw => ?_
      cases hw
      exact .bool false
    · rw [outline]
      refine word_determines fun w hw => ?_
      cases hw
      exact .bool true
  | number n =>
    rw [outline]
    exact word_determines fun w _ => .number n w
  | string s =>
    rw [outline]
    refine token_determines Token.noConfusion Token.noConfusion fun w hw => ?_
    obtain ⟨t, ht, rfl⟩ := hw
    rw [← key_of_readString ht]
    exact .string s
  | @array depth vs _ ih =>
    intro us more rest w hus heq
    obtain ⟨t, behind, rfl, -⟩ := (reads_value deeper).begins hus
    rw [outline, outlines_eq_map, List.cons_append, List.cons_append, List.cons.injEq] at heq
    obtain ⟨rfl, heq⟩ := heq
    obtain ⟨less, ws, henclosed, rfl⟩ := spells_array hus
    have hall := enclose_determines (by decide) (fun v hv => ih v hv less)
      (fun v => outline_opens v) (fun _ _ hpart => (reads_value less).begins hpart)
    obtain ⟨hrest, hlength, hparts⟩ := hall henclosed heq
    exact ⟨hrest, .array hlength hparts⟩
  | @object depth ms hkeys _ ih =>
    intro us more rest w hus heq
    obtain ⟨t, behind, rfl, -⟩ := (reads_value deeper).begins hus
    rw [outline, memberOutlines_eq_map, List.cons_append, List.cons_append, List.cons.injEq] at heq
    obtain ⟨rfl, heq⟩ := heq
    obtain ⟨less, ns, henclosed, rfl⟩ := spells_object hus
    have hall := enclose_determines (by decide : '\x7d' ≠ ',')
      (fun m hm => memberOutline_determines (ih m hm less))
      (fun m => ⟨_, _, rfl, Token.noConfusion⟩) (fun _ _ hpair => hpair.opens _)
    obtain ⟨hrest, hmembers⟩ := hall henclosed heq
    have hsame := keys_eq_of_pointwise hmembers
    rw [Members.ofList_eq_self (hsame ▸ hkeys)]
    exact ⟨hrest, .object hsame fun p hp => (hmembers.2 p hp).2⟩

/-- **What a printed document is read as is like the document.** -/
theorem like_of_read {v w : Json} (h : Fits depthLimit v)
    (hread : read (v.render ++ "\n") = .ok w) : Like v w := by
  have hspells := read_eq_ok_iff.mp hread
  have htokens : tokens (v.render ++ "\n").toList = outline v := by
    rw [String.toList_append, render, String.toList_ofList]
    exact (hasTokens_print h 0 ['\n'] (ends_cons rfl [])).trans
      (congrArg _ ((tokens_blank rfl []).trans tokens_nil) |>.trans (List.append_nil _))
  rw [htokens] at hspells
  have hsame : outline v ++ [] = outline v ++ [] := rfl
  exact (outline_determines h depthLimit hspells hsame).2

end RulePack.Json
