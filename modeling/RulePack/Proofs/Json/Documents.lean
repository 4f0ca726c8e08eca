import Mathlib.Data.List.Induction
import RulePack.Proofs.Json.Literals
import RulePack.Proofs.Json.Numbers
import RulePack.Proofs.Json.Grammar
import RulePack.Proofs.Json.Shape

/-!
# The texts of documents

* `Members.Collects` — the members that an object has: of a key that stands twice the last value
  counts, at the first place;
* `Written` — how a value is written, with arrays and objects nested up to a depth;
* `Document` — the texts that are one value, with blanks around its parts;
* `Matches` — texts and their tokens;
* `read_eq_ok_iff_document` — a text is read as a value exactly if it is a document of it.
-/

namespace RulePack.Json

/-! ### Keys that stand twice -/

/-- The members that pairs of keys and values amount to.  Keys stand where they stand first, and
with the value with which they stand last. -/
structure Members.Collects (pairs : List (String × Json)) (ms : Members) : Prop where
  keys_eq : ms.keys = (pairs.map Prod.fst).eraseDups
  last : ∀ m ∈ ms, pairs.reverse.find? (·.1 = m.1) = some m

theorem Members.ofList_concat (pairs : List (String × Json)) (m : String × Json) :
    Members.ofList (pairs ++ [m]) = (Members.ofList pairs).insert m.1 m.2 := by
  rw [Members.ofList, Members.ofList, List.foldl_append]
  rfl

/-- A member that is set replaces the one of its key. -/
theorem Members.mem_insert_of_nodup {ms : Members} (hkeys : ms.keys.Nodup) {key : String}
    {value : Json} {m : String × Json} (h : m ∈ ms.insert key value) :
    m = (key, value) ∨ (m ∈ ms ∧ m.1 ≠ key) := by
  induction ms with
  | nil => exact Or.inl (List.mem_singleton.mp h)
  | cons head rest ih =>
    obtain ⟨k, v⟩ := head
    rw [Members.keys, List.map_cons, List.nodup_cons] at hkeys
    by_cases hk : k = key
    · rw [Members.insert, if_pos hk, List.mem_cons] at h
      rcases h with rfl | hm
      · exact Or.inl (by rw [hk])
      · refine Or.inr ⟨List.mem_cons_of_mem _ hm, fun he => hkeys.1 ?_⟩
        exact List.mem_map.mpr ⟨m, hm, he.trans hk.symm⟩
    · rw [Members.insert, if_neg hk, List.mem_cons] at h
      rcases h with rfl | hm
      · exact Or.inr ⟨List.mem_cons_self, hk⟩
      · exact (ih hkeys.2 hm).imp_right (And.imp_left (List.mem_cons_of_mem _))

theorem Members.nodup_keys_ofList (pairs : List (String × Json)) :
    (Members.ofList pairs).keys.Nodup := by
  induction pairs using List.reverseRecOn with
  | nil => exact List.nodup_nil
  | append_singleton pairs m ih =>
    rw [Members.ofList_concat]
    exact Members.nodup_keys_insert ih m.1 m.2

/-- Setting pairs one after the other collects them. -/
theorem Members.collects_ofList (pairs : List (String × Json)) :
    Members.Collects pairs (Members.ofList pairs) := by
  induction pairs using List.reverseRecOn with
  | nil => exact ⟨rfl, fun m hm => by cases hm⟩
  | append_singleton pairs m ih =>
    rw [Members.ofList_concat]
    refine ⟨?_, fun m' hm' => ?_⟩
    · have hmem : m.1 ∈ (Members.ofList pairs).keys ↔ m.1 ∈ pairs.map Prod.fst := by
        rw [ih.keys_eq, List.mem_eraseDups]
      rw [Members.keys_insert, List.map_append, List.eraseDups_append, ← ih.keys_eq]
      split
      · rename_i hin
        simp [List.removeAll, hmem.mp hin]
      · rename_i hnew
        simp [List.removeAll, mt hmem.mpr hnew, List.eraseDups_cons]
    · -- from the right, the pair that is set last is met first
      rw [List.reverse_concat, List.find?_cons]
      rcases Members.mem_insert_of_nodup (Members.nodup_keys_ofList pairs) hm' with
        rfl | ⟨hold, hne⟩
      · simp
      · simp [Ne.symm hne, ih.last m' hold]

/-- Members are known by their keys and what stands at each of them. -/
theorem Members.ext_of_keys {ms ns : Members} (hkeys : ms.keys = ns.keys)
    (h : ∀ m ∈ ms, ∀ n ∈ ns, m.1 = n.1 → m = n) : ms = ns := by
  induction ms generalizing ns with
  | nil => exact (List.map_eq_nil_iff.mp hkeys.symm).symm
  | cons m ms ih =>
    cases ns with
    | nil => cases hkeys
    | cons n ns =>
      rw [Members.keys, Members.keys, List.map_cons, List.map_cons, List.cons.injEq] at hkeys
      rw [h m List.mem_cons_self n List.mem_cons_self hkeys.1,
        ih hkeys.2 fun m' hm' n' hn' =>
          h m' (List.mem_cons_of_mem m hm') n' (List.mem_cons_of_mem n hn')]

theorem Members.collects_iff {pairs : List (String × Json)} {ms : Members} :
    Members.Collects pairs ms ↔ ms = Members.ofList pairs := by
  constructor
  · intro h
    have hsame := Members.collects_ofList pairs
    refine Members.ext_of_keys (h.keys_eq.trans hsame.keys_eq.symm) fun m hm n hn hkey => ?_
    have hlast := h.last m hm
    rw [hkey, hsame.last n hn] at hlast
    exact (Option.some.inj hlast).symm
  · rintro rfl
    exact Members.collects_ofList pairs

/-! ### How values are written -/

/-- Characters that may stand before each part of a text and at its end. -/
def Blanks (bs : List Char) : Prop := ∀ b ∈ bs, isBlank b = true

/-- What stands behind the first part of an array or object: further parts, each behind a comma, and
the closing character. -/
inductive Trail (closer : Char) (Text : List Char → α → Prop) : List Char → List α → Prop
  | closed {bs : List Char} (hbs : Blanks bs) : Trail closer Text (bs ++ [closer]) []
  | part {bs cs more : List Char} {a : α} {as : List α} (hbs : Blanks bs) (hpart : Text cs a)
    (hmore : Trail closer Text more as) :
    Trail closer Text (bs ++ ',' :: (cs ++ more)) (a :: as)

/-- What stands behind the opening character of an array or object. -/
inductive Body (closer : Char) (Text : List Char → α → Prop) : List Char → List α → Prop
  | empty {bs : List Char} (hbs : Blanks bs) : Body closer Text (bs ++ [closer]) []
  | parts {cs more : List Char} {a : α} {as : List α} (hpart : Text cs a)
    (hmore : Trail closer Text more as) : Body closer Text (cs ++ more) (a :: as)

/-- A key, a colon and a value. -/
inductive Entry (Text : List Char → α → Prop) : List Char → String × α → Prop
  | pair {bs inside key bs' cs : List Char} {a : α} (hbs : Blanks bs) (hkey : Denotes inside key)
    (hbs' : Blanks bs') (hvalue : Text cs a) :
    Entry Text (bs ++ '"' :: (inside ++ '"' :: (bs' ++ ':' :: cs))) (String.ofList key, a)

/-- How a value is written with blanks before it, if the parts of arrays and objects are written as
`inner` says; if it says nothing, there is neither. -/
inductive WrittenWith : Option (List Char → Json → Prop) → List Char → Json → Prop
  | scalar {inner : Option (List Char → Json → Prop)} {bs w : List Char} {v : Json}
    (hbs : Blanks bs) (h : Scalar w v) : WrittenWith inner (bs ++ w) v
  | string {inner : Option (List Char → Json → Prop)} {bs inside s : List Char} (hbs : Blanks bs)
    (h : Denotes inside s) :
    WrittenWith inner (bs ++ '"' :: (inside ++ ['"'])) (.string (String.ofList s))
  | array {inner : List Char → Json → Prop} {bs cs : List Char} {vs : List Json} (hbs : Blanks bs)
    (h : Body ']' inner cs vs) : WrittenWith (some inner) (bs ++ '[' :: cs) (.array vs)
  | object {inner : List Char → Json → Prop} {bs cs : List Char} {pairs : List (String × Json)}
    {ms : Members} (hbs : Blanks bs) (h : Body '\x7d' (Entry inner) cs pairs)
    (hms : Members.Collects pairs ms) :
    WrittenWith (some inner) (bs ++ '\x7b' :: cs) (.object ms)

/-- How a value is written, with at most `depth` arrays and objects open at a time. -/
def Written : Nat → List Char → Json → Prop
  | 0 => WrittenWith none
  | depth + 1 => WrittenWith (some (Written depth))

/-- A text that is one value, with blanks behind it. -/
def Document (cs : List Char) (v : Json) : Prop :=
  ∃ front bs, cs = front ++ bs ∧ Written depthLimit front v ∧ Blanks bs

/-! ### Blanks and marks -/

section
variable {bs cs rest : List Char} {c : Char} {more : List Token}

theorem blanks_of_skipBlanks (h : skipBlanks cs = rest) : ∃ bs, Blanks bs ∧ cs = bs ++ rest := by
  refine ⟨cs.takeWhile isBlank, List.all_eq_true.mp List.all_takeWhile, ?_⟩
  rw [← h, skipBlanks, List.takeWhile_append_dropWhile]

theorem tokens_blanks (hbs : Blanks bs) (cs : List Char) : tokens (bs ++ cs) = tokens cs := by
  induction bs with
  | nil => rfl
  | cons b bs ih =>
    rw [Blanks, List.forall_mem_cons] at hbs
    rw [List.cons_append, tokens_blank hbs.1, ih hbs.2]

theorem ends_blanks (hbs : Blanks bs) (hrest : Ends rest) : Ends (bs ++ rest) := by
  cases bs with
  | nil => exact hrest
  | cons b bs => exact ends_cons (isWordChar_of_isBlank (hbs b List.mem_cons_self)) (bs ++ rest)

/-- A character that is a token of its own. -/
structure IsMark (c : Char) : Prop where
  blank : isBlank c = false
  quote : c ≠ '"'
  word : isWordChar c = false

theorem IsMark.tokens (hc : IsMark c) (hbs : Blanks bs) (rest : List Char) :
    Json.tokens (bs ++ c :: rest) = .mark c :: Json.tokens rest := by
  rw [tokens_blanks hbs, tokens_mark hc.blank hc.quote hc.word]

theorem IsMark.ends (hc : IsMark c) (hbs : Blanks bs) (rest : List Char) :
    Ends (bs ++ c :: rest) :=
  ends_blanks hbs (ends_cons hc.word rest)

theorem blanks_of_mark (h : tokens cs = .mark c :: more) :
    ∃ bs rest, Blanks bs ∧ cs = bs ++ c :: rest ∧ tokens rest = more := by
  obtain ⟨rest, hskip, hrest⟩ := tokens_eq_mark h
  obtain ⟨bs, hbs, hcs⟩ := blanks_of_skipBlanks hskip
  exact ⟨bs, rest, hbs, hcs, hrest⟩

theorem isMark_of_mem (c : Char) (hc : c ∈ [',', ':', '[', ']', '\x7b', '\x7d']) : IsMark c := by
  simp only [List.mem_cons, List.not_mem_nil, or_false] at hc
  rcases hc with rfl | rfl | rfl | rfl | rfl | rfl <;> exact ⟨rfl, by decide, rfl⟩

/-- A literal is one token. -/
theorem tokens_denotes {inside s : List Char} (h : Denotes inside s) (rest : List Char) :
    tokens ('"' :: (inside ++ '"' :: rest)) = .literal (inside ++ ['"']) :: tokens rest := by
  obtain ⟨body, hclosed, hbody, -⟩ := readString_closed (readString_of_denotes h [])
  rw [List.append_nil] at hbody
  have htokens := tokens_literal (hbody ▸ hclosed) rest
  rwa [List.append_assoc] at htokens

theorem blanks_of_literal {inside s : List Char} (hinside : readString inside = .ok (s, []))
    (h : tokens cs = .literal inside :: more) :
    ∃ bs body rest, Blanks bs ∧ Denotes body s ∧ cs = bs ++ '"' :: (body ++ '"' :: rest)
      ∧ tokens rest = more := by
  obtain ⟨rest, hskip, hrest⟩ := tokens_eq_literal h
  obtain ⟨bs, hbs, hcs⟩ := blanks_of_skipBlanks hskip
  obtain ⟨body, hbody, rfl⟩ := readString_eq_ok_iff.mp hinside
  refine ⟨bs, body, rest, hbs, hbody, ?_, hrest⟩
  rw [hcs, List.append_assoc]
  rfl

end

/-! ### Texts and tokens -/

/-- Texts of a part, and tokens that spell it.  Behind a text a word has to end. -/
structure Matches (Text : List Char → α → Prop) (Part : List Token → α → Prop) : Prop where
  cut : ∀ {cs ts more a}, Part ts a → tokens cs = ts ++ more →
    ∃ front rest, cs = front ++ rest ∧ Text front a ∧ tokens rest = more
  lex : ∀ {cs rest a}, Text cs a → Ends rest →
    ∃ ts, Part ts a ∧ tokens (cs ++ rest) = ts ++ tokens rest

section
variable {Text : List Char → α → Prop} {Part : List Token → α → Prop} (h : Matches Text Part)
  {closer : Char}
include h

theorem trail_cut {cs : List Char} {ts more : List Token} {as : List α}
    (hts : Following closer Part ts as) (hcs : tokens cs = ts ++ more) :
    ∃ front rest, cs = front ++ rest ∧ Trail closer Text front as ∧ tokens rest = more := by
  induction hts generalizing cs with
  | closed =>
    obtain ⟨bs, rest, hbs, rfl, hrest⟩ := blanks_of_mark hcs
    exact ⟨bs ++ [closer], rest, by simp, .closed hbs, hrest⟩
  | part hpart _ ih =>
    rw [List.cons_append, List.append_assoc] at hcs
    obtain ⟨bs, behind, hbs, rfl, hbehind⟩ := blanks_of_mark hcs
    obtain ⟨front, left, rfl, hfront, hleft⟩ := h.cut hpart hbehind
    obtain ⟨tail, rest, rfl, htail, hrest⟩ := ih hleft
    exact ⟨bs ++ ',' :: (front ++ tail), rest, by simp, .part hbs hfront htail, hrest⟩

theorem body_cut {cs : List Char} {ts more : List Token} {as : List α}
    (hts : Enclosed closer Part ts as) (hcs : tokens cs = ts ++ more) :
    ∃ front rest, cs = front ++ rest ∧ Body closer Text front as ∧ tokens rest = more := by
  cases hts with
  | empty =>
    obtain ⟨bs, rest, hbs, rfl, hrest⟩ := blanks_of_mark hcs
    exact ⟨bs ++ [closer], rest, by simp, .empty hbs, hrest⟩
  | parts hpart hfollowing =>
    rw [List.append_assoc] at hcs
    obtain ⟨front, left, rfl, hfront, hleft⟩ := h.cut hpart hcs
    obtain ⟨tail, rest, rfl, htail, hrest⟩ := trail_cut h hfollowing hleft
    exact ⟨front ++ tail, rest, by simp, .parts hfront htail, hrest⟩

/-- An array or object is cut off together with the mark that opens it. -/
theorem bracketed_cut {opener : Char} {cs : List Char} {ts more : List Token} {as : List α}
    (hts : Enclosed closer Part ts as) (hcs : tokens cs = .mark opener :: ts ++ more) :
    ∃ bs front rest, Blanks bs ∧ cs = bs ++ opener :: front ++ rest ∧ Body closer Text front as
      ∧ tokens rest = more := by
  obtain ⟨bs, behind, hbs, rfl, hbehind⟩ := blanks_of_mark hcs
  obtain ⟨front, rest, rfl, hfront, hrest⟩ := body_cut h hts hbehind
  exact ⟨bs, front, rest, hbs, by simp, hfront, hrest⟩

omit h in
theorem trail_ends (hcloser : IsMark closer) {cs : List Char} {as : List α}
    (hcs : Trail closer Text cs as) (rest : List Char) : Ends (cs ++ rest) := by
  cases hcs with
  | closed hbs =>
    rw [List.append_assoc]
    exact hcloser.ends hbs rest
  | part hbs =>
    rw [List.append_assoc]
    exact (isMark_of_mem ',' (by decide)).ends hbs _

theorem trail_lex (hcloser : IsMark closer) {cs : List Char} {as : List α}
    (hcs : Trail closer Text cs as) (rest : List Char) :
    ∃ ts, Following closer Part ts as ∧ tokens (cs ++ rest) = ts ++ tokens rest := by
  induction hcs with
  | closed hbs =>
    refine ⟨_, .closed, ?_⟩
    rw [List.append_assoc]
    exact hcloser.tokens hbs rest
  | part hbs hpart hmore ih =>
    obtain ⟨ts, hts, htokens⟩ := h.lex hpart (trail_ends hcloser hmore rest)
    obtain ⟨others, hothers, hrest⟩ := ih
    refine ⟨_, .part hts hothers, ?_⟩
    rw [List.append_assoc, List.cons_append, (isMark_of_mem ',' (by decide)).tokens hbs,
      List.append_assoc, htokens, hrest, List.cons_append, List.append_assoc]

theorem body_lex (hcloser : IsMark closer) {cs : List Char} {as : List α}
    (hcs : Body closer Text cs as) (rest : List Char) :
    ∃ ts, Enclosed closer Part ts as ∧ tokens (cs ++ rest) = ts ++ tokens rest := by
  cases hcs with
  | empty hbs =>
    refine ⟨_, .empty, ?_⟩
    rw [List.append_assoc]
    exact hcloser.tokens hbs rest
  | parts hpart hmore =>
    obtain ⟨ts, hts, htokens⟩ := h.lex hpart (trail_ends hcloser hmore rest)
    obtain ⟨others, hothers, hrest⟩ := trail_lex h hcloser hmore rest
    refine ⟨_, .parts hts hothers, ?_⟩
    rw [List.append_assoc, htokens, hrest, List.append_assoc]

theorem bracketed_lex {opener : Char} (hopener : IsMark opener) (hcloser : IsMark closer)
    {bs cs : List Char} {as : List α} (hbs : Blanks bs) (hcs : Body closer Text cs as)
    (rest : List Char) :
    ∃ ts, Enclosed closer Part ts as
      ∧ tokens (bs ++ opener :: cs ++ rest) = .mark opener :: ts ++ tokens rest := by
  obtain ⟨ts, hts, htokens⟩ := body_lex h hcloser hcs rest
  refine ⟨ts, hts, ?_⟩
  rw [List.append_assoc, List.cons_append, hopener.tokens hbs, htokens, List.cons_append]

/-- A key and its value match if the values do. -/
theorem Matches.entry : Matches (Entry Text) (Pair Part) where
  cut hts hcs := by
    cases hts with
    | pair hkey hpart =>
      obtain ⟨bs, inside, behind, hbs, hinside, rfl, hbehind⟩ := blanks_of_literal hkey hcs
      obtain ⟨bs', after, hbs', rfl, hafter⟩ := blanks_of_mark hbehind
      obtain ⟨front, rest, rfl, hfront, hrest⟩ := h.cut hpart hafter
      exact ⟨_, rest, by simp, .pair hbs hinside hbs' hfront, hrest⟩
  lex hcs hrest := by
    cases hcs with
    | @pair bs inside key bs' cs a hbs hkey hbs' hvalue =>
      obtain ⟨ts, hts, htokens⟩ := h.lex hvalue hrest
      refine ⟨.literal (inside ++ ['"']) :: .mark ':' :: ts,
        .pair (readString_of_denotes hkey []) hts, ?_⟩
      simp only [List.append_assoc, List.cons_append]
      rw [tokens_blanks hbs, tokens_denotes hkey, (isMark_of_mem ':' (by decide)).tokens hbs',
        htokens]

end

/-! ### Values -/

theorem Scalar.isWord {w : List Char} {v : Json} (h : Scalar w v) :
    w ≠ [] ∧ ∀ c ∈ w, isWordChar c = true := by
  have hread := readScalar_eq_ok_iff.mpr h
  obtain ⟨-, hdrop⟩ := wordReader_readScalar.reads_word ends_nil hread
  have hall : w.takeWhile isWordChar = w := by
    have hsplit := List.takeWhile_append_dropWhile (p := isWordChar) (l := w)
    rwa [← hdrop, List.append_nil] at hsplit
  refine ⟨?_, List.all_eq_true.mp (hall ▸ List.all_takeWhile)⟩
  rintro rfl
  cases hread

section
variable {inner : Option (List Char → Json → Prop)} {Part : Option (List Token → Json → Prop)}
  (hinner : Option.Rel Matches inner Part)
include hinner

theorem writtenWith_cut {cs : List Char} {ts more : List Token} {v : Json}
    (hts : SpellsWith Part ts v) (hcs : tokens cs = ts ++ more) :
    ∃ front rest, cs = front ++ rest ∧ WrittenWith inner front v ∧ tokens rest = more := by
  cases hts with
  | @scalar _ t v hmeans =>
    cases t with
    | mark c => exact hmeans.elim
    | word w =>
      obtain ⟨rest, hskip, -, -, hrest⟩ := tokens_eq_word hcs
      obtain ⟨bs, hbs, rfl⟩ := blanks_of_skipBlanks hskip
      exact ⟨bs ++ w, rest, by simp, .scalar hbs (readScalar_eq_ok_iff.mp hmeans), hrest⟩
    | literal inside =>
      obtain ⟨s, hs, rfl⟩ := hmeans
      obtain ⟨bs, body, rest, hbs, hbody, rfl, hrest⟩ := blanks_of_literal hs hcs
      exact ⟨_, rest, by simp, .string hbs hbody, hrest⟩
  | array henclosed =>
    cases hinner with
    | some hmatches =>
      obtain ⟨bs, front, rest, hbs, rfl, hfront, hrest⟩ := bracketed_cut hmatches henclosed hcs
      exact ⟨_, rest, rfl, .array hbs hfront, hrest⟩
  | object henclosed =>
    cases hinner with
    | some hmatches =>
      obtain ⟨bs, front, rest, hbs, rfl, hfront, hrest⟩ :=
        bracketed_cut hmatches.entry henclosed hcs
      exact ⟨_, rest, rfl, .object hbs hfront (Members.collects_ofList _), hrest⟩

theorem writtenWith_lex {cs rest : List Char} {v : Json} (hcs : WrittenWith inner cs v)
    (hrest : Ends rest) : ∃ ts, SpellsWith Part ts v ∧ tokens (cs ++ rest) = ts ++ tokens rest := by
  cases hcs with
  | @scalar _ bs w v hbs hscalar =>
    obtain ⟨hne, hword⟩ := hscalar.isWord
    refine ⟨[.word w], .scalar (readScalar_eq_ok_iff.mpr hscalar), ?_⟩
    rw [List.append_assoc, tokens_blanks hbs, tokens_word hne hword hrest]
    rfl
  | @string _ bs inside s hbs hinside =>
    refine ⟨[.literal (inside ++ ['"'])], .scalar ⟨s, readString_of_denotes hinside [], rfl⟩, ?_⟩
    simp only [List.append_assoc, List.cons_append, List.nil_append]
    rw [tokens_blanks hbs, tokens_denotes hinside]
  | array hbs hbody =>
    cases hinner with
    | some hmatches =>
      obtain ⟨ts, hts, htokens⟩ :=
        bracketed_lex hmatches (isMark_of_mem '[' (by decide)) (isMark_of_mem ']' (by decide)) hbs
          hbody rest
      exact ⟨_, .array hts, htokens⟩
  | object hbs hbody hms =>
    cases hinner with
    | some hmatches =>
      obtain ⟨ts, hts, htokens⟩ :=
        bracketed_lex hmatches.entry (isMark_of_mem '\x7b' (by decide))
          (isMark_of_mem '\x7d' (by decide)) hbs hbody rest
      rw [Members.collects_iff.mp hms]
      exact ⟨_, .object hts, htokens⟩

theorem matches_writtenWith : Matches (WrittenWith inner) (SpellsWith Part) where
  cut := writtenWith_cut hinner
  lex := writtenWith_lex hinner

end

theorem matches_written (depth : Nat) : Matches (Written depth) (Spells depth) := by
  induction depth with
  | zero => exact matches_writtenWith .none
  | succ depth ih => exact matches_writtenWith (.some ih)

/-- **Documents.**  A text is read as a value exactly if it is a document of the value. -/
theorem read_eq_ok_iff_document {text : String} {v : Json} :
    read text = .ok v ↔ Document text.toList v := by
  have hmatches := matches_written depthLimit
  rw [read_eq_ok_iff]
  constructor
  · intro h
    obtain ⟨front, rest, hcs, hfront, hrest⟩ := hmatches.cut h (List.append_nil _).symm
    obtain ⟨bs, hbs, hblanks⟩ := blanks_of_skipBlanks (tokens_eq_nil hrest)
    rw [List.append_nil] at hblanks
    exact ⟨front, rest, hcs, hfront, hblanks ▸ hbs⟩
  · rintro ⟨front, bs, hcs, hfront, hbs⟩
    have hends : Ends bs := by
      have hblanks := ends_blanks hbs ends_nil
      rwa [List.append_nil] at hblanks
    have hnone : tokens bs = [] := by
      have hblanks := tokens_blanks hbs []
      rwa [List.append_nil, tokens_nil] at hblanks
    obtain ⟨ts, hts, htokens⟩ := hmatches.lex hfront hends
    rw [hcs, htokens, hnone, List.append_nil]
    exact hts

end RulePack.Json
