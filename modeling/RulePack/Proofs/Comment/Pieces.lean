import RulePack.Comment

/-!
# The pieces of a document

The reader of `Comment.strip` goes through a document character by character.  Here the document is
cut into pieces instead, each found by a search for its end, and both are shown to agree.

* `closing` — how far a literal or comment reaches: up to the first place where it can be closed;
* `Piece`, `Piece.first`, `pieces` — the pieces of a document, from left to right;
* `flatMap_text_pieces` — the pieces are the document, nothing left out and nothing read twice;
* `stripFrom_literal`, `stripFrom_line`, `stripFrom_block` — what is left of a document from inside
  of a literal or comment, in terms of `closing`;
* `strip_eq_kept_pieces` — stripping keeps of every piece what `Piece.kept` says.
-/

namespace RulePack.Comment

/-! ### Searching for an end -/

/-- The first place at which characters fall into two parts, the second one not empty, of which
`closes` holds. -/
def firstCut? (closes : List Char → List Char → Bool) (cs : List Char) : Option Nat :=
  (List.range cs.length).find? (fun i => closes (cs.take i) (cs.drop i))

/-- How many characters there are up to the first place where `closes` holds and the `width`
characters of the closing mark; all of them if there is no such place. -/
def closing (closes : List Char → List Char → Bool) (width : Nat) (cs : List Char) : Nat :=
  ((firstCut? closes cs).map (· + width)).getD cs.length

theorem firstCut?_cons (closes : List Char → List Char → Bool) (c : Char) (cs : List Char) :
    firstCut? closes (c :: cs)
      = if closes [] (c :: cs) then some 0
        else (firstCut? (fun before behind => closes (c :: before) behind) cs).map (· + 1) := by
  simp only [firstCut?, List.length_cons, List.range_succ_eq_map, List.find?_cons, List.take_zero,
    List.drop_zero, List.find?_map]
  cases closes [] (c :: cs) <;> rfl

theorem closing_cons (closes : List Char → List Char → Bool) (width : Nat) (c : Char)
    (cs : List Char) :
    closing closes width (c :: cs)
      = if closes [] (c :: cs) then width
        else closing (fun before behind => closes (c :: before) behind) width cs + 1 := by
  rw [closing, firstCut?_cons]
  by_cases h : closes [] (c :: cs)
  · simp [h]
  · rw [if_neg h, if_neg h, closing]
    cases firstCut? (fun before behind => closes (c :: before) behind) cs with
    | none => rfl
    | some i =>
      show i + 1 + width = i + width + 1
      omega

/-! ### Where literals and block comments close -/

/-- How many backslashes stand at the end of characters. -/
def backslashesAtEnd (cs : List Char) : Nat := (cs.reverse.takeWhile (· == '\\')).length

/-- Does a literal with the inside `before` end with the next character?  It does at a quote in
front of which an even number of backslashes stands. -/
def closesLiteral (before behind : List Char) : Bool :=
  behind.head? == some '"' && backslashesAtEnd before % 2 == 0

/-- Does a block comment end with the next two characters? -/
def closesBlock (_before behind : List Char) : Bool := ['*', '/'].isPrefixOf behind

/-- How many characters behind its opening quote belong to a literal. -/
def literalLength (inside : List Char) : Nat := closing closesLiteral 1 inside

/-- How many characters behind its opening mark belong to a block comment. -/
def blockLength (inside : List Char) : Nat := closing closesBlock 2 inside

theorem backslashesAtEnd_concat (cs : List Char) (c : Char) :
    backslashesAtEnd (cs ++ [c]) = if c = '\\' then backslashesAtEnd cs + 1 else 0 := by
  rw [backslashesAtEnd, backslashesAtEnd, List.reverse_concat, List.takeWhile_cons]
  by_cases h : c = '\\' <;> simp [h]

/-! ### Pieces -/

/-- A piece of a document, with all of its characters. -/
inductive Piece where
  | literal (text : List Char)
  | lineComment (text : List Char)
  | blockComment (text : List Char)
  | plain (c : Char)
  deriving DecidableEq, Repr

namespace Piece

/-- The characters of a piece. -/
def text : Piece → List Char
  | literal text | lineComment text | blockComment text => text
  | plain c => [c]

/-- The characters that are left of a piece when comments are dropped. -/
def kept : Piece → List Char
  | literal text => text
  | lineComment _ => []
  | blockComment text => text.filter (· = '\n')
  | plain c => [c]

/-- The piece with which a document begins. -/
def first (c : Char) (rest : List Char) : Piece :=
  if c = '"' then literal (c :: rest.take (literalLength rest))
  else if c = '/' ∧ rest.head? = some '/' then lineComment ((c :: rest).takeWhile (· ≠ '\n'))
  else if c = '/' ∧ rest.head? = some '*' then
    blockComment (c :: '*' :: rest.tail.take (blockLength rest.tail))
  else plain c

theorem text_first_ne_nil (c : Char) (rest : List Char) : (first c rest).text ≠ [] := by
  unfold first
  split
  · exact List.cons_ne_nil _ _
  split
  · rename_i h
    simp [text, h.1]
  split
  · exact List.cons_ne_nil _ _
  · exact List.cons_ne_nil _ _

/-- A document begins with its first piece. -/
theorem text_first_prefix (c : Char) (rest : List Char) : (first c rest).text <+: c :: rest := by
  unfold first
  split
  · exact List.cons_prefix_cons.mpr ⟨rfl, List.take_prefix _ rest⟩
  split
  · exact List.takeWhile_prefix _
  split
  · rename_i h
    obtain ⟨tail, rfl⟩ : ∃ tail, rest = '*' :: tail := List.head?_eq_some_iff.mp h.2
    exact List.cons_prefix_cons.mpr
      ⟨rfl, List.cons_prefix_cons.mpr ⟨rfl, List.take_prefix _ tail⟩⟩
  · exact List.cons_prefix_cons.mpr ⟨rfl, List.nil_prefix⟩

end Piece

/-- The pieces of a document, from left to right. -/
def pieces : List Char → List Piece
  | [] => []
  | c :: rest =>
    Piece.first c rest :: pieces ((c :: rest).drop (Piece.first c rest).text.length)
termination_by cs => cs.length
decreasing_by
  have hpos := List.length_pos_iff.mpr (Piece.text_first_ne_nil c rest)
  rw [List.length_drop, List.length_cons]
  omega

/-- The pieces are the document, nothing left out and nothing read twice. -/
theorem flatMap_text_pieces (cs : List Char) : (pieces cs).flatMap Piece.text = cs := by
  fun_induction pieces cs with
  | case1 => rfl
  | case2 c rest ih =>
    rw [List.flatMap_cons, ih]
    exact List.prefix_iff_eq_append.mp (Piece.text_first_prefix c rest)

/-! ### Stripping from inside of a piece -/

/-- In a literal the reader knows whether the number of backslashes before it is odd. -/
theorem stripFrom_literal (before cs : List Char) :
    stripFrom (.literal (backslashesAtEnd before % 2 = 1)) cs
      = cs.take (closing (fun inside => closesLiteral (before ++ inside)) 1 cs)
        ++ stripFrom .code
          (cs.drop (closing (fun inside => closesLiteral (before ++ inside)) 1 cs)) := by
  induction cs generalizing before with
  | nil => simp [stripFrom]
  | cons c rest ih =>
    have hnext := ih (before ++ [c])
    simp only [backslashesAtEnd_concat, List.append_assoc, List.singleton_append] at hnext
    rw [closing_cons]
    simp only [List.append_nil]
    rcases Nat.mod_two_eq_zero_or_one (backslashesAtEnd before) with heven | hodd
    · by_cases hq : c = '"'
      · simp [closesLiteral, heven, hq, stripFrom]
      · have hopen : closesLiteral before (c :: rest) = false := by simp [closesLiteral, hq]
        have hmode : (if c = '\\' then backslashesAtEnd before + 1 else 0) % 2 = 1 ↔ c = '\\' := by
          split <;> rename_i h <;> simp only [h, iff_true, iff_false] <;> omega
        simp only [hmode] at hnext
        simp [heven, hopen, stripFrom, hq, hnext]
    · have hopen : closesLiteral before (c :: rest) = false := by simp [closesLiteral, hodd]
      have hmode : ¬(if c = '\\' then backslashesAtEnd before + 1 else 0) % 2 = 1 := by
        split <;> omega
      simp only [hmode, decide_false] at hnext
      simp [hodd, hopen, stripFrom, hnext]

/-- A line comment reaches up to the next newline. -/
theorem stripFrom_line (cs : List Char) :
    stripFrom .line cs = stripFrom .code (cs.dropWhile (· ≠ '\n')) := by
  induction cs with
  | nil => simp [stripFrom]
  | cons c rest ih =>
    by_cases hc : c = '\n'
    · subst hc
      rw [stripFrom, if_pos rfl, List.dropWhile_cons_of_neg (by simp),
        stripFrom_code_cons (by decide)]
      rfl
    · rw [stripFrom, if_neg hc, ih, List.dropWhile_cons_of_pos (by simp [hc])]

/-- A star that has been read counts only if a slash follows it. -/
theorem stripFrom_block_star {cs : List Char} (h : cs.head? ≠ some '/') :
    stripFrom (.block true) cs = stripFrom (.block false) cs := by
  cases cs with
  | nil => rfl
  | cons c rest =>
    have hc : c ≠ '/' := fun hc => h (by rw [hc]; rfl)
    simp [stripFrom, hc]

/-- A block comment reaches up to the next star with a slash behind it, and its newlines stay. -/
theorem stripFrom_block (cs : List Char) :
    stripFrom (.block false) cs
      = (cs.take (blockLength cs)).filter (· = '\n')
        ++ stripFrom .code (cs.drop (blockLength cs)) := by
  induction cs with
  | nil => simp [stripFrom, blockLength]
  | cons c rest ih =>
    have hlength : blockLength (c :: rest)
        = if closesBlock [] (c :: rest) then 2 else blockLength rest + 1 := closing_cons _ _ _ _
    by_cases hclose : closesBlock [] (c :: rest)
    · obtain ⟨tail, htail⟩ : ['*', '/'] <+: c :: rest := by simpa [closesBlock] using hclose
      rw [hlength, if_pos hclose, ← htail]
      simp [stripFrom]
    · rw [hlength, if_neg hclose, List.take_succ_cons, List.drop_succ_cons]
      by_cases hstar : c = '*'
      · have hslash : rest.head? ≠ some '/' := by
          intro h
          obtain ⟨tail, rfl⟩ := List.head?_eq_some_iff.mp h
          exact hclose (by simp [closesBlock, hstar])
        rw [List.filter_cons_of_neg (by simp [hstar]), ← ih, ← stripFrom_block_star hslash]
        simp [stripFrom, hstar]
      · by_cases hline : c = '\n' <;> simp [stripFrom, hstar, hline, ih]

/-! ### Stripping piece by piece -/

/-- What a document leaves is what its first piece leaves, followed by what the rest leaves. -/
theorem stripFrom_first (c : Char) (rest : List Char) :
    stripFrom .code (c :: rest)
      = (Piece.first c rest).kept
        ++ stripFrom .code ((c :: rest).drop (Piece.first c rest).text.length) := by
  have hdrop (front behind : List Char) (h : front ++ behind = c :: rest) :
      (c :: rest).drop front.length = behind := by rw [← h, List.drop_left]
  unfold Piece.first
  split
  · rename_i hq
    have hliteral := stripFrom_literal [] rest
    simp only [List.nil_append] at hliteral
    rw [Piece.text, hdrop _ (rest.drop (literalLength rest)) (by simp), hq,
      stripFrom_code_cons (by decide)]
    exact congrArg _ hliteral
  split
  · rename_i _ h
    obtain ⟨tail, rfl⟩ : ∃ tail, rest = '/' :: tail := List.head?_eq_some_iff.mp h.2
    rw [Piece.text, hdrop _ _ List.takeWhile_append_dropWhile, h.1, stripFrom, stripFrom_line]
    rfl
  split
  · rename_i _ h
    obtain ⟨tail, rfl⟩ : ∃ tail, rest = '*' :: tail := List.head?_eq_some_iff.mp h.2
    rw [Piece.text, hdrop _ (tail.drop (blockLength tail)) (by simp), h.1, stripFrom,
      stripFrom_block]
    rfl
  · rename_i hquote hline hblock
    rw [Piece.text, hdrop _ _ List.singleton_append]
    by_cases hslash : c = '/'
    · subst hslash
      rw [stripFrom_code_slash (fun h => hline ⟨rfl, h⟩) (fun h => hblock ⟨rfl, h⟩)]
      rfl
    · rw [stripFrom_code_cons hslash, if_neg hquote]
      rfl

theorem stripFrom_code_pieces (cs : List Char) :
    stripFrom .code cs = (pieces cs).flatMap Piece.kept := by
  fun_induction pieces cs with
  | case1 => rfl
  | case2 c rest ih => rw [stripFrom_first, List.flatMap_cons, ih]

/-- **Stripping takes a document apart into literals, comments and single characters.**  The pieces
are the whole document in its order, and what is left is what `Piece.kept` keeps of each. -/
theorem strip_eq_kept_pieces (text : String) :
    (pieces text.toList).flatMap Piece.text = text.toList
      ∧ strip text = String.ofList ((pieces text.toList).flatMap Piece.kept) := by
  refine ⟨flatMap_text_pieces text.toList, ?_⟩
  rw [strip, stripFrom_code_pieces]

end RulePack.Comment
