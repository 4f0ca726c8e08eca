import RulePack.Proofs.Comment.Printed
import RulePack.Proofs.Config.RoundTrip
import RulePack.Proofs.Json.Apart

/-!
# Comments and the tokens beside them

A comment is dropped without a trace.  Here every comment leaves a space as well, and the tokens of
both documents are compared.

* `Piece.spaced`, `spaced` — a document with a space for every comment;
* `Joins` — a comment stands between two characters of a word;
* `Cut` — a document after its first piece;
* `strip_spaced` — a document with spaces for its comments holds no comment;
* `Spaces`, `spaces` — the tokens of both documents are the same unless a word is joined, and if one
  is, two words stand side by side in the document with spaces;
* `read_spaced_iff` — so that nothing is read from it then;
* `Config.parse_spaced_iff` — what this means for configurations.
-/

namespace RulePack.Comment

open Json (isBlank isWordChar Ends ends_nil ends_cons tokens Apart)

/-! ### Spaces for comments -/

namespace Piece

def isComment : Piece → Bool
  | lineComment _ | blockComment _ => true
  | literal _ | plain _ => false

/-- What is left of a piece when a comment leaves a space, and its newlines as before. -/
def spaced (p : Piece) : List Char := if p.isComment then ' ' :: p.kept else p.kept

theorem spaced_literal (text : List Char) : (literal text).spaced = text := rfl

theorem spaced_plain (c : Char) : (plain c).spaced = [c] := rfl

theorem spaced_of_isComment {p : Piece} (h : p.isComment = true) : p.spaced = ' ' :: p.kept := by
  rw [spaced, if_pos h]

end Piece

/-- The document with every comment replaced by a space. -/
def spaced (text : String) : String := String.ofList ((pieces text.toList).flatMap Piece.spaced)

/-- Somewhere a comment has a character of a word right before it, and what it leaves and what
stands behind it begin with one as well. -/
def Joins (ps : List Piece) : Prop :=
  ∃ before c p after, ps = before ++ .plain c :: p :: after ∧ isWordChar c = true
    ∧ p.isComment = true ∧ ¬Ends ((p :: after).flatMap Piece.kept)

theorem joins_cons {p : Piece} {ps : List Piece} :
    Joins (p :: ps) ↔ (∃ c q after, p = .plain c ∧ ps = q :: after ∧ isWordChar c = true
      ∧ q.isComment = true ∧ ¬Ends (ps.flatMap Piece.kept)) ∨ Joins ps := by
  constructor
  · rintro ⟨before, c, q, after, h, hc, hq, hends⟩
    cases before with
    | nil =>
      cases h
      exact Or.inl ⟨c, q, after, rfl, rfl, hc, hq, hends⟩
    | cons first before =>
      cases h
      exact Or.inr ⟨before, c, q, after, rfl, hc, hq, hends⟩
  · rintro (⟨c, q, after, rfl, rfl, hc, hq, hends⟩ | ⟨before, c, q, after, rfl, hc, hq, hends⟩)
    · exact ⟨[], c, q, after, rfl, hc, hq, hends⟩
    · exact ⟨p :: before, c, q, after, rfl, hc, hq, hends⟩

/-- Only a word character can be joined to what stands behind it. -/
theorem joins_cons_of_not_word {p : Piece} (h : ∀ c, p = .plain c → isWordChar c = false)
    (ps : List Piece) : Joins (p :: ps) ↔ Joins ps := by
  rw [joins_cons]
  refine or_iff_right ?_
  rintro ⟨c, q, after, hp, -, hc, -⟩
  rw [h c hp] at hc
  cases hc

/-! ### The first piece -/

/-- A document is cut after its first piece. -/
inductive Cut : List Char → Piece → List Char → Prop
  | closed {body : List Char} (h : Closed body) (behind : List Char) :
    Cut ('"' :: (body ++ behind)) (.literal ('"' :: body)) behind
  | unclosed {body : List Char} (h : literalLength body = body.length) :
    Cut ('"' :: body) (.literal ('"' :: body)) []
  | comment {cs behind : List Char} {p : Piece} (h : p.isComment = true) : Cut cs p behind
  | plain {c : Char} {behind : List Char} (hquote : c ≠ '"')
    (hline : c = '/' → behind.head? ≠ some '/') (hblock : c = '/' → behind.head? ≠ some '*') :
    Cut (c :: behind) (.plain c) behind

theorem cut_first (c : Char) (rest : List Char) :
    Cut (c :: rest) (Piece.first c rest)
      ((c :: rest).drop (Piece.first c rest).text.length) := by
  unfold Piece.first
  split
  · rename_i hquote
    subst hquote
    have hsplit : ('"' :: rest.take (literalLength rest)) ++ rest.drop (literalLength rest)
        = '"' :: rest := by rw [List.cons_append, List.take_append_drop]
    have hdrop : ('"' :: rest).drop ('"' :: rest.take (literalLength rest)).length
        = rest.drop (literalLength rest) := by
      rw [← hsplit, List.drop_left]
    rw [Piece.text, hdrop]
    rcases closed_or_unclosed rest with hclosed | hall
    · have hcut := Cut.closed hclosed (rest.drop (literalLength rest))
      rwa [List.take_append_drop] at hcut
    · rw [hall, List.take_length, List.drop_length]
      exact .unclosed hall
  split
  · exact .comment rfl
  split
  · exact .comment rfl
  · rename_i hquote hline hblock
    exact .plain hquote (fun hc h => hline ⟨hc, h⟩) (fun hc h => hblock ⟨hc, h⟩)

/-- Going through a document piece by piece. -/
theorem pieces_induction {motive : List Char → Prop} (nil : motive [])
    (cut : ∀ {cs p behind}, Cut cs p behind → pieces cs = p :: pieces behind → motive behind →
      motive cs) (cs : List Char) : motive cs := by
  fun_induction pieces cs with
  | case1 => exact nil
  | case2 c rest ih => exact cut (cut_first c rest) (by rw [pieces]) ih

/-! ### What is left with spaces -/

variable {cs : List Char} {p : Piece}

/-- What is left of the pieces of a document if every comment leaves a space. -/
def withSpaces (cs : List Char) : List Char := (pieces cs).flatMap Piece.spaced

theorem withSpaces_nil : withSpaces [] = [] := by
  rw [withSpaces, pieces]
  rfl

theorem withSpaces_of_pieces {behind : List Char} (h : pieces cs = p :: pieces behind) :
    withSpaces cs = p.spaced ++ withSpaces behind := by
  rw [withSpaces, h, List.flatMap_cons, withSpaces]

/-- What is left of a comment are newlines. -/
theorem kept_of_isComment (h : p.isComment = true) : ∀ c ∈ p.kept, c = '\n' := by
  intro c hc
  cases p with
  | literal text => cases h
  | plain d => cases h
  | lineComment text => cases hc
  | blockComment text => exact of_decide_eq_true (List.mem_filter.mp hc).2

/-- The first character of a document stays, or a space stands in its place. -/
theorem head?_withSpaces (cs : List Char) :
    (withSpaces cs).head? = cs.head? ∨ (withSpaces cs).head? = some ' ' := by
  induction cs using pieces_induction with
  | nil =>
    rw [withSpaces_nil]
    exact Or.inl rfl
  | cut hcut hpieces _ =>
    rw [withSpaces_of_pieces hpieces]
    cases hcut with
    | closed h behind => exact Or.inl rfl
    | unclosed h => exact Or.inl rfl
    | comment h =>
      rw [Piece.spaced_of_isComment h]
      exact Or.inr rfl
    | plain hquote hline hblock => exact Or.inl rfl

/-- A document with a space for every comment holds no comment. -/
theorem stripFrom_withSpaces (cs : List Char) :
    stripFrom .code (withSpaces cs) = withSpaces cs := by
  induction cs using pieces_induction with
  | nil =>
    rw [withSpaces_nil]
    rfl
  | @cut cs p behind hcut hpieces ih =>
    rw [withSpaces_of_pieces hpieces]
    cases hcut with
    | @closed body h behind =>
      rw [Piece.spaced_literal, List.cons_append, stripFrom_code_cons (by decide), if_pos rfl,
        stripFrom_closed h, ih]
    | @unclosed body h =>
      rw [Piece.spaced_literal, withSpaces_nil, List.append_nil, stripFrom_code_cons (by decide),
        if_pos rfl, stripFrom_unclosed h]
    | comment h =>
      have hplain : Plain (' ' :: p.kept) := by
        refine plain_of_forall fun c hc => ?_
        rcases List.mem_cons.mp hc with rfl | hkept
        · decide
        · rw [kept_of_isComment h c hkept]
          decide
      rw [Piece.spaced_of_isComment h, hplain, ih]
    | @plain c behind hquote hline hblock =>
      rw [Piece.spaced_plain, List.singleton_append]
      by_cases hslash : c = '/'
      · -- neither of the marks behind a slash that would open a comment can come up
        have hhead (d : Char) (hne : d ≠ ' ') (hd : behind.head? ≠ some d) :
            (withSpaces behind).head? ≠ some d := by
          rcases head?_withSpaces behind with h | h
          · rwa [h]
          · rw [h]
            simpa using hne.symm
        rw [hslash, stripFrom_code_slash (hhead '/' (by decide) (hline hslash))
          (hhead '*' (by decide) (hblock hslash)), ih]
      · rw [stripFrom_code_cons hslash, if_neg hquote, ih]

theorem strip_spaced (text : String) : strip (spaced text) = spaced text := by
  rw [strip, spaced, String.toList_ofList]
  exact congrArg String.ofList (stripFrom_withSpaces text.toList)

/-! ### The tokens of both documents -/

/-- What is left of the pieces of a document if comments leave nothing but their newlines. -/
def withoutComments (cs : List Char) : List Char := (pieces cs).flatMap Piece.kept

theorem withoutComments_nil : withoutComments [] = [] := by
  rw [withoutComments, pieces]
  rfl

theorem withoutComments_of_pieces {behind : List Char} (h : pieces cs = p :: pieces behind) :
    withoutComments cs = p.kept ++ withoutComments behind := by
  rw [withoutComments, h, List.flatMap_cons, withoutComments]

theorem tokens_kept (h : p.isComment = true) (rest : List Char) :
    tokens (p.kept ++ rest) = tokens rest := by
  have hlines := kept_of_isComment h
  generalize p.kept = cs at hlines
  induction cs with
  | nil => rfl
  | cons c cs ih =>
    rw [List.forall_mem_cons] at hlines
    rw [List.cons_append, Json.tokens_blank (by rw [hlines.1]; rfl), ih hlines.2]

theorem tokens_spaced_comment (h : p.isComment = true) (rest : List Char) :
    tokens (p.spaced ++ rest) = tokens rest := by
  rw [Piece.spaced_of_isComment h, List.cons_append, Json.tokens_blank rfl, tokens_kept h]

/-- A word that begins without the comments begins with spaces for them as well. -/
theorem tokens_withSpaces_of_word (h : ¬Ends (withoutComments cs)) :
    ∃ w more, tokens (withSpaces cs) = .word w :: more := by
  induction cs using pieces_induction with
  | nil =>
    rw [withoutComments_nil] at h
    exact absurd ends_nil h
  | @cut cs p behind hcut hpieces ih =>
    rw [withoutComments_of_pieces hpieces] at h
    rw [withSpaces_of_pieces hpieces]
    cases hcut with
    | @closed body hclosed behind => exact absurd (ends_cons rfl _) h
    | @unclosed body hlength => exact absurd (ends_cons rfl _) h
    | comment hcomment =>
      rw [tokens_spaced_comment hcomment]
      refine ih fun hends => h ?_
      cases hkept : p.kept with
      | nil => exact hends
      | cons c cs =>
        have hline := kept_of_isComment hcomment c (by rw [hkept]; exact List.mem_cons_self ..)
        rw [hline]
        exact ends_cons rfl _
    | @plain c behind hquote hline hblock =>
      cases hc : isWordChar c with
      | true => exact ⟨_, _, Json.tokens_wordChar hc _⟩
      | false => exact absurd (ends_cons hc _) h

/-- In both documents a word ends in front of the same piece, unless it is a comment. -/
theorem ends_withSpaces_iff
    (h : ∀ q after, pieces cs = q :: after → q.isComment = true → Ends (withoutComments cs)) :
    Ends (withSpaces cs) ↔ Ends (withoutComments cs) := by
  induction cs using pieces_induction with
  | nil => rw [withSpaces_nil, withoutComments_nil]
  | @cut cs p behind hcut hpieces _ =>
    cases hcomment : p.isComment with
    | true =>
      refine iff_of_true ?_ (h p _ hpieces hcomment)
      rw [withSpaces_of_pieces hpieces, Piece.spaced_of_isComment hcomment]
      exact ends_cons rfl _
    | false =>
      rw [withSpaces_of_pieces hpieces, withoutComments_of_pieces hpieces, Piece.spaced, hcomment,
        if_neg Bool.false_ne_true]
      cases hcut with
      | closed _ _ => exact Iff.rfl
      | unclosed _ => exact Iff.rfl
      | comment htrue => exact absurd hcomment (by simp [htrue])
      | plain _ _ _ => exact Iff.rfl

/-- The tokens with spaces for the comments are those without them, unless a word is joined.  If
one is, its parts stand side by side. -/
def Spaces (cs : List Char) : Prop :=
  (¬Joins (pieces cs) ∧ tokens (withSpaces cs) = tokens (withoutComments cs))
    ∨ (Joins (pieces cs) ∧ ¬Apart (tokens (withSpaces cs)))

/-- A piece that brings the same tokens to both documents and joins nothing. -/
theorem Spaces.append {behind : List Char} (h : Spaces behind) (ts : List Json.Token)
    (hjoins : Joins (pieces cs) ↔ Joins (pieces behind))
    (hspaced : tokens (withSpaces cs) = ts ++ tokens (withSpaces behind))
    (hkept : tokens (withoutComments cs) = ts ++ tokens (withoutComments behind)) : Spaces cs := by
  rw [Spaces, hjoins, hspaced, hkept]
  rcases h with ⟨hno, hsame⟩ | ⟨hyes, hbeside⟩
  · exact Or.inl ⟨hno, by rw [hsame]⟩
  · exact Or.inr ⟨hyes, fun hapart => hbeside (Json.apart_append_right hapart)⟩

/-- A word character in front of both documents. -/
theorem Spaces.word {c : Char} (hc : isWordChar c = true) {behind : List Char} (h : Spaces behind)
    (hpieces : pieces (c :: behind) = .plain c :: pieces behind) : Spaces (c :: behind) := by
  rw [Spaces, withSpaces_of_pieces hpieces, withoutComments_of_pieces hpieces, hpieces,
    Piece.spaced_plain, Piece.kept, List.singleton_append, List.singleton_append]
  by_cases hjoin : ∃ q after, pieces behind = q :: after ∧ q.isComment = true
      ∧ ¬Ends (withoutComments behind)
  · obtain ⟨q, after, hbehind, hq, hends⟩ := hjoin
    refine Or.inr ⟨joins_cons.mpr (Or.inl ⟨c, q, after, rfl, hbehind, hc, hq, hends⟩), ?_⟩
    obtain ⟨w, more, hword⟩ := tokens_withSpaces_of_word hends
    have hspace : Ends (withSpaces behind) := by
      rw [withSpaces, hbehind, List.flatMap_cons, Piece.spaced_of_isComment hq]
      exact ends_cons rfl _
    rw [Json.tokens_cons_of_ends hc hspace, hword]
    exact fun hapart => hapart
  · have hjoins : Joins (.plain c :: pieces behind) ↔ Joins (pieces behind) := by
      rw [joins_cons]
      refine or_iff_right ?_
      rintro ⟨_, q, after, -, hbehind, -, hq, hends⟩
      exact hjoin ⟨q, after, hbehind, hq, hends⟩
    have hends : Ends (withSpaces behind) ↔ Ends (withoutComments behind) :=
      ends_withSpaces_iff fun q after hbehind hq =>
        Classical.byContradiction fun hends => hjoin ⟨q, after, hbehind, hq, hends⟩
    rw [hjoins]
    rcases h with ⟨hno, hsame⟩ | ⟨hyes, hbeside⟩
    · exact Or.inl ⟨hno, Json.tokens_cons_congr hc hends hsame⟩
    · exact Or.inr ⟨hyes, fun hapart => hbeside (Json.apart_of_cons hc hapart)⟩

theorem spaces (cs : List Char) : Spaces cs := by
  induction cs using pieces_induction with
  | nil =>
    rw [Spaces, withSpaces_nil, withoutComments_nil, pieces]
    refine Or.inl ⟨?_, rfl⟩
    rintro ⟨before, c, q, after, h, -⟩
    cases before <;> cases h
  | @cut cs p behind hcut hpieces ih =>
    have hspaced := congrArg tokens (withSpaces_of_pieces hpieces)
    have hkept := congrArg tokens (withoutComments_of_pieces hpieces)
    have hjoins (hp : ∀ c, p = .plain c → isWordChar c = false) :
        Joins (pieces cs) ↔ Joins (pieces behind) := by
      rw [hpieces, joins_cons_of_not_word hp]
    cases hcut with
    | @closed body h behind =>
      rw [Piece.spaced_literal, List.cons_append, Json.tokens_literal h] at hspaced
      rw [Piece.kept, List.cons_append, Json.tokens_literal h] at hkept
      exact ih.append [.literal body] (hjoins fun c hp => by cases hp) hspaced hkept
    | @unclosed body h =>
      have hnil (ts : List Json.Token) : ts = ts ++ tokens [] := by
        rw [Json.tokens_nil, List.append_nil]
      rw [Piece.spaced_literal, withSpaces_nil, List.append_nil] at hspaced
      rw [Piece.kept, withoutComments_nil, List.append_nil] at hkept
      refine ih.append (tokens ('"' :: body)) (hjoins fun c hp => by cases hp) ?_ ?_
      · rw [hspaced, withSpaces_nil]
        exact hnil _
      · rw [hkept, withoutComments_nil]
        exact hnil _
    | comment h =>
      rw [tokens_spaced_comment h] at hspaced
      rw [tokens_kept h] at hkept
      refine ih.append [] (hjoins fun c hp => ?_) hspaced hkept
      rw [hp] at h
      cases h
    | @plain c behind hquote hline hblock =>
      cases hc : isWordChar c with
      | true => exact ih.word hc hpieces
      | false =>
        have hp : ∀ d, Piece.plain c = .plain d → isWordChar d = false := fun d hd => by
          cases hd
          exact hc
        rw [Piece.spaced_plain, List.singleton_append] at hspaced
        rw [Piece.kept, List.singleton_append] at hkept
        cases hblank : isBlank c with
        | true =>
          rw [Json.tokens_blank hblank] at hspaced hkept
          exact ih.append [] (hjoins hp) hspaced hkept
        | false =>
          rw [Json.tokens_mark hblank hquote hc] at hspaced hkept
          exact ih.append [.mark c] (hjoins hp) hspaced hkept

/-- What is read with spaces for the comments is what is read without them, unless a word is
joined.  If one is, nothing is read with spaces. -/
theorem read_spaced_iff {text : String} {v : Json} :
    Json.read (strip (spaced text)) = .ok v
      ↔ Json.read (strip text) = .ok v ∧ ¬Joins (pieces text.toList) := by
  have hstrip : strip text = String.ofList (withoutComments text.toList) := by
    rw [strip, stripFrom_code_pieces, withoutComments]
  have hspaced : spaced text = String.ofList (withSpaces text.toList) := rfl
  rw [strip_spaced, Json.read_eq_ok_iff, Json.read_eq_ok_iff, hstrip, hspaced, String.toList_ofList,
    String.toList_ofList]
  rcases spaces text.toList with ⟨hno, hsame⟩ | ⟨hyes, hbeside⟩
  · rw [hsame]
    exact (and_iff_left hno).symm
  · refine iff_of_false (fun h => hbeside (Json.spells_apart h)) fun h => h.2 hyes

end RulePack.Comment

namespace RulePack.Config

open Comment (Joins Piece pieces spaced strip)

/-- **Comments separate tokens, except where one stands within a word.**  A text is a configuration
with a space for every comment exactly if it is the same configuration as it stands, and no comment
in it joins two characters of a number or word. -/
theorem parse_spaced_iff {path : Path} {text : String} {c : Config} :
    parse path (spaced text) = .ok c ↔ parse path text = .ok c ∧ ¬Joins (pieces text.toList) := by
  rw [parse_eq_ok, parse_eq_ok, Comment.read_spaced_iff]
  constructor
  · rintro ⟨hpath, ⟨hread, hjoins⟩, hplugins⟩
    exact ⟨⟨hpath, hread, hplugins⟩, hjoins⟩
  · rintro ⟨⟨hpath, hread, hplugins⟩, hjoins⟩
    exact ⟨hpath, ⟨hread, hjoins⟩, hplugins⟩

/-- A comment within a number joins its digits, although it is closed. -/
theorem not_parse_spaced_iff :
    ¬∀ (path : Path) (text : String) (c : Config),
      (∀ inside, Piece.blockComment inside ∈ pieces text.toList →
        ∃ body, inside = '/' :: '*' :: (body ++ ['*', '/'])) →
      (parse path text = .ok c ↔ parse path (spaced text) = .ok c) := by
  intro h
  have hpieces : pieces "\x7b\"a\":1/**/2\x7d".toList
      = [.plain '\x7b', .literal ['"', 'a', '"'], .plain ':', .plain '1',
        .blockComment ['/', '*', '*', '/'], .plain '2', .plain '\x7d'] := by
    decide +kernel
  have hclosed : ∀ inside, Piece.blockComment inside ∈ pieces "\x7b\"a\":1/**/2\x7d".toList →
      ∃ body, inside = '/' :: '*' :: (body ++ ['*', '/']) := by
    rw [hpieces]
    intro inside hmem
    simp at hmem
    exact ⟨[], hmem⟩
  have hjoined : parse (Path.ofText "biome.json") "\x7b\"a\":1/**/2\x7d"
      = .ok ⟨Path.ofText "biome.json", [("a", .number (.whole 12))]⟩ := by
    have hstrip : strip "\x7b\"a\":1/**/2\x7d" = "\x7b\"a\":12\x7d" := rfl
    refine parse_eq_ok.mpr ⟨rfl, ?_, [], plugins_eq_ok.mpr rfl⟩
    rw [hstrip, Json.read]
    exact (rfl : Json.readAll (Json.value Json.depthLimit)
      ['\x7b', '"', 'a', '"', ':', '1', '2', '\x7d'] = _)
  have hspaced : strip (spaced "\x7b\"a\":1/**/2\x7d") = "\x7b\"a\":1 2\x7d" := by
    rw [Comment.strip_spaced, spaced, hpieces]
    rfl
  obtain ⟨-, hread, -⟩ := parse_eq_ok.mp ((h _ _ _ hclosed).mp hjoined)
  rw [hspaced, Json.read] at hread
  have hlist : "\x7b\"a\":1 2\x7d".toList
      = ['\x7b', '"', 'a', '"', ':', '1', ' ', '2', '\x7d'] := rfl
  rw [hlist] at hread
  cases hread

end RulePack.Config
