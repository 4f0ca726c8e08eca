import Mathlib.Data.List.DropRight
import Mathlib.Data.List.Forall2
import RulePack.Config

/-!
# Lines and places

A document without its comments has the lines of the document, each with some characters missing, so
a place that is reported for what is left is on the same line of the document.

* `Json.lines` — the lines of a text;
* `Json.Position.Between`, `Json.between_of_read` — the place of a refusal, as a cut of the text;
* `Comment.Thinned`, `Comment.thinned_stripFrom` — stripping drops no newline;
* `Comment.Thinned.forall₂_lines`, `Comment.Thinned.cut` — what this means for the lines of a
  document and for its cuts;
* `Comment.lines_strip` — the lines of a stripped document, and the line of a refusal.
-/

namespace RulePack

namespace Json

/-! ### Lines -/

/-- The lines of a text.  A newline at the end has an empty line behind it. -/
def lines (cs : List Char) : List (List Char) := cs.splitOn '\n'

theorem lines_newline (cs : List Char) : lines ('\n' :: cs) = [] :: lines cs := by
  rw [lines, List.splitOn_cons_eq_if_modifyHead, if_pos (by decide), lines]

/-- Any other character belongs to the first line. -/
theorem lines_cons {c : Char} (hc : c ≠ '\n') (cs : List Char) :
    lines (c :: cs) = (lines cs).modifyHead (c :: ·) := by
  rw [lines, List.splitOn_cons_eq_if_modifyHead, if_neg (by simpa using hc), lines]

/-- There is a line more than there are newlines. -/
theorem length_lines (cs : List Char) : (lines cs).length = cs.count '\n' + 1 := by
  induction cs with
  | nil => rfl
  | cons c cs ih =>
    by_cases hc : c = '\n'
    · rw [hc, lines_newline, List.length_cons, ih, List.count_cons_self]
    · rw [lines_cons hc, List.length_modifyHead, ih, List.count_cons_of_ne hc]

/-! ### Places -/

namespace Position

/-- The place right behind characters of a text: its line is their last one, and its column counts
the bytes on that line. -/
structure Behind (p : Position) (front : List Char) : Prop where
  line : p.line = (lines front).length
  column : p.column = byteCount (front.rtakeWhile (· ≠ '\n'))

theorem byteCount_append (cs ds : List Char) :
    byteCount (cs ++ ds) = byteCount cs + byteCount ds := by
  induction cs with
  | nil => rw [List.nil_append, byteCount, Nat.zero_add]
  | cons c cs ih => rw [List.cons_append, byteCount, byteCount, ih, Nat.add_assoc]

theorem behind_nil : Behind ⟨1, 0⟩ [] := ⟨rfl, rfl⟩

theorem Behind.newline {p : Position} {front : List Char} (h : p.Behind front) :
    Behind ⟨p.line + 1, 0⟩ (front ++ ['\n']) := by
  constructor
  · rw [length_lines, List.count_append, h.line, length_lines]
    rfl
  · rw [List.rtakeWhile_concat_neg _ _ _ (by simp)]
    rfl

theorem Behind.concat {p : Position} {front : List Char} {c : Char} (h : p.Behind front)
    (hc : c ≠ '\n') : Behind ⟨p.line, p.column + c.utf8Size⟩ (front ++ [c]) := by
  constructor
  · rw [length_lines, List.count_append, List.count_singleton, if_neg (by simpa using hc), h.line,
      length_lines]
  · rw [List.rtakeWhile_concat_pos _ _ _ (by simpa using hc), byteCount_append, h.column]
    rfl

/-- The place lies between two parts of a text: right behind the first one, or within the character
with which the second one begins. -/
def Between (p : Position) (front behind : List Char) : Prop :=
  ∃ q : Position, q.Behind front ∧ p.line = q.line ∧ q.column ≤ p.column
    ∧ (p.column = q.column ∨ ∃ c ∈ behind.head?, p.column < q.column + c.utf8Size)

theorem Between.line {p : Position} {front behind : List Char} (h : p.Between front behind) :
    p.line = (lines front).length := by
  obtain ⟨q, hq, hline, -⟩ := h
  rw [hline, hq.line]

/-- Going on by a number of bytes ends between two parts of what stands there. -/
theorem between_advance {p : Position} {before : List Char} (h : p.Behind before) (count : Nat)
    (cs : List Char) :
    ∃ front behind, cs = front ++ behind
      ∧ (p.advance count cs).Between (before ++ front) behind := by
  induction cs generalizing p before count with
  | nil =>
    refine ⟨[], [], rfl, p, ?_, rfl, Nat.le_refl _, Or.inl rfl⟩
    rwa [List.append_nil]
  | cons c rest ih =>
    have step {q : Position} (hq : q.Behind (before ++ [c])) (left : Nat) :
        ∃ front behind, c :: rest = front ++ behind
          ∧ (q.advance left rest).Between (before ++ front) behind := by
      obtain ⟨front, behind, hrest, hbetween⟩ := ih hq left
      rw [List.append_assoc, List.singleton_append] at hbetween
      exact ⟨c :: front, behind, by rw [hrest, List.cons_append], hbetween⟩
    rw [advance]
    split
    · rename_i hinside
      refine ⟨[], c :: rest, rfl, p, ?_, rfl, Nat.le_add_right _ _,
        Or.inr ⟨c, rfl, Nat.add_lt_add_left hinside _⟩⟩
      rwa [List.append_nil]
    split
    · rename_i hc
      subst hc
      exact step h.newline _
    · rename_i hc
      exact step (h.concat hc) _

end Position

/-- The place of a refusal cuts the text in two. -/
theorem between_of_read {text : String} {refusal : Refusal} (h : read text = .error refusal) :
    ∃ front behind, text.toList = front ++ behind ∧ refusal.position.Between front behind := by
  have hstop : ∃ stop : Stop, refusal = stop.inText text.toList := by
    rw [read, readAll] at h
    split at h
    · cases h
      exact ⟨_, rfl⟩
    · split at h
      · cases h
      · cases h
        exact ⟨_, rfl⟩
  obtain ⟨stop, rfl⟩ := hstop
  exact Position.between_advance Position.behind_nil _ _

end Json

namespace Comment

open Json (lines lines_newline lines_cons)

/-! ### Dropping characters -/

/-- What is left of characters when some of them are dropped, but no newline. -/
inductive Thinned : List Char → List Char → Prop
  | nil : Thinned [] []
  | keep (c : Char) {left cs : List Char} (h : Thinned left cs) : Thinned (c :: left) (c :: cs)
  | drop {c : Char} (hc : c ≠ '\n') {left cs : List Char} (h : Thinned left cs) :
    Thinned left (c :: cs)

/-- Whatever the reader is in, it drops no newline. -/
theorem thinned_stripFrom (mode : Mode) (cs : List Char) : Thinned (stripFrom mode cs) cs := by
  fun_induction stripFrom mode cs with
  | case1 mode => exact .nil
  | case2 rest ih => exact .drop (by decide) (.drop (by decide) ih)
  | case3 rest ih => exact .drop (by decide) (.drop (by decide) ih)
  | case4 c rest hline hblock ih => exact .keep c ih
  | case5 c rest ih => exact .keep c ih
  | case6 c rest ih => exact .keep c ih
  | case7 rest ih => exact .keep '\n' ih
  | case8 c rest hc ih => exact .drop hc ih
  | case9 star c rest hclose ih =>
    refine .drop ?_ ih
    rw [hclose.1]
    decide
  | case10 star rest hopen ih => exact .keep '\n' ih
  | case11 star c rest hopen hc ih => exact .drop hc ih

variable {left cs : List Char}

/-- Line by line, what is left is a part of what was there. -/
theorem Thinned.forall₂_lines (h : Thinned left cs) :
    List.Forall₂ List.Sublist (lines left) (lines cs) := by
  induction h with
  | nil => exact .cons .slnil .nil
  | @keep c left cs h ih =>
    by_cases hc : c = '\n'
    · rw [hc, lines_newline, lines_newline]
      exact .cons .slnil ih
    · rw [lines_cons hc, lines_cons hc]
      generalize lines left = ls, lines cs = ms at ih
      cases ih with
      | nil => exact .nil
      | cons hfirst hrest => exact .cons (hfirst.cons_cons c) hrest
  | @drop c hc left cs h ih =>
    rw [lines_cons hc]
    generalize lines left = ls, lines cs = ms at ih
    cases ih with
    | nil => exact .nil
    | cons hfirst hrest => exact .cons (hfirst.cons c) hrest

/-- Where what is left is cut, the characters can be cut as well. -/
theorem Thinned.cut {front behind : List Char} (h : Thinned left cs)
    (hleft : left = front ++ behind) :
    ∃ before after, cs = before ++ after ∧ Thinned front before ∧ Thinned behind after := by
  induction h generalizing front with
  | nil =>
    obtain ⟨rfl, rfl⟩ := List.append_eq_nil_iff.mp hleft.symm
    exact ⟨[], [], rfl, .nil, .nil⟩
  | @keep c left cs h ih =>
    cases front with
    | nil =>
      cases hleft
      exact ⟨[], c :: cs, rfl, .nil, .keep c h⟩
    | cons d front =>
      cases hleft
      obtain ⟨before, after, rfl, hfront, hbehind⟩ := ih rfl
      exact ⟨c :: before, after, rfl, .keep c hfront, hbehind⟩
  | @drop c hc left cs h ih =>
    obtain ⟨before, after, rfl, hfront, hbehind⟩ := ih hleft
    exact ⟨c :: before, after, rfl, .drop hc hfront, hbehind⟩

/-! ### Stripped documents -/

/-- **Stripping keeps the lines.**  A stripped document has the lines of the document, each with
some characters missing.  A refusal of it, which the configuration reports, names the line of the
document on which its place lies: the document can be cut there, so that what was read is what is
left of the one part and what was not read is what is left of the other one. -/
theorem lines_strip (text : String) :
    List.Forall₂ List.Sublist (lines (strip text).toList) (lines text.toList)
    ∧ ∀ refusal, Json.read (strip text) = .error refusal →
      (∀ path, Config.parse path text = .error (.badConfig path refusal.message))
      ∧ ∃ front behind before after, (strip text).toList = front ++ behind
        ∧ refusal.position.Between front behind ∧ text.toList = before ++ after
        ∧ List.Forall₂ List.Sublist (lines front) (lines before)
        ∧ List.Forall₂ List.Sublist (lines behind) (lines after)
        ∧ refusal.position.line = (lines before).length := by
  have hthinned : Thinned (strip text).toList text.toList := by
    rw [strip, String.toList_ofList]
    exact thinned_stripFrom .code text.toList
  refine ⟨hthinned.forall₂_lines, fun refusal hread => ⟨fun path => ?_, ?_⟩⟩
  · rw [Config.parse, Config.parseMembers, hread]
  · obtain ⟨front, behind, hsplit, hbetween⟩ := Json.between_of_read hread
    obtain ⟨before, after, htext, hfront, hbehind⟩ := hthinned.cut hsplit
    refine ⟨front, behind, before, after, hsplit, hbetween, htext, hfront.forall₂_lines,
      hbehind.forall₂_lines, ?_⟩
    rw [hbetween.line, hfront.forall₂_lines.length_eq]

/-- A value is missing on the third line, behind a comment that ends there. -/
theorem lines_strip_missingValue :
    let text := "\x7b // plugins\n /* none\n yet */ \"plugins\": \x7d"
    Json.read (strip text) = .error ⟨.noValue, ⟨3, 13⟩⟩
      ∧ Config.parse (Path.ofText "biome.json") text
        = .error (.badConfig (Path.ofText "biome.json") "expected value at line 3 column 13")
      ∧ ∃ before after, text.toList = before ++ after ∧ (lines before).length = 3 := by
  intro text
  have hread : Json.read (strip text) = .error ⟨.noValue, ⟨3, 13⟩⟩ := by
    have hstrip : (strip text).toList
        = ['\x7b', ' ', '\n', ' ', '\n', ' ', '"', 'p', 'l', 'u', 'g', 'i', 'n', 's', '"', ':', ' ',
          '\x7d'] := by
      decide +kernel
    rw [Json.read, hstrip]
    rfl
  obtain ⟨hparse, _, _, before, after, -, -, htext, -, -, hline⟩ := (lines_strip text).2 _ hread
  exact ⟨hread, hparse _, before, after, htext, hline.symm⟩

end Comment

end RulePack
