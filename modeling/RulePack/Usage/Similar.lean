/-!
# Words that are nearly alike

A word that is not known may be a known one mistyped.  Two words are compared by the letters that
they share at about the same place, and by how many of these come in another order.

* `Usage.likeness`: how much two words are alike, from zero to one;
* `Usage.similar`: the known words that are much like a word;
* `Usage.closest?`: the one that is most like it.
-/

namespace RulePack.Usage

/-! ### Shared letters -/

/-- Takes the first letter `c` that is still free between two places of a word, of which the letters
from a place on are given.  Letters are marked when they are taken. -/
def claim (c : Char) (least greatest : Nat) :
    Nat → List (Char × Bool) → Option (List (Char × Bool))
  | _, [] => none
  | place, (d, taken) :: rest =>
    if least ≤ place ∧ place ≤ greatest ∧ d = c ∧ !taken then some ((d, true) :: rest)
    else (claim c least greatest (place + 1) rest).map ((d, taken) :: ·)

/-- The letters of a word, from a place on, that the other word shares within `reach` places, with
the other word's letters marked. -/
def shared (reach : Nat) : Nat → List Char → List (Char × Bool) → List Char × List (Char × Bool)
  | _, [], other => ([], other)
  | place, c :: rest, other =>
    match claim c (place - reach) (place + reach) 0 other with
    | some other =>
      let (letters, other) := shared reach (place + 1) rest other
      (c :: letters, other)
    | none => shared reach (place + 1) rest other

/-- The number of places at which two lists of letters differ. -/
def differences (as bs : List Char) : Nat := ((as.zip bs).filter (fun (a, b) => a ≠ b)).length

/-! ### Likeness -/

/-- How much two words are alike: the mean of the part that the shared letters are of either word,
and the part of them that come in the same order, two exchanged letters counting once. -/
def likeness (word known : String) : Float :=
  let as := word.toList
  let bs := known.toList
  let (ours, marked) := shared (max as.length bs.length / 2 - 1) 0 as (bs.map (·, false))
  let theirs := (marked.filter Prod.snd).map Prod.fst
  let count := ours.length
  let ordered := count - differences ours theirs / 2
  if count = 0 then 0
  else
    (count.toFloat / as.length.toFloat + count.toFloat / bs.length.toFloat
      + ordered.toFloat / count.toFloat) / 3

/-- Puts a word behind all that are at most as much alike. -/
def rank (score : Float) (word : String) : List (Float × String) → List (Float × String)
  | [] => [(score, word)]
  | (s, w) :: rest =>
    if score < s then (score, word) :: (s, w) :: rest else (s, w) :: rank score word rest

/-- The known words that are much like a word, the one most like it last. -/
def similar (word : String) (known : List String) : List String :=
  (known.foldl (fun ranked k =>
    let score := likeness word k
    if 0.7 < score then rank score k ranked else ranked) []).map Prod.snd

/-- The known word that is most like a word, if one is much like it. -/
def closest? (word : String) (known : List String) : Option String := (similar word known).getLast?

end RulePack.Usage
