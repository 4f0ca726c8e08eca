/-!
# Comments in configuration documents

A configuration document may hold comments: from `//` to the end of the line, and from `/*` to the
next `*/`.  String literals are left alone, whatever they hold.

* `Comment.Mode`: where in the document the reader stands;
* `Comment.strip`: the document without its comments, line by line the same document.
-/

namespace RulePack.Comment

/-- Where the reader of a document stands. -/
inductive Mode where
  /-- Outside of string literals and comments. -/
  | code
  /-- In a string literal, where the next character may be escaped. -/
  | literal (escaped : Bool)
  /-- In a comment that ends with its line. -/
  | line
  /-- In a comment that ends with a star and a slash, of which the star may have been read. -/
  | block (star : Bool)
  deriving DecidableEq, Repr

/-- The characters of a document from a place on, without those that belong to comments.  The
newlines of a comment stay. -/
def stripFrom : Mode → List Char → List Char
  | _, [] => []
  | .code, '/' :: '/' :: rest => stripFrom .line rest
  | .code, '/' :: '*' :: rest => stripFrom (.block false) rest
  | .code, c :: rest => c :: stripFrom (if c = '"' then .literal false else .code) rest
  | .literal true, c :: rest => c :: stripFrom (.literal false) rest
  | .literal false, c :: rest =>
    c :: stripFrom (if c = '"' then .code else .literal (c = '\\')) rest
  | .line, c :: rest => if c = '\n' then c :: stripFrom .code rest else stripFrom .line rest
  | .block star, c :: rest =>
    if c = '/' ∧ star then stripFrom .code rest
    else if c = '\n' then c :: stripFrom (.block false) rest
    else stripFrom (.block (c = '*')) rest

/-- Outside of literals and comments only a slash can be lost. -/
theorem stripFrom_code_cons {c : Char} (hc : c ≠ '/') (rest : List Char) :
    stripFrom .code (c :: rest)
      = c :: stripFrom (if c = '"' then .literal false else .code) rest :=
  stripFrom.eq_4 c rest (fun _ h => absurd h hc) (fun _ h => absurd h hc)

/-- A slash that opens no comment stays. -/
theorem stripFrom_code_slash {rest : List Char} (hline : rest.head? ≠ some '/')
    (hblock : rest.head? ≠ some '*') :
    stripFrom .code ('/' :: rest) = '/' :: stripFrom .code rest := by
  rw [stripFrom.eq_4 '/' rest (fun _ _ h => hline (by rw [h]; rfl))
    (fun _ _ h => hblock (by rw [h]; rfl))]
  rfl

/-- The document without its comments. -/
def strip (text : String) : String := String.ofList (stripFrom .code text.toList)

end RulePack.Comment
