import RulePack.Text.Printable

/-!
# Quoted texts in messages

A message quotes a text so that every character of it shows on one line.

* `Text.quotedChar`: a character inside the quotes;
* `Text.quoted`: the text in quotes.
-/

namespace RulePack.Text

/-- A code point in base sixteen, in braces after a backslash and the letter u. -/
def codePoint (c : Char) : List Char :=
  "\\u\x7b".toList ++ Nat.toDigits 16 c.toNat ++ ['\x7d']

/-- A character inside the quotes: quote, backslash and the usual controls by a letter, and what
does not show by its code point. -/
def quotedChar (c : Char) : List Char :=
  if c = '"' then ['\\', '"']
  else if c = '\\' then ['\\', '\\']
  else if c = '\x00' then ['\\', '0']
  else if c = '\t' then ['\\', 't']
  else if c = '\n' then ['\\', 'n']
  else if c = '\r' then ['\\', 'r']
  else if isHidden c then codePoint c
  else [c]

/-- The text in quotes. -/
def quoted (text : String) : String :=
  String.ofList ('"' :: text.toList.flatMap quotedChar ++ ['"'])

end RulePack.Text
