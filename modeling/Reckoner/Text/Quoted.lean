import Reckoner.Text.Printable

/-!
# Quoted text

A text in a message stands between single quotes, or between double quotes when
it holds a single quote and no double one. Inside, the quote in use, the
backslash and every character without a visible form are escaped.
-/

namespace Reckoner.Text

def quoteMark (t : Text) : Char :=
  if t.contains '\'' && !t.contains '"' then '"' else '\''

/-- A character's code point behind a backslash, in two, four or eight digits. -/
def escapeCode (c : Char) : Text :=
  let n := c.toNat
  if n < 0x100 then '\\' :: 'x' :: hexadecimal 2 n
  else if n < 0x10000 then '\\' :: 'u' :: hexadecimal 4 n
  else '\\' :: 'U' :: hexadecimal 8 n

/-- A character as it is written between two `mark`s. -/
def escape (mark c : Char) : Text :=
  if c = mark || c = '\\' then ['\\', c]
  else if c = '\n' then ['\\', 'n']
  else if c = '\r' then ['\\', 'r']
  else if c = '\t' then ['\\', 't']
  else if isPrintable c then [c]
  else escapeCode c

def quoted (t : Text) : Text :=
  let mark := t.quoteMark
  mark :: t.flatMap (escape mark) ++ [mark]

end Reckoner.Text
