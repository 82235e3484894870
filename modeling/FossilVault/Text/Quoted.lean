import FossilVault.Text.Blind
/-
**Quoted text.** A text between quotes, in which every character can be told apart. The single quote
marks the ends, unless the text holds one and no double quote. The mark and the backslash stand behind
a backslash; line feed, carriage return and tab have letters; what has no visible shape is written by
its number in two, four or eight digits.

* `quoted_toList` — a quoted text is its mark, its characters' forms and its mark again.
-/

namespace FossilVault.Text

/-- The last `width` digits of `code` to the base sixteen. -/
def hexDigits : Nat → Nat → List Char
  | 0, _ => []
  | width + 1, code => hexDigits width (code / 16) ++ [Nat.digitChar (code % 16)]

/-- The form of one character between quotes `mark`. -/
def quotedChar (mark c : Char) : List Char :=
  if c == '\\' || c == mark then ['\\', c]
  else if c == '\n' then ['\\', 'n']
  else if c == '\r' then ['\\', 'r']
  else if c == '\t' then ['\\', 't']
  else
    let code := c.toNat
    if code < 0x20 || code == 0x7f then '\\' :: 'x' :: hexDigits 2 code
    else if code < 0x80 then [c]
    else if !isBlind code then [c]
    else if code < 0x100 then '\\' :: 'x' :: hexDigits 2 code
    else if code < 0x10000 then '\\' :: 'u' :: hexDigits 4 code
    else '\\' :: 'U' :: hexDigits 8 code

/-- The mark that ends a quoted text. -/
def quoteMark (text : List Char) : Char :=
  if text.contains '\'' && !text.contains '"' then '"' else '\''

/-- The text between quotes. -/
def quoted (text : String) : String :=
  let mark := quoteMark text.toList
  .ofList (mark :: text.toList.flatMap (quotedChar mark) ++ [mark])

theorem quoted_toList (text : String) :
    (quoted text).toList = quoteMark text.toList ::
      text.toList.flatMap (quotedChar (quoteMark text.toList)) ++ [quoteMark text.toList] := by
  simp [quoted]

end FossilVault.Text
