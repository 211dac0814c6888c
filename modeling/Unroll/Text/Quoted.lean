import Unroll.Text.CodePoint
import Unroll.Text.Printable

/-!
# Quoted text

The form in which a text is shown inside a message: between quotes, with everything that has no
visible shape written as an escape.

* `quoteMark` — the apostrophe, unless only the double quote spares an escape;
* `quoted` — the shown form of a text.
-/

namespace Unroll.Text

/-- A code point by its number: two, four or eight hexadecimal digits, the fewest that hold it. -/
def numericEscape (c : CodePoint) : List Char :=
  if c.number < 0x100 then '\\' :: 'x' :: hexDigits 2 c.number
  else if c.number < 0x10000 then '\\' :: 'u' :: hexDigits 4 c.number
  else '\\' :: 'U' :: hexDigits 8 c.number

/-- A text is put between apostrophes, unless it has an apostrophe and no double quote. -/
def quoteMark (text : CodeText) : Char :=
  if text.contains '\x27' && !text.contains '\x22' then '\x22' else '\x27'

/-- One code point between the quotes `mark`. -/
def quotedPoint (mark : Char) : CodePoint → List Char
  | .half index => numericEscape (.half index)
  | .char c =>
    if c = mark || c = '\\' then ['\\', c]
    else if c = '\n' then ['\\', 'n']
    else if c = '\r' then ['\\', 'r']
    else if c = '\t' then ['\\', 't']
    else if isPrintable c then [c]
    else numericEscape c

/-- The shown form of a text. -/
def quoted (text : CodeText) : String :=
  let mark := quoteMark text
  String.ofList (mark :: text.flatMap (quotedPoint mark) ++ [mark])

end Unroll.Text
