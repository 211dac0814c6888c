/-!
# Positions

A position in a program counts the lines from one and the characters of a line from the end of the
line before: a fresh program stands at line one, column zero, and the position after a character
is that of the character itself.
-/

namespace Unroll

/-- A line and a column. -/
structure Position where
  line : Int
  column : Int
deriving DecidableEq, Repr

namespace Position

/-- The position before the first character. -/
def start : Position := ⟨1, 0⟩

/-- The position after one more character. -/
def advance (p : Position) (c : Char) : Position :=
  if c = '\n' then ⟨p.line + 1, 0⟩ else ⟨p.line, p.column + 1⟩

/-- The position after the characters of `text`. -/
def advanceBy (p : Position) (text : List Char) : Position := text.foldl advance p

instance : ToString Position := ⟨fun p => s!"[{p.line}:{p.column}]"⟩

end Position

end Unroll
