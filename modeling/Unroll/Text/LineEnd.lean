/-!
# Line ends

Text files end their lines in one of three ways. A reader sees only the first of them:
`unifyLineEnds` turns a carriage return, alone or before a line feed, into a line feed.
-/

namespace Unroll.Text

/-- The characters of `text` behind those of `done`, which stand in reverse, with every line end
as a line feed. -/
def unifyOnto : (done : List Char) → (text : List Char) → List Char
  | done, [] => done.reverse
  | done, '\r' :: '\n' :: rest => unifyOnto ('\n' :: done) rest
  | done, '\r' :: rest => unifyOnto ('\n' :: done) rest
  | done, c :: rest => unifyOnto (c :: done) rest

/-- Every line end of `text` as a line feed. -/
def unifyLineEnds (text : List Char) : List Char := unifyOnto [] text

/-- The part of `text` that is settled before it is known what follows: a carriage return at its
end may be the first half of a line end. -/
def settledPart (text : List Char) : List Char :=
  if text.getLast? = some '\r' then text.dropLast else text

end Unroll.Text
