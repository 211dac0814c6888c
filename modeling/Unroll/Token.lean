import Unroll.Json.Value

/-!
# Tokens

What a program is made of once its macros are gone: operators, groups of tokens, and numbers that
multiply the token after them.

A list of tokens may be put together by other means than the lexer. Then an operator may be any
text, a number may be negative, a group may be empty, and a value that is no token may stand in
its place (`foreign`), which no output can be made of.
-/

namespace Unroll

/-- One token. -/
inductive Token where
  /-- multiplies the token after it -/
  | number (value : Int)
  /-- is copied to the output -/
  | operator (symbol : String)
  /-- is multiplied as a whole -/
  | group (tokens : List Token)
  /-- is no token at all -/
  | foreign (v : Json.Value)
deriving BEq, Repr

namespace Token

/-- Items in parentheses; a single one is marked by a comma. -/
def tuple : List String → String
  | [item] => "(" ++ item ++ ",)"
  | items => "(" ++ ", ".intercalate items ++ ")"

mutual
/-- The form in which a token is shown. -/
def display : Token → String
  | number value => s!"Number(value={value})"
  | operator symbol => s!"Operator(operator={Text.quoted symbol})"
  | group tokens => s!"Group(tokens={tuple (displayAll tokens)})"
  | foreign v => v.display
/-- The forms in which several tokens are shown. -/
def displayAll : List Token → List String
  | [] => []
  | t :: ts => t.display :: displayAll ts
end

end Token

end Unroll
