/-!
# Log lines

A log line begins with the name of its level. On a terminal the name of an error, or of anything
worse, is shown bold and red.
-/

namespace Unroll.Command

/-- The severity of a log line, the worse the higher. -/
abbrev Level := Int

namespace Level

/-- What helps to follow what the program does. -/
def debug : Level := 10

/-- What stops the program. -/
def error : Level := 40

/-- The name of a level. -/
def name (level : Level) : String :=
  if level = 0 then "notset"
  else if level = 10 then "debug"
  else if level = 20 then "info"
  else if level = 30 then "warning"
  else if level = 40 then "error"
  else if level = 50 then "critical"
  else s!"level {level}"

end Level

/-- The control sequences that a terminal is given, which are chosen by a library. -/
structure Paint where
  bright : String
  red : String
  /-- ends what the others began -/
  reset : String

/-- The control sequences that terminals commonly understand. -/
def Paint.common : Paint := ⟨"\x1b[1m", "\x1b[31m", "\x1b[0m"⟩

/-- `text` in bold red. -/
def Paint.boldRed (paint : Paint) (text : String) : String :=
  paint.bright ++ paint.red ++ text ++ paint.reset

/-- The log line of a message. It is painted if there is anything to paint with. -/
def logLine (paint? : Option Paint) (level : Level) (message : String) : String :=
  let label := level.name ++ ":"
  let shown := match paint? with
    | some paint => if Level.error ≤ level then paint.boldRed label else label
    | none => label
  shown ++ " " ++ message

end Unroll.Command
