import Unroll.Command.Run

/-!
# The program

Looks at the world, runs the program on what it finds, and makes the changes that the program
asks for. Of the files, only those that the command line names are looked at.
-/

namespace Unroll.Command

/-- What is at `path`. -/
def nodeAt? (path : String) : IO (Option Node) := do
  try
    return some (.file (← IO.FS.readBinFile path).toList)
  catch e =>
    match e with
    | .noFileOrDirectory .. => return none
    | .inappropriateType _ code _ => return if code = 21 then some .directory else none
    | .invalidArgument .. => return none
    | _ => throw e

/-- The files after looking at what is at `path`, and at the directories on the way there. -/
def lookAt (files : Files) (path : String) : IO Files := do
  let mut files := files
  let mut place : Place := if Path.root path = "" then [] else [Place.root]
  let mut walked := Path.root path
  for name in Path.components path do
    place := place.enter name
    walked := walked ++ name
    if let some node ← nodeAt? walked then
      unless place.isFixed do files := files.insert place node
    walked := walked ++ "/"
  return files

/-- Everything that is left on a stream. -/
partial def readToEnd (stream : IO.FS.Stream) (done : ByteArray) : IO ByteArray := do
  let bytes ← stream.read 65536
  if bytes.isEmpty then return done else readToEnd stream (done ++ bytes)

/-- What the program finds around it. -/
def lookAround (words : List String) : IO Surroundings := do
  let (paths, reads) := match Arguments.parse words with
    | .ok a =>
      ([a.configFile, a.input, a.output].filterMap id, a.input.isNone && !a.license)
    | .error _ => ([], false)
  let files ← paths.foldlM lookAt Files.empty
  let stdin ← if reads then readToEnd (← IO.getStdin) ByteArray.empty else pure ByteArray.empty
  let terminal ← (← IO.getStderr).isTty
  return { Surroundings.ofText [] with
    files
    stdin := .ofInput stdin.toList
    stdin_expected := Stream.ofPieces_isExpected id id stdin.toList
    terminal }

/-- Makes the changes to the file that was opened for writing, if there are any. -/
def settle (words : List String) (before after : Files) : IO Unit := do
  let .ok { output := some path, .. } := Arguments.parse words | return
  let .ok place := before.locate path | return
  if before != after then
    if let some (.file bytes) := after.find? place then
      IO.FS.writeBinFile path ⟨bytes.toArray⟩

end Unroll.Command

open Unroll.Command in
/-- Runs the program with the words of its command line. -/
def main (words : List String) : IO UInt32 := do
  let around ← lookAround words
  let result := run around words
  settle words around.files result.files
  for warning in result.warnings do IO.eprintln s!"warning: {warning}"
  IO.eprint result.stderr
  IO.print result.stdout
  match result.outcome with
  | .code n => return n.toUInt32
  | .escape e => IO.eprintln e.message; return 1
