import Unroll.Fault
import Unroll.Files.Path

/-!
# Files

The files and directories that a program can reach, as a value.

* `Place`, `Files` — the tree of files, by the names on the way to each of them;
* `Files.open?` — the bytes of a file that is opened for reading;
* `Files.create`, `Files.store` — a file that is opened for writing, which empties it, and what is
  written to it.
-/

namespace Unroll

/-- What a name stands for. -/
inductive Node where
  | file (bytes : List UInt8)
  | directory
deriving DecidableEq, Repr

/-- The names on the way to a place. They begin at the working directory; the way to a place
outside of it begins with steps up or at the root. -/
abbrev Place := List String

namespace Place

/-- The name of a step up. -/
def up : String := ".."

/-- The name of the root. -/
def root : String := "/"

/-- Whether there is nothing but a directory at a place, whatever files there are: the root, the
working directory, and all those above it. -/
def isFixed (place : Place) : Bool := place == [root] || place.all (· == up)

/-- The place one name further. -/
def enter (place : Place) (name : String) : Place :=
  if name = "" || name = "." then place
  else if name ≠ up then place ++ [name]
  else if place = [root] then place
  else if place.all (· == up) then place ++ [up]
  else place.dropLast

end Place

/-- Files and directories, each with the names that lead to it. -/
structure Files where
  entries : List (Place × Node)
deriving DecidableEq, Repr

namespace Files

/-- No files. -/
def empty : Files := ⟨[]⟩

/-- The node at a place. Whatever has something inside is a directory. -/
def find? (files : Files) (place : Place) : Option Node :=
  if place.isFixed then some .directory
  else match files.entries.lookup place with
    | some node => some node
    | none =>
      if files.entries.any fun entry => place.isPrefixOf entry.1 then some .directory else none

/-- Puts a node at a place, instead of what is there. -/
def insert (files : Files) (place : Place) (node : Node) : Files :=
  if files.entries.any (·.1 == place) then
    ⟨files.entries.map fun entry => if entry.1 == place then (place, node) else entry⟩
  else ⟨files.entries ++ [(place, node)]⟩

/-- What can be known about a path before anything is looked up. -/
def checkPath (path : String) : Except Fault Unit :=
  if path.toList.contains '\x00' then .error .nulInPath
  else if path = "" then .error (.noSuchFile path)
  else if Path.maxBytes < path.utf8ByteSize then .error (.nameTooLong path)
  else .ok ()

/-- Walks along names of `path`. Every name, also one that leads nowhere, has to be looked up in a
directory. -/
def walk (files : Files) (path : String) : Place → List String → Except Fault Place
  | place, [] => .ok place
  | place, name :: rest =>
    match files.find? place with
    | some .directory =>
      if Path.maxNameBytes < name.utf8ByteSize then .error (.nameTooLong path)
      else walk files path (place.enter name) rest
    | some (.file _) => .error (.notDirectory path)
    | none => .error (.noSuchFile path)

/-- The place that names of `path` lead to from where it begins. -/
def follow (files : Files) (path : String) (names : List String) : Except Fault Place :=
  match checkPath path with
  | .error f => .error f
  | .ok () => files.walk path (if Path.root path = "" then [] else [Place.root]) names

/-- The place that a path leads to. -/
def locate (files : Files) (path : String) : Except Fault Place :=
  files.follow path (Path.names path)

/-- The bytes of the file at `path`, which is opened for reading. -/
def open? (files : Files) (path : String) : Except Fault (List UInt8) :=
  match files.locate path with
  | .error f => .error f
  | .ok place =>
    match files.find? place with
    | some (.file bytes) => .ok bytes
    | some .directory => .error (.isDirectory path)
    | none => .error (.noSuchFile path)

/-- The place at `path`, which is opened for writing, and the files after that: what was in the
file is gone. No file is made at a path that wants a directory, even where there is none, if only
there is a directory to look in. -/
def create (files : Files) (path : String) : Except Fault (Place × Files) :=
  if Path.wantsDirectory path then
    match files.follow path (Path.parents path ++ ["."]) with
    | .error f => .error f
    | .ok _ => .error (.isDirectory path)
  else
    match files.locate path with
    | .error f => .error f
    | .ok place =>
      match files.find? place with
      | some .directory => .error (.isDirectory path)
      | _ => .ok (place, files.insert place (.file []))

/-- The files after a text was written to an opened place. -/
def store (files : Files) (place : Place) (text : String) : Files :=
  files.insert place (.file (Text.Utf8.encode text.toList))

end Files

end Unroll
