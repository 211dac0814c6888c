/-!
# Paths

A path is a sequence of names between slashes. An empty name and a single dot lead nowhere, two
dots lead up.

* `Path.root`, `Path.components` — where a path begins, and the names that matter;
* `Path.names`, `Path.parents` — all names, and those before the last that is not empty;
* `Path.normalise` — the plain form of a path.
-/

namespace Unroll

namespace Path

/-- The most bytes of a path. -/
def maxBytes : Nat := 4095

/-- The most bytes of a name. -/
def maxNameBytes : Nat := 255

/-- The names of a path, between its slashes. -/
def names (path : String) : List String := path.splitOn "/"

/-- Whether a path ends with a slash, as only that of a directory may. -/
def wantsDirectory (path : String) : Bool := (names path).getLast? = some ""

/-- The names of a path before the last one, whatever slashes end it. -/
def parents (path : String) : List String :=
  (((names path).reverse.dropWhile (· = "")).drop 1).reverse

/-- The components of a path: empty ones and single dots lead nowhere and are left out. -/
def components (path : String) : List String :=
  (names path).filter fun name => name ≠ "" && name ≠ "."

/-- The root of a path: none, one slash, or exactly two. -/
def root (path : String) : String :=
  let slashes := (path.toList.takeWhile (· = '/')).length
  if slashes = 0 then "" else if slashes = 2 then "//" else "/"

/-- The plain form of a path, without empty components and single dots. A component that leads up
is kept. -/
def normalise (path : String) : String :=
  let plain := root path ++ "/".intercalate (components path)
  if plain = "" then "." else plain

end Path

end Unroll
