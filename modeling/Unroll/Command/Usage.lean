/-!
# Texts of the command line

What the program says about itself: its version, its usage, its help and its license.
-/

namespace Unroll.Command

/-- The name of the program. -/
def program : String := "bfup"

/-- The version of the program where its package does not tell another. -/
def usualVersion : String := "0.1.1"

/-- The name of the program and its version. -/
def title (version : String) : String := s!"{program} {version}"

/-- How the program is called. -/
def usage : String :=
"usage: bfup [-h] [-o FILE] [-C FILE] [-+ OPERATORS] [-# CHAR] [-m CHAR]
            [-e CHAR] [--group-start-delimiter CHAR]
            [--group-end-delimiter CHAR] [-n | -l WIDTH] [-b] [-L] [-v]
            [--version]
            [FILE]
"

/-- What the program does, and the meaning of its arguments. -/
def help : String := usage ++
"
Preprocessor for brainfuck-like languages.

positional arguments:
  FILE                  File to preprocess [default: stdin]

options:
  -h, --help            show this help message and exit
  -o FILE, --output FILE
                        Specify output filename [default: stdout]
  -C FILE, --config-file FILE
                        Read preprocessor config from a json file
  -+ OPERATORS, --operators OPERATORS
                        Specify recognized operators [default: +-<>[].,]
  -# CHAR, --number-prefix CHAR
                        Specify number prefix [default: #]
  -m CHAR, --macro-prefix CHAR
                        Specify macro prefix [default: $]
  -e CHAR, --escape-prefix CHAR
                        Specify escape prefix [default: \\]
  --group-start-delimiter CHAR
                        Specify group start delimiter [default: (]
  --group-end-delimiter CHAR
                        Specify group end delimiter [default: )]
  -n, --no-align        Do not align output in a rectangle
  -l WIDTH, --line-width WIDTH
                        Specify max line width [default: 32]
  -b, --no-newline      Do not append a newline character at the end
  -L, --license         Print license
  -v, --verbose         Log debug information to stderr
  --version             show program's version number and exit
"

/-- Who made the program. -/
def author : String := "Łukasz Dragon <lukasz.b.dragon@gmail.com>"

/-- The lines about the program and who made it. -/
def credits (version : String) : String := title version ++ "\n" ++ author

/-- The terms of its use. -/
def terms : String :=
"This is free software. You may redistribute copies of it under the terms of
the GNU General Public License <https://www.gnu.org/licenses/gpl.html>.
There is NO WARRANTY, to the extent permitted by law."

end Unroll.Command
