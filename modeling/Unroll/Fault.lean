import Unroll.Text.Charset
import Unroll.Text.Utf8

/-!
# Faults

What can go wrong with a stream or a file, as opposed to a program. All faults but those of an
unannounced kind are expected of streams and are reported as failures of the input or output.
-/

namespace Unroll

/-- What went wrong with a stream or a file. -/
inductive Fault where
  /-- the system reports a failure -/
  | system (message : String)
  /-- the stream cannot do what was asked of it -/
  | improper (message : String)
  /-- a failure of a kind that streams do not announce. The one kind that is not meant is what tells
  that calls are nested too deeply: where a stream itself runs into this limit, reading or writing
  reports that the program is nested too deeply. -/
  | unannounced (message : String)
  /-- the bytes read are no text -/
  | undecodable (refusal : Text.Utf8.Refusal)
  /-- the characters written do not fit -/
  | unencodable (run : Text.Unencodable)
  | noSuchFile (path : String)
  | isDirectory (path : String)
  | notDirectory (path : String)
  /-- a path, or a name in it, is too long -/
  | nameTooLong (path : String)
  /-- the character numbered zero stands in a path -/
  | nulInPath
deriving DecidableEq, Repr

namespace Fault

/-- Whether a fault is expected of streams. -/
def isExpected : Fault → Bool
  | unannounced _ => false
  | _ => true

/-- Whether a fault is the system's. -/
def isSystem : Fault → Bool
  | system _ | noSuchFile _ | isDirectory _ | notDirectory _ | nameTooLong _ => true
  | _ => false

/-- The description of a fault. -/
def message : Fault → String
  | system message | improper message | unannounced message => message
  | undecodable refusal => refusal.message
  | unencodable run => run.message
  | noSuchFile path => "[Errno 2] No such file or directory: " ++ Text.quoted path
  | isDirectory path => "[Errno 21] Is a directory: " ++ Text.quoted path
  | notDirectory path => "[Errno 20] Not a directory: " ++ Text.quoted path
  | nameTooLong path => "[Errno 36] File name too long: " ++ Text.quoted path
  | nulInPath => "embedded null byte"

end Fault

end Unroll
