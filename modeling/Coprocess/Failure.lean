import Coprocess.Errno
import Coprocess.Termination
import Coprocess.Text.Base64
import Coprocess.Text.Quoted
import Coprocess.Text.Utf8

/-!
# Failures

Every failure is a cause; its wording is one function.

* `IoError`: reading, writing or opening failed;
* `Malformation`: why an input unit cannot be described;
* `Misuse`: why an argument is refused;
* `Failure`: what ends a run, with `Failure.message` and `Failure.source?`, the wording of the cause
  beneath it.
-/

namespace Coprocess

/-- Why reading, writing or opening failed. -/
inductive IoError
  | os (errno : Errno)
  /-- An argument with a zero byte at `position`. -/
  | nulByte (position : Nat)
  /-- A compressed member ends in its header or its trailer. -/
  | unexpectedEnd
  | badMemberHeader
  /-- A name or a comment in the header of a member. -/
  | longHeaderText
  | badChecksum
  /-- The data of a compressed member end too early. -/
  | incompleteData
  | corruptData
  deriving DecidableEq

/-- The wording of an input or output error. -/
def IoError.message : IoError → String
  | os errno => errno.describe
  | nulByte position => "nul byte found in provided data at position: " ++ toString position
  | unexpectedEnd => "unexpected end of file"
  | badMemberHeader => "invalid gzip header"
  | longHeaderText => "gzip header field too long"
  | badChecksum => "corrupt gzip stream does not have a matching checksum"
  | incompleteData => "incomplete deflate stream"
  | corruptData => "corrupt deflate stream"

/-- Why a unit of the input cannot be described. -/
inductive Malformation
  | base64 (fault : Base64.Fault)
  | utf8 (fault : Utf8.Fault)
  /-- A record that starts with another line than its version. -/
  | version (line : Bytes)
  | endInHeader
  | twoLengths
  | badLength (line : Bytes)
  | noLength
  | endInContent (length : Nat)
  | missingRecordEnd
  | note (text : String)

/-- The wording of a malformation. -/
def Malformation.message : Malformation → String
  | base64 fault => "invalid base64: " ++ fault.note
  | utf8 fault => "not UTF-8: " ++ fault.note
  | version line => "expected WARC/1.0 header but got " ++ Text.quote (Utf8.lossy line)
  | endInHeader => "WARC ended in header"
  | twoLengths => "two Content-Length headers"
  | badLength line => "Content-Length parse error in " ++ Text.quote (Utf8.lossy line)
  | noLength => "no Content-Length header"
  | endInContent length =>
    "end of file while reading content of length " ++ toString length
  | missingRecordEnd => "end of WARC record missing CRLF CRLF"
  | note text => text

/-- What is wrong with a part of a field list. -/
inductive FieldFault
  | notANumber
  | zero
  | emptyRange
  deriving DecidableEq

/-- The wording of a fault in a field list. -/
def FieldFault.message : FieldFault → String
  | notANumber => "expected a field number"
  | zero => "fields are numbered from 1"
  | emptyRange => "empty range"

/-- Why an argument is refused. -/
inductive Misuse
  | field (part : List Char) (fault : FieldFault)
  | overlappingFields (list : List Char)
  | zeroWidth
  | zeroFlushInterval
  | noCommand
  | emptyCommandLine
  | noWorkers
  | note (text : String)

/-- The wording of a misuse. -/
def Misuse.message : Misuse → String
  | field part fault => "field " ++ Text.quote part ++ ": " ++ fault.message
  | overlappingFields list => "overlapping field ranges in " ++ Text.quote list
  | zeroWidth => "wrap width must be at least 1"
  | zeroFlushInterval => "flush interval must be at least 1"
  | noCommand => "no command given"
  | emptyCommandLine => "empty command line"
  | noWorkers => "a pool needs at least one worker"
  | note text => text

/-- What ends a run. -/
inductive Failure
  | launch (program : String) (cause : IoError)
  /-- A child failed. The number of a child is not always known. -/
  | childExit (pid : Option Int) (reason : Termination)
  /-- The child stopped writing while `unit` still expected lines. -/
  | underProduction (unit : Nat)
  /-- The child wrote what no unit asked for. -/
  | overProduction (unit : Nat)
  | malformed (unit : Nat) (cause : Malformation)
  /-- The other side of the unit queue is gone. -/
  | queueClosed
  | threadPanicked (stage : String)
  | invalidArgument (cause : Misuse)
  | io (cause : IoError)
  | system (errno : Errno)

namespace Failure

/-- The wording of a failure. -/
def message : Failure → String
  | launch program cause => "failed to launch " ++ program ++ ": " ++ cause.message
  | childExit pid reason =>
    "child process " ++ (pid.map toString).getD "<pid>" ++ " " ++ reason.describe
  | underProduction unit =>
    "sub-process stopped producing while expecting more output for unit " ++ toString unit
  | overProduction unit =>
    "sub-process is producing more output than it was given input at unit " ++ toString unit
  | malformed unit cause =>
    "malformed input at unit " ++ toString unit ++ ": " ++ cause.message
  | queueClosed => "unit queue closed before end-of-stream"
  | threadPanicked stage => stage ++ " thread panicked"
  | invalidArgument cause => "invalid argument: " ++ cause.message
  | io cause => "IO error: " ++ cause.message
  | system errno => "system call failed: " ++ errno.explain

/-- The wording of the cause beneath a failure. -/
def source? : Failure → Option String
  | launch _ cause => some cause.message
  | io cause => some cause.message
  | system errno => some errno.explain
  | _ => none

/-- A write whose reader is gone. -/
def isBrokenPipe : Failure → Bool
  | io cause => cause = .os .pipe
  | system errno => errno = .pipe
  | _ => false

/-- The child answered too few or too many lines. -/
def isProtocolViolation : Failure → Bool
  | underProduction _ => true
  | overProduction _ => true
  | _ => false

end Failure

end Coprocess
