/-!
# System error numbers

* `Errno`: the error numbers that system calls answer here;
* `Errno.number`, `Errno.ofNumber?`: their values;
* `Errno.describe`: the C library's wording; `Errno.explain`: the name and the kernel's wording.
-/

namespace Coprocess

/-- What a system call failed with. -/
inductive Errno
  | perm | noEntry | noProcess | interrupted | io | tooBig | noExec | badFile | noChild | again
  | noMemory | access | fileExists | notDirectory | isDirectory | invalid | tooManyFiles | noSpace
  | pipe | nameTooLong | loop
  deriving DecidableEq

namespace Errno

/-- Every error number. -/
def all : List Errno :=
  [perm, noEntry, noProcess, interrupted, io, tooBig, noExec, badFile, noChild, again, noMemory,
    access, fileExists, notDirectory, isDirectory, invalid, tooManyFiles, noSpace, pipe,
    nameTooLong, loop]

/-- The number, the name, the kernel's wording and the C library's wording of an error. -/
def record : Errno → Nat × String × String × String
  | perm => (1, "EPERM", "Operation not permitted", "Operation not permitted")
  | noEntry => (2, "ENOENT", "No such file or directory", "No such file or directory")
  | noProcess => (3, "ESRCH", "No such process", "No such process")
  | interrupted => (4, "EINTR", "Interrupted system call", "Interrupted system call")
  | io => (5, "EIO", "I/O error", "Input/output error")
  | tooBig => (7, "E2BIG", "Argument list too long", "Argument list too long")
  | noExec => (8, "ENOEXEC", "Exec format error", "Exec format error")
  | badFile => (9, "EBADF", "Bad file number", "Bad file descriptor")
  | noChild => (10, "ECHILD", "No child processes", "No child processes")
  | again => (11, "EAGAIN", "Try again", "Resource temporarily unavailable")
  | noMemory => (12, "ENOMEM", "Out of memory", "Cannot allocate memory")
  | access => (13, "EACCES", "Permission denied", "Permission denied")
  | fileExists => (17, "EEXIST", "File exists", "File exists")
  | notDirectory => (20, "ENOTDIR", "Not a directory", "Not a directory")
  | isDirectory => (21, "EISDIR", "Is a directory", "Is a directory")
  | invalid => (22, "EINVAL", "Invalid argument", "Invalid argument")
  | tooManyFiles => (24, "EMFILE", "Too many open files", "Too many open files")
  | noSpace => (28, "ENOSPC", "No space left on device", "No space left on device")
  | pipe => (32, "EPIPE", "Broken pipe", "Broken pipe")
  | nameTooLong => (36, "ENAMETOOLONG", "File name too long", "File name too long")
  | loop =>
    (40, "ELOOP", "Too many symbolic links encountered", "Too many levels of symbolic links")

/-- The value of an error. -/
def number (e : Errno) : Nat := e.record.1

/-- The error with a value. -/
def ofNumber? (n : Nat) : Option Errno := all.find? (·.number = n)

/-- The name of an error and the kernel's wording. -/
def explain (e : Errno) : String := e.record.2.1 ++ ": " ++ e.record.2.2.1

/-- The C library's wording of an error and its value. -/
def describe (e : Errno) : String :=
  e.record.2.2.2 ++ " (os error " ++ toString e.number ++ ")"

end Errno

end Coprocess
