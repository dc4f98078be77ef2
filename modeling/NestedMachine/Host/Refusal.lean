/-!
# Refusals of a host

A host can refuse a request: the descriptor is not open in the needed way, the
host serves nothing at all, the file does not exist, or the system below refuses
with a numbered cause.
-/

namespace NestedMachine

set_option autoImplicit false

/-- The causes for which a system refuses to touch a file. -/
inductive SystemRefusal where
  | noSuchFile
  | badDescriptor
  | notADirectory
  | isADirectory
  | nameTooLong
  deriving DecidableEq, Repr

namespace SystemRefusal

/-- The number of a cause. -/
def number : SystemRefusal → Nat
  | .noSuchFile => 2
  | .badDescriptor => 9
  | .notADirectory => 20
  | .isADirectory => 21
  | .nameTooLong => 36

/-- The name of a cause. -/
def name : SystemRefusal → String
  | .noSuchFile => "No such file or directory"
  | .badDescriptor => "Bad file descriptor"
  | .notADirectory => "Not a directory"
  | .isADirectory => "Is a directory"
  | .nameTooLong => "File name too long"

/-- The message of a cause. -/
def message (cause : SystemRefusal) : String :=
  cause.name ++ " (os error " ++ toString cause.number ++ ")"

end SystemRefusal

/-- Why a host refused a request. -/
inductive HostRefusal where
  /-- The descriptor is not open, or not open in the needed way. -/
  | badDescriptor (descriptor : Nat)
  /-- The host serves no requests. -/
  | unsupported
  /-- The file that a descriptor or a path names does not exist. -/
  | missing
  /-- A file that has to be text is none. -/
  | notText
  /-- A path holds a zero byte. -/
  | zeroInPath
  /-- A file was to be created or emptied by someone who cannot change it so. -/
  | needsWriter
  /-- The system below refused. -/
  | system (cause : SystemRefusal)
  deriving DecidableEq, Repr

/-- The message of a refusal. -/
def HostRefusal.message : HostRefusal → String
  | .badDescriptor descriptor => "bad file descriptor " ++ toString descriptor
  | .unsupported => "no host i/o at this level"
  | .missing => "entity not found"
  | .notText => "stream did not contain valid UTF-8"
  | .zeroInPath => "file name contained an unexpected NUL byte"
  | .needsWriter => "creating or truncating a file requires write or append access"
  | .system cause => cause.message

end NestedMachine
