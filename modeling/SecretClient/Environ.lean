import SecretClient.Event
import SecretClient.FileSystem

/-!
# The environment

Variables, and settings that are given by a variable or by a file that another variable names. An
empty value counts as unset, and so does a file that cannot be read or holds only blanks.
-/

namespace SecretClient

/-- The value of each variable that is set. -/
abbrev Environ := String → Option String

namespace Environ

/-- The environment that a list of variables gives. -/
def ofList (given : List (String × String)) : Environ := fun name => given.lookup name

/-- The value of a variable, if it is not empty. -/
def nonEmpty? (env : Environ) (name : String) : Option String :=
  (env name).filter (!·.isEmpty)

/-- The text of the file that a variable names. A file that cannot be read is told of. -/
def fileSetting (env : Environ) (files : FileSystem) (name : String) : Logged (Option String) :=
  match env name with
  | none => pure none
  | some path =>
    match files.trimmed path with
    | .ok t => pure t
    | .error e => do
      Logged.emit (.fileUnreadable name path e.message)
      return none

/-- The setting with a name: the value of the variable, or else the text of the file that the
variable with `_FILE` behind its name names. -/
def setting (env : Environ) (files : FileSystem) (name : String) : Logged (Option String) :=
  match env.nonEmpty? name with
  | some value => pure (some value)
  | none => env.fileSetting files (name ++ "_FILE")

end Environ

end SecretClient
