/-!
# Failures to read settings

A setting can fail to be read in three ways: its value is not acceptable, the file that holds it
cannot be read, or that file is not written as a settings file has to be.
-/

namespace DeferredCalls

/-- Why the contents of a file could not be obtained as text. -/
inductive FileError
  /-- The path contains the character that ends a file name. -/
  | nulInName
  /-- There is no file at the path. -/
  | notFound
  /-- The path goes on after a file. -/
  | notDirectory
  /-- The path names a directory. -/
  | isDirectory
  /-- The path or one of its components is too long. -/
  | nameTooLong
  /-- The contents are not a text. -/
  | notText
  deriving DecidableEq, Repr

/-- What the failure to read a file says. -/
def FileError.message : FileError → String
  | .nulInName => "file name contained an unexpected NUL byte"
  | .notFound => "No such file or directory (os error 2)"
  | .notDirectory => "Not a directory (os error 20)"
  | .isDirectory => "Is a directory (os error 21)"
  | .nameTooLong => "File name too long (os error 36)"
  | .notText => "stream did not contain valid UTF-8"

/-- Why settings could not be read or applied. -/
inductive ConfigError
  /-- The named setting has a value that is not acceptable. -/
  | invalidValue (setting reason : String)
  /-- The settings file could not be read. -/
  | unreadable (path : String) (cause : FileError)
  /-- The settings file is not well formed, or a value in it has the wrong type, as the complaint of
  its reader says. -/
  | malformed {complaint : String}
  deriving DecidableEq, Repr

namespace ConfigError

/-- What a failure to read settings says. -/
def message : ConfigError → String
  | invalidValue setting reason => "invalid value for " ++ setting ++ ": " ++ reason
  | unreadable path cause => "failed to read config file " ++ path ++ ": " ++ cause.message
  | @malformed complaint => "failed to parse TOML config: " ++ complaint

end ConfigError

end DeferredCalls
