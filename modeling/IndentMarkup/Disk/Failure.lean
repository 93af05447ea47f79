/-! Failures of access to stored files, with the numbers the operating system
gives them. -/
namespace IndentMarkup

inductive AccessFailure
  | notFound
  | alreadyExists
  | notDirectory
  | isDirectory
  | nameTooLong
  | nulInPath
  | invalidEncoding
  | other (description : String)
  deriving DecidableEq, Repr

def AccessFailure.message : AccessFailure → String
  | notFound => "No such file or directory (os error 2)"
  | alreadyExists => "File exists (os error 17)"
  | notDirectory => "Not a directory (os error 20)"
  | isDirectory => "Is a directory (os error 21)"
  | nameTooLong => "File name too long (os error 36)"
  | nulInPath => "file name contained an unexpected NUL byte"
  | invalidEncoding => "stream did not contain valid UTF-8"
  | other description => description

end IndentMarkup
