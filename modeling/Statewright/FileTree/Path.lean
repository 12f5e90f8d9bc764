import Statewright.Text.Ascii

/-!
# Paths

A path is written as names between slashes. `.` stays in a directory and `..` goes to the one around
it; repeated slashes count as one, and a slash at the end asks for a directory.
-/

namespace Statewright

inductive FileError where
  | notFound
  | busy
  | notDirectory
  | isDirectory
  | noSpace
  | nameTooLong
  | nulInName
  /-- What is read has no end. -/
  | outOfMemory
  deriving DecidableEq, Repr

def FileError.message : FileError → String
  | notFound => "No such file or directory (os error 2)"
  | busy => "Device or resource busy (os error 16)"
  | notDirectory => "Not a directory (os error 20)"
  | isDirectory => "Is a directory (os error 21)"
  | noSpace => "No space left on device (os error 28)"
  | nameTooLong => "File name too long (os error 36)"
  | nulInName => "file name contained an unexpected NUL byte"
  | outOfMemory => "out of memory"

structure Path where
  /-- Whether it begins at the root, and not at the working directory. -/
  absolute : Bool
  /-- The names between its slashes. -/
  names : List String
  slash : Bool
  deriving DecidableEq, Repr

namespace Path

/-- The parts between the slashes of a text, empty parts included. -/
def parts (raw : String) : List String :=
  (raw.toList.splitOnP (· = '/')).map String.ofList

def maxName : Nat := 255

def maxPath : Nat := 4096

def parse (raw : String) : Except FileError Path :=
  if '\x00' ∈ raw.toList then .error .nulInName
  else if raw = "" then .error .notFound
  else if maxPath ≤ raw.utf8ByteSize then .error .nameTooLong
  else .ok {
    absolute := raw.toList.head? = some '/'
    names := (parts raw).filter (· ≠ "")
    slash := raw.toList.getLast? = some '/' }

/-- The parts up to the name of the file that a path leads to, that name first. Slashes and `.` at
the end do not count. -/
def partsBack (raw : String) : List String :=
  (parts raw).reverse.dropWhile (fun p => p = "" || p = ".")

/-- The name of the file that a path leads to, if its last part is one. -/
def fileName? (raw : String) : Option String :=
  match (partsBack raw).head? with
  | some ".." => none
  | name => name

/-- The path with an extension more, if its last part is the name of a file. -/
def addExtension? (raw extension : String) : Option String := do
  let name ← fileName? raw
  return "/".intercalate ((name ++ "." ++ extension) :: (partsBack raw).tail).reverse

/-- What follows the last point of a file's name. A point in front begins no extension. -/
def extension? (raw : String) : Option String := do
  let name ← fileName? raw
  match (name.toList.splitOnP (· = '.')).reverse with
  | last :: before :: rest =>
    if rest = [] && before = [] then none else some (String.ofList last)
  | _ => none

end Path

end Statewright
