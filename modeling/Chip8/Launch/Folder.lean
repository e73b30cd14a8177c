import Chip8.Loading

/-! # Folders of program images

A folder holds images under relative paths. Reading a path walks it name by name
and gives the image at its end, or the reason why there is none. Nothing is known
of what lies outside the folder but that folders lead up to it.
-/

namespace Chip8.Launch

/-- Images with the names that lead to them. -/
structure Folder where
  files : List (List String × Array UInt8)

inductive ReadFailure where
  | notFound
  | notFolder
  | isFolder
  | nameTooLong
  deriving DecidableEq, Repr

def ReadFailure.message : ReadFailure → String
  | notFound => "No such file or directory (os error 2)"
  | notFolder => "Not a directory (os error 20)"
  | isFolder => "Is a directory (os error 21)"
  | nameTooLong => "File name too long (os error 36)"

namespace Folder

def names (path : String) : List String := path.splitOn "/"

def stays (name : String) : Bool := name = "" || name = "."

def walkOutside : List String → ReadFailure
  | [] => .isFolder
  | name :: rest =>
    if stays name || name = ".." then walkOutside rest
    else if 255 < name.utf8ByteSize then .nameTooLong
    else .notFound

def walk (f : Folder) (place : List String) : List String → Except ReadFailure (Array UInt8)
  | [] => .error .isFolder
  | name :: rest =>
    if stays name then f.walk place rest
    else if name = ".." then
      if place.isEmpty then .error (walkOutside rest) else f.walk place.dropLast rest
    else if 255 < name.utf8ByteSize then .error .nameTooLong
    else
      let next := place ++ [name]
      match f.files.lookup next with
      | some image => if rest.isEmpty then .ok image else .error .notFolder
      | none =>
        if f.files.any fun file => next.isPrefixOf file.1 then f.walk next rest
        else .error .notFound

/-- What reading a path gives, with the wording of a failure. -/
def read (f : Folder) (path : String) : Reading :=
  Except.mapError ReadFailure.message <|
    if path = "" then .error .notFound
    else if 4095 < path.utf8ByteSize then .error .nameTooLong
    else if path.startsWith "/" then .error (walkOutside (names path))
    else f.walk [] (names path)

end Folder

end Chip8.Launch
