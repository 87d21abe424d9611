namespace TapeC.Command

/-- Why a path cannot be read or written. -/
inductive PathError where
  | notFound
  | denied
  | notADirectory
  | isADirectory
  | nameTooLong
deriving DecidableEq, Repr

def PathError.message : PathError → String
  | .notFound => "No such file or directory (os error 2)"
  | .denied => "Permission denied (os error 13)"
  | .notADirectory => "Not a directory (os error 20)"
  | .isADirectory => "Is a directory (os error 21)"
  | .nameTooLong => "File name too long (os error 36)"

/-- The names from the working directory down to a file. -/
abbrev Location := List String

/-- Files with their contents. -/
structure Files where
  entries : List (Location × List UInt8) := []
deriving DecidableEq, Repr

/-- A directory on the way of a path: the one at a location, or one above the working directory. -/
inductive Directory where
  | at (location : Location)
  | above
deriving DecidableEq, Repr

/-- The directory that holds a directory. -/
def Directory.parent : Directory → Directory
  | .at [] => .above
  | .at location => .at location.dropLast
  | .above => .above

/-- Where a path leads. -/
inductive Place where
  | file (location : Location) (content : List UInt8)
  | directory
  | vacant (location : Location)
deriving DecidableEq, Repr

namespace Files

def content? (files : Files) (location : Location) : Option (List UInt8) :=
  files.entries.lookup location

/-- Whether a location is a directory. The working directory always is. -/
def isDirectory (files : Files) (location : Location) : Bool :=
  location.isEmpty || files.entries.any fun (other, _) =>
    location.isPrefixOf other && other != location

/-- The most bytes in a name and in a path. -/
def maxName : Nat := 255

def maxPath : Nat := 4095

/-- Follows names from a directory. -/
def follow (files : Files) : Directory → List String → Except PathError Place
  | _, [] => .ok .directory
  | directory, "." :: rest => follow files directory rest
  | directory, ".." :: rest => follow files directory.parent rest
  | directory, name :: rest =>
    if maxName < name.utf8ByteSize then .error .nameTooLong
    else
      match directory with
      | .above => .error .notFound
      | .at location =>
        let location := location ++ [name]
        match files.content? location with
        | some content =>
          if rest.isEmpty then .ok (.file location content) else .error .notADirectory
        | none =>
          if files.isDirectory location then follow files (.at location) rest
          else if rest.isEmpty then .ok (.vacant location)
          else .error .notFound

/-- The names of a path. -/
def names (path : String) : List String :=
  ((path.toList.splitOn '/').filter (!·.isEmpty)).map String.ofList

/-- Whether a path ends in a slash, as only that of a directory may. -/
def endsInSlash (path : String) : Bool := path.toList.getLast? == some '/'

/-- Where the path with some names leads, from the root if it begins with a slash. -/
def locate (files : Files) (path : String) (names : List String) : Except PathError Place :=
  if maxPath < path.utf8ByteSize then .error .nameTooLong
  else files.follow (if path.toList.head? == some '/' then .above else .at []) names

/-- The content of the file at a path. -/
def read (files : Files) (path : String) : Except PathError (List UInt8) :=
  match files.locate path (names path) with
  | .error error => .error error
  | .ok (.file _ content) => if endsInSlash path then .error .notADirectory else .ok content
  | .ok .directory => .error .isADirectory
  | .ok (.vacant _) => .error .notFound

/-- The files with new content at a location. -/
def put (files : Files) (location : Location) (content : List UInt8) : Files :=
  ⟨(location, content) :: files.entries.filter fun (other, _) => other != location⟩

/-- Writes the file at a path, a new one or over an old one. A path that ends in a slash is one of a
directory, whatever its last name, if that name can be looked for at all. -/
def write (files : Files) (path : String) (content : List UInt8) : Except PathError Files :=
  if endsInSlash path then
    match files.locate path (names path).dropLast with
    | .error error => .error error
    | .ok .directory => .error .isADirectory
    | .ok (.file _ _) => .error .notADirectory
    | .ok (.vacant _) => .error .notFound
  else
    match files.locate path (names path) with
    | .error error => .error error
    | .ok .directory => .error .isADirectory
    | .ok (.file location _) => .ok (files.put location content)
    | .ok (.vacant location) => .ok (files.put location content)

/-- The files that are new or have changed. -/
def changes (before after : Files) : List (Location × List UInt8) :=
  after.entries.filter fun (location, content) => before.content? location != some content

end Files

/-- A path with what follows the last dot of its file name replaced, or added if there is no such
dot; a dot at the start of the name does not count. A path that ends in no file name stays as it is,
and a name of two dots and an extension loses the extension and leads to the directory above. -/
def withExtension (path extension : String) : String :=
  let cs := path.toList.reverse
  let name := (cs.takeWhile (· != '/')).reverse
  let directory := (cs.dropWhile (· != '/')).reverse
  let stem := ((name.reverse.dropWhile (· != '.')).drop 1).reverse
  if name == [] || name == ['.'] || name == ['.', '.'] then path
  else if stem == [] then path ++ "." ++ extension
  else if stem == ['.'] then String.ofList (directory ++ ['.', '.'])
  else String.ofList (directory ++ stem) ++ "." ++ extension

end TapeC.Command
