/-! A tree of files, and what opening a path in it comes to. -/

namespace PostfixSheet

inductive PathFault
  | notFound
  | notADirectory
  | isADirectory
  | noSpaceLeft
  | nameTooLong
  deriving DecidableEq, Repr

def PathFault.message : PathFault → String
  | .notFound => "No such file or directory (os error 2)"
  | .notADirectory => "Not a directory (os error 20)"
  | .isADirectory => "Is a directory (os error 21)"
  | .noSpaceLeft => "No space left on device (os error 28)"
  | .nameTooLong => "File name too long (os error 36)"

abbrev Place := List String

def rootDirectories : List String :=
  ["bin", "boot", "dev", "etc", "home", "lib", "media", "mnt", "opt", "proc", "root", "run", "sbin", "srv",
    "sys", "tmp", "usr", "var"]

def standardOutput : Place := ["dev", "stdout"]

def standardError : Place := ["dev", "stderr"]

/-- The devices that read as empty and keep nothing of what is written to them. -/
def emptyDevices : List Place :=
  [["dev", "null"], ["dev", "stdin"], standardOutput, standardError]

def fullDevice : Place := ["dev", "full"]

/-- The files, each under its place, and the directory in which a path begins that has no slash in front.
Directories, apart from those that are always there, are the places on the way to a file. -/
structure Files where
  entries : List (Place × List UInt8)
  workingDirectory : Place

namespace Files

def content? (files : Files) (place : Place) : Option (List UInt8) :=
  if emptyDevices.contains place then some [] else files.entries.lookup place

def isDirectory (files : Files) (place : Place) : Bool :=
  place.isPrefixOf files.workingDirectory || rootDirectories.any (place == [·]) ||
    files.entries.any fun entry => place.isPrefixOf entry.1 && place.length != entry.1.length

/-- Follows names from a place. Every place that a name is looked up in has to be a directory, and a name
has at most 255 bytes. The directory above the root is the root. -/
def walk (files : Files) : Place → List String → Except PathFault Place
  | place, [] => .ok place
  | place, name :: rest =>
      if (files.content? place).isSome then .error .notADirectory
      else if !files.isDirectory place then .error .notFound
      else if name = "" ∨ name = "." then files.walk place rest
      else if name = ".." then files.walk place.dropLast rest
      else if 255 < name.utf8ByteSize then .error .nameTooLong
      else files.walk (place ++ [name]) rest

def pathNames (path : String) : List String :=
  (path.toList.splitOnP (· == '/')).map String.ofList

/-- The names to follow for a path that is to be written. With a slash at its end it can only be a
directory, and its last name is not even looked up. -/
def writtenNames (path : String) : List String :=
  let names := pathNames path
  if names.getLast? = some "" then
    ((names.reverse.dropWhile (· == "")).drop 1).reverse ++ ["."]
  else names

def follow (files : Files) (path : String) (names : List String) : Except PathFault Place :=
  if path = "" then .error .notFound
  else if 4096 ≤ path.utf8ByteSize then .error .nameTooLong
  else files.walk (if path.toList.head? = some '/' then [] else files.workingDirectory) names

def read (files : Files) (path : String) : Except PathFault (List UInt8) :=
  match files.follow path (pathNames path) with
  | .error fault => .error fault
  | .ok place =>
      match files.content? place with
      | some bytes => .ok bytes
      | none => .error (if files.isDirectory place then .isADirectory else .notFound)

def put (files : Files) (place : Place) (bytes : List UInt8) : Files :=
  if emptyDevices.contains place then files
  else { files with
    entries := (place, bytes) :: files.entries.filter fun entry => entry.1 != place }

def write (files : Files) (path : String) (bytes : List UInt8) : Except PathFault Files :=
  match files.follow path (writtenNames path) with
  | .error fault => .error fault
  | .ok place =>
      if files.isDirectory place then .error .isADirectory
      else if place = fullDevice ∧ bytes ≠ [] then .error .noSpaceLeft
      else .ok (files.put place bytes)

def ofList (entries : List (String × List UInt8))
    (workingDirectory : Place := ["tmp", "work"]) : Files :=
  ⟨entries.map fun entry => (workingDirectory ++ pathNames entry.1, entry.2), workingDirectory⟩

end Files

end PostfixSheet
