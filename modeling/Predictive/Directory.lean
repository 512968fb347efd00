/-!
Contract: files in memory, found by paths.

Owns: where a path leads, what stands in the way of reading or writing there, which of
several obstacles is named, and a working directory with its files.
Does not own: what is read or written, and files of the system.

A path is followed name by name, and each name is looked up in a directory that is there,
so the first obstacle on the way is the one that is named. Before that the path as a whole
has to be acceptable: no NUL in it, not too long, not empty.
-/

namespace Predictive

/-- Why a file cannot be read or written. -/
inductive FileProblem where
  | notFound
  | isDirectory
  | notDirectory
  | nameTooLong
  | nulInName
  | notText
  | other (message : String)
deriving DecidableEq, Repr

def FileProblem.message : FileProblem → String
  | .notFound => "No such file or directory (os error 2)"
  | .isDirectory => "Is a directory (os error 21)"
  | .notDirectory => "Not a directory (os error 20)"
  | .nameTooLong => "File name too long (os error 36)"
  | .nulInName => "file name contained an unexpected NUL byte"
  | .notText => "stream did not contain valid UTF-8"
  | .other message => message

/-- Where a path sets out from. -/
inductive Origin where
  | root
  /-- The directory so many levels above the working directory. -/
  | above (levels : Nat)
deriving DecidableEq, Repr

/-- A place for a file or a directory, whether there is one or not. -/
structure Place where
  origin : Origin
  /-- The names down from the origin. -/
  names : List String
deriving DecidableEq, Repr

namespace Place

def working : Place := ⟨.above 0, []⟩

def child (place : Place) (name : String) : Place :=
  { place with names := place.names ++ [name] }

/-- The directory around a place; the root is its own. -/
def parent (place : Place) : Place :=
  match place.names, place.origin with
  | _ :: _, _ => { place with names := place.names.dropLast }
  | [], .root => place
  | [], .above levels => ⟨.above (levels + 1), []⟩

/-- The place one name further on; a dot stays, two dots go up. -/
def towards (place : Place) (name : String) : Place :=
  if name = "." then place else if name = ".." then place.parent else place.child name

/-- Whether the first place is a directory around the second. -/
def encloses (outer inner : Place) : Bool :=
  outer.origin == inner.origin && outer.names.isPrefixOf inner.names
    && decide (outer.names.length < inner.names.length)

end Place

/-- A path cut into its names. -/
structure Path where
  absolute : Bool
  /-- The names in order, single and double dots among them. -/
  names : List String
  /-- A slash behind the last name asks for a directory. -/
  endsInSlash : Bool
deriving DecidableEq, Repr

namespace Path

/-- Bytes in one name, and bytes in a path, at most. -/
def longestName : Nat := 255

def longestPath : Nat := 4095

def ofText (text : String) : Except FileProblem Path :=
  if text.toList.contains '\x00' then .error .nulInName
  else if longestPath < text.utf8ByteSize then .error .nameTooLong
  else if text.isEmpty then .error .notFound
  else .ok
    { absolute := text.startsWith "/"
      names := (text.splitOn "/").filter fun name => !name.isEmpty
      endsInSlash := text.endsWith "/" }

def origin (path : Path) : Place :=
  if path.absolute then ⟨.root, []⟩ else .working

end Path

/-- The files that are there, as bytes, each at its place. -/
structure Directory where
  files : List (Place × ByteArray)

namespace Directory

def bytes? (directory : Directory) (place : Place) : Option ByteArray :=
  (directory.files.find? fun (file, _) => file == place).map Prod.snd

/-- Directories are the origins and whatever encloses a file. -/
def isDirectory (directory : Directory) (place : Place) : Bool :=
  place.names.isEmpty || directory.files.any fun (file, _) => place.encloses file

/-- Goes into a directory, to look up a name there. -/
def enter (directory : Directory) (place : Place) : Except FileProblem Unit :=
  if directory.isDirectory place then .ok ()
  else if (directory.bytes? place).isSome then .error .notDirectory
  else .error .notFound

/-- Looks up one name in a directory. -/
def lookUp (directory : Directory) (place : Place) (name : String) :
    Except FileProblem Place := do
  directory.enter place
  if Path.longestName < name.utf8ByteSize then throw .nameTooLong
  return place.towards name

/-- Follows names to a place, which need not hold anything. -/
def follow (directory : Directory) (place : Place) (names : List String) :
    Except FileProblem Place :=
  names.foldlM directory.lookUp place

/-- Where a path leads for reading. A slash at its end asks for a directory, and a
directory cannot be read. -/
def readText (directory : Directory) (path : String) : Except FileProblem String := do
  let path ← Path.ofText path
  let place ← directory.follow path.origin path.names
  if directory.isDirectory place then throw .isDirectory
  match directory.bytes? place with
  | none => throw .notFound
  | some bytes =>
      if path.endsInSlash then throw .notDirectory
      match String.fromUTF8? bytes with
      | some text => return text
      | none => throw .notText

/-- The directory with one more file, or another text in a file. A slash at the end asks
for a directory whatever the last name is. -/
def writeText (directory : Directory) (path : String) (text : String) :
    Except FileProblem Directory := do
  let path ← Path.ofText path
  if path.endsInSlash then
    let around ← directory.follow path.origin path.names.dropLast
    directory.enter around
    throw .isDirectory
  let place ← directory.follow path.origin path.names
  if directory.isDirectory place then throw .isDirectory
  return ⟨(place, text.toUTF8) :: directory.files.filter fun (file, _) => file ≠ place⟩

/-- A directory with files under the given paths, around each of them the directories that
the path names; what is no path is left out. -/
def ofFiles (files : List (String × ByteArray)) : Directory :=
  ⟨files.filterMap fun (name, bytes) =>
    match Path.ofText name with
    | .ok path => some (path.names.foldl Place.towards path.origin, bytes)
    | .error _ => none⟩

end Directory

end Predictive
