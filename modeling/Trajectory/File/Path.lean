import Trajectory.File.Fault

namespace Trajectory

structure Path where
  fromRoot : Bool
  names : List String
  /-- Whether a slash comes last, which asks for a directory. -/
  endsInSlash : Bool
deriving Repr, DecidableEq

namespace Path

/-- Paths of this many bytes are too long. -/
def sizeLimit : Nat := 4096

def maxNameSize : Nat := 255

/-- The names between the slashes of a path. Slashes without a name between them count as one. -/
def namesOf (path : String) : List String :=
  ((path.split fun c => c == '/').toList.map fun name => name.toString).filter
    fun name => !name.isEmpty

def ofText (path : String) : Except FileFault Path :=
  if path.contains '\x00' then .error .nulInPath
  else if path.isEmpty then .error .notFound
  else if sizeLimit ≤ path.utf8ByteSize then .error .nameTooLong
  else .ok ⟨path.startsWith "/", namesOf path, path.endsWith "/"⟩

def checkName (name : String) : Except FileFault Unit :=
  if maxNameSize < name.utf8ByteSize then .error .nameTooLong else .ok ()

end Path

/-- A directory: the names that lead to it from the root, the last one first. -/
structure Directory where
  names : List String
deriving Repr, DecidableEq

namespace Directory

def root : Directory := ⟨[]⟩

/-- The directory above. The root is above itself. -/
def parent (d : Directory) : Directory := ⟨d.names.tail⟩

def child (d : Directory) (name : String) : Directory := ⟨name :: d.names⟩

/-- The directory at the end of a path from the root. -/
def ofText (path : String) : Directory := ⟨(Path.namesOf path).reverse⟩

/-- The beginning of the paths to what the directory holds. -/
def opening (d : Directory) : String :=
  d.names.foldl (fun path name => "/" ++ name ++ path) "/"

def isAbove (d e : Directory) : Bool := d.names.isSuffixOf e.names

end Directory

structure Location where
  directory : Directory
  name : String
deriving Repr, DecidableEq

def Location.path (l : Location) : String := l.directory.opening ++ l.name

end Trajectory
