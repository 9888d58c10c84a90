import Trajectory.File.Device

namespace Trajectory

/-- Of directories there are the usual ones and those that lead to the working directory. What goes to a
standard stream is kept apart from the files. -/
structure FileTree where
  /-- A directory of its own among the temporary ones, if nothing else is said. -/
  working : Directory := .ofText "/tmp/work"
  files : List (Location × ByteArray) := []
  printed : String := ""
  complained : String := ""

namespace FileTree

def get? (t : FileTree) (l : Location) : Option ByteArray :=
  (t.files.find? fun file => file.1 == l).map Prod.snd

def put (t : FileTree) (l : Location) (content : ByteArray) : FileTree :=
  { t with files := t.files.filter (fun file => file.1 != l) ++ [(l, content)] }

def putHere (t : FileTree) (name : String) (content : ByteArray) : FileTree :=
  t.put ⟨t.working, name⟩ content

def usualDirectories : List Directory :=
  ["/bin", "/boot", "/dev", "/dev/pts", "/dev/shm", "/etc", "/home", "/lib", "/media", "/mnt",
   "/opt", "/proc", "/proc/self", "/proc/self/fd", "/root", "/run", "/sbin", "/srv", "/sys",
   "/tmp", "/usr", "/usr/bin", "/usr/lib", "/usr/local", "/usr/sbin", "/usr/share", "/var",
   "/var/lib", "/var/log", "/var/tmp"].map Directory.ofText

def isDirectory (t : FileTree) (d : Directory) : Bool :=
  d.isAbove t.working || usualDirectories.contains d

/-- The names that lead to a directory elsewhere. -/
def links (t : FileTree) : List (Location × Directory) :=
  [(⟨Device.directory, "fd"⟩, Device.openFiles), (⟨Device.process, "cwd"⟩, t.working),
   (⟨Device.process, "root"⟩, .root)]

/-- The directory that a name leads to from another, if it leads to one. -/
def directory? (t : FileTree) (d : Directory) (name : String) : Option Directory :=
  if name = "." then some d
  else if name = ".." then some d.parent
  else if t.isDirectory (d.child name) then some (d.child name)
  else t.links.lookup ⟨d, name⟩

/-- Goes from a directory to the one that a name leads to. -/
def enter (t : FileTree) (d : Directory) (name : String) : Except FileFault Directory :=
  match t.directory? d name with
  | some e => pure e
  | none => do
    Path.checkName name
    let l : Location := ⟨d, name⟩
    throw (if (t.get? l).isSome || (Device.at? l).isSome then .notDirectory else .notFound)

/-- Where names lead from a directory: to a location, or to a directory itself. -/
def follow (t : FileTree) (d : Directory) : List String → Except FileFault (Directory ⊕ Location)
  | [] => .ok (.inl d)
  | [name] =>
    match t.directory? d name with
    | some e => .ok (.inl e)
    | none => .ok (.inr ⟨d, name⟩)
  | name :: names => do
    let e ← t.enter d name
    t.follow e names

/-- The location that a path leads to. A directory has no content to be read or written. -/
def locate (t : FileTree) (p : Path) : Except FileFault Location := do
  match ← t.follow (if p.fromRoot then .root else t.working) p.names with
  | .inl _ => throw .isDirectory
  | .inr l => pure l

def send (t : FileTree) (content : String) : Device → Except FileFault FileTree
  | .null | .endless | .standardInput => .ok t
  | .full => if content.isEmpty then .ok t else .error .noSpace
  | .terminal => .error .noDevice
  | .standardOutput => .ok { t with printed := t.printed ++ content }
  | .standardError => .ok { t with complained := t.complained ++ content }

/-- Whether a location can hold a file. The processes take no files among them. -/
def takesFile (l : Location) : Bool := !(Directory.ofText "/proc").isAbove l.directory

/-- The location that is written to at a path. -/
def target (t : FileTree) (path : String) : Except FileFault Location := do
  let p ← Path.ofText path
  let l ← t.locate p
  if p.endsInSlash then throw .isDirectory
  Path.checkName l.name
  pure l

def store (t : FileTree) (content : String) (l : Location) : Except FileFault FileTree :=
  match Device.at? l with
  | some device => t.send content device
  | none => if takesFile l then .ok (t.put l content.toUTF8) else .error .notFound

/-- Writes a file, new or instead of the old one. -/
def write (t : FileTree) (path content : String) : Except FileFault FileTree := do
  let l ← t.target path
  t.store content l

/-- Makes an empty file at a path: where it is, and the files with it. -/
def create (t : FileTree) (path : String) : Except FileFault (Location × FileTree) := do
  let l ← t.target path
  let u ← t.store "" l
  pure (l, u)

/-- Writes over the content of a file from an offset on. What is left out before it is zero. -/
def overwrite (content : ByteArray) (offset : Nat) (new : ByteArray) : ByteArray :=
  if new.isEmpty then content
  else
    let padded := content ++ ⟨Array.replicate (offset - content.size) 0⟩
    padded.extract 0 offset ++ new ++ padded.extract (offset + new.size) padded.size

/-- Writes to a location that is open, from an offset on. A device may refuse it. -/
def writeFrom (t : FileTree) (l : Location) (offset : Nat) (text : String) : FileTree :=
  match Device.at? l with
  | some device => (t.send text device).toOption.getD t
  | none => t.put l (overwrite ((t.get? l).getD .empty) offset text.toUTF8)

/-- The device or the content that a path leads to. -/
def find (t : FileTree) (path : String) : Except FileFault (Device ⊕ ByteArray) := do
  let p ← Path.ofText path
  let l ← t.locate p
  Path.checkName l.name
  let found : Device ⊕ ByteArray ← match Device.at? l, t.get? l with
    | some device, _ => pure (.inl device)
    | none, some content => pure (.inr content)
    | none, none => throw .notFound
  if p.endsInSlash then throw .notDirectory
  pure found

def fetch (t : FileTree) (path : String) : Except FileFault ByteArray := do
  match ← t.find path with
  | .inl device => device.content
  | .inr content => pure content

def read (t : FileTree) (path : String) : Except FileFault String := do
  let content ← t.fetch path
  match String.fromUTF8? content with
  | some s => pure s
  | none => throw .invalidText

/-- The size of a file, zero for a device. -/
def size? (t : FileTree) (path : String) : Option Nat :=
  match t.find path with
  | .ok (.inl _) => some 0
  | .ok (.inr content) => some content.size
  | .error _ => none

end FileTree

end Trajectory
