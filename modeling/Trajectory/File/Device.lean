import Trajectory.File.Path

namespace Trajectory

inductive Device where
  /-- Takes everything, and has nothing to be read. -/
  | null
  /-- Takes everything, and can be read without end. -/
  | endless
  /-- Has no room for anything that is written to it, and can be read without end. -/
  | full
  /-- The terminal of a program that has none. -/
  | terminal
  | standardInput
  | standardOutput
  | standardError
deriving Repr, DecidableEq

namespace Device

def directory : Directory := .ofText "/dev"

/-- The directory of the program itself among the processes. -/
def process : Directory := .ofText "/proc/self"

/-- The directory of the open files of the program, by their numbers. -/
def openFiles : Directory := .ofText "/proc/self/fd"

def all : List (Location × Device) :=
  [(⟨directory, "null"⟩, null), (⟨directory, "zero"⟩, endless), (⟨directory, "random"⟩, endless),
   (⟨directory, "urandom"⟩, endless), (⟨directory, "full"⟩, full), (⟨directory, "tty"⟩, terminal),
   (⟨directory, "stdin"⟩, standardInput), (⟨directory, "stdout"⟩, standardOutput),
   (⟨directory, "stderr"⟩, standardError), (⟨openFiles, "0"⟩, standardInput),
   (⟨openFiles, "1"⟩, standardOutput), (⟨openFiles, "2"⟩, standardError)]

def at? (l : Location) : Option Device := all.lookup l

/-- What can be read from a device. Nothing waits to be read in the standard streams. -/
def content : Device → Except FileFault ByteArray
  | endless | full => .error .outOfMemory
  | terminal => .error .noDevice
  | null | standardInput | standardOutput | standardError => .ok ByteArray.empty

end Device

end Trajectory
