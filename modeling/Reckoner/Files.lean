import Reckoner.Text.Quoted

/-!
# Files

Paths and the files of a working directory. A location says where a path leads without idle steps
and detours; every step of a path must lead through a directory that is there. Directories are made
with their parents, files are opened for reading or for adding to them.
-/
namespace Reckoner

/-- Steps from the working directory, of which the first may lead up; a slash in front stands for
the root. -/
abbrev Location := List String

/-- A path without empty and idle steps. -/
structure Path where
  /-- Nothing, or the slashes of a path from the root. -/
  start : String
  steps : List String
deriving DecidableEq, Repr

namespace Path

/-- The parts of a path between slashes. -/
def parts (text : String) : List String := text.splitOn "/"

def ofText (text : String) : Path where
  start := if text.startsWith "//" && !text.startsWith "///" then "//"
    else if text.startsWith "/" then "/" else ""
  steps := (parts text).filter fun p => p ≠ "" && p ≠ "."

def text (p : Path) : String :=
  if p.start.isEmpty && p.steps.isEmpty then "." else p.start ++ String.intercalate "/" p.steps

/-- The path that leads to the last step. -/
def parent (p : Path) : Path := { p with steps := p.steps.dropLast }

/-- The name of a file without the part behind its last point. -/
def stem (p : Path) : String :=
  let name := (p.steps.getLast?.getD "").toList
  let ending := (name.reverse.takeWhile (· != '.')).length
  if ending = name.length then String.ofList name
  else
    let start := name.length - ending - 1
    if 0 < start && 0 < ending then String.ofList (name.take start) else String.ofList name

end Path

namespace Location

/-- Where a path starts. -/
def start (p : Path) : Location := if p.start.isEmpty then [] else ["/"]

/-- The directory above; the root has none. -/
def up (l : Location) : Location :=
  match l.getLast? with
  | some "/" => l
  | some name => if name = ".." then l ++ [".."] else l.dropLast
  | none => [".."]

def follow (l : Location) (step : String) : Location := if step = ".." then l.up else l ++ [step]

/-- Where a path leads, whatever is there. -/
def ofPath (p : Path) : Location := p.steps.foldl follow (start p)

/-- Whether a location lies in the working directory. -/
def isInside (l : Location) : Bool := !(l.head? = some "/" || l.head? = some "..")

def text (l : Location) : String :=
  match l with
  | "/" :: steps => "/" ++ String.intercalate "/" steps
  | steps => String.intercalate "/" steps

end Location

structure Files where
  entries : List (Location × ByteArray) := []
  directories : List Location := []

namespace Files

/-- Why a file or a directory cannot be used: the system's number and words. -/
inductive Refusal where
  | missing | forbidden | taken | noDirectory | isDirectory | nameTooLong
deriving DecidableEq, Repr

namespace Refusal

def number : Refusal → Nat
  | missing => 2
  | forbidden => 13
  | taken => 17
  | noDirectory => 20
  | isDirectory => 21
  | nameTooLong => 36

def words : Refusal → String
  | missing => "No such file or directory"
  | forbidden => "Permission denied"
  | taken => "File exists"
  | noDirectory => "Not a directory"
  | isDirectory => "Is a directory"
  | nameTooLong => "File name too long"

def message (r : Refusal) (path : String) : String :=
  s!"[Errno {r.number}] {r.words}: {Text.quoted path}"

end Refusal

/-- A path is shorter than this, in bytes. -/
def pathLimit : Nat := 4096

/-- A name is not longer than this, in bytes. -/
def nameLimit : Nat := 255

def file? (fs : Files) (l : Location) : Option ByteArray := fs.entries.lookup l

/-- The working directory and those above it are always there, and all that something lies in. -/
def isDirectory (fs : Files) (l : Location) : Bool :=
  l.all (· == "..") || l == ["/"] || fs.directories.contains l ||
    (fs.directories ++ fs.entries.map Prod.fst).any fun inner =>
      l.length < inner.length && l.isPrefixOf inner

/-- The directory behind a step. -/
def enterStep (fs : Files) (l : Location) (step : String) : Except Refusal Location :=
  if step = ".." then .ok l.up
  else if nameLimit < step.utf8ByteSize then .error .nameTooLong
  else if fs.isDirectory (l ++ [step]) then .ok (l ++ [step])
  else .error (if (fs.file? (l ++ [step])).isSome then .noDirectory else .missing)

/-- The directory that a path leads to. -/
def enter (fs : Files) (p : Path) : Except Refusal Location :=
  p.steps.foldlM fs.enterStep (Location.start p)

/-- The content of the file at a path. -/
def read (fs : Files) (text : String) : Except Refusal ByteArray := do
  if text.isEmpty then throw .missing
  if pathLimit ≤ text.utf8ByteSize then throw .nameTooLong
  let p := Path.ofText text
  let last := ((Path.parts text).getLast?).getD ""
  if ["", ".", ".."].contains last then
    let _ ← fs.enter p
    throw .isDirectory
  let directory ← fs.enter p.parent
  if nameLimit < last.utf8ByteSize then throw .nameTooLong
  match fs.file? (directory ++ [last]) with
  | some bytes => return bytes
  | none => throw (if fs.isDirectory (directory ++ [last]) then .isDirectory else .missing)

/-- Makes one directory, which must not be there. -/
def makeDirectory (fs : Files) (p : Path) : Except Refusal Files := do
  if pathLimit ≤ p.text.utf8ByteSize then throw .nameTooLong
  match p.steps.getLast? with
  | none => throw .taken
  | some last =>
    let directory ← fs.enter p.parent
    if last = ".." then throw .taken
    if nameLimit < last.utf8ByteSize then throw .nameTooLong
    let l := directory ++ [last]
    if fs.isDirectory l || (fs.file? l).isSome then throw .taken
    return { fs with directories := l :: fs.directories }

/-- What is refused, and the path that it is refused for. -/
abbrev Obstacle := Refusal × Path

/-- A directory that was to be made may be there. -/
def settle (fs : Files) (p : Path) : Except Refusal Files → Except Obstacle Files
  | .ok fs' => .ok fs'
  | .error .missing => .error (.missing, p)
  | .error refusal => if (fs.enter p).isOk then .ok fs else .error (refusal, p)

/-- Makes a directory and those that it lies in, unless they are there. -/
def makeDirectories (fs : Files) (p : Path) : Except Obstacle Files :=
  match fs.makeDirectory p with
  | .error .missing =>
    if p.steps = [] then .error (.missing, p)
    else do
      let fs ← fs.makeDirectories p.parent
      fs.settle p (fs.makeDirectory p)
  | made => fs.settle p made
termination_by p.steps.length
decreasing_by
  rename_i nonempty
  have := List.length_pos_iff.mpr nonempty
  simp only [Path.parent, List.length_dropLast]
  omega

def put (fs : Files) (l : Location) (bytes : ByteArray) : Files :=
  { fs with entries := fs.entries.filter (fun e => e.1 != l) ++ [(l, bytes)] }

/-- Writes a file, whose directories are made. -/
def write (fs : Files) (text : String) (bytes : ByteArray) : Except Obstacle Files := do
  let p := Path.ofText text
  return (← fs.makeDirectories p.parent).put (Location.ofPath p) bytes

/-- Opens a file to add to it; the file and its directories are made unless they are there. -/
def openToAdd (fs : Files) (text : String) : Except Obstacle (Files × Location) := do
  let p := Path.ofText text
  let fs ← fs.makeDirectories p.parent
  let l := Location.ofPath p
  if nameLimit < ((p.steps.getLast?).getD "").utf8ByteSize then throw (.nameTooLong, p)
  if fs.isDirectory l then throw (.isDirectory, p)
  return (if (fs.file? l).isSome then fs else fs.put l .empty, l)

end Files
end Reckoner
