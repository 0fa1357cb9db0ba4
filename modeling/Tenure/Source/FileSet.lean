import Tenure.Source.File

/- The files of a compilation, numbered in the order in which they were added. Adding a path again
   adds a new version of it; old numbers stay valid. -/
namespace Tenure

structure FileSet where
  files : List File := []
  /-- Shown paths are relative to this directory; when it is empty, to the working directory. -/
  baseDir : String := ""
  workDir : String := "/"
  deriving Inhabited

namespace FileSet

def base (fs : FileSet) : String := if fs.baseDir.isEmpty then fs.workDir else fs.baseDir

def get? (fs : FileSet) (id : Nat) : Option File := fs.files[id]?

def size (fs : FileSet) : Nat := fs.files.length

def normalPath (p : String) : String := if p.isEmpty then p else Path.clean p

def add (fs : FileSet) (path : String) (content : Bytes) (flags : FileFlags) : FileSet × Nat :=
  ({ fs with files := fs.files ++ [⟨normalPath path, content, flags⟩] }, fs.files.length)

def addVirtual (fs : FileSet) (path : String) (content : Bytes) : FileSet × Nat :=
  fs.add path content { isVirtual := true }

def addGenerated (fs : FileSet) (path : String) (content : Bytes) : FileSet × Nat :=
  fs.add path content { isVirtual := true, isGenerated := true }

/-- Adds what a disk holds at `path`, without byte order mark and carriage returns. -/
def addLoaded (fs : FileSet) (path : String) (content : Bytes) : FileSet × Nat :=
  let (content, hadMark) := withoutMark content
  let plain := withoutReturns content
  fs.add path plain { hadMark, hadReturns := plain.length != content.length }

def latestFrom (path : String) : Nat → List File → Option Nat
  | _, [] => none
  | n, f :: fs => (latestFrom path (n + 1) fs).or (if f.path = path then some n else none)

def latest (fs : FileSet) (path : String) : Option Nat := latestFrom (normalPath path) 0 fs.files

/-- The newest number of a path that is known; else the path is added, with what `disk` holds of
it or empty. -/
def register (fs : FileSet) (disk : String → Option Bytes) (path : String) : FileSet × Nat :=
  match fs.latest path with
  | some id => (fs, id)
  | none => match disk path with
    | some content => fs.addLoaded path content
    | none => fs.addVirtual path []

def resolve (fs : FileSet) (s : Span) : Pos × Pos :=
  match fs.get? s.file with
  | none => (Pos.zero, Pos.zero)
  | some f => (f.posOf s.start, f.posOf s.stop)

def spanOf (fs : FileSet) (id : Nat) (start stop : Pos) : Span :=
  match fs.get? id with
  | none => ⟨id, 0, 0⟩
  | some f => ⟨id, f.offset start, max (f.offset start) (f.offset stop)⟩

def spanOfChars (fs : FileSet) (id : Nat) (start stop : Pos) : Span :=
  match fs.get? id with
  | none => ⟨id, 0, 0⟩
  | some f => fs.spanOf id (f.byteCol start) (f.byteCol stop)

def pathText (fs : FileSet) (id : Nat) (mode : File.PathMode) : String :=
  match fs.get? id with
  | none => "<unknown>"
  | some f => f.formatPath fs.workDir mode (if mode = .relative then fs.base else "")

def location (fs : FileSet) (r : Range) (mode : File.PathMode) : String :=
  s!"{fs.pathText r.file mode}:{r.start.line}:{r.start.col}"

end FileSet

end Tenure
