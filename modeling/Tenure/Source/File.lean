import Tenure.Path
import Tenure.Source.Position
import Tenure.Text.Bytes

/- Files and the positions inside them. A line ends before its newline, or at the end of the file. -/
namespace Tenure

structure FileFlags where
  isVirtual : Bool := false
  hadMark : Bool := false
  hadReturns : Bool := false
  isGenerated : Bool := false
  deriving DecidableEq, Repr, Inhabited

def FileFlags.code (f : FileFlags) : Nat :=
  f.isVirtual.toNat + 2 * f.hadMark.toNat + 4 * f.hadReturns.toNat + 8 * f.isGenerated.toNat

structure File where
  path : String
  content : Bytes
  flags : FileFlags
  deriving DecidableEq, Repr, Inhabited

def newlinesFrom : Nat → Bytes → List Nat
  | _, [] => []
  | n, b :: bs => if b = Bytes.newline then n :: newlinesFrom (n + 1) bs else newlinesFrom (n + 1) bs

namespace File

def size (f : File) : Nat := f.content.length

def newlines (f : File) : List Nat := newlinesFrom 0 f.content

def lineStart (f : File) (line : Nat) : Option Nat :=
  match line with
  | 0 => none
  | 1 => some 0
  | n + 2 => f.newlines[n]?.map (· + 1)

/-- The offset right behind the last byte of a line, if the line exists. -/
def lineStop (f : File) (line : Nat) : Nat := (f.newlines[line - 1]?).getD f.size

/-- The offset of a position, kept inside its line. Behind the last line it is the end. -/
def offset (f : File) (p : Pos) : Nat :=
  if p.line = 0 then 0
  else match f.lineStart p.line with
    | none => f.size
    | some start => min (wrap32 (start + max p.col 1 - 1)) (f.lineStop p.line)

def posOf (f : File) (off : Nat) : Pos :=
  let before := f.newlines.takeWhile (· < off)
  match before.getLast? with
  | none => ⟨1, wrap32 (off + 1)⟩
  | some n => ⟨wrap32 (before.length + 1), wrap32 (off - n)⟩

def line (f : File) (n : Nat) : Bytes :=
  match f.lineStart n with
  | none => []
  | some start =>
    if f.size ≤ start then [] else (f.content.drop start).take (f.lineStop n - start)

/-- The number of bytes that the first `n` characters take, and how many of the `n` were found. -/
def charBytes : Nat → List (Option Char × Nat) → Nat × Nat
  | 0, _ => (0, 0)
  | _, [] => (0, 0)
  | n + 1, (_, w) :: cs => let (bytes, found) := charBytes n cs; (bytes + w, found + 1)

/-- A position whose column counts characters as one whose column counts bytes. A column behind the
line stays as far behind it. -/
def byteCol (f : File) (p : Pos) : Pos :=
  if p.col ≤ 1 then p
  else
    let cs := Bytes.chars (f.line p.line)
    let (bytes, found) := charBytes (p.col - 1) cs
    { p with col := wrap32 (bytes + (p.col - 1 - found) + 1) }

inductive PathMode where
  | auto
  | absolute
  | relative
  | basename
  | asIs
  deriving DecidableEq, Repr

/-- Short and relative paths are shown whole, long absolute ones by their last element. -/
def autoPath (p : String) : String :=
  if p.utf8ByteSize < 40 || !Path.isAbs p then p else Path.base p

def relativePath (cwd path base : String) : Option String :=
  let target := Path.absolute cwd path
  match Path.relative (Path.absolute cwd base) target with
  | none => none
  | some rel => if rel = ".." || Text.startsWith "../" rel then some target else some rel

def formatPath (f : File) (cwd : String) (mode : PathMode) (base : String) : String :=
  match mode with
  | .absolute => Path.absolute cwd f.path
  | .relative => (relativePath cwd f.path (if base.isEmpty then cwd else base)).getD f.path
  | .basename => Path.base f.path
  | .auto => autoPath f.path
  | .asIs => f.path

end File

def withoutMark : Bytes → Bytes × Bool
  | 0xEF :: 0xBB :: 0xBF :: bs => (bs, true)
  | bs => (bs, false)

def withoutReturns : Bytes → Bytes
  | 13 :: 10 :: bs => 10 :: withoutReturns bs
  | b :: bs => b :: withoutReturns bs
  | [] => []

end Tenure
