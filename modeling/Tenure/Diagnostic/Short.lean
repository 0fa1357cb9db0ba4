import Tenure.Diagnostic.Basic
import Tenure.Source.FileSet

/- One line a finding, for comparison and for pipes. -/
namespace Tenure

structure ShortLine where
  label : String
  code : Code
  path : String
  place : Pos
  message : String

namespace ShortLine

def stripDots (p : String) : Nat → String
  | 0 => p
  | n + 1 => match Text.dropLead "./" p with
    | some rest => stripDots rest n
    | none => p

def shownPath (fs : FileSet) (id : Nat) : String :=
  let p := fs.pathText id .relative
  stripDots p p.length

def oneLine (s : String) : String :=
  Text.trim (Text.replaceAll "\n" " " (Text.replaceAll "\r\n" "\n" s))

def of (fs : FileSet) (label : String) (code : Code) (r : Range) (message : String) : ShortLine :=
  { label, code, path := shownPath fs r.file, place := r.start, message := oneLine message }

def text (l : ShortLine) : String :=
  s!"{l.label} {l.code.id} {l.path}:{l.place.line}:{l.place.col} {l.message}"

def le (a b : ShortLine) : Bool :=
  if a.path ≠ b.path then a.path < b.path else !b.place.less a.place

def ofDiagnostic (fs : FileSet) (notes : Bool) (d : Diagnostic) : List ShortLine :=
  of fs d.severity.label d.code d.primary d.message ::
    if notes then d.notes.map fun n => of fs "note" d.code n.range n.message else []

end ShortLine

def shortReport (fs : FileSet) (notes : Bool) (ds : List Diagnostic) : String :=
  "\n".intercalate
    (((ds.flatMap (ShortLine.ofDiagnostic fs notes)).mergeSort ShortLine.le).map ShortLine.text)

end Tenure
