import Tenure.Source.FileSet
import Tenure.View.Access

/- Places and files as data. -/
namespace Tenure.View

def readRange (j : Json) : Range :=
  match asNats 5 j with
  | [f, a, b, c, d] => Range.of f a b c d
  | _ => Range.zero

def readPos (j : Json) : Pos :=
  match asNats 2 j with
  | [a, b] => ⟨a, b⟩
  | _ => Pos.zero

def readSpan (j : Json) : Span :=
  match asNats 3 j with
  | [f, a, b] => ⟨f, a, b⟩
  | _ => ⟨0, 0, 0⟩

def showRange (r : Range) : Json := showNats [r.file, r.start.line, r.start.col, r.stop.line, r.stop.col]

def showPos (p : Pos) : Json := showNats [p.line, p.col]

def showSpan (s : Span) : Json := showNats [s.file, s.start, s.stop]

def showFiles (fs : FileSet) : Json :=
  .arr (fs.files.map fun f => .arr [.str f.path, .nat f.size, .nat f.flags.code])

end Tenure.View
