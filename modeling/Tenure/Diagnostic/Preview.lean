import Tenure.Diagnostic.Basic
import Tenure.Source.FileSet

/- The whole lines that an edit touches, before and after it. -/
namespace Tenure

structure Preview where
  before : List Bytes
  after : List Bytes
  deriving DecidableEq, Repr

namespace Preview

def blockStart (f : File) (line : Nat) : Nat :=
  if line = 0 then 0 else (f.lineStart line).getD f.size

def blockStop (f : File) (line : Nat) : Nat :=
  if line = 0 then 0 else (f.lineStart (line + 1)).getD f.size

def pieces (block : Bytes) : List Bytes :=
  if block.isEmpty then [] else Bytes.lines (Bytes.trimNewlines block)

/-- There is none for an edit that does not lie in its lines. -/
def of? (fs : FileSet) (e : Edit) : Option Preview :=
  match fs.get? e.range.file with
  | none => none
  | some f =>
    let span := fs.spanOf e.range.file e.range.start e.range.stop
    let start := blockStart f e.range.start.line
    let stop := max (blockStop f (max e.range.stop.line e.range.start.line)) start
    if span.start < start ∨ stop < span.stop then none
    else
      let block := (f.content.drop start).take (stop - start)
      let after := block.take (span.start - start) ++ Bytes.ofString e.newText ++
        block.drop (span.stop - start)
      some { before := pieces block, after := pieces after }

end Preview

end Tenure
