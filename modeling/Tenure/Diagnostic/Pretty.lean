import Tenure.Diagnostic.Report
import Tenure.Text.Quoted
import Tenure.Text.Style
import Tenure.Text.Width

/- Findings for readers: a headline, the source lines with the region underlined, then notes, help and
   fixes. -/
namespace Tenure

structure PrettyOptions extends ReportOptions where
  color : Bool := false
  context : Int := 0

namespace Pretty

open Text (Style)

def severityStyle (s : Severity) : Style :=
  match s.level with
  | 1 => Style.yellow
  | 2 => Style.red
  | _ => Style.cyan

def expandTabs (bs : Bytes) : Bytes := bs.flatMap fun b => if b = 9 then [32, 32, 32, 32] else [b]

/-- A caret and tildes below a region of its first line. Columns count bytes and the marks count
cells, so that they stand below wide characters too. -/
def underline (line : Bytes) (r : Range) : String :=
  let col := min (max r.start.col 1) (line.length + 1)
  let stop :=
    if r.stop.line = r.start.line ∧ col < r.stop.col then min r.stop.col (line.length + 1)
    else line.length + 1
  let pad := Text.widthOfBytes (expandTabs (line.take (col - 1)))
  let cells :=
    if col < stop then
      max (Text.widthOfBytes (expandTabs ((line.take (stop - 1)).drop (col - 1)))) 1
    else 1
  Text.indent pad ++ "^" ++ String.ofList (List.replicate (cells - 1) '~')

/-- The numbers of the lines around `line`; numbers are words, so they start again behind the
greatest. -/
def contextLines (f : File) (line : Nat) (context : Int) : List Nat × Nat :=
  let around := context.toNat
  let first := if 0 < context then (if around < line then line - around else 1) else line
  let last := wrap32 (line + around)
  let count := f.newlines.length + 1
  let numbers := List.range' first (last + 1 - first) ++
    if last = range32 - 1 then List.range (count + 1) else []
  (numbers.takeWhile fun n => n == line || n ≤ count, (toString last).length)

def contextRows (o : PrettyOptions) (f : File) (r : Range) : Bytes :=
  let line := r.start.line
  if line = 0 then []
  else
    let (numbers, width) := contextLines f line o.context
    let bar := Style.dim.paint o.color "|"
    numbers.flatMap fun n =>
      let text := f.line n
      if n ≠ line ∧ text.isEmpty then []
      else
        let number := Style.dim.paint o.color (Text.padLeft width (toString n))
        Bytes.ofString s!"{number} {bar} " ++ expandTabs text ++ [Bytes.newline] ++
          if n = line then
            let marks := Style.red.paint o.color (underline text r)
            Bytes.ofString s!"{Text.indent width} {bar} {marks}\n"
          else []

def headline (o : PrettyOptions) (fs : FileSet) (d : Diagnostic) : String :=
  Style.strong.paint o.color (fs.location d.primary o.pathMode) ++ ": " ++
    (severityStyle d.severity).paint o.color s!"{d.severity.text} {d.code.id}" ++
    (if d.category.isEmpty then "" else s!" [{d.category}]") ++ ": " ++ d.message ++
    (if d.approximate then Style.dim.paint o.color " (approximate location)" else "") ++ "\n"

def noteLine (o : PrettyOptions) (fs : FileSet) (n : Note) : String :=
  let mark := Style.blue.paint o.color "note:"
  if n.range.isZero then s!"{mark} {n.message}\n"
  else
    let place := fs.location n.range o.pathMode
    s!"{mark} {place}: {n.message}\n"

def previewRows (o : PrettyOptions) (fs : FileSet) (e : Edit) : Bytes :=
  match Preview.of? fs e with
  | none => []
  | some p =>
    let row (st : Style) (mark : String) (line : Bytes) : Bytes :=
      Bytes.ofString "    " ++ st.paintBytes o.color (Bytes.ofString mark ++ line) ++ [Bytes.newline]
    Bytes.ofString "  preview:\n" ++ p.before.flatMap (row Style.red "- ") ++
      p.after.flatMap (row Style.green "+ ")

def fixRows (o : PrettyOptions) (fs : FileSet) (i : Nat) (f : Fix) : Bytes :=
  let mark := Style.green.paint o.color s!"fix #{i + 1}:"
  Bytes.ofString s!"{mark} {f.title}\n" ++
    f.edits.flatMap fun e =>
      let place := fs.location e.range o.pathMode
      let text := Text.quoted e.newText
      Bytes.ofString s!"  {place} apply={text}\n" ++
        if o.previews then previewRows o fs e else []

def rawRows (o : PrettyOptions) (raw : RawDiagnostic) : String :=
  let text := if raw.rendered.isEmpty then raw.text else raw.rendered
  let rows := (Text.lines (Text.trimTailChars (· == '\n') text)).map fun line =>
    "  " ++ Style.dim.paint o.color line ++ "\n"
  Style.dim.paint o.color "backend:" ++ "\n" ++ "".intercalate rows

def one (o : PrettyOptions) (fs : FileSet) (d : Diagnostic) : Bytes :=
  let help := Style.green.paint o.color "help:"
  Bytes.ofString (headline o fs d) ++
    (match fs.get? d.primary.file with
      | some f => if d.primary.isZero then [] else contextRows o f d.primary
      | none => []) ++
    (if o.notes then d.notes.flatMap fun n => Bytes.ofString (noteLine o fs n) else []) ++
    (d.suggestions.flatMap fun s => Bytes.ofString s!"{help} {s}\n") ++
    (if o.fixes then (d.fixes.mapIdx (fixRows o fs)).flatten else []) ++
    match d.raw with
    | some raw => if d.showsRaw o.raw then Bytes.ofString (rawRows o raw) else []
    | none => []

end Pretty

def Bag.pretty (b : Bag) (fs : FileSet) (o : PrettyOptions) : Bytes :=
  [Bytes.newline].intercalate (b.items.map (Pretty.one o fs))

end Tenure
