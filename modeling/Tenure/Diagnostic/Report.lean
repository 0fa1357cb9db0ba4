import Tenure.Diagnostic.Bag
import Tenure.Diagnostic.Preview
import Tenure.Json.Basic

/- Findings as data for other programs. -/
namespace Tenure

structure ReportOptions where
  pathMode : File.PathMode := .auto
  notes : Bool := false
  fixes : Bool := false
  previews : Bool := false
  /-- The toolchain's record; findings that the catalog does not know always show it. -/
  raw : Bool := false
  limit : Int := 0

def File.PathMode.ofName? : String → Option File.PathMode
  | "" | "auto" => some .auto
  | "absolute" => some .absolute
  | "relative" => some .relative
  | "basename" => some .basename
  | _ => none

def Range.toJson (fs : FileSet) (mode : File.PathMode) (r : Range) : Json := .obj [
  ("file", .str (fs.pathText r.file mode)),
  ("start_line", .nat r.start.line), ("start_col", .nat r.start.col),
  ("end_line", .nat r.stop.line), ("end_col", .nat r.stop.col)]

def RawDiagnostic.toJson (d : RawDiagnostic) : Json := .obj ([
  ("code", .str d.code), ("message", .str d.message), ("backend_file", .str d.file),
  ("backend_span", .obj [("line_start", .nat d.span.line), ("col_start", .nat d.span.col),
    ("line_end", .nat d.span.stopLine), ("col_end", .nat d.span.stopCol)]),
  ("severity", .nat d.severity.level)] ++
  Json.strUnlessEmpty "label" d.label ++
  Json.arrUnlessEmpty "children" (d.children.map .str) ++
  Json.strUnlessEmpty "rendered" d.rendered)

def Edit.toJson (fs : FileSet) (o : ReportOptions) (e : Edit) : Json :=
  let preview := if o.previews then Preview.of? fs e else none
  .obj ([("location", e.range.toJson fs o.pathMode), ("new_text", .str e.newText)] ++
    Json.strUnlessEmpty "old_text" e.expect ++
    Json.arrUnlessEmpty "before_lines" ((preview.map (·.before)).getD [] |>.map .blob) ++
    Json.arrUnlessEmpty "after_lines" ((preview.map (·.after)).getD [] |>.map .blob))

def Fix.toJson (fs : FileSet) (o : ReportOptions) (f : Fix) : Json :=
  .obj (("title", .str f.title) :: Json.arrUnlessEmpty "edits" (f.edits.map (Edit.toJson fs o)))

def Note.toJson (fs : FileSet) (mode : File.PathMode) (n : Note) : Json :=
  .obj [("message", .str n.message), ("location", n.range.toJson fs mode)]

def Diagnostic.showsRaw (d : Diagnostic) (wanted : Bool) : Bool := wanted || d.kind == .unrecognized

def Diagnostic.toJson (fs : FileSet) (o : ReportOptions) (d : Diagnostic) : Json :=
  .obj ([("severity", .str d.severity.text), ("code", .str d.code.id), ("kind", .str d.kind.text)] ++
    Json.strUnlessEmpty "category" d.category ++
    [("message", .str d.message), ("location", d.primary.toJson fs o.pathMode)] ++
    Json.trueOnly "approximate" d.approximate ++
    Json.arrUnlessEmpty "notes" (if o.notes then d.notes.map (Note.toJson fs o.pathMode) else []) ++
    Json.arrUnlessEmpty "suggestions" (d.suggestions.map .str) ++
    Json.arrUnlessEmpty "fixes" (if o.fixes then d.fixes.map (Fix.toJson fs o) else []) ++
    match d.raw with
    | some raw => if d.showsRaw o.raw then [("raw", raw.toJson)] else []
    | none => [])

def Bag.toJson (b : Bag) (fs : FileSet) (o : ReportOptions) : Json :=
  let shown := if 0 < o.limit then b.items.take o.limit.toNat else b.items
  .obj [("diagnostics", .arr (shown.map (Diagnostic.toJson fs o))),
    ("count", .nat shown.length), ("total", .nat b.items.length)]

end Tenure
