import Tenure.Diagnostic.Pretty
import Tenure.Diagnostic.Short
import Tenure.Json.Write
import Tenure.View.Source

/- Findings as data, and their reports. -/
namespace Tenure.View

def readSeverity (j : Json) : Severity := ⟨asNat j⟩

def readKind (j : Json) : Kind :=
  match asNat j with
  | 1 => .annotationConflict
  | 2 => .unresolved
  | 3 => .backendRejected
  | 4 => .unrecognized
  | _ => .internal

def readRaw (j : Json) : RawDiagnostic :=
  let span := match asNats 4 (field j "span") with
    | [a, b, c, d] => ⟨a, b, c, d⟩
    | _ => RawSpan.zero
  { code := str j "code", message := str j "message", file := str j "file", span
    severity := readSeverity (field j "severity"), label := str j "label"
    children := strs j "children", rendered := str j "rendered" }

def readEdit (j : Json) : Edit :=
  { range := readRange (field j "range"), newText := str j "new_text", expect := str j "old_text" }

def readFix (j : Json) : Fix :=
  let title := str j "title"
  let r := readRange (field j "range")
  match str j "build" with
  | "insert" => Fix.insert title r.file r.start (str j "text")
  | "replace" => Fix.replace title r (str j "text") (str j "expect")
  | "delete" => Fix.delete title r (str j "expect")
  | "wrap" => Fix.wrap title r (str j "prefix") (str j "suffix")
  | _ => { title, edits := (list j "edits").map readEdit }

def readDiag (j : Json) : Diagnostic :=
  { severity := readSeverity (field j "severity"), code := ⟨nat j "code"⟩
    kind := readKind (field j "kind"), category := str j "category", message := str j "message"
    primary := readRange (field j "primary"), approximate := bool j "approximate"
    notes := (list j "notes").map fun n => ⟨readRange (field n "range"), str n "msg"⟩
    suggestions := strs j "suggestions", fixes := (list j "fixes").map readFix
    raw := match field j "raw" with
      | .null => none
      | r => some (readRaw r) }

def showRaw (r : RawDiagnostic) : Json := .obj [
  ("code", .str r.code), ("message", .str r.message), ("file", .str r.file),
  ("span", showNats [r.span.line, r.span.col, r.span.stopLine, r.span.stopCol]),
  ("severity", .str r.severity.text), ("label", .str r.label),
  ("children", Json.strs r.children), ("rendered", .str r.rendered)]

def showFix (f : Fix) : Json := .obj [("title", .str f.title),
  ("edits", .arr (f.edits.map fun e => .arr [showRange e.range, .str e.newText, .str e.expect]))]

def showDiag (d : Diagnostic) : Json := .obj [
  ("severity", .str d.severity.text), ("code", .str d.code.id), ("kind", .str d.kind.text),
  ("category", .str d.category), ("message", .str d.message), ("primary", showRange d.primary),
  ("approximate", .bool d.approximate),
  ("notes", .arr (d.notes.map fun n => .arr [showRange n.range, .str n.message])),
  ("suggestions", Json.strs d.suggestions), ("fixes", .arr (d.fixes.map showFix)),
  ("raw", showOpt showRaw d.raw)]

def showBrief (d : Diagnostic) : Json := .arr [
  .str d.severity.text, .str d.code.id, .str d.kind.text, showRange d.primary, .str d.message]

def renderOptions (j : Json) : Option PrettyOptions :=
  (File.PathMode.ofName? (str j "path_mode")).map fun pathMode =>
    { pathMode, notes := bool j "show_notes", fixes := bool j "show_fixes"
      previews := bool j "show_preview", raw := bool j "show_raw", limit := int j "max"
      color := bool j "color", context := int j "context" }

def showReports (fs : FileSet) (o : PrettyOptions) (b : Bag) : Json := .obj [
  ("pretty", showBytes (b.pretty fs o)),
  ("json", .str (Json.indented (b.toJson fs o.toReportOptions) ++ "\n")),
  ("short", .str (shortReport fs o.notes b.items))]

end Tenure.View
