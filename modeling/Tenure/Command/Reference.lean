import Tenure.Command.Report
import Tenure.Json.Write

/- The commands about the program itself: explain, catalog and version. -/
namespace Tenure.Command

open Text (Style)

def entryJson (full : Bool) (e : Catalog.Entry) : Json :=
  .obj ([("code", .str e.code.id), ("category", .str e.category), ("title", .str e.title)] ++
    Json.arrUnlessEmpty "backend_codes" (e.backendCodes.map .str) ++
    if !full then []
    else Json.strUnlessEmpty "explanation" e.explanation ++
      Json.arrUnlessEmpty "examples" (e.examples.map fun x =>
        .obj [("Bad", .str x.bad), ("Good", .str x.good)]))

def withoutNewlines (s : String) : String := Text.trimTailChars (· == '\n') s

def marked (mark text : String) : String :=
  String.join ((Text.lines (withoutNewlines text)).map fun l => s!"{mark}{l}\n")

def exampleText (color : Bool) (i : Nat) (x : Lesson) : String :=
  let title := s!"example {i + 1}"
  s!"\n{Style.strong.paint color title}\n" ++ marked "  - " x.bad ++ marked "  + " x.good

def entryText (color : Bool) (e : Catalog.Entry) : String :=
  let codes := "backend codes: " ++ ", ".intercalate e.backendCodes
  s!"{Style.strong.paint color e.code.id} [{e.category}]: {e.title}\n" ++
    (if e.backendCodes.isEmpty then "" else Style.dim.paint color codes ++ "\n") ++
    (if e.explanation.isEmpty then "" else s!"\n{withoutNewlines e.explanation}\n") ++
    String.join (e.examples.mapIdx (exampleText color))

def explain (w : World) (args : Settings) : Done := .ofExcept w.disk do
  let o ← Options.read args
  let c ← w.catalog (← w.manifest)
  let query := args.args.head?.getD ""
  let done : Done := { disk := w.disk }
  let sayJson (j : Json) : Done := done.say (Json.indented j ++ "\n")
  match c.find? query with
  | some e => return if o.format = .json then sayJson (entryJson true e)
      else done.say (entryText o.color e)
  | none => match Code.parse? query with
    | none => throw (.unknownCode query)
    | some code =>
      if code = .unknown then throw (.unknownCode query)
      return if o.format = .json then sayJson (.obj [("code", .str code.id), ("category", .str ""),
          ("title", .str code.title)])
        else done.say s!"{code.id}: {code.title}\n"

def catalogText (es : List Catalog.Entry) : String :=
  let width := (es.map (·.category.utf8ByteSize)).foldl max 0
  String.join (es.map fun e => s!"{e.code.id}  {Text.padRight width e.category}  {e.title}\n")

def catalog (w : World) (args : Settings) : Done := .ofExcept w.disk do
  let o ← Options.read args
  let c ← w.catalog (← w.manifest)
  let done : Done := { disk := w.disk }
  return done.say (if o.format = .json then
      Json.indented (.arr (c.inOrder.map (entryJson false))) ++ "\n"
    else catalogText c.inOrder)

def known (s : String) : String := if s.isEmpty then "unknown" else s

def version (w : World) (args : Settings) : Done := .ofExcept w.disk do
  let o ← Options.read args
  let r := w.release
  let full := args.bool "full"
  let done : Done := { disk := w.disk }
  return done.say (if o.format = .json then
      Json.indented (.obj ([("tool", .str "keel"), ("version", .str (Text.trim r.version)),
        ("fingerprint", .str r.fingerprint)] ++
        if full then [("git_commit", .str (known (Text.trim r.commit))),
          ("build_date", .str (known (Text.trim r.date)))] else [])) ++ "\n"
    else s!"keel {r.painted o.color}\n" ++
      if full then
        s!"commit: {known (Text.trim r.commit)}\nbuilt:  {known (Text.trim r.date)}\n" ++
          s!"cache:  {r.fingerprint}\n"
      else "")

end Tenure.Command
