import Tenure.Build.Emit
import Tenure.Command.Report
import Tenure.Ownership.HintReport
import Tenure.Repair.Apply

/- The commands about documents: check, emit, hints, build and fix. -/
namespace Tenure.Command

def Done.conclude (d : Done) (s : Session) (r : Build.CompileRun) : Done :=
  match r.fault, r.bag with
  | some f, _ => { d with ending := .fault (.build f) }
  | none, some b => { d.sayBytes (report s.options r.shop.files b) with ending := endingOf b }
  | none, none => d

def Done.tell (d : Done) (s : Session) (lines : List String) : Done :=
  if s.options.quiet || s.options.format != .pretty then d
  else match d.ending with
    | .fault _ => d
    | _ => d.say (String.join (lines.map (· ++ "\n")))

def check (w : World) (args : Settings) : Done := .ofExcept w.disk do
  let s ← Session.start w args
  return .ofExcept s.storage.disk do
    let _ ← readToggle args "ui" "off"
    let r := Build.compile (s.request w) s.storage s.shop
    let done : Done := { disk := s.keep r.shop s.storage.disk, story := r.story }
    let done := if r.fault.isSome then done else done.say (timings s.options r)
    return done.conclude s r

def emit (w : World) (args : Settings) : Done := .ofExcept w.disk do
  let s ← Session.start w args
  let r := Build.emit (s.request w) (s.outDir w (args.text "out-dir")) s.storage s.shop
  let done : Done := { disk := s.keep r.compile.shop r.storage.disk, story := r.compile.story }
  let done := (done.say (timings s.options r.compile)).conclude s r.compile
  return done.tell s (r.artifacts.map fun a => s!"wrote {s.shownPath a.source}")

/-- Units from the cache come without analysis, so hints are always made anew. -/
def hints (w : World) (args : Settings) : Done := .ofExcept w.disk do
  let s ← Session.start w args
  let r := Build.compile (s.request w) s.storage { s.shop with cache := none }
  let done : Done := { disk := s.storage.disk, story := r.story }
  let some b := r.bag | return done.conclude s r
  let fs := r.shop.files
  let hs := (r.compiled.filterMap (·.analysis)).flatMap Analysis.hints
  let mode := s.options.pathMode
  let done := { done with ending := endingOf b }
  if s.options.format = .json then return done.say (Json.indented (hintsJson fs mode hs) ++ "\n")
  return { done.say (hintsText fs mode hs) with err := report s.options fs b }

def orElse (a b : String) : String := if a.isEmpty then b else a

def nativeSettings (w : World) (s : Session) (args : Settings) : Except Fault Build.NativeSettings := do
  let own : ManifestConfig := (s.manifest.map (·.config)).getD {}
  let name := orElse (args.text "toolchain") own.toolchain
  let some toolchain := Toolchain.ofSetting? name | throw (.toolchain name)
  return {
    catalog := s.catalog, outDir := s.outDir w (args.text "out-dir"), toolchain
    edition := orElse (args.text "edition") own.edition
    release := args.bool "release" || own.release
    warnings := args.bool "warnings" || own.warnings
    keepTemp := args.bool "keep-tmp" || own.keepTemp
    echo := args.bool "print-commands"
    invoke := fun job canceled disk => job.invoke
      { find := w.findProgram disk, run := w.runProgram, tempDir := "/tmp/keel-build", canceled } disk }

def build (w : World) (args : Settings) : Done := .ofExcept w.disk do
  let s ← Session.start w args
  return .ofExcept s.storage.disk do
    let _ ← readToggle args "ui" "auto"
    let n ← nativeSettings w s args
    let r := Build.build (s.request w) n s.storage s.shop
    let done : Done := { disk := s.keep r.compile.shop r.disk, story := r.compile.story }
    let done := (done.say (timings s.options r.compile)).conclude s r.compile
    let places := if n.keepTemp then r.builds.filterMap fun b => b.outcome.map (·.dir) else []
    return done.tell s
      (r.artifacts.map (fun a => s!"built {s.shownPath a}") ++
        (places.filter (!·.isEmpty)).map fun d => s!"tmp dir: {s.shownPath d}")

def choiceOf (args : Settings) : Except Fault Repair.Choice :=
  let id := args.text "id"
  let all := args.bool "all"
  let once := args.bool "once"
  if !id.isEmpty && (all || once) then .error .idAndChoice
  else if all && once then .error .allAndOnce
  else .ok (if !id.isEmpty then .byId id else if all then .all else .first)

def fixList (fs : FileSet) (ds : List Diagnostic) : String :=
  String.join ((Repair.proposals ds).map fun (d, i, f) => s!"{Repair.fixId fs d i}  {f.title}\n")

def appliedLine (a : Repair.Applied) : String :=
  let place := if a.candidate.path.isEmpty then "(unknown location)" else a.candidate.path
  s!"  {a.candidate.fix.title} [{a.candidate.id}] {place} ({a.edits} edits)\n"

def skippedLine (k : Repair.Skipped) : String :=
  let id := if k.id.isEmpty then "(unnamed)" else k.id
  let lead := if k.title.isEmpty then "  " else s!"  {k.title} "
  s!"{lead}[{id}]: {k.reason.message}\n"

def changeText (dryRun : Bool) (c : Repair.Change) : Bytes :=
  if dryRun then Bytes.ofString s!"--- {c.path} ({c.edits} edits)\n" ++ c.content
  else Bytes.ofString s!"  {c.path} ({c.edits} edits)\n"

def listed {α : Type} (title : String) (line : α → Bytes) (items : List α) : Bytes :=
  if items.isEmpty then [] else Bytes.ofString title ++ items.flatMap line

def repairText (dryRun : Bool) (o : Repair.Outcome) : Bytes :=
  let verb := if dryRun then "Would apply" else "Applied"
  listed s!"{verb} {o.applied.length} fix(es):\n" (Bytes.ofString ∘ appliedLine) o.applied ++
    listed (if dryRun then "" else "Updated files:\n") (changeText dryRun) o.changes ++
    listed "Skipped fixes:\n" (Bytes.ofString ∘ skippedLine) o.skipped ++
    if o.status = .noFixes then Bytes.ofString "No applicable fixes found.\n" else []

def fix (w : World) (args : Settings) : Done := .ofExcept w.disk do
  let choice ← choiceOf args
  let s ← Session.start w args
  let r := Build.compile (s.request w) s.storage s.shop
  let done : Done := { disk := s.keep r.shop s.storage.disk, story := r.story }
  let some b := r.bag | return done.conclude s r
  if args.bool "list" then return done.say (fixList r.shop.files b.items)
  let shop : Repair.Shop :=
    { files := r.shop.files, root := s.baseDir
      read := fun u => (s.storage.read u).toOption }
  let dryRun := args.bool "dry-run"
  let o := shop.run b.items choice false
  let storage := (o.writes dryRun).foldl (fun (st : Storage) (u, bs) => (st.write u bs).toOption.getD st)
    { s.storage with disk := done.disk }
  return { done.sayBytes (repairText dryRun o) with disk := storage.disk }

end Tenure.Command
