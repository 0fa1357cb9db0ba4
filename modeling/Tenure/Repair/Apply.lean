import Tenure.Diagnostic.Basic
import Tenure.Locator
import Tenure.Repair.Buffer
import Tenure.Source.FileSet

/- Applying the fixes that findings propose. A fix is applied as a whole or skipped with a reason;
   nothing is written before all fixes have been looked at. -/
namespace Tenure

namespace Repair

structure Candidate where
  finding : Diagnostic
  fix : Fix
  id : String
  path : String
  deriving Inhabited

inductive Choice where
  | first
  | all
  | byId (id : String)
  | nothing
  deriving DecidableEq, Repr

inductive Reason where
  | noEdits
  | duplicateId
  | notFound
  | unknownFile
  | generatedFile
  | unreadable (path : String)
  | changed (path : String)
  | unexpectedText
  | conflict (path : String)
  | outOfRange
  deriving DecidableEq, Repr

def Reason.message : Reason → String
  | .noEdits => "fix has no edits"
  | .duplicateId => "duplicate fix id"
  | .notFound => "fix id not found"
  | .unknownFile => "edit targets an unknown file"
  | .generatedFile => "edit targets generated code"
  | .unreadable path => s!"cannot read {path}"
  | .changed path => s!"{path} changed since it was compiled"
  | .unexpectedText => "existing text does not match expected content"
  | .conflict path => s!"conflicts with previously applied edits in {path}"
  | .outOfRange => "edit span out of range"

structure Skipped where
  id : String
  title : String
  reason : Reason
  deriving DecidableEq, Repr

structure Applied where
  candidate : Candidate
  edits : Nat

structure Change where
  path : String
  url : String
  edits : Nat
  content : Bytes
  deriving DecidableEq, Repr

def fixId (fs : FileSet) (d : Diagnostic) (i : Nat) : String :=
  let name := ((fs.get? d.primary.file).map fun f => Path.base f.path).getD "unknown"
  s!"{d.code.id}-{name}-{d.primary.start.line}-{d.primary.start.col}-{i}"

def proposals (ds : List Diagnostic) : List (Diagnostic × Nat × Fix) :=
  ds.flatMap fun d => (d.fixes.zipIdx).map fun (f, i) => (d, i, f)

def autoPath (fs : FileSet) (id : Nat) : String :=
  ((fs.get? id).map fun f => f.formatPath fs.workDir .auto fs.base).getD ""

/-- Fixes without edits, and all but the first with one name, are skipped. -/
def candidatesFrom (fs : FileSet) (seen : List String) :
    List (Diagnostic × Nat × Fix) → List Candidate × List Skipped
  | [] => ([], [])
  | (d, i, f) :: rest =>
    let id := fixId fs d i
    if f.edits.isEmpty then
      let (cs, ss) := candidatesFrom fs seen rest
      (cs, ⟨id, f.title, .noEdits⟩ :: ss)
    else if seen.contains id then
      let (cs, ss) := candidatesFrom fs seen rest
      (cs, ⟨id, f.title, .duplicateId⟩ :: ss)
    else
      let (cs, ss) := candidatesFrom fs (id :: seen) rest
      (⟨d, f, id, autoPath fs d.primary.file⟩ :: cs, ss)

def Candidate.le (a b : Candidate) : Bool :=
  if a.path ≠ b.path then a.path < b.path
  else if a.finding.primary.start ≠ b.finding.primary.start then
    a.finding.primary.start.less b.finding.primary.start
  else !b.finding.primary.stop.less a.finding.primary.stop

def select (cs : List Candidate) : Choice → List Candidate × List Skipped
  | .first => (cs.take 1, [])
  | .all => (cs, [])
  | .byId id => match cs.find? (·.id == id) with
    | some c => ([c], [])
    | none => ([], [⟨id, "", .notFound⟩])
  | .nothing => ([], [])

/-- What a run knows: the files, how to read them, and where they lie. -/
structure Shop where
  files : FileSet
  read : String → Option Bytes
  root : String

abbrev Bench := List (Nat × Buffer)

def setBuffer (id : Nat) (b : Buffer) : Bench → Bench
  | [] => [(id, b)]
  | (i, c) :: rest => if i = id then (id, b) :: rest else (i, c) :: setBuffer id b rest

namespace Shop

def target (s : Shop) (f : File) : String := Locator.below s.root f.path

def pathOf (s : Shop) (id : Nat) : String :=
  ((s.files.get? id).map fun f => f.formatPath s.files.workDir .relative s.files.base).getD ""

/-- The text of a file that may be edited: known, written by the author, and still as it was. A file
without known content may hold anything. -/
def openFile (s : Shop) (id : Nat) : Except Reason Buffer :=
  match s.files.get? id with
  | none => .error .unknownFile
  | some f =>
    if f.flags.isGenerated then .error .generatedFile
    else match s.read (s.target f) with
      | none => .error (.unreadable f.path)
      | some bs =>
        if !f.content.isEmpty && bs != f.content then .error (.changed f.path)
        else .ok (Buffer.ofContent bs)

def bufferFor (s : Shop) (bench : Bench) (id : Nat) : Except Reason Buffer :=
  match bench.lookup id with
  | some b => .ok b
  | none => s.openFile id

def patchFor (b : Buffer) (path : String) (e : Edit) : Except Reason Patch :=
  let (fs, id) := FileSet.addVirtual {} path b.origin
  let span := fs.spanOf id e.range.start e.range.stop
  let old := (b.origin.take span.stop).drop span.start
  if !e.expect.isEmpty && old != Bytes.ofString e.expect then .error .unexpectedText
  else .ok ⟨span.start, span.stop, Bytes.ofString e.newText⟩

def applyTo (s : Shop) (bench : Bench) (id : Nat) (edits : List Edit) : Except Reason Bench := do
  let b ← s.bufferFor bench id
  let patches ← edits.mapM (patchFor b (s.pathOf id))
  if !b.admits patches then .error (.conflict (s.pathOf id))
  else match b.patch patches with
    | some next => .ok (setBuffer id next bench)
    | none => .error .outOfRange

def filesOf (f : Fix) : List Nat := (f.edits.map (·.range.file)).eraseDups

def apply (s : Shop) (bench : Bench) (f : Fix) : Except Reason Bench :=
  (filesOf f).foldlM (fun bench id => s.applyTo bench id (f.edits.filter (·.range.file == id))) bench

end Shop

structure Progress where
  bench : Bench := []
  applied : List Applied := []
  skipped : List Skipped := []

def Shop.step (s : Shop) (p : Progress) (c : Candidate) : Progress :=
  match s.apply p.bench c.fix with
  | .ok bench => { p with bench, applied := p.applied ++ [⟨c, c.fix.edits.length⟩] }
  | .error reason => { p with skipped := p.skipped ++ [⟨c.id, c.fix.title, reason⟩] }

def Shop.changes (s : Shop) (bench : Bench) : List Change :=
  let edited := bench.filter fun (_, b) => 0 < b.edits
  let changes := edited.filterMap fun (id, b) => (s.files.get? id).map fun f =>
    { path := s.pathOf id, url := s.target f, edits := b.edits, content := b.working : Change }
  changes.mergeSort fun a b => a.path ≤ b.path

inductive Status where
  | done
  | noFixes
  | canceled
  deriving DecidableEq, Repr

structure Outcome where
  status : Status
  applied : List Applied := []
  skipped : List Skipped := []
  changes : List Change := []

def Shop.run (s : Shop) (ds : List Diagnostic) (choice : Choice) (canceled : Bool) : Outcome :=
  let (candidates, skipped) := candidatesFrom s.files [] (proposals ds)
  let (selected, missed) := select (candidates.mergeSort Candidate.le) choice
  let skipped := if candidates.isEmpty then skipped else skipped ++ missed
  if candidates.isEmpty || selected.isEmpty then { status := .noFixes, skipped }
  else if canceled then { status := .canceled, skipped }
  else
    let p := selected.foldl s.step { skipped }
    if p.applied.isEmpty then { status := .noFixes, skipped := p.skipped }
    else { status := .done, applied := p.applied, skipped := p.skipped, changes := s.changes p.bench }

/-- What a run stores: nothing unless it was done, and nothing on a trial run. -/
def Outcome.writes (o : Outcome) (dryRun : Bool) : List (String × Bytes) :=
  if dryRun then [] else o.changes.map fun c => (c.url, c.content)

end Repair

end Tenure
