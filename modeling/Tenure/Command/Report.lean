import Tenure.Build.Compile
import Tenure.Command.Session
import Tenure.Diagnostic.Pretty
import Tenure.Diagnostic.Short
import Tenure.Json.Write

/- What commands say at their end. -/
namespace Tenure.Command

open Text (Style)

inductive Ending where
  | fine
  | findings
  | fault (f : Fault)

structure Done where
  disk : Disk
  out : Bytes := []
  err : Bytes := []
  story : List Trace.Story := []
  ending : Ending := .fine

namespace Done

def say (d : Done) (s : String) : Done := { d with out := d.out ++ Bytes.ofString s }

def sayBytes (d : Done) (bs : Bytes) : Done := { d with out := d.out ++ bs }

def failed (disk : Disk) (f : Fault) : Done := { disk, ending := .fault f }

/-- A command that gives up leaves the disk alone. -/
def ofExcept (disk : Disk) : Except Fault Done → Done
  | .ok d => d
  | .error f => failed disk f

end Done

def counts (b : Bag) : String :=
  let errors := b.items.countP fun d => d.severity == .error
  let warnings := b.items.countP fun d => d.severity == .warning
  s!"{errors} error(s), {warnings} warning(s)"

def prettyReport (o : Options) (fs : FileSet) (b : Bag) : Bytes :=
  if b.items.isEmpty then []
  else
    let body := b.pretty fs
      { color := o.color, context := 1, pathMode := o.pathMode, notes := true, fixes := !o.quiet }
    let summary := "\n" ++ Style.strong.paint o.color (counts b) ++ "\n"
    body ++ if o.quiet then [] else Bytes.ofString summary

def jsonReport (o : Options) (fs : FileSet) (b : Bag) : String :=
  Json.indented (b.toJson fs
    { pathMode := o.pathMode, limit := o.limit, notes := true, fixes := true, previews := true }) ++ "\n"

def report (o : Options) (fs : FileSet) (b : Bag) : Bytes :=
  match o.format with
  | .json => Bytes.ofString (jsonReport o fs b)
  | .short =>
    let text := shortReport fs true b.items
    if text.isEmpty then [] else Bytes.ofString (text ++ "\n")
  | .pretty => prettyReport o fs b

def endingOf (b : Bag) : Ending := if b.hasErrors then .findings else .fine

def timedStages : List (String × Build.Stage) := [
  ("loaded", .load), ("analyzed", .analyze), ("generated", .generate), ("built", .native),
  ("translated", .relay)]

def timings (o : Options) (r : Build.CompileRun) : String :=
  if !o.timings then ""
  else
    let length : Build.Stage → Int := fun _ => 0
    let lines := timedStages.filterMap fun (label, stage) =>
      if r.timed.contains stage then some s!"{label} {Timer.millis 1 (length stage)} ms\n" else none
    String.join lines ++ r.timer.summary

end Tenure.Command
