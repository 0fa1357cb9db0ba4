import Tenure.Command.Compile
import Tenure.Command.Help
import Tenure.Command.Reference
import Tenure.Command.Tracing

/- The program: a line of arguments in some surroundings, and what comes of it. -/
namespace Tenure.Command

structure Outcome where
  disk : Disk
  exit : Nat := 0
  out : Bytes := []
  err : Bytes := []

def Outcome.refused (disk : Disk) (err : Bytes) (message : String) : Outcome :=
  { disk, exit := 1, err := err ++ Bytes.ofString s!"error: {message}\n" }

/-- Profiles of the run, by the file each goes to; empty ones are not wanted. -/
structure Profiles where
  cpu : String
  heap : String
  runtime : String

namespace Profiles

def read (s : Settings) : Profiles :=
  { cpu := s.text "cpu-profile", heap := s.text "mem-profile", runtime := s.text "runtime-trace" }

def content : Bytes := Bytes.ofString "<profile>"

def write (w : World) (path : String) : Except Disk.Fault World :=
  if path.isEmpty then .ok w else w.create path content

def start (p : Profiles) (w : World) : World × Option String :=
  match write w p.cpu with
  | .error f => (w, some s!"cpu profile: {f.message}")
  | .ok w => match write w p.runtime with
    | .error f => (w, some s!"runtime trace: {f.message}")
    | .ok w => (w, none)

/-- Writes what is measured at the end; that it cannot be written is told and does no harm. -/
def stop (p : Profiles) (w : World) : World × String :=
  match write w p.heap with
  | .error f => (w, s!"profile: heap profile: {f.message}\n")
  | .ok w => (w, "")

end Profiles

def help (w : World) (args : Settings) : Done :=
  let done : Done := { disk := w.disk }
  match findCommand args.args with
  | .ok (c, _) => done.say (helpText c)
  | .error _ => { done with err := Bytes.ofString (unknownTopic args.args) }

def runCommand (w : World) (c : Spec) (args : Settings) : Done :=
  match c.name with
  | "build" => build w args
  | "check" => check w args
  | "emit" => emit w args
  | "hints" => hints w args
  | "explain" => explain w args
  | "catalog" => catalog w args
  | "fix" => fix w args
  | "version" => version w args
  | _ => help w args

def runTraced (w : World) (p : TracePlan) (c : Spec) (args : Settings) : World × Done × Bytes :=
  let done := runCommand w c args
  let t := Trace.Story.tellAll {} done.story { level := p.level }
  let err := Bytes.ofString (p.live w t) ++ done.err ++ Bytes.ofString (p.dump w t)
  (p.fill { w with disk := done.disk } t, done, err)

def runWish (w : World) (c : Spec) (args : Settings) : Outcome :=
  let profiles := Profiles.read args
  match profiles.start w with
  | (w, some message) => .refused w.disk [] message
  | (w, none) =>
    match TracePlan.read args >>= fun p => (p.start w).map (p, ·) with
    | .error f =>
      let (w, told) := profiles.stop w
      .refused w.disk (Bytes.ofString told) f.message
    | .ok (p, w) =>
      let (w, done, err) := runTraced w p c args
      let (w, told) := profiles.stop w
      let err := err ++ Bytes.ofString told
      match done.ending with
      | .fine => { disk := w.disk, out := done.out, err }
      | .findings => { disk := w.disk, exit := 1, out := done.out, err }
      | .fault f => { Outcome.refused w.disk err f.message with out := done.out }

def run (w : World) (args : List String) : Outcome :=
  match interpret args with
  | .error f => .refused w.disk [] f.message
  | .ok (.help c) => { disk := w.disk, out := Bytes.ofString (helpText c) }
  | .ok .version =>
    { disk := w.disk, out := Bytes.ofString s!"{program} version {w.release.version}\n" }
  | .ok (.run c s) => runWish w c s

end Tenure.Command
