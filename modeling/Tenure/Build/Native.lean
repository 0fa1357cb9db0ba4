import Tenure.Build.Compile
import Tenure.Relay
import Tenure.Toolchain.Invoke

/- Units handed to the toolchain, and what it says relayed to the source. Units with errors of their
   own are not handed over. -/
namespace Tenure.Build

open Trace (Story)

structure NativeSettings where
  catalog : Catalog
  outDir : String := ""
  toolchain : Toolchain := ⟨""⟩
  edition : String := ""
  release : Bool := false
  warnings : Bool := false
  keepTemp : Bool := false
  echo : Bool := false
  /-- The toolchain: what it does with a job on a disk, and whether it has been called off. -/
  invoke : BuildJob → Bool → Disk → BuildJob.Invocation

structure UnitBuild where
  unit : Compiled
  outcome : Option BuildOutcome := none
  told : List Diagnostic := []
  skipped : Bool := false

structure BuildRun where
  compile : CompileRun
  disk : Disk
  builds : List UnitBuild := []
  jobs : List BuildJob := []
  trouble : Option Fault := none
  story : List Story := []

namespace BuildRun

def say (r : BuildRun) (p : Progress) : BuildRun :=
  { r with compile := { r.compile with events := r.compile.events ++ [p] } }

def time (r : BuildRun) (s : Stage) : BuildRun :=
  if r.compile.timed.contains s then r
  else { r with compile := { r.compile with timed := r.compile.timed ++ [s] } }

def giveUp (r : BuildRun) (c : Compiled) (file : String) (f : Fault) : BuildRun :=
  let r := r.say { file, stage := .native, status := .error, detail := f.message }
  { r with trouble := r.trouble <|> some f, builds := r.builds ++ [{ unit := c }] }

def artifacts (r : BuildRun) : List String :=
  r.builds.filterMap fun b => match b.outcome with
    | some o => if o.success && !o.artifact.isEmpty then some o.artifact else none
    | none => none

end BuildRun

def jobFor (n : NativeSettings) (c : Compiled) (u : Generated) : BuildJob :=
  { module := u.module, source := u.text
    binary := (c.module.bind fun m => m.func? "main").isSome
    toolchain := n.toolchain, edition := n.edition, release := n.release, warnings := n.warnings
    dir := if n.outDir.isEmpty then "" else Path.joinAll [n.outDir, "native", u.module]
    keepTemp := n.keepTemp, echo := n.echo }

def relayStory (u : Generated) (r : Relay) : Story :=
  .span .stage "translate" [] s!"raw={r.records.length} translated={r.told.length}"
    [("module", u.module)]

def relayAnswer (c : Compiled) (u : Generated) (file : String) (relay : Relay)
    (answer : Except ToolFault BuildOutcome) (r : BuildRun) : BuildRun :=
  let r := r.time .native
  match answer with
  | .error (.failed detail o) =>
    let message := (ToolFault.failed detail o).message
    let home := (c.module.map (·.file)).getD 0
    let r := r.say { file, stage := .native, status := .error, detail := message }
    { r with builds := r.builds ++ [{ unit := c, outcome := some o
                                      told := [fileFinding .buildFailed home message] }] }
  | .error f => r.giveUp c file (.tool f)
  | .ok o =>
    let r := r.say { file, stage := .native, status := if o.success then .done else .error }
    let r := r.say { file, stage := .relay, status := .working }
    let told := match (relay.build (.ok o)).1.recount with
      | .ok relay => relay
      | .error _ => relay
    let r := (r.time .relay).say { file, stage := .relay, status := .done }
    { r with
      builds := r.builds ++ [{ unit := c, outcome := some o, told := told.told }]
      story := r.story ++ [relayStory u told] }

def buildUnit (q : Request) (n : NativeSettings) (c : Compiled) (u : Generated) (r : BuildRun) :
    BuildRun :=
  let file := q.name c.url
  let job := jobFor n c u
  match if job.dir.isEmpty then .ok r.disk else r.disk.makeDirs job.dir with
  | .error f => r.giveUp c file (.tool (.other s!"failed to create build dir: {f.message}"))
  | .ok disk =>
    let shop := r.compile.shop
    let relay := Relay.start n.catalog shop.files u q.settings.limit
    let r := { r with compile := { r.compile with shop := { shop with files := relay.files } } }
    let r := r.say { file, stage := .native, status := .working }
    let i := n.invoke job r.trouble.isSome disk
    let r := { r with
      disk := i.disk, jobs := r.jobs ++ [job], story := r.story ++ i.story }
    relayAnswer c u file relay i.answer r

def buildWaiting (q : Request) (n : NativeSettings) : Option (Compiled × Generated) → BuildRun → BuildRun
  | none, r => r
  | some (c, u), r => buildUnit q n c u r

/-- Units are built one at a time. A unit waits until the next one is due, so the skipped units
behind it are told first. -/
def buildUnits (q : Request) (n : NativeSettings) (waiting : Option (Compiled × Generated))
    (r : BuildRun) : List Compiled → BuildRun
  | [] => buildWaiting q n waiting r
  | c :: cs =>
    match if c.failed then none else c.unit with
    | none =>
      buildUnits q n waiting (r.say { file := q.name c.url, stage := .native, status := .skipped }) cs
    | some u => buildUnits q n (some (c, u)) (buildWaiting q n waiting r) cs

def inOrder (units : List Compiled) (builds : List UnitBuild) : List UnitBuild :=
  match units with
  | [] => []
  | c :: cs =>
    if c.failed then { unit := c, skipped := true } :: inOrder cs builds
    else match builds with
      | [] => { unit := c } :: inOrder cs []
      | b :: bs => b :: inOrder cs bs

/-- Compiles the inputs, builds every unit without errors of its own, and adds what the toolchain
says to the findings. -/
def build (q : Request) (n : NativeSettings) (storage : Storage) (s : Shop) : BuildRun :=
  let run : BuildRun := { compile := compile q storage s, disk := storage.disk }
  if run.compile.fault.isSome then run
  else
    let units := run.compile.compiled
    let run : BuildRun := buildUnits q n none run units
    let builds := inOrder units run.builds
    let story := run.compile.story ++ [.span .driver "build" run.story "" []]
    match run.trouble with
    | some f => { run with builds, compile := { run.compile with story, fault := some f } }
    | none =>
      let told := builds.flatMap (·.told)
      let bag := run.compile.bag.map fun b => (b.addAll told).sort
      { run with builds, compile := { run.compile with story, bag } }

end Tenure.Build
