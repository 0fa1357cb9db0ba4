import Tenure.Disk
import Tenure.Toolchain.Message
import Tenure.Trace.Tracer

/- One run of a toolchain on a unit: its files are written into a directory, the program is called
   there, and what it prints is read. -/
namespace Tenure

structure BuildJob where
  module : String
  source : String
  binary : Bool := false
  toolchain : Toolchain := .cargo
  edition : String := "2021"
  release : Bool := false
  warnings : Bool := false
  /-- Without one, the job runs in a directory of its own that is gone afterwards. -/
  dir : String := ""
  keepTemp : Bool := false
  echo : Bool := false
  deriving Inhabited

structure ProgramRun where
  stdout : String := ""
  stderr : String := ""
  exit : Nat := 0
  deriving Inhabited

namespace BuildJob

def withDefaults (j : BuildJob) : BuildJob :=
  { j with
    toolchain := if j.toolchain.name.isEmpty then .cargo else j.toolchain
    edition := if j.edition.isEmpty then "2021" else j.edition }

def sourceName (j : BuildJob) : String := if j.binary then "main.rs" else "lib.rs"

def manifestChar (c : Char) : List Char :=
  match c with
  | '"' => ['\\', '"']
  | '\\' => ['\\', '\\']
  | '\t' => ['\\', 't']
  | '\n' => ['\\', 'n']
  | '\r' => ['\\', 'r']
  | c =>
    if c.toNat = 8 then ['\\', 'b']
    else if c.toNat = 12 then ['\\', 'f']
    else if c.toNat < 32 ∨ c.toNat = 127 then '\\' :: 'u' :: Text.hexPadded 4 c.toNat
    else [c]

def manifestText (s : String) : String :=
  String.ofList ('"' :: s.toList.flatMap manifestChar ++ ['"'])

def manifest (j : BuildJob) : String :=
  let name := manifestText j.module
  s!"[package]\n  name = {name}\n  version = \"0.1.0\"\n  edition = {manifestText j.edition}\n\n" ++
    (if j.binary then s!"[[bin]]\n  name = {name}\n  path = \"src/main.rs\"\n"
      else "[lib]\n  path = \"src/lib.rs\"\n")

structure Workplace where
  dir : String
  files : List (String × String × String)
  sourcePath : String
  artifact : String := ""
  args : List String

def cargoPlace (j : BuildJob) (dir : String) : Workplace :=
  let source := Path.joinAll [dir, "src", j.sourceName]
  let manifest := Path.join dir "Cargo.toml"
  { dir := Path.dir source
    files := [(manifest, j.manifest, "failed to write Cargo.toml"),
      (source, j.source, "failed to write generated source")]
    sourcePath := source
    args := ["build", "--message-format=json", "--quiet", "--manifest-path", manifest] ++
      (if j.release then ["--release"] else []) }

def rustcPlace (j : BuildJob) (dir : String) : Workplace :=
  let source := Path.join dir (j.module ++ ".rs")
  let artifact := Path.join dir (if j.binary then j.module else "lib" ++ j.module ++ ".rlib")
  { dir
    files := [(source, j.source, "failed to write generated source")]
    sourcePath := source
    artifact
    args := ["--error-format=json", "--edition", j.edition, "--crate-type",
      if j.binary then "bin" else "lib", "--crate-name", j.module, "-o", artifact] ++
      (if j.release then ["-O"] else []) ++ [source] }

def place? (j : BuildJob) (dir : String) : Option Workplace :=
  if j.toolchain = .cargo then some (j.cargoPlace dir)
  else if j.toolchain = .rustc then some (j.rustcPlace dir)
  else none

def writeFiles : List (String × String × String) → Disk → Disk × Option String
  | [], d => (d, none)
  | (path, text, trouble) :: rest, d =>
    match d.writeFile path (Bytes.ofString text) with
    | .ok d => writeFiles rest d
    | .error f => (d, some s!"{trouble}: {f.message}")

def Workplace.prepare (w : Workplace) (d : Disk) : Disk × Option String :=
  match d.makeDirs w.dir with
  | .error f => (d, some s!"failed to create build dir: {f.message}")
  | .ok d => writeFiles w.files d

def lastLines (n : Nat) (s : String) : String :=
  let ls := Text.lines s
  "\n".intercalate (ls.drop (ls.length - n))

/-- What is left of the error stream once the records are read: nothing when they were on it. -/
def complaint (j : BuildJob) (run : ProgramRun) : String :=
  let said := if j.toolchain = .rustc then "" else Text.trim run.stderr
  if said.isEmpty then s!"exit status {run.exit}" else said

/-- What a run says. A run that fails without a record of an error has nothing to tell. -/
def judge (j : BuildJob) (o : BuildOutcome) (run : ProgramRun) : Except ToolFault BuildOutcome :=
  let stream := if j.toolchain = .rustc then run.stderr else run.stdout
  let out := Toolchain.readOutput j.warnings o.dir stream
  let o := { o with records := out.records, artifact := (out.artifacts.getLast?).getD o.artifact }
  let hasErrors := o.records.any fun r => r.severity == .error
  if run.exit ≠ 0 ∧ !hasErrors then
    .error (.failed (lastLines 5 (j.complaint run)) o)
  else if run.exit = 0 ∧ !hasErrors then .ok { o with success := true }
  else .ok { o with artifact := "" }

structure Invocation where
  disk : Disk
  answer : Except ToolFault BuildOutcome
  echo : List String := []
  story : List Trace.Story := []

def outcomeOf (answer : Except ToolFault BuildOutcome) : BuildOutcome :=
  match answer with
  | .ok o => o
  | .error (.failed _ o) => o
  | .error _ => {}

def storyOf (j : BuildJob) (answer : Except ToolFault BuildOutcome) (echo : List String) :
    Trace.Story :=
  let o := outcomeOf answer
  .span .stage s!"native {j.toolchain.name}" (echo.map .said)
    s!"success={o.success} diagnostics={o.records.length}" [("module", j.module)]

structure ToolAccess where
  find : String → Except String String
  run : Disk → List String → ProgramRun
  tempDir : String
  canceled : Bool := false

def invoke (job : BuildJob) (tools : ToolAccess) (d : Disk) : Invocation :=
  let j := job.withDefaults
  match tools.find j.toolchain.name with
  | .error why => { disk := d, answer := .error (.missing s!"{j.toolchain.name}: {why}") }
  | .ok tool =>
    let dir := if j.dir.isEmpty then tools.tempDir else j.dir
    let cleanUp (d : Disk) : Disk := if j.dir.isEmpty && !j.keepTemp then d.removeAll dir else d
    let finish (d : Disk) (answer : Except ToolFault BuildOutcome) (echo : List String) : Invocation :=
      { disk := cleanUp d, answer, echo, story := [storyOf j answer echo] }
    match j.place? dir with
    | none => finish d (.error (.other s!"unsupported toolchain: {j.toolchain.name}")) []
    | some w => match w.prepare d with
      | (d, some trouble) => finish d (.error (.other trouble)) []
      | (d, none) =>
        let command := tool :: w.args
        let echo := if j.echo then [" ".intercalate command] else []
        if tools.canceled then finish d (.error .canceled) echo
        else
          let o : BuildOutcome :=
            { dir, sourcePath := w.sourcePath, artifact := w.artifact, command }
          finish d (judge j o (tools.run d command)) echo

end BuildJob

end Tenure
