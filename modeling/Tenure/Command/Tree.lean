import Tenure.Command.Flag

/- The commands, and the one that a command line asks for. -/
namespace Tenure.Command

inductive Arity where
  | any
  | none
  | one
  deriving DecidableEq, Repr

structure Spec where
  name : String
  use : String
  short : String
  long : String := ""
  flags : List Flag := []
  arity : Arity := .any
  runnable : Bool := true
  deriving Repr

def program : String := "keel"

def programAbout : String :=
  "Keel infers ownership and mutability for programs written without them and builds them with the native toolchain"

def sharedFlags : List Flag := [
  { name := "color", default := "auto", usage := "colorize output (auto|on|off)" },
  { name := "quiet", kind := .bool, usage := "suppress non-essential output" },
  { name := "timings", kind := .bool, usage := "show timing information" },
  { name := "max-diagnostics", kind := .int
    usage := "maximum number of diagnostics to show (default from keel.toml, else 100)" },
  { name := "jobs", kind := .int
    usage := "parallel function analyses per unit (0 = GOMAXPROCS)" },
  { name := "format", default := "pretty", usage := "diagnostic output format (pretty|json|short)" },
  { name := "path-mode", default := "auto"
    usage := "how file paths are shown (auto|absolute|relative|basename)" },
  { name := "no-cache", kind := .bool, usage := "do not read or write the compiled-unit cache" },
  { name := "trace", usage := "trace output file (- for stderr)" },
  { name := "trace-level", default := "off", usage := "trace level (off|error|phase|detail|debug)" },
  { name := "trace-mode", default := "stream", usage := "trace storage (stream|ring|both)" },
  { name := "trace-ring-size", kind := .int, default := "4096"
    usage := "events kept in ring mode" },
  { name := "trace-format", default := "text"
    usage := "trace event format (text|ndjson); .ndjson outputs default to ndjson" },
  { name := "trace-heartbeat", kind := .duration, default := "2s"
    usage := "heartbeat interval while the native toolchain runs (0 = off)" },
  { name := "cpu-profile", usage := "write a CPU profile to file" },
  { name := "mem-profile", usage := "write a heap profile to file on exit" },
  { name := "runtime-trace", usage := "write a Go runtime trace to file" }]

def buildSpec : Spec :=
  { name := "build", use := "build [flags] [path...]"
    short := "Build typed AST inputs with the native toolchain"
    long := "Infer ownership, generate backend source, run cargo or rustc and report its diagnostics against the original sources."
    flags := [
      { name := "release", kind := .bool, usage := "optimize for release" },
      { name := "toolchain"
        usage := "native toolchain (cargo|rustc); default from keel.toml, else cargo" },
      { name := "edition", usage := "backend language edition" },
      { name := "out-dir", usage := "output directory (default from keel.toml, else target/keel)" },
      { name := "units", kind := .int, usage := "units built in parallel (0 = GOMAXPROCS)" },
      { name := "warnings", kind := .bool, usage := "translate backend warnings too" },
      { name := "keep-tmp", kind := .bool, usage := "keep temporary build directories" },
      { name := "print-commands", kind := .bool, usage := "print native toolchain commands" },
      { name := "ui", default := "auto", usage := "progress view (auto|on|off)" }] }

def checkSpec : Spec :=
  { name := "check", use := "check [flags] [path...]"
    short := "Infer ownership and report conflicts without building"
    long := "Analyze and generate every unit, reporting annotation conflicts and unresolvable ownership. The native toolchain is not run."
    flags := [{ name := "ui", default := "off", usage := "progress view (auto|on|off)" }] }

def emitSpec : Spec :=
  { name := "emit", use := "emit [flags] [path...]"
    short := "Write generated backend source and source maps"
    long := "Analyze and generate every unit, then write <module>.rs and <module>.rs.map.json to the output directory. Any afs URL is accepted as --out-dir."
    flags := [{ name := "out-dir"
                usage := "output directory or URL (default from keel.toml, else target/keel)" }] }

def hintsSpec : Spec :=
  { name := "hints", use := "hints [flags] [path...]"
    short := "Print inferred ownership as inlay hints"
    long := "Print the resolved mode of every binding and every inserted clone. Use --format json for editor integrations." }

def explainSpec : Spec :=
  { name := "explain", use := "explain <code|category>"
    short := "Explain a diagnostic code"
    long := "Print the catalog documentation for a code such as BCK4007, a bare number, or a category such as use-after-move."
    arity := .one }

def catalogSpec : Spec :=
  { name := "catalog", use := "catalog", short := "List the diagnostic catalog", arity := .none }

def fixSpec : Spec :=
  { name := "fix", use := "fix [flags] [path...]"
    short := "Apply suggested fixes to the original sources"
    long := "Analyze the inputs, collect the structured fixes attached to ownership diagnostics and apply them to the original source files."
    flags := [
      { name := "all", kind := .bool, usage := "apply every available fix" },
      { name := "once", kind := .bool, usage := "apply the first available fix (default)" },
      { name := "id", usage := "apply the fix with this identifier" },
      { name := "dry-run", kind := .bool
        usage := "print the rewritten files instead of writing them" },
      { name := "list", kind := .bool, usage := "list available fixes and their identifiers" }] }

def versionSpec : Spec :=
  { name := "version", use := "version", short := "Show the keel build fingerprint", arity := .none
    flags := [{ name := "full", kind := .bool, usage := "show commit and build date" }] }

def helpSpec : Spec :=
  { name := "help", use := "help [command]", short := "Help about any command"
    long := "Help provides help for any command in the application.\nSimply type keel help [path to command] for full details." }

def completionSpec : Spec :=
  { name := "completion", use := "completion"
    short := "Generate the autocompletion script for the specified shell"
    long := "Generate the autocompletion script for keel for the specified shell.\nSee each sub-command's help for details on how to use the generated script."
    arity := .none, runnable := false }

def specs : List Spec :=
  [buildSpec, checkSpec, emitSpec, hintsSpec, explainSpec, catalogSpec, fixSpec, versionSpec,
    helpSpec, completionSpec]

def specNamed (name : String) : Option Spec := specs.find? (·.name == name)

def helpFlag (name : String) : Flag :=
  { name := "help", short := some 'h', kind := .bool, usage := s!"help for {name}" }

def versionFlag : Flag :=
  { name := "version", short := some 'v', kind := .bool, usage := s!"version for {program}" }

def flagsOf : Option Spec → List Flag
  | none => sharedFlags ++ [helpFlag program, versionFlag]
  | some c => c.flags ++ sharedFlags ++ [helpFlag c.name]

def takesNext (fs : List Flag) (arg : String) : Bool :=
  match arg.toList with
  | '-' :: '-' :: name =>
    !name.contains '=' && !((flagNamed fs (String.ofList name)).map Flag.standsAlone).getD false
  | ['-', c] => c != '=' && !((flagShort fs c).map Flag.standsAlone).getD false
  | _ => false

def plainArgs (fs : List Flag) : List String → List String
  | [] => []
  | "--" :: _ => []
  | [a] => if takesNext fs a || Text.startsWith "-" a || a.isEmpty then [] else [a]
  | a :: b :: rest =>
    if takesNext fs a then if rest.isEmpty then [] else plainArgs fs rest
    else if Text.startsWith "-" a || a.isEmpty then plainArgs fs (b :: rest)
    else a :: plainArgs fs (b :: rest)

def withoutFirst (fs : List Flag) (x : String) : List String → List String
  | [] => []
  | "--" :: rest => "--" :: rest
  | [a] => if !takesNext fs a && a == x then [] else [a]
  | a :: b :: rest =>
    if takesNext fs a then a :: b :: withoutFirst fs x rest
    else if !Text.startsWith "-" a && a == x then b :: rest
    else a :: withoutFirst fs x (b :: rest)

def distanceRow (c : UInt8) : List UInt8 → List Nat → Nat → List Nat
  | d :: ds, corner :: up :: row, left =>
    let best := min (min (left + 1) (up + 1)) (if c = d then corner else corner + 1)
    best :: distanceRow c ds (up :: row) best
  | _, _, _ => []

def distance (a b : Bytes) : Nat :=
  let (row, _) := a.foldl (fun (row, i) c => (i :: distanceRow c b row i, i + 1))
    (List.range (b.length + 1), 1)
  row.getLast?.getD 0

def suggestions (typed : String) : List String :=
  let typed := Text.lower typed
  let close (name : String) : Bool :=
    distance (Bytes.ofString typed) (Bytes.ofString name) ≤ 2 || Text.startsWith typed name
  ((specs.map (·.name)).filter fun name => name != "help" && close name)

inductive LineFault where
  | unknown (typed : String)
  | surplus (command typed : String)
  | count (n : Nat)
  | args (f : ArgFault)
  deriving DecidableEq, Repr

def LineFault.message : LineFault → String
  | .unknown typed =>
    let meant := suggestions typed
    s!"unknown command {Text.quoted typed} for {Text.quoted program}" ++
      if meant.isEmpty then ""
      else "\n\nDid you mean this?\n" ++ String.join (meant.map fun m => s!"\t{m}\n")
  | .surplus command typed =>
    let path := s!"{program} {command}"
    s!"unknown command {Text.quoted typed} for {Text.quoted path}"
  | .count n => s!"accepts 1 arg(s), received {n}"
  | .args f => f.message

inductive Wish where
  | help (about : Option Spec)
  | version
  | run (command : Spec) (settings : Settings)

def findCommand (args : List String) : Except LineFault (Option Spec × List String) :=
  match plainArgs sharedFlags args with
  | [] => .ok (none, args)
  | name :: _ => match specNamed name with
    | some c => .ok (some c, withoutFirst sharedFlags name args)
    | none => .error (.unknown name)

def checkArity (c : Spec) (args : List String) : Except LineFault Unit :=
  match c.arity, args with
  | .none, a :: _ => .error (.surplus c.name a)
  | .one, args => if args.length = 1 then .ok () else .error (.count args.length)
  | _, _ => .ok ()

def interpret (args : List String) : Except LineFault Wish := do
  let (c, args) ← findCommand args
  let s ← (Settings.ofArgs (flagsOf c) args).mapError .args
  if s.bool "help" then return .help c
  match c with
  | none => return if s.bool "version" then .version else .help none
  | some c =>
    if !c.runnable then return .help (some c)
    checkArity c s.args
    return .run c s

end Tenure.Command
