import Tenure.Build.Discover
import Tenure.Catalog.Entry
import Tenure.Command.Flag
import Tenure.Diagnostic.Report
import Tenure.Project.Manifest

/- Settings that all commands understand alike, and why a command gives up. -/
namespace Tenure.Command

inductive Format where
  | pretty
  | json
  | short
  deriving DecidableEq, Repr

def Format.ofName? (s : String) : Option Format :=
  match Text.lower s with
  | "pretty" => some .pretty
  | "json" => some .json
  | "short" => some .short
  | _ => none

inductive Toggle where
  | auto
  | on
  | off
  deriving DecidableEq, Repr

def Toggle.ofName? (s : String) : Option Toggle :=
  match Text.trim (Text.lower s) with
  | "" | "auto" => some .auto
  | "on" | "always" | "true" => some .on
  | "off" | "never" | "false" => some .off
  | _ => none

inductive Fault where
  | toggle (flag value : String)
  | format (value : String)
  | pathMode (value : String)
  | manifest (f : Manifest.Fault)
  | noInput
  | catalogFile (f : Disk.Fault)
  | catalog (path : String) (f : CatalogFault)
  | cacheDir (f : Disk.Fault)
  | noHome
  | toolchain (name : String)
  | build (f : Build.Fault)
  | idAndChoice
  | allAndOnce
  | unknownCode (query : String)
  | canceled

namespace Fault

def message : Fault → String
  | .toggle flag value => s!"invalid --{flag} value {Text.quoted value} (expected auto|on|off)"
  | .format value => s!"unsupported format {Text.quoted value} (expected pretty|json|short)"
  | .pathMode value => s!"unsupported path mode {Text.quoted value}"
  | .manifest f => f.message
  | .noInput =>
    s!"no input given and no {Manifest.fileName} found; pass a {Build.documentEnding} file or directory"
  | .catalogFile f => s!"catalog: {f.message}"
  | .catalog path f => s!"catalog {path}: {f.message}"
  | .cacheDir f => f.message
  | .noHome => "$HOME is not defined"
  | .toolchain name => Toolchain.unknownMessage name
  | .build f => f.message
  | .idAndChoice => "--id cannot be combined with --all or --once"
  | .allAndOnce => "--all and --once are mutually exclusive"
  | .unknownCode query => s!"unknown diagnostic code or category {Text.quoted query}"
  | .canceled => Build.Fault.canceled.message

end Fault

def readToggle (s : Settings) (flag default : String) : Except Fault Toggle :=
  let value := s.text flag default
  match Toggle.ofName? value with
  | some t => .ok t
  | none => .error (.toggle flag value)

structure Options where
  color : Bool := false
  quiet : Bool := false
  timings : Bool := false
  /-- Not positive when no limit was asked for. -/
  limit : Int := 0
  cache : Bool := true
  format : Format := .pretty
  pathMode : File.PathMode := .auto

/-- The output is no screen, so colors have to be asked for. -/
def Options.read (s : Settings) : Except Fault Options := do
  let color ← readToggle s "color" "auto"
  let name := s.text "format" "pretty"
  let some format := Format.ofName? name | throw (.format name)
  let mode := s.text "path-mode" "auto"
  let some pathMode := File.PathMode.ofName? mode | throw (.pathMode mode)
  return { color := color = .on, quiet := s.bool "quiet", timings := s.bool "timings"
           limit := s.int "max-diagnostics", cache := !s.bool "no-cache", format, pathMode }

end Tenure.Command
