import Tenure.Path
import Tenure.Text.Letter
import Tenure.Text.Quoted
import Tenure.Toml.Read

/- The manifest of a project. -/
namespace Tenure

structure ManifestConfig where
  package : String := ""
  sources : List String := []
  outDir : String := ""
  jobs : Int := 0
  keepTemp : Bool := false
  toolchain : String := ""
  edition : String := ""
  release : Bool := false
  maxFindings : Int := 0
  warnings : Bool := false
  catalog : String := ""
  deriving DecidableEq, Repr, Inhabited

structure Manifest where
  path : String
  root : String
  config : ManifestConfig
  deriving DecidableEq, Repr, Inhabited

namespace Manifest

def fileName : String := "keel.toml"

def defaultOutDir : String := "target/keel"
def defaultEdition : String := "2021"
def defaultMaxFindings : Int := 100

inductive Fault where
  | unreadable (path : String)
  | noPackage (path : String)
  | noName (path : String)
  | unknownKey (path : String) (key : Toml.Key)
  | negativeJobs (path : String)
  | badToolchain (path name : String)
  /-- The disk does not tell whether there is one. -/
  | lost (path reason : String)
  deriving DecidableEq, Repr

def Fault.message : Fault → String
  | .unreadable path => s!"{path}: failed to parse TOML"
  | .noPackage path => s!"{path}: missing [package]"
  | .noName path => s!"{path}: missing [package].name"
  | .unknownKey path key => s!"{path}: unknown key {Toml.keyText key}"
  | .negativeJobs path => s!"{path}: [build].jobs must not be negative"
  | .badToolchain path name =>
    s!"{path}: [build].toolchain must be cargo or rustc, got {Text.quoted name}"
  | .lost path reason => s!"failed to stat {Text.quoted path}: stat {path}: {reason}"

def readString : Toml → Option String
  | .string s => some s
  | _ => none

def readInt : Toml → Option Int
  | .int n => some n
  | _ => none

def readBool : Toml → Option Bool
  | .bool b => some b
  | _ => none

def readStrings : Toml → Option (List String)
  | .array items => items.mapM readString
  | .tables items => items.mapM readString
  | _ => none

def sections : List (String × List String) := [
  ("package", ["name"]),
  ("build", ["sources", "out_dir", "jobs", "keep_tmp", "toolchain", "edition", "release"]),
  ("diagnostics", ["max", "warnings", "catalog"])]

def fieldsOf (section_ : String) : List String := (sections.lookup section_).getD []

def setField (c : ManifestConfig) (section_ field : String) (v : Toml) : Option ManifestConfig :=
  match section_, field with
  | "package", "name" => (readString v).map ({ c with package := · })
  | "build", "sources" => (readStrings v).map ({ c with sources := · })
  | "build", "out_dir" => (readString v).map ({ c with outDir := · })
  | "build", "jobs" => (readInt v).map ({ c with jobs := · })
  | "build", "keep_tmp" => (readBool v).map ({ c with keepTemp := · })
  | "build", "toolchain" => (readString v).map ({ c with toolchain := · })
  | "build", "edition" => (readString v).map ({ c with edition := · })
  | "build", "release" => (readBool v).map ({ c with release := · })
  | "diagnostics", "max" => (readInt v).map ({ c with maxFindings := · })
  | "diagnostics", "warnings" => (readBool v).map ({ c with warnings := · })
  | "diagnostics", "catalog" => (readString v).map ({ c with catalog := · })
  | _, _ => some c

def readFields (section_ : String) (ms : List (String × Toml)) (c : ManifestConfig) :
    Option ManifestConfig :=
  ms.foldlM (fun c (key, v) => match Json.fieldFor (fieldsOf section_) key with
    | some field => setField c section_ field v
    | none => some c) c

def readSections (ms : List (String × Toml)) : Option ManifestConfig :=
  ms.foldlM (fun c (key, v) => match Json.fieldFor (sections.map (·.1)) key with
    | some section_ => match v with
      | .table inner => readFields section_ inner c
      | _ => none
    | none => some c) {}

def isKnown (key : Toml.Key) : Bool :=
  match key with
  | [] => true
  | [s] => (Json.fieldFor (sections.map (·.1)) s).isSome
  | [s, f] => match Json.fieldFor (sections.map (·.1)) s with
    | some section_ => (Json.fieldFor (fieldsOf section_) f).isSome
    | none => false
  | _ => false

def decode (path text : String) : Except Fault ManifestConfig := do
  let some doc := Toml.parse? text | throw (.unreadable path)
  let .table ms := doc.root | throw (.unreadable path)
  let some c := readSections ms | throw (.unreadable path)
  let isDefined (key : Toml.Key) : Bool := (doc.root.at? key).isSome
  if !isDefined ["package"] then throw (.noPackage path)
  if !isDefined ["package", "name"] || (Text.trim c.package).isEmpty then throw (.noName path)
  match doc.named.find? fun k => !isKnown k with
  | some k => throw (.unknownKey path k)
  | none => pure ()
  if c.jobs < 0 then throw (.negativeJobs path)
  if !(["", "cargo", "rustc"].contains (Text.lower c.toolchain)) then
    throw (.badToolchain path c.toolchain)
  return { c with
    sources := if isDefined ["build", "sources"] then c.sources else ["."]
    outDir := if c.outDir.isEmpty then defaultOutDir else c.outDir
    edition := if c.edition.isEmpty then defaultEdition else c.edition
    maxFindings := if isDefined ["diagnostics", "max"] then c.maxFindings else defaultMaxFindings }

def resolve (m : Manifest) (p : String) : String := if Path.isAbs p then p else Path.join m.root p

def sourcePaths (m : Manifest) : List String := m.config.sources.map m.resolve

def outDir (m : Manifest) : String := m.resolve m.config.outDir

def catalogPath (m : Manifest) : String :=
  if m.config.catalog.isEmpty then "" else m.resolve m.config.catalog

end Manifest

end Tenure
