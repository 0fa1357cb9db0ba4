import Tenure.Build.Discover
import Tenure.Build.Progress
import Tenure.Cache.Basic
import Tenure.Diagnostic.Bag
import Tenure.Program.Accept
import Tenure.SourceMap.Stored
import Tenure.Timer
import Tenure.Trace.Work

/- Documents into units: read, decode, analyse and generate each, or take it from the cache. What is
   wrong with a document is a finding about it and stops no other document. -/
namespace Tenure.Build

open Trace (Story)

structure Compiled where
  url : String
  /-- Missing when the document could not be decoded. -/
  module : Option Module := none
  analysis : Option Analysis := none
  unit : Option Generated := none
  bag : Bag
  cached : Bool := false

def Compiled.failed (c : Compiled) : Bool := c.unit.isNone || c.bag.hasLocalErrors

structure Settings where
  /-- Most findings of a unit; without a limit when not positive. -/
  limit : Int := 0
  release : Release := {}
  disk : String → Option Bytes := fun _ => none
  measured : String → Int := fun _ => 0

/-- What units share: the files they refer to, and the cache, if there is one. -/
structure Shop where
  files : FileSet := {}
  cache : Option Cache := none
  deriving Inhabited

structure UnitRun where
  shop : Shop
  result : Compiled
  begun : List Stage
  ended : List (Stage × String × String)
  story : Story

def fileFinding (code : Code) (file : Nat) (message : String) : Diagnostic :=
  { severity := .error, code, kind := .internal, message, primary := Range.of file 1 1 1 1 }

/-- The unit of a key, when the cache has a good one. Its paths join the files. -/
def fromCache (s : Shop) (key : String) : Shop × Option Generated :=
  match s.cache with
  | none => (s, none)
  | some c => match c.get key with
    | .ok (some u) => match SourceMap.load s.files u.map with
      | (files, .ok m) =>
        ({ s with files }, some { module := u.module, file := u.generated, text := u.text, map := some m })
      | (files, .error _) => ({ s with files }, none)
    | _ => (s, none)

def toCache (s : Shop) (key : String) (u : Generated) (functions : Nat) : Shop × List Story :=
  match s.cache with
  | none => (s, [])
  | some c =>
    let entry : CachedUnit :=
      { module := u.module, generated := u.file, text := u.text
        map := (u.map.getD default).store s.files, functions }
    match c.put key entry with
    | .ok c => ({ s with cache := some c }, [])
    | .error f => (s, [.point .unit "cache" s!"store failed: {f.message}"])

def unitStory (url : String) (m : Option Module) (inner : List Story) : Story :=
  .span .unit s!"compile {url}" inner "" ((m.map fun m => [("module", m.name)]).getD [])

def compileModule (o : Settings) (s : Shop) (url : String) (m : Module) (key generated : String) :
    UnitRun :=
  let a := Analysis.of m
  let bag : Bag := { limit := o.limit }
  let bag := (bag.addAll a.findings).sort
  let unit := a.generate generated
  let (s, stored) := match unit with
    | some u => if bag.items.isEmpty then toCache s key u a.funcs.length else (s, [])
    | none => (s, [])
  { shop := s
    result := { url, module := some m, analysis := some a, unit, bag }
    begun := [.load, .analyze, .generate]
    ended := [(.load, s!"load {url}", ""),
      (.analyze, s!"analyze {m.name}", s!"{a.funcs.length} functions, {a.rounds} rounds"),
      (.generate, s!"codegen {m.name}",
        s!"{((unit.map fun u => u.text.utf8ByteSize).getD 0)} bytes")]
    story := unitStory url (some m) ([a.story, a.generateStory] ++ stored) }

def unreadable (o : Settings) (s : Shop) (url why : String) : UnitRun :=
  let (files, id) := s.files.addVirtual url []
  let bag : Bag := { limit := o.limit }
  { shop := { s with files }
    result := { url, bag := bag.add (fileFinding .loadFailed id
      s!"failed to load file: cannot read {url}: {why}") }
    begun := [.load], ended := [], story := unitStory url none [] }

def malformed (o : Settings) (s : Shop) (url : String) (data : Bytes) (why : String) : UnitRun :=
  let (files, id) := s.files.addVirtual url data
  let bag : Bag := { limit := o.limit }
  { shop := { s with files }
    result := { url, bag := bag.add (fileFinding .malformedInput id why) }
    begun := [.load], ended := [(.load, s!"load {url}", "")], story := unitStory url none [] }

def compileUnit (o : Settings) (read : String → Except String Bytes) (s : Shop) (url : String) :
    UnitRun :=
  match read url with
  | .error why => unreadable o s url why
  | .ok data => match Document.load s.files o.disk (Bytes.toText data) with
    | (files, .error f) => malformed o { s with files } url data f.message
    | (files, .ok m) =>
      let generated := m.name ++ ".rs"
      let key := Cache.unitKey o.release data generated
      match fromCache { s with files } key with
      | (s, some u) =>
        { shop := s
          result := { url, module := some m, unit := some u, bag := { limit := o.limit }, cached := true }
          begun := [.load], ended := [(.load, s!"load {url}", "")]
          story := unitStory url (some m) [.point .unit "cache" s!"hit {key}"] }
      | (s, none) => compileModule o s url m key generated

def compileUnits (o : Settings) (read : String → Except String Bytes) (s : Shop) :
    List String → Shop × List UnitRun
  | [] => (s, [])
  | u :: us =>
    let r := compileUnit o read s u
    let (s, rs) := compileUnits o read r.shop us
    (s, r :: rs)

def mergedBag (limit : Int) (units : List Compiled) : Bag :=
  let start : Bag := { limit }
  (units.foldl (fun b c => Bag.merge b c.bag) start).dedup.sort

structure CompileRun where
  shop : Shop
  units : List (Option Compiled) := []
  bag : Option Bag := none
  events : List Progress := []
  timed : List Stage := []
  timer : Timer := {}
  story : List Story := []
  fault : Option Fault := none

def CompileRun.compiled (r : CompileRun) : List Compiled := r.units.filterMap id

/-- What to compile: the roots, the directory that names are shown from, and whether the run has
been called off. -/
structure Request where
  inputs : List String
  baseDir : String := ""
  settings : Settings := {}
  canceled : Bool := false

def Request.name (q : Request) (url : String) : String := Locator.displayName url q.baseDir

def runEvents (q : Request) (rs : List UnitRun) : List Progress :=
  let begun := rs.flatMap fun r =>
    r.begun.map fun stage => { file := q.name r.result.url, stage, status := .working }
  let finished := rs.map fun r =>
    let file := q.name r.result.url
    if r.result.failed then
      { file, stage := .generate, status := .error, detail := "unit has errors" }
    else { file, stage := .generate, status := .done }
  begun ++ finished

def readFrom (storage : Storage) (url : String) : Except String Bytes :=
  (storage.read url).mapError fun f => f.message

/-- A run that has been called off ends at its first document. -/
def compileAll (q : Request) (storage : Storage) (s : Shop) (urls : List String) :
    Option (Shop × List UnitRun) :=
  if q.canceled && !urls.isEmpty then none
  else some (compileUnits q.settings (readFrom storage) s urls)

theorem compileAll_eq_some {q : Request} {storage : Storage} {s : Shop} {urls : List String}
    {shop : Shop} {rs : List UnitRun} (done : compileAll q storage s urls = some (shop, rs)) :
    shop = (compileUnits q.settings (readFrom storage) s urls).1 ∧
      rs = (compileUnits q.settings (readFrom storage) s urls).2 := by
  unfold compileAll at done
  split at done
  · cases done
  · rw [Option.some.inj done]
    exact ⟨rfl, rfl⟩

def compile (q : Request) (storage : Storage) (s : Shop) : CompileRun :=
  let told (story : List Story) (extra : List (String × String)) : List Story :=
    [.span .driver "compile" story "" extra]
  if q.inputs.isEmpty then { shop := s, fault := some .missingInputs }
  else match discover storage q.inputs with
    | .error f =>
      { shop := s, fault := some f, story := told [] []
        events := [{ file := "", stage := .load, status := .error, detail := f.message }] }
    | .ok urls =>
      let queued : List Progress := urls.map fun u =>
        { file := q.name u, stage := .load, status := .queued }
      match compileAll q storage s urls with
      | none =>
        { shop := s, units := urls.map fun _ => none, fault := some .canceled, story := told [] []
          events := queued ++ [{ file := "", stage := .analyze, status := .error
                                 detail := Fault.canceled.message }] }
      | some (s, rs) =>
        let units := rs.map (·.result)
        let ended := rs.flatMap (·.ended)
        { shop := s
          units := units.map some
          bag := some (mergedBag q.settings.limit units)
          events := queued ++ runEvents q rs
          timed := (ended.map (·.1)).eraseDups
          timer := ended.foldl (fun t (_, name, note) => t.record name (q.settings.measured name) note) {}
          story := told (rs.map (·.story)) [("units", toString units.length)] }

end Tenure.Build
