import Tenure.Build.Compile
import Tenure.Text.Quoted

/- Units as files: the text of each, and its source map beside it. -/
namespace Tenure.Build

structure Artifact where
  module : String
  source : String
  map : String
  deriving DecidableEq, Repr

def mapEnding : String := ".map.json"

structure EmitRun where
  compile : CompileRun
  storage : Storage
  artifacts : List Artifact := []

namespace EmitRun

def say (r : EmitRun) (p : Progress) : EmitRun :=
  { r with compile := { r.compile with events := r.compile.events ++ [p] } }

def find (r : EmitRun) (d : Diagnostic) : EmitRun :=
  { r with compile := { r.compile with bag := r.compile.bag.map (·.add d) } }

def stop (r : EmitRun) (f : Fault) : EmitRun :=
  { r with compile := { r.compile with fault := some f } }

end EmitRun

def writeUnit (storage : Storage) (files : FileSet) (a : Artifact) (u : Generated) :
    Except Fault Storage := do
  let s ← (storage.write a.source (Bytes.ofString u.text)).mapError fun f => .write a.source f.message
  let map := (u.map.getD default).store files
  (s.write a.map (Bytes.ofString map)).mapError fun f =>
    .write s!"source map {a.map}" f.message

def duplicateMessage (u : Generated) (first : String) : String :=
  s!"module {Text.quoted u.module} is also produced by {first}; {u.file} was not written"

/-- Writes the units in order, up to the first that cannot be written. `seen` has the files written
so far, each with the document it is from. -/
def emitUnits (q : Request) (outDir : String) (seen : List (String × String)) (r : EmitRun) :
    List Compiled → EmitRun
  | [] => { r with compile := { r.compile with bag := r.compile.bag.map Bag.sort } }
  | c :: cs => match c.unit with
    | none => emitUnits q outDir seen r cs
    | some u =>
      let file := q.name c.url
      match seen.lookup u.file with
      | some first =>
        let message := duplicateMessage u first
        let home := (c.module.map (·.file)).getD 0
        let r := r.find (fileFinding .writeArtifact home message)
        let r := r.say { file, stage := .emit, status := .error, detail := message }
        emitUnits q outDir seen r cs
      | none =>
        let r := r.say { file, stage := .emit, status := .working }
        let a : Artifact :=
          { module := u.module, source := Locator.join outDir u.file
            map := Locator.join outDir (u.file ++ mapEnding) }
        match writeUnit r.storage r.compile.shop.files a u with
        | .error f =>
          (r.say { file, stage := .emit, status := .error, detail := f.message }).stop f
        | .ok storage =>
          let r := { r with storage, artifacts := r.artifacts ++ [a] }
          let r := r.say { file, stage := .emit, status := .done }
          emitUnits q outDir ((u.file, file) :: seen) r cs

/-- Compiles the inputs and writes every unit that has text, also one with errors, so that its text
can be looked at. -/
def emit (q : Request) (outDir : String) (storage : Storage) (s : Shop) : EmitRun :=
  if outDir.isEmpty then { compile := { shop := s, fault := some .missingOutDir }, storage }
  else
    let run : EmitRun := { compile := compile q storage s, storage }
    if run.compile.fault.isSome then run else emitUnits q outDir [] run run.compile.compiled

end Tenure.Build
