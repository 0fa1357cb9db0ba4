import Tenure.Build.Native
import Tenure.Cache.Stored
import Tenure.Catalog.Builtin
import Tenure.Catalog.Document
import Tenure.Command.Options
import Tenure.Project.Find

/- What a command works with: the project it is called in, its inputs, and the cache. -/
namespace Tenure.Command

structure World where
  disk : Disk
  cwd : String := "/"
  env : List (String × String) := []
  release : Release := {}
  clock : Int := 0
  runProgram : Disk → List String → ProgramRun := fun _ _ => {}
  findProgram : Disk → String → Except String String := fun _ name => .error name

namespace World

def var (w : World) (name : String) : String := (w.env.lookup name).getD ""

def place (w : World) (path : String) : String := Path.absolute w.cwd path

def manifest (w : World) : Except Fault (Option Manifest) :=
  (Manifest.load w.disk w.cwd w.cwd).mapError .manifest

def catalog (w : World) (m : Option Manifest) : Except Fault Catalog := do
  let path := (m.map (·.catalogPath)).getD ""
  if path.isEmpty then return Catalog.builtin
  let bs ← (w.disk.readFile path).mapError .catalogFile
  if bs.isEmpty then return Catalog.builtin
  (Catalog.extend Catalog.builtin (Bytes.toText bs)).mapError (.catalog path)

def cacheDir (w : World) : Except Fault String :=
  let base := w.var "XDG_CACHE_HOME"
  let home := w.var "HOME"
  if !base.isEmpty then .ok (Path.join base "keel")
  else if home.isEmpty then .error .noHome
  else .ok (Path.joinAll [home, ".cache", "keel"])

end World

structure Session where
  options : Options
  manifest : Option Manifest
  baseDir : String
  inputs : List String
  catalog : Catalog
  files : FileSet
  storage : Storage
  cache : Option (String × Cache) := none

namespace Session

def limitOf (o : Options) (m : Option Manifest) : Int :=
  let own := (m.map (·.config.maxFindings)).getD 0
  if 0 < o.limit then o.limit
  else if 0 < own then own
  else Manifest.defaultMaxFindings

def inputsOf (w : World) (m : Option Manifest) (args : List String) : Except Fault (List String) :=
  match args, m with
  | a :: as, _ => .ok ((a :: as).map w.place)
  | [], some m => .ok (if m.sourcePaths.isEmpty then [m.root] else m.sourcePaths)
  | [], none => .error .noInput

def openCache (w : World) (s : Session) : Except Fault Session := do
  if !s.options.cache then return s
  let dir := w.place (← w.cacheDir)
  let disk ← (s.storage.disk.makeDirs dir).mapError .cacheDir
  return { s with storage := { s.storage with disk }, cache := some (dir, Cache.ofDisk disk dir) }

def start (w : World) (args : Settings) : Except Fault Session := do
  let options ← Options.read args
  let m ← w.manifest
  let baseDir := (m.map (·.root)).getD w.cwd
  let inputs ← inputsOf w m args.args
  let catalog ← w.catalog m
  openCache w
    { options := { options with limit := limitOf options m }, manifest := m, baseDir, inputs, catalog
      files := { baseDir, workDir := w.cwd }, storage := { disk := w.disk } }

def request (w : World) (s : Session) : Build.Request :=
  { inputs := s.inputs, baseDir := s.baseDir
    settings := { limit := s.options.limit, release := w.release
                  disk := fun p => (s.storage.disk.readFile (w.place p)).toOption } }

def shop (s : Session) : Build.Shop := { files := s.files, cache := s.cache.map (·.2) }

def keep (s : Session) (shop : Build.Shop) (d : Disk) : Disk :=
  match s.cache, shop.cache with
  | some (dir, _), some c => c.toDisk dir d
  | _, _ => d

def outDir (w : World) (s : Session) (flag : String) : String :=
  let own := (s.manifest.map fun m => if m.config.outDir.isEmpty then "" else m.outDir).getD ""
  if Locator.isUrl flag then flag
  else if !flag.isEmpty then w.place flag
  else if !own.isEmpty then own
  else Path.join s.baseDir Manifest.defaultOutDir

/-- A path as it is told: from the base directory, unless it leads out of it. -/
def shownPath (s : Session) (path : String) : String :=
  match Path.relative s.baseDir path with
  | some rel => if path.isEmpty || Path.escapes rel then path else rel
  | none => path

end Session

end Tenure.Command
