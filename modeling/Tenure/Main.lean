import Std.Time.DateTime.Timestamp
import Tenure.Command.Run
import Tenure.Toolchain.Script

/- The command line. What a run may look at is read from the disk before it, and what it changed is
   written back after it. Tools are scripts on the search path. -/
namespace Tenure.Main

def readFile? (path : String) : IO (Option Bytes) := do
  try return some (← IO.FS.readBinFile path).data.toList
  catch _ => return none

partial def readTree (d : Disk) (path : String) : IO Disk := do
  match ← readFile? path with
  | some bs => return d.plant path bs
  | none =>
    let entries ← try (← IO.FS.realPath path).readDir catch _ => return d
    let d := (d.makeDirs path).toOption.getD d
    entries.foldlM (fun d e => readTree d (Path.join path e.fileName)) d

def readScript (d : Disk) (path : String) : IO Disk := do
  match ← readFile? path with
  | some bs => return if Bytes.startsWith (Bytes.ofString "#!") bs then d.plant path bs else d
  | none => return d

def readManifests (d : Disk) (cwd : String) : IO Disk :=
  (Manifest.upwards cwd).foldlM (fun d dir => do
    let path := Path.join dir Manifest.fileName
    return ((← readFile? path).map (d.plant path)).getD d) d

def roots (w : Command.World) (args : List String) : List String :=
  let base := match w.manifest with
    | .ok (some m) => [m.root, m.catalogPath]
    | _ => []
  (base ++ args.map w.place).filter (!·.isEmpty)

def environment : IO (List (String × String)) := do
  let found ← ["PATH", "XDG_CACHE_HOME", "HOME"].mapM fun name => do
    return (← IO.getEnv name).map (name, ·)
  return found.filterMap id

def worldFor (args : List String) : IO Command.World := do
  let cwd := toString (← IO.currentDir)
  let env ← environment
  let searchPath := (env.lookup "PATH").getD ""
  let w : Command.World :=
    { disk := ← readManifests ((Disk.makeDirs {} cwd).toOption.getD {}) cwd, cwd, env
      clock := (← Std.Time.Timestamp.now).toNanosecondsSinceUnixEpoch.val / 1000
      runProgram := Script.runCommand, findProgram := fun d => Script.find d searchPath }
  let cache := (w.cacheDir.toOption.map w.place).getD ""
  let tools := (Text.splitOn ":" searchPath).flatMap fun dir =>
    [Toolchain.cargo, .rustc].map fun t => Path.join dir t.name
  let disk ← (roots w args ++ [Cache.unitsDir cache]).foldlM readTree w.disk
  return { w with disk := ← tools.foldlM readScript disk }

def writeBack (before after : Disk) : IO Unit :=
  after.nodes.forM fun (path, node) => do
    if before.node? path ≠ some node then
      match node with
      | .dir => IO.FS.createDirAll path
      | .file bs => IO.FS.writeBinFile path ⟨bs.toArray⟩

end Tenure.Main

def main (args : List String) : IO UInt32 := do
  let w ← Tenure.Main.worldFor args
  let o := Tenure.Command.run w args
  Tenure.Main.writeBack w.disk o.disk
  (← IO.getStdout).write ⟨o.out.toArray⟩
  (← IO.getStderr).write ⟨o.err.toArray⟩
  return o.exit.toUInt32
