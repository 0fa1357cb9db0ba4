import Tenure.Cache.Basic
import Tenure.Disk
import Tenure.Json.Field
import Tenure.Json.Read
import Tenure.Json.Write

/- Caches on a disk: one file for each entry, in a directory of their own. -/
namespace Tenure.Cache

def encode (u : CachedUnit) : Bytes :=
  Bytes.ofString (Json.compactWith false (.obj [
    ("schema", .nat u.schema), ("module", .str u.module), ("generated", .str u.generated),
    ("text", .str u.text), ("map", .str u.map), ("functions", .int u.functions)]))

def decodeField (key : String) (j : Json) (u : CachedUnit) : Except Json.Misfit CachedUnit :=
  match key with
  | "schema" => (Json.read32 j u.schema).map ({ u with schema := · })
  | "module" => (Json.readStr j u.module).map ({ u with module := · })
  | "generated" => (Json.readStr j u.generated).map ({ u with generated := · })
  | "text" => (Json.readStr j u.text).map ({ u with text := · })
  | "map" => (Json.readStr j u.map).map ({ u with map := · })
  | _ => (Json.readInt64 j u.functions).map ({ u with functions := · })

def decode? (bs : Bytes) : Option CachedUnit := do
  let j ← Json.parse? (Bytes.toText bs)
  let blank : CachedUnit :=
    { schema := 0, module := "", generated := "", text := "", map := "" }
  (Json.readObj ["schema", "module", "generated", "text", "map", "functions"] decodeField j
    blank).toOption

def unitsDir (dir : String) : String := Path.join dir "units"

def entryEnding : String := ".mp"

def slotOf : Disk.Node → Slot
  | .dir => .taken
  | .file bs => ((decode? bs).map Slot.unit).getD .damaged

def ofDisk (d : Disk) (dir : String) : Cache :=
  let units := unitsDir dir
  let entries := (d.names units).filterMap fun name => do
    let key ← Text.dropTail entryEnding name
    let node ← d.node? (Path.join units name)
    return (key, slotOf node)
  { slots := entries, blocked := d.isFile units }

def toDisk (c : Cache) (dir : String) (d : Disk) : Disk :=
  let old := ofDisk d dir
  c.slots.foldl (fun d (key, slot) => match slot with
    | .unit u =>
      if old.slots.lookup key = some slot then d
      else d.plant (Path.join (unitsDir dir) (key ++ entryEnding)) (encode u)
    | _ => d) d

end Tenure.Cache
