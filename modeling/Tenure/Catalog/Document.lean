import Tenure.Catalog.Basic
import Tenure.Yaml.Field
import Tenure.Yaml.Read

/- Catalog documents. -/
namespace Tenure

namespace Draft

def lesson? (y : Yaml) : Option Lesson := do
  let ms ← y.members?
  let bad ← (Yaml.member "bad" ms).text?
  let good ← (Yaml.member "good" ms).text?
  return { bad, good }

def ofYaml? (y : Yaml) : Option Draft := do
  let ms ← y.members?
  let text (name : String) := (Yaml.member name ms).text?
  let texts (name : String) := (Yaml.member name ms).texts?
  let id ← text "code"
  let category ← text "category"
  let title ← text "title"
  let backendCodes ← texts "backend_codes"
  let patterns ← texts "patterns"
  let labelPatterns ← texts "label_patterns"
  let message ← text "message"
  let suggestions ← texts "suggestions"
  let defaults ← (Yaml.member "defaults" ms).textTable?
  let explanation ← text "explanation"
  let lessons ← (Yaml.member "examples" ms).items?
  let examples ← (lessons.filter fun l => !l.isNull).mapM lesson?
  return { id, category, title, backendCodes, patterns, labelPatterns, message, suggestions
           defaults, explanation, examples }

end Draft

namespace Catalog

def document? (s : String) : Option (Int × List (Option Draft)) := do
  let ms ← (← Yaml.parse? s).members?
  let version ← (Yaml.member "version" ms).int?
  let items ← (Yaml.member "entries" ms).items?
  let drafts ← items.mapM fun i => if i.isNull then some none else (Draft.ofYaml? i).map some
  return (version, drafts)

def addItem (c : Catalog) : Option Draft → Except CatalogFault Catalog
  | some d => c.add d
  | none => .error .missingEntry

def extend (c : Catalog) (s : String) : Except CatalogFault Catalog :=
  match document? s with
  | none => .error .unreadable
  | some (version, drafts) =>
    if version ≠ 1 then .error (.version version) else drafts.foldlM addItem c.copy

def parse (s : String) : Except CatalogFault Catalog := empty.extend s

end Catalog

end Tenure
