import Tenure.Catalog.Basic
import Tenure.Catalog.TypeText
import Tenure.Diagnostic.Basic
import Tenure.Pattern.Match
import Tenure.Text.Compose

/- Finding the entry for a backend message, and telling it in the words of the entry. -/
namespace Tenure

abbrev Captures := List (String × String)

namespace Captures

def put (name text : String) : Captures → Captures
  | [] => [(name, text)]
  | (n, t) :: rest => if n = name then (n, text) :: rest else (n, t) :: put name text rest

def addGroups (cs : Captures) (names texts : List String) : Captures :=
  (names.zip texts).foldl (fun cs (n, t) => if n.isEmpty || t.isEmpty then cs else cs.put n t) cs

end Captures

def firstCapture (ps : List Pattern) (text : String) (known : Captures) : Option Captures :=
  ps.findSome? fun p => (p.find? text).map fun texts => known.addGroups p.groups texts

structure CatalogMatch where
  entry : Catalog.Entry
  captures : Captures

namespace Catalog.Entry

/-- `byCode` says that the backend code led here: then an entry without patterns applies too. -/
def captures? (e : Entry) (message label : String) (byCode : Bool) : Option Captures :=
  let found :=
    if byCode && e.matchers.isEmpty then some [] else firstCapture e.matchers message []
  found.map fun known => (firstCapture e.labelMatchers label known).getD known

end Catalog.Entry

namespace Catalog

/-- First among the entries that name the backend code, then by pattern among all. -/
def match? (c : Catalog) (d : RawDiagnostic) : Option CatalogMatch :=
  let message := Text.composed d.message
  let label := Text.composed d.label
  let among (es : List Entry) (byCode : Bool) : Option CatalogMatch :=
    es.findSome? fun e => (e.captures? message label byCode).map fun captures => { entry := e, captures }
  let named := if d.code.isEmpty then none else among (c.naming d.code) true
  named.or (among c.entries false)

end Catalog

def domainCapture (name text : String) : String :=
  if name = "name" ∨ name = "field" then
    let cs := text.toList.dropWhile fun c => c == '*' || c == '&'
    Text.withoutLead "r#" (String.ofList cs)
  else if name = "expected" ∨ name = "found" ∨ name = "type" then domainType text
  else text

namespace CatalogMatch

def value? (m : CatalogMatch) (name : String) : Option String :=
  match m.captures.lookup name with
  | some t => some (domainCapture name t)
  | none => m.entry.defaults.lookup name

def message (m : CatalogMatch) : String := Template.fill m.value? m.entry.message

def suggestions (m : CatalogMatch) : List String := m.entry.suggestions.map (Template.fill m.value?)

end CatalogMatch

end Tenure
