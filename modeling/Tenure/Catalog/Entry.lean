import Tenure.Catalog.Template
import Tenure.Diagnostic.Code
import Tenure.Pattern.Parse
import Tenure.Text.Quoted

/- Entries of the catalog: how one family of backend messages is told in source terms. -/
namespace Tenure

structure Lesson where
  bad : String
  good : String
  deriving DecidableEq, Repr, Inhabited

structure Draft where
  id : String := ""
  category : String := ""
  title : String := ""
  backendCodes : List String := []
  patterns : List String := []
  labelPatterns : List String := []
  message : String := ""
  suggestions : List String := []
  defaults : List (String × String) := []
  explanation : String := ""
  examples : List Lesson := []
  deriving Repr, Inhabited

structure Catalog.Entry extends Draft where
  code : Code
  matchers : List Pattern
  labelMatchers : List Pattern

inductive CatalogFault where
  | unreadable
  | version (n : Int)
  | missingEntry
  | badCode (id : String)
  | incomplete (id : String)
  | aimless (id : String)
  | badPattern (id pattern : String)
  | unfilled (id slot : String)
  deriving DecidableEq, Repr

namespace CatalogFault

def message : CatalogFault → String
  | .unreadable => "catalog: yaml"
  | .version n => s!"catalog: unsupported version: {n}"
  | .missingEntry => "catalog: missing entry"
  | .badCode id => s!"catalog: invalid entry code {Text.quoted id} (want BCK4001..BCK4998)"
  | .incomplete id => s!"catalog: {id}: category and message are required"
  | .aimless id => s!"catalog: {id}: needs backend_codes or patterns"
  | .badPattern id p => s!"catalog: {id}: pattern {Text.quoted p}: error parsing regexp"
  | .unfilled id slot =>
    s!"catalog: {id}: placeholder " ++ String.ofList (Template.written slot) ++
      " has no capture group or default"

end CatalogFault

def signedDecimal? (s : List Char) : Option Int :=
  let (negative, ds) := match s with
    | '-' :: ds => (true, ds)
    | '+' :: ds => (false, ds)
    | ds => (false, ds)
  if ds.isEmpty ∨ ¬ ds.all Json.isDigit then none
  else
    let n : Nat := ds.foldl (fun n c => 10 * n + (c.toNat - 48)) 0
    if negative then (if n ≤ Text.int64Bound then some (-(n : Int)) else none)
    else if n < Text.int64Bound then some n else none

namespace Catalog.Entry

/-- The code that an entry may have: letters in any case and a number in the range of backend
findings. -/
def code? (id : String) : Option Code :=
  match Text.dropLead "BCK" (Text.upper id) with
  | none => none
  | some digits => match signedDecimal? digits.toList with
    | some (.ofNat n) => if 4000 < n ∧ n < 4999 then some ⟨n⟩ else none
    | _ => none

end Catalog.Entry

namespace Draft

def patternsOf (id : String) (sources : List String) : Except CatalogFault (List Pattern) :=
  sources.mapM fun s => match Pattern.parse? s with
    | some p => .ok p
    | none => .error (.badPattern id s)

def slots (d : Draft) : List String := (d.message :: d.suggestions).flatMap Template.slots

def groupNames (ps : List Pattern) : List String := (ps.flatMap (·.groups)).filter (!·.isEmpty)

/-- Refuses a draft that could show a text with an empty slot or never be shown. -/
def check (d : Draft) : Except CatalogFault Catalog.Entry := do
  let code ← match Catalog.Entry.code? d.id with
    | some c => .ok c
    | none => .error (.badCode d.id)
  if d.category.isEmpty ∨ d.message.isEmpty then .error (.incomplete d.id)
  if d.backendCodes.isEmpty ∧ d.patterns.isEmpty then .error (.aimless d.id)
  let matchers ← patternsOf d.id d.patterns
  let labelMatchers ← patternsOf d.id d.labelPatterns
  let names := groupNames (matchers ++ labelMatchers)
  match d.slots.find? fun s => !names.contains s && (d.defaults.lookup s).isNone with
  | some s => .error (.unfilled d.id s)
  | none => .ok { d with code, matchers, labelMatchers }

end Draft

end Tenure
