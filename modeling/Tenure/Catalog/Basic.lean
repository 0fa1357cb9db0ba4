import Tenure.Catalog.Entry
import Tenure.Text.Letter

/- Catalogs: entries with distinct codes, in the order in which the codes came first, and two indexes
   into them. -/
namespace Tenure

structure Catalog where
  entries : List Catalog.Entry := []
  byCode : List (Code × Catalog.Entry) := []
  /-- For each backend code the entries that name it, once per naming. -/
  byBackend : List (String × List Catalog.Entry) := []

namespace Catalog

def empty : Catalog := {}

def setCode (c : Code) (e : Entry) : List (Code × Entry) → List (Code × Entry)
  | [] => [(c, e)]
  | (d, f) :: rest => if d = c then (c, e) :: rest else (d, f) :: setCode c e rest

def addBackend (name : String) (e : Entry) : List (String × List Entry) → List (String × List Entry)
  | [] => [(name, [e])]
  | (n, es) :: rest => if n = name then (n, es ++ [e]) :: rest else (n, es) :: addBackend name e rest

def indexBackend (index : List (String × List Entry)) (e : Entry) : List (String × List Entry) :=
  e.backendCodes.foldl (fun index name => addBackend name e index) index

def lookup (c : Catalog) (code : Code) : Option Entry := c.byCode.lookup code

def naming (c : Catalog) (name : String) : List Entry := (c.byBackend.lookup name).getD []

/-- Adds an entry. One with the same code gives up its place to it. -/
def put (c : Catalog) (e : Entry) : Catalog :=
  let byCode := setCode e.code e c.byCode
  if (c.lookup e.code).isSome then
    let entries := c.entries.map fun f => if f.code = e.code then e else f
    { entries, byCode, byBackend := entries.foldl indexBackend [] }
  else { entries := c.entries ++ [e], byCode, byBackend := indexBackend c.byBackend e }

def copy (c : Catalog) : Catalog := c.entries.foldl put empty

def add (c : Catalog) (d : Draft) : Except CatalogFault Catalog := d.check.map c.put

def addAll (c : Catalog) (ds : List Draft) : Except CatalogFault Catalog := ds.foldlM add c

def inOrder (c : Catalog) : List Entry :=
  c.entries.mergeSort fun a b => a.code.number ≤ b.code.number

/-- The entry for a code with or without its letters, or for a category, whatever the case of
letters. Numbers count modulo the range of codes. -/
def find? (c : Catalog) (query : String) : Option Entry :=
  let q := Text.trim (Text.foldCase query)
  match Entry.code? q with
  | some code => c.lookup code
  | none => match signedDecimal? q.toList with
    | some n => c.lookup ⟨(n % Code.range).toNat⟩
    | none => c.entries.find? fun e => Text.foldCase e.category == q

end Catalog

end Tenure
