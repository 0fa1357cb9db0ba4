import Tenure.Toml.Scalar

/- Reading manifests. A key is defined once; a table that was only implied by a longer key may still
   be given a header of its own. -/
namespace Tenure.Toml

structure Draft where
  root : List (String × Toml) := []
  implied : List Key := []
  lists : List Key := []
  named : List Key := []

/-- Changes the members of the table at a path. An open list of tables stands for its last table. -/
def update (f : List (String × Toml) → Option (List (String × Toml))) :
    Key → List (String × Toml) → Option (List (String × Toml))
  | [], ms => f ms
  | k :: ks, ms => match ms.lookup k with
    | some (.table inner) => (update f ks inner).map fun inner => setMember k (.table inner) ms
    | some (.tables items) => match items.getLast? with
      | some (.table inner) => (update f ks inner).map fun inner =>
          setMember k (.tables (items.dropLast ++ [.table inner])) ms
      | _ => none
    | _ => none

def lookupIn : Key → List (String × Toml) → Option (List (String × Toml))
  | [], ms => some ms
  | k :: ks, ms => match ms.lookup k with
    | some (.table inner) => lookupIn ks inner
    | some (.tables items) => match items.getLast? with
      | some (.table inner) => lookupIn ks inner
      | _ => none
    | _ => none

namespace Draft

def set (d : Draft) (context : Key) (name : String) (v : Toml) : Option Draft := do
  let key := context ++ [name]
  let ms ← lookupIn context d.root
  if (ms.lookup name).isSome then
    let implied := d.implied.erase key
    if d.lists.contains key then
      let root ← update (fun ms => some (setMember name v ms)) context d.root
      return { d with root, implied }
    else if d.implied.contains key then return { d with implied }
    else none
  else
    let root ← update (fun ms => some (setMember name v ms)) context d.root
    return { d with root }

def parents (d : Draft) : Key → Key → Option Draft
  | _, [] => some d
  | context, k :: ks => do
    let ms ← lookupIn context d.root
    match ms.lookup k with
    | none =>
      let root ← update (fun ms => some (setMember k (.table []) ms)) context d.root
      { d with root, implied := d.implied ++ [context ++ [k]] }.parents (context ++ [k]) ks
    | some (.table _) | some (.tables _) => d.parents (context ++ [k]) ks
    | some _ => none

def openTable (d : Draft) (key : Key) : Option Draft := do
  let d ← d.parents [] key.dropLast
  d.set key.dropLast (key.getLast?.getD "") (.table [])

def openElement (d : Draft) (key : Key) : Option Draft := do
  let context := key.dropLast
  let name := key.getLast?.getD ""
  let d ← d.parents [] context
  let ms ← lookupIn context d.root
  let items ← match ms.lookup name with
    | none => some []
    | some (.tables items) => some items
    | some _ => none
  let root ← update (fun ms => some (setMember name (.tables (items ++ [.table []])) ms)) context d.root
  return { d with root }

def implyTables (d : Draft) : Key → Key → Option (Draft × Key)
  | context, [] => some (d, context)
  | context, k :: ks => do
    let key := context ++ [k]
    let d ← { d with implied := d.implied.erase key ++ [key] }.openTable key
    d.implyTables key ks

def name (d : Draft) (key : Key) : Draft := { d with named := d.named ++ [key] }

end Draft

def skipLines : Nat → List Char → List Char
  | 0, s => s
  | fuel + 1, s =>
    match s with
    | [] => []
    | c :: rest =>
      if isSpaceChar c || c == '\n' || c == '\r' then skipLines fuel rest
      else if c = '#' then skipLines fuel (rest.dropWhile (· != '\n'))
      else s

def skipAll (s : List Char) : List Char := skipLines (s.length + 1) s

def graft (v : Toml) : Key → List (String × Toml) → Option (List (String × Toml))
  | [], ms => some ms
  | [k], ms => some (setMember k v ms)
  | k :: ks, ms => match (ms.lookup k).getD (.table []) with
    | .table inner => (graft v ks inner).map fun inner => setMember k (.table inner) ms
    | _ => none

mutual
/-- A value at the front. `inList` says that it is an element of a list. -/
def value : Nat → Draft → Key → String → Bool → List Char → Option (Toml × Draft × List Char)
  | 0, _, _, _, _, _ => none
  | fuel + 1, d, context, name, inList, s =>
    match s with
    | '[' :: s => do
      let d := { d with lists := d.lists ++ [context ++ [name]] }
      let (items, d, s) ← listItems fuel d context name (skipAll s)
      return (.array items, d, s)
    | '{' :: s => do
      let key := context ++ [name]
      let d := { d with implied := d.implied.erase key ++ [key] }
      let d ← if inList then d.openElement key else d.openTable key
      let (ms, d, s) ← inlineMembers fuel d key true [] (skipSpaces s)
      return (.table ms, d, s)
    | '"' :: _ | '\'' :: _ => (string? s).map fun (t, s) => (.string t, d, s)
    | s => (bare? s).map fun (v, s) => (v, d, s)
def listItems : Nat → Draft → Key → String → List Char → Option (List Toml × Draft × List Char)
  | 0, _, _, _, _ => none
  | fuel + 1, d, context, name, s =>
    match s with
    | ']' :: s => some ([], d, s)
    | s => do
      let (v, d, s) ← value fuel d context name true s
      match skipAll s with
      | ',' :: s =>
        let (vs, d, s) ← listItems fuel d context name (skipAll s)
        return (v :: vs, d, s)
      | ']' :: s => return ([v], d, s)
      | _ => none
def inlineMembers : Nat → Draft → Key → Bool → List (String × Toml) → List Char →
    Option (List (String × Toml) × Draft × List Char)
  | 0, _, _, _, _, _ => none
  | fuel + 1, d, context, first, ms, s =>
    match s with
    | '}' :: s => if first then some (ms, d, s) else none
    | s => do
      let (key, s) ← key? (s.length + 1) s
      let name := key.getLast?.getD ""
      let (d, inner) ← d.implyTables context key.dropLast
      match s with
      | '=' :: s =>
        let (v, d, s) ← value fuel (d.name (inner ++ [name])) inner name false (skipSpaces s)
        let d ← d.set inner name v
        let ms ← graft v key ms
        match skipSpaces s with
        | ',' :: s => inlineMembers fuel d context false ms (skipSpaces s)
        | '}' :: s => return (ms, d, s)
        | _ => none
      | _ => none
end

def lineEnd (s : List Char) : Option (List Char) :=
  match skipSpaces s with
  | [] => some []
  | '\n' :: s => some s
  | '\r' :: '\n' :: s => some s
  | '#' :: s => some (s.dropWhile (· != '\n'))
  | _ => none

def lines : Nat → Draft → Key → List Char → Option Draft
  | 0, _, _, _ => none
  | fuel + 1, d, context, s =>
    match skipAll s with
    | [] => some d
    | '[' :: '[' :: s => do
      let (key, s) ← key? (s.length + 1) s
      match s with
      | ']' :: ']' :: s =>
        let d ← d.openElement key
        lines fuel (d.name key) key (← lineEnd s)
      | _ => none
    | '[' :: s => do
      let (key, s) ← key? (s.length + 1) s
      match s with
      | ']' :: s =>
        let d ← d.openTable key
        lines fuel (d.name key) key (← lineEnd s)
      | _ => none
    | s => do
      let (key, s) ← key? (s.length + 1) s
      let name := key.getLast?.getD ""
      let (d, inner) ← d.implyTables context key.dropLast
      match s with
      | '=' :: s =>
        let (v, d, s) ← value (s.length + 1) (d.name (inner ++ [name])) inner name false (skipSpaces s)
        let d ← d.set inner name v
        lines fuel d context (← lineEnd s)
      | _ => none

def isClean : List Char → Bool
  | [] => true
  | '\r' :: s => s.head? == some '\n' && isClean s
  | c :: s => (c == '\t' || c == '\n' || (32 ≤ c.toNat && c.toNat != 127)) && isClean s

structure Document where
  root : Toml
  named : List Key

def parse? (s : String) : Option Document :=
  let cs := s.toList
  let cs := if cs.head? = some (Char.ofNat 0xFEFF) then cs.tail else cs
  if isClean cs then
    (lines (cs.length + 1) {} [] cs).map fun d => { root := .table d.root, named := d.named }
  else none

end Tenure.Toml
