import Tenure.Text.Blank

/- Data of manifests. Tables keep the order of their keys. -/
namespace Tenure

inductive Toml where
  | string (s : String)
  | int (n : Int)
  | float
  | bool (b : Bool)
  | time
  | array (items : List Toml)
  | table (members : List (String × Toml))
  /-- Tables that headers in double brackets build up; the last is the open one. -/
  | tables (items : List Toml)
  deriving Repr, Inhabited

namespace Toml

abbrev Key := List String

def isBareChar (c : Char) : Bool := c.isAlphanum || c == '_' || c == '-'

def quotedKeyChar (c : Char) : List Char :=
  match c with
  | '"' => ['\\', '"']
  | '\\' => ['\\', '\\']
  | '\t' => ['\\', 't']
  | '\n' => ['\\', 'n']
  | '\r' => ['\\', 'r']
  | c => [c]

def keyPart (s : String) : String :=
  if !s.isEmpty && s.toList.all isBareChar then s
  else String.ofList ('"' :: s.toList.flatMap quotedKeyChar ++ ['"'])

def keyText (k : Key) : String := ".".intercalate (k.map keyPart)

def get? (name : String) : Toml → Option Toml
  | .table ms => ms.lookup name
  | _ => none

def at? : Key → Toml → Option Toml
  | [], t => some t
  | k :: ks, t => (t.get? k).bind (at? ks)

def setMember (name : String) (v : Toml) : List (String × Toml) → List (String × Toml)
  | [] => [(name, v)]
  | (n, w) :: rest => if n = name then (n, v) :: rest else (n, w) :: setMember name v rest

end Toml

end Tenure
