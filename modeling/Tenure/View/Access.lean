import Tenure.Json.Basic

/- Data of other tools, taken leniently: a member that is missing or of another kind has the zero
   value. -/
namespace Tenure.View

def field (j : Json) (key : String) : Json :=
  match j with
  | .obj ms => ((ms.reverse.find? fun m => m.1 == key).map (·.2)).getD .null
  | _ => .null

def has (j : Json) (key : String) : Bool :=
  match j with
  | .obj ms => ms.any fun m => m.1 == key
  | _ => false

def asStr : Json → String
  | .str s => s
  | _ => ""

def asBool : Json → Bool
  | .bool b => b
  | _ => false

def asInt : Json → Int
  | .num n => (n.toInt?).getD 0
  | _ => 0

def asNat (j : Json) : Nat := (asInt j).toNat

def asList : Json → List Json
  | .arr xs => xs
  | _ => []

def asMembers : Json → List (String × Json)
  | .obj ms => ms
  | _ => []

def str (j : Json) (key : String) : String := asStr (field j key)
def bool (j : Json) (key : String) : Bool := asBool (field j key)
def int (j : Json) (key : String) : Int := asInt (field j key)
def nat (j : Json) (key : String) : Nat := asNat (field j key)
def list (j : Json) (key : String) : List Json := asList (field j key)
def strs (j : Json) (key : String) : List String := (list j key).map asStr
def nats (j : Json) (key : String) : List Nat := (list j key).map asNat

def asNats (n : Nat) (j : Json) : List Nat :=
  let xs := ((asList j).take n).map asNat
  xs ++ List.replicate (n - xs.length) 0

def showNats (ns : List Nat) : Json := .arr (ns.map .nat)

def showBytes (bs : Bytes) : Json :=
  if Bytes.isText bs then .str (Bytes.toText bs) else .obj [("hex", .str (Bytes.hex bs))]

def showOpt {α : Type} (f : α → Json) : Option α → Json
  | some x => f x
  | none => .null

end Tenure.View
