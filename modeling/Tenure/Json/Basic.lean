import Tenure.Text.Bytes

/- Data in the interchange format of documents. Members keep their order and repetitions, and a
   number keeps the digits it was written with. -/
namespace Tenure

inductive Json where
  | null
  | bool (b : Bool)
  | num (literal : String)
  | str (s : String)
  /-- A text that is written only: its stray bytes are escaped as the replacement character. -/
  | blob (bs : Bytes)
  | arr (elems : List Json)
  | obj (members : List (String × Json))
  deriving Repr, Inhabited

namespace Json

def nat (n : Nat) : Json := .num (toString n)

def int (n : Int) : Json := .num (toString n)

def strUnlessEmpty (key s : String) : List (String × Json) :=
  if s.isEmpty then [] else [(key, .str s)]

def arrUnlessEmpty (key : String) (xs : List Json) : List (String × Json) :=
  if xs.isEmpty then [] else [(key, .arr xs)]

def trueOnly (key : String) (b : Bool) : List (String × Json) :=
  if b then [(key, .bool true)] else []

def strs (xs : List String) : Json := .arr (xs.map .str)

end Json

end Tenure
