/- Data of configuration documents: texts, lists and tables, each table with its keys in the order in
   which they were written. -/
namespace Tenure

inductive Yaml where
  /-- A plain text is one without quotes: it may stand for a number, a truth value or nothing. -/
  | scalar (plain : Bool) (text : String)
  | seq (items : List Yaml)
  | map (members : List (Yaml × Yaml))
  deriving Repr, Inhabited

namespace Yaml

def null : Yaml := .scalar true ""

def isNull : Yaml → Bool
  | .scalar true t => ["", "~", "null", "Null", "NULL"].contains t
  | _ => false

end Yaml

end Tenure
