import Tenure.Path

/- Places of documents: paths of the local disk, or URLs of a store. -/
namespace Tenure.Locator

def scheme? (u : String) : Option (String × String) := Text.cutFirst "://" u

def isUrl (u : String) : Bool := (scheme? u).isSome

def path (u : String) : String :=
  match scheme? u with
  | none => u
  | some (_, rest) => match Text.cutFirst "/" rest with
    | some (_, p) => "/" ++ p
    | none => ""

def host (u : String) : String :=
  match scheme? u with
  | none => ""
  | some (s, rest) => s ++ "://" ++ ((Text.splitOn "/" rest).head?).getD ""

def join (base rest : String) : String :=
  if isUrl base then host base ++ Path.join (path base) rest else Path.join base rest

def below (root name : String) : String :=
  if isUrl name || Path.isAbs name then name else join root name

/-- The name of a document in reports: documents on the local disk are named from `base` when they
lie below it. -/
def displayName (u base : String) : String :=
  match scheme? u with
  | some ("file", _) =>
    let p := path u
    if base.isEmpty then p
    else match Path.relative base p with
      | some rel => if Path.escapes rel then p else rel
      | none => p
  | _ => u

end Tenure.Locator
