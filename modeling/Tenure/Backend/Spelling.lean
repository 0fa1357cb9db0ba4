import Tenure.Ty.Basic

/- How types, names and literals are written in the backend language. -/
namespace Tenure

def fnBound (params : List String) (isUnit : Bool) (result : String) : String :=
  "Fn(" ++ ", ".intercalate params ++ ")" ++ if isUnit then "" else " -> " ++ result

mutual
/-- Function types become bounds on an unnamed type. -/
def Ty.backend : Ty → String
  | .unknown | .unit => "()"
  | .int => "i64"
  | .float => "f64"
  | .bool => "bool"
  | .string => "String"
  | .named name .. => name
  | .array elem => "Vec<" ++ elem.backend ++ ">"
  | .optional elem => "Option<" ++ elem.backend ++ ">"
  | .func params result => "impl " ++ fnBound (Ty.backendAll params) result.isUnit result.backend
def Ty.backendAll : List Ty → List String
  | [] => []
  | t :: ts => t.backend :: Ty.backendAll ts
end

/-- The type of a struct field, which cannot be unnamed. -/
def Ty.backendField : Ty → String
  | .func params result =>
    "Box<dyn " ++ fnBound (Ty.backendAll params) result.isUnit result.backend ++ ">"
  | t => t.backend

def Ty.printsDetailed : Ty → Bool
  | .named .. | .array _ | .optional _ | .unit => true
  | _ => false

namespace Backend

def reserved : List String := [
  "as", "async", "await", "box", "const", "crate", "dyn", "enum", "extern", "impl", "loop", "match",
  "mod", "move", "pub", "ref", "static", "super", "trait", "type", "unsafe", "use", "where", "yield"]

def identifier (name : String) : String := if reserved.contains name then "r#" ++ name else name

def quotedChar (c : Char) : List Char :=
  match c with
  | '"' => ['\\', '"']
  | '\\' => ['\\', '\\']
  | '\n' => ['\\', 'n']
  | '\r' => ['\\', 'r']
  | '\t' => ['\\', 't']
  | c => if c.toNat = 0 then ['\\', '0'] else [c]

def quoted (s : String) : String := String.ofList ('"' :: s.toList.flatMap quotedChar ++ ['"'])

def binaryOp : String → String
  | "and" => "&&"
  | "or" => "||"
  | op => op

def unaryOp : String → String
  | "not" => "!"
  | op => op

def methodName : String → String
  | "to_upper" => "to_uppercase"
  | "to_lower" => "to_lowercase"
  | name => name

def takesIndex (method : String) : Bool := ["get", "remove", "insert", "truncate"].contains method

end Backend

end Tenure
