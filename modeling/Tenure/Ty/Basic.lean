/- Types of the source language. `unknown` is the type of a node that was delivered without one. -/
namespace Tenure

inductive Ty where
  | unknown
  | unit
  | int
  | float
  | bool
  | string
  | named (name : String) (copy noClone : Bool)
  | array (elem : Ty)
  | optional (elem : Ty)
  | func (params : List Ty) (result : Ty)
  deriving Repr, Inhabited

namespace Ty

/-- Values of these types are duplicated by assignment: scalars, structs that derive it, and
optionals of such types. -/
def isCopy : Ty → Bool
  | .unit | .int | .float | .bool => true
  | .named _ copy _ => copy
  | .optional elem => elem.isCopy
  | _ => false

def isClonable : Ty → Bool
  | .named _ _ noClone => !noClone
  | .array elem | .optional elem => elem.isClonable
  | .func .. => false
  | _ => true

def isUnit : Ty → Bool
  | .unit | .unknown => true
  | _ => false

def isString : Ty → Bool
  | .string => true
  | _ => false

def structName : Ty → String
  | .named name .. => name
  | _ => ""

mutual
def text : Ty → String
  | .unknown | .unit => "void"
  | .int => "int"
  | .float => "float"
  | .bool => "bool"
  | .string => "string"
  | .named name .. => name
  | .array elem => "[" ++ elem.text ++ "]"
  | .optional elem => elem.text ++ "?"
  | .func params result => "fn(" ++ ", ".intercalate (texts params) ++ ") -> " ++ result.text
def texts : List Ty → List String
  | [] => []
  | t :: ts => t.text :: texts ts
end

mutual
def withProps (props : String → Option (Bool × Bool)) : Ty → Ty
  | .named name copy noClone => match props name with
    | some (c, k) => .named name c k
    | none => .named name copy noClone
  | .array elem => .array (elem.withProps props)
  | .optional elem => .optional (elem.withProps props)
  | .func params result => .func (withPropsAll props params) (result.withProps props)
  | t => t
def withPropsAll (props : String → Option (Bool × Bool)) : List Ty → List Ty
  | [] => []
  | t :: ts => t.withProps props :: withPropsAll props ts
end

end Ty

end Tenure
