import Tenure.Source.Position
import Tenure.Ty.Basic

/- Programs as the front end delivers them. Every node carries every slot, whatever its kind; a slot
   that a kind does not use is kept and ignored. Nodes and bindings are numbered from one, and zero
   stands for none. -/
namespace Tenure

inductive ExprKind where
  | ident | lit | call | methodCall | field | index | binary | unary | structLit | arrayLit
  | range | closure
  deriving DecidableEq, Repr

namespace ExprKind

def all : List ExprKind :=
  [.ident, .lit, .call, .methodCall, .field, .index, .binary, .unary, .structLit, .arrayLit,
    .range, .closure]

def name : ExprKind → String
  | .ident => "ident"
  | .lit => "lit"
  | .call => "call"
  | .methodCall => "method_call"
  | .field => "field"
  | .index => "index"
  | .binary => "binary"
  | .unary => "unary"
  | .structLit => "struct_lit"
  | .arrayLit => "array_lit"
  | .range => "range"
  | .closure => "closure"

def ofName? (s : String) : Option ExprKind := all.find? (·.name == s)

def isPlace : ExprKind → Bool
  | .ident | .field | .index => true
  | _ => false

end ExprKind

inductive StmtKind where
  | letVar | assign | eval | give | branch | whileLoop | forLoop | leave | again | block
  deriving DecidableEq, Repr

namespace StmtKind

def all : List StmtKind :=
  [.letVar, .assign, .eval, .give, .branch, .whileLoop, .forLoop, .leave, .again, .block]

def name : StmtKind → String
  | .letVar => "let"
  | .assign => "assign"
  | .eval => "expr"
  | .give => "return"
  | .branch => "if"
  | .whileLoop => "while"
  | .forLoop => "for"
  | .leave => "break"
  | .again => "continue"
  | .block => "block"

def ofName? (s : String) : Option StmtKind := all.find? (·.name == s)

end StmtKind

inductive LitKind where
  | int | float | bool | string | none
  deriving DecidableEq, Repr

namespace LitKind

def ofName : String → LitKind
  | "float" => .float
  | "bool" => .bool
  | "string" => .string
  | "none" => .none
  | _ => .int

def code : LitKind → Nat
  | .int => 0
  | .float => 1
  | .bool => 2
  | .string => 3
  | .none => 4

end LitKind

inductive Marker where
  | none | ref | mutRef | owned
  deriving DecidableEq, Repr, Inhabited

namespace Marker

def ofName : String → Marker
  | "ref" | "&" => .ref
  | "mutref" | "&mut" => .mutRef
  | "owned" => .owned
  | _ => .none

def text : Marker → String
  | .none => ""
  | .ref => "ref"
  | .mutRef => "mutref"
  | .owned => "owned"

end Marker

inductive BindingKind where
  | local_ | param | receiver | loop | closureParam
  deriving DecidableEq, Repr, Inhabited

namespace BindingKind

def ofName : String → BindingKind
  | "param" => .param
  | "receiver" => .receiver
  | "loop" => .loop
  | "closure_param" => .closureParam
  | _ => .local_

def code : BindingKind → Nat
  | .local_ => 0
  | .param => 1
  | .receiver => 2
  | .loop => 3
  | .closureParam => 4

def isParam : BindingKind → Bool
  | .param | .receiver => true
  | _ => false

end BindingKind

/-- A named value that a parameter, `let`, loop or closure introduces. -/
structure Binding where
  id : Nat
  name : String
  kind : BindingKind
  ty : Ty
  mutable : Bool
  marker : Marker
  scope : Nat
  span : Range
  deriving Inhabited

/-- An expression node apart from its children. `binding` of an identifier is zero when the name
could not be resolved; `target` is the qualified name of a callee. -/
structure ExprInfo where
  id : Nat
  kind : ExprKind
  span : Range
  ty : Ty
  name : String
  binding : Nat
  target : String
  op : String
  lit : String
  litKind : LitKind
  params : List Nat

structure StmtInfo where
  id : Nat
  kind : StmtKind
  span : Range
  binding : Nat
  op : String

mutual
inductive Expr where
  /-- No expression here; `id` is what the slot refers to. -/
  | absent (id : Nat)
  | node (info : ExprInfo) (x y : Expr) (args : List Expr) (inits : List FieldInit) (body : Stmt)
      (result : Expr)
inductive FieldInit where
  | mk (name : String) (span : Range) (value : Expr)
inductive Stmt where
  | absent (id : Nat)
  | node (info : StmtInfo) (target value : Expr) (body : List Stmt) (orElse : Stmt)
end

instance : Inhabited Expr := ⟨.absent 0⟩
instance : Inhabited Stmt := ⟨.absent 0⟩
instance : Inhabited FieldInit := ⟨.mk "" Range.zero default⟩

namespace Expr

def id : Expr → Nat
  | .absent id => id
  | .node info .. => info.id

def info? : Expr → Option ExprInfo
  | .absent _ => none
  | .node info .. => some info

def isKind (k : ExprKind) (e : Expr) : Bool :=
  match e.info? with
  | some info => info.kind = k
  | none => false

def ty (e : Expr) : Ty := (e.info?.map (·.ty)).getD .unknown

def root : Expr → Nat
  | .absent _ => 0
  | .node info x .. => match info.kind with
    | .ident => info.binding
    | .field | .index => x.root
    | _ => 0

end Expr

namespace FieldInit

def name : FieldInit → String
  | .mk name .. => name

def span : FieldInit → Range
  | .mk _ span _ => span

def value : FieldInit → Expr
  | .mk _ _ value => value

end FieldInit

namespace Stmt

def id : Stmt → Nat
  | .absent id => id
  | .node info .. => info.id

def info? : Stmt → Option StmtInfo
  | .absent _ => none
  | .node info .. => some info

end Stmt

def Expr.children : Expr → List Expr
  | .absent _ => []
  | .node info x y args inits _ result => match info.kind with
    | .methodCall => x :: args
    | .call | .arrayLit => args
    | .field | .unary => [x]
    | .index | .binary | .range => [x, y]
    | .structLit => inits.map FieldInit.value
    | .closure => if result.id = 0 then [] else [result]
    | _ => []

structure Field where
  name : String
  ty : Ty
  span : Range

structure StructDecl where
  name : String
  fields : List Field
  copy : Bool
  noClone : Bool
  span : Range

structure FuncDecl where
  id : Nat
  name : String
  receiver : Nat
  owner : String
  params : List Nat
  result : Ty
  body : List Stmt
  isExtern : Bool
  span : Range

def FuncDecl.qualified (f : FuncDecl) : String :=
  if f.owner.isEmpty then f.name else f.owner ++ "." ++ f.name

/-- A compilation unit. The arenas list all nodes by number, attached or not. -/
structure Module where
  name : String
  path : String
  file : Nat
  structs : List StructDecl
  funcs : List FuncDecl
  exprs : Array Expr
  stmts : Array Stmt
  bindings : Array Binding

namespace Module

def binding? (m : Module) (id : Nat) : Option Binding :=
  if id = 0 then none else m.bindings[id - 1]?

def expr? (m : Module) (id : Nat) : Option Expr := if id = 0 then none else m.exprs[id - 1]?

def func? (m : Module) (qualified : String) : Option FuncDecl :=
  m.funcs.find? (·.qualified == qualified)

def struct? (m : Module) (name : String) : Option StructDecl := m.structs.find? (·.name == name)

end Module

end Tenure
