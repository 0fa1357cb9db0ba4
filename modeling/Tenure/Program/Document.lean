import Tenure.Json.Field
import Tenure.Json.Read

/- Documents: the written form of programs, as read and not yet checked. Names, types and binding
   numbers are kept the way they are written. -/
namespace Tenure.Document

abbrev Quad := List Nat

def zeroQuad : Quad := [0, 0, 0, 0]

def readQuad : Json.Reader Quad := Json.readFixed 0 Json.read32 4

structure Field where
  name : String := ""
  ty : String := ""
  span : Quad := zeroQuad

def readField : Json.Reader Field :=
  Json.readObj ["name", "type", "span"] fun key j f => match key with
    | "name" => (Json.readStr j f.name).map ({ f with name := · })
    | "type" => (Json.readStr j f.ty).map ({ f with ty := · })
    | _ => (readQuad j f.span).map ({ f with span := · })

structure Struct where
  name : String := ""
  copy : Bool := false
  noClone : Bool := false
  fields : List Field := []
  span : Quad := zeroQuad

def readStruct : Json.Reader Struct :=
  Json.readObj ["name", "copy", "noclone", "fields", "span"] fun key j s => match key with
    | "name" => (Json.readStr j s.name).map ({ s with name := · })
    | "copy" => (Json.readBool j s.copy).map ({ s with copy := · })
    | "noclone" => (Json.readBool j s.noClone).map ({ s with noClone := · })
    | "fields" => (Json.readList {} readField j s.fields).map ({ s with fields := · })
    | _ => (readQuad j s.span).map ({ s with span := · })

structure Binding where
  id : Nat := 0
  name : String := ""
  kind : String := ""
  ty : String := ""
  mutable : Bool := false
  marker : String := ""
  scope : Nat := 0
  span : Quad := zeroQuad

def readBinding : Json.Reader Binding :=
  Json.readObj ["id", "name", "kind", "type", "mutable", "annotation", "scope", "span"]
    fun key j b => match key with
    | "id" => (Json.read32 j b.id).map ({ b with id := · })
    | "name" => (Json.readStr j b.name).map ({ b with name := · })
    | "kind" => (Json.readStr j b.kind).map ({ b with kind := · })
    | "type" => (Json.readStr j b.ty).map ({ b with ty := · })
    | "mutable" => (Json.readBool j b.mutable).map ({ b with mutable := · })
    | "annotation" => (Json.readStr j b.marker).map ({ b with marker := · })
    | "scope" => (Json.read32 j b.scope).map ({ b with scope := · })
    | _ => (readQuad j b.span).map ({ b with span := · })

structure ExprHead where
  kind : String := ""
  span : Quad := zeroQuad
  ty : String := ""
  name : String := ""
  binding : Nat := 0
  target : String := ""
  op : String := ""
  lit : String := ""
  litKind : String := ""
  params : List Nat := []

def setExprHead (key : String) (j : Json) (h : ExprHead) : Except Json.Misfit ExprHead :=
  match key with
  | "kind" => (Json.readStr j h.kind).map ({ h with kind := · })
  | "span" => (readQuad j h.span).map ({ h with span := · })
  | "type" => (Json.readStr j h.ty).map ({ h with ty := · })
  | "name" => (Json.readStr j h.name).map ({ h with name := · })
  | "binding" => (Json.read32 j h.binding).map ({ h with binding := · })
  | "target" => (Json.readStr j h.target).map ({ h with target := · })
  | "op" => (Json.readStr j h.op).map ({ h with op := · })
  | "lit" => (Json.readStr j h.lit).map ({ h with lit := · })
  | "lit_kind" => (Json.readStr j h.litKind).map ({ h with litKind := · })
  | _ => (Json.readList 0 Json.read32 j h.params).map ({ h with params := · })

structure StmtHead where
  kind : String := ""
  span : Quad := zeroQuad
  binding : Nat := 0
  op : String := ""

def setStmtHead (key : String) (j : Json) (h : StmtHead) : Except Json.Misfit StmtHead :=
  match key with
  | "kind" => (Json.readStr j h.kind).map ({ h with kind := · })
  | "span" => (readQuad j h.span).map ({ h with span := · })
  | "binding" => (Json.read32 j h.binding).map ({ h with binding := · })
  | _ => (Json.readStr j h.op).map ({ h with op := · })

mutual
inductive Expr where
  | absent
  | node (head : ExprHead) (x y : Expr) (args : List Expr) (inits : List Init) (body : Stmt)
      (result : Expr)
inductive Init where
  | mk (name : String) (span : Quad) (value : Expr)
inductive Stmt where
  | absent
  | node (head : StmtHead) (target value : Expr) (body : List Stmt) (orElse : Stmt)
end

def Expr.blank : Expr := .node {} .absent .absent [] [] .absent .absent

def Init.blank : Init := .mk "" zeroQuad .absent

def Stmt.blank : Stmt := .node {} .absent .absent [] .absent

def exprKeys : List String :=
  ["kind", "span", "type", "name", "binding", "target", "op", "lit", "lit_kind", "x", "y", "args",
    "fields", "params", "body", "result"]

def stmtKeys : List String :=
  ["kind", "span", "binding", "target", "op", "value", "body", "else"]

mutual
def readExpr : Json → Expr → Except Json.Misfit Expr
  | .null, _ => .ok .absent
  | .obj ms, .absent => readExprMembers ms {} .absent .absent [] [] .absent .absent
  | .obj ms, .node h x y as is b r => readExprMembers ms h x y as is b r
  | _, _ => .error {}
def readExprMembers : List (String × Json) → ExprHead → Expr → Expr → List Expr → List Init →
    Stmt → Expr → Except Json.Misfit Expr
  | [], h, x, y, as, is, b, r => .ok (.node h x y as is b r)
  | (key, j) :: ms, h, x, y, as, is, b, r =>
    match Json.fieldFor exprKeys key with
    | none => readExprMembers ms h x y as is b r
    | some "x" => do readExprMembers ms h (← readExpr j x) y as is b r
    | some "y" => do readExprMembers ms h x (← readExpr j y) as is b r
    | some "args" => do readExprMembers ms h x y (← readExprs j as) is b r
    | some "fields" => do readExprMembers ms h x y as (← readInits j is) b r
    | some "body" => do readExprMembers ms h x y as is (← readStmt j b) r
    | some "result" => do readExprMembers ms h x y as is b (← readExpr j r)
    | some field => do readExprMembers ms (← setExprHead field j h) x y as is b r
def readExprs : Json → List Expr → Except Json.Misfit (List Expr)
  | .null, _ => .ok []
  | .arr js, olds => readExprElems js olds
  | _, _ => .error {}
def readExprElems : List Json → List Expr → Except Json.Misfit (List Expr)
  | [], _ => .ok []
  | j :: js, olds => do
    let e ← readExpr j (olds.head?.getD .absent)
    let es ← readExprElems js olds.tail
    return e :: es
def readInits : Json → List Init → Except Json.Misfit (List Init)
  | .null, _ => .ok []
  | .arr js, olds => readInitElems js olds
  | _, _ => .error {}
def readInitElems : List Json → List Init → Except Json.Misfit (List Init)
  | [], _ => .ok []
  | j :: js, olds => do
    let i ← readInit j (olds.head?.getD .blank)
    let is ← readInitElems js olds.tail
    return i :: is
def readInit : Json → Init → Except Json.Misfit Init
  | .null, old => .ok old
  | .obj ms, .mk name span value => readInitMembers ms name span value
  | _, _ => .error {}
def readInitMembers : List (String × Json) → String → Quad → Expr → Except Json.Misfit Init
  | [], name, span, value => .ok (.mk name span value)
  | (key, j) :: ms, name, span, value =>
    match Json.fieldFor ["name", "value", "span"] key with
    | some "name" => do readInitMembers ms (← Json.readStr j name) span value
    | some "value" => do readInitMembers ms name span (← readExpr j value)
    | some _ => do readInitMembers ms name (← readQuad j span) value
    | none => readInitMembers ms name span value
def readStmt : Json → Stmt → Except Json.Misfit Stmt
  | .null, _ => .ok .absent
  | .obj ms, .absent => readStmtMembers ms {} .absent .absent [] .absent
  | .obj ms, .node h t v b e => readStmtMembers ms h t v b e
  | _, _ => .error {}
def readStmtMembers : List (String × Json) → StmtHead → Expr → Expr → List Stmt → Stmt →
    Except Json.Misfit Stmt
  | [], h, t, v, b, e => .ok (.node h t v b e)
  | (key, j) :: ms, h, t, v, b, e =>
    match Json.fieldFor stmtKeys key with
    | none => readStmtMembers ms h t v b e
    | some "target" => do readStmtMembers ms h (← readExpr j t) v b e
    | some "value" => do readStmtMembers ms h t (← readExpr j v) b e
    | some "body" => do readStmtMembers ms h t v (← readStmts j b) e
    | some "else" => do readStmtMembers ms h t v b (← readStmt j e)
    | some field => do readStmtMembers ms (← setStmtHead field j h) t v b e
def readStmts : Json → List Stmt → Except Json.Misfit (List Stmt)
  | .null, _ => .ok []
  | .arr js, olds => readStmtElems js olds
  | _, _ => .error {}
def readStmtElems : List Json → List Stmt → Except Json.Misfit (List Stmt)
  | [], _ => .ok []
  | j :: js, olds => do
    let s ← readStmt j (olds.head?.getD .absent)
    let ss ← readStmtElems js olds.tail
    return s :: ss
end

structure Func where
  name : String := ""
  owner : String := ""
  receiver : Nat := 0
  params : List Nat := []
  result : String := ""
  isExtern : Bool := false
  body : List Stmt := []
  span : Quad := zeroQuad

def readFunc : Json.Reader Func :=
  Json.readObj ["name", "owner", "receiver", "params", "result", "extern", "body", "span"]
    fun key j f => match key with
    | "name" => (Json.readStr j f.name).map ({ f with name := · })
    | "owner" => (Json.readStr j f.owner).map ({ f with owner := · })
    | "receiver" => (Json.read32 j f.receiver).map ({ f with receiver := · })
    | "params" => (Json.readList 0 Json.read32 j f.params).map ({ f with params := · })
    | "result" => (Json.readStr j f.result).map ({ f with result := · })
    | "extern" => (Json.readBool j f.isExtern).map ({ f with isExtern := · })
    | "body" => (readStmts j f.body).map ({ f with body := · })
    | _ => (readQuad j f.span).map ({ f with span := · })

end Tenure.Document

namespace Tenure

/-- A whole document. Without `source` the text of the file is not part of it. -/
structure Document where
  module : String := ""
  file : String := ""
  source : Option String := none
  structs : List Document.Struct := []
  bindings : List Document.Binding := []
  funcs : List Document.Func := []

namespace Document

def read : Json.Reader Document :=
  Json.readObj ["module", "file", "source", "structs", "bindings", "funcs"]
    fun key j d => match key with
    | "module" => (Json.readStr j d.module).map ({ d with module := · })
    | "file" => (Json.readStr j d.file).map ({ d with file := · })
    | "source" => (Json.readOpt "" Json.readStr j d.source).map ({ d with source := · })
    | "structs" => (Json.readList {} readStruct j d.structs).map ({ d with structs := · })
    | "bindings" => (Json.readList {} readBinding j d.bindings).map ({ d with bindings := · })
    | _ => (Json.readList {} readFunc j d.funcs).map ({ d with funcs := · })

end Document

end Tenure
