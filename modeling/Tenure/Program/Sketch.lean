import Tenure.Program.Basic
import Tenure.Source.FileSet

/- Programs built by hand. Every statement takes a line of its own, and expressions stand on it from
   left to right in the order in which they are made, so all positions differ. Nodes are referred to
   by number. -/
namespace Tenure

structure Sketch where
  module : Module
  line : Nat := 1
  col : Nat := 1
  header : Nat := 0
  headerCol : Nat := 0

namespace Sketch

def new (name path : String) (file : Nat) : Sketch :=
  { module := { name, path, file, structs := [], funcs := [], exprs := #[], stmts := #[]
                bindings := #[] } }

def exprAt (s : Sketch) (id : Nat) : Expr := (s.module.expr? id).getD (.absent id)

def stmtAt (s : Sketch) (id : Nat) : Stmt :=
  if id = 0 then .absent 0 else (s.module.stmts[id - 1]?).getD (.absent id)

def take (s : Sketch) (width : Nat) : Sketch × Range :=
  let width := max width 1
  ({ s with col := s.col + width + 1 },
    Range.of s.module.file s.line s.col s.line (s.col + width))

def endLine (s : Sketch) : Sketch × Range :=
  ({ s with line := s.line + 1, col := 1 }, Range.of s.module.file s.line 1 s.line s.col)

def ty (s : Sketch) (t : Ty) : Ty :=
  t.withProps fun name => (s.module.struct? name).map fun d => (d.copy, d.noClone)

def addStruct (s : Sketch) (name : String) (fields : List Field) (copy noClone : Bool) : Sketch :=
  let (s, span) := s.endLine
  { s with module := { s.module with
      structs := s.module.structs ++ [{ name, fields, copy, noClone, span }] } }

def addBinding (s : Sketch) (name : String) (kind : BindingKind) (ty : Ty) (mutable : Bool)
    (marker : Marker) (span : Range) : Sketch × Nat :=
  let id := s.module.bindings.size + 1
  ({ s with module := { s.module with
      bindings := s.module.bindings.push
        { id, name, kind, ty, mutable, marker, scope := 0, span } } }, id)

def headerBinding (s : Sketch) (name : String) (kind : BindingKind) (ty : Ty) (mutable : Bool)
    (marker : Marker) : Sketch × Nat :=
  let width := max name.utf8ByteSize 1
  let span := Range.of s.module.file s.header s.headerCol s.header (s.headerCol + width)
  { s with headerCol := s.headerCol + width + 2 }.addBinding name kind ty mutable marker span

def binding (s : Sketch) (name : String) (kind : BindingKind) (ty : Ty) (mutable : Bool)
    (marker : Marker) : Sketch × Nat :=
  let (s, span) := s.take name.utf8ByteSize
  s.addBinding name kind ty mutable marker span

def isOpen (s : Sketch) : Bool := !s.module.funcs.isEmpty

def updateFunc (s : Sketch) (f : FuncDecl → FuncDecl) : Sketch :=
  { s with module := { s.module with
      funcs := s.module.funcs.modify (s.module.funcs.length - 1) f } }

def beginFunc (s : Sketch) (name : String) (result : Ty) : Sketch :=
  let result := match result with
    | .unknown => .unit
    | t => t
  let f : FuncDecl :=
    { id := s.module.funcs.length, name, receiver := 0, owner := "", params := [], result, body := []
      isExtern := false, span := Range.zero }
  { s with
    module := { s.module with funcs := s.module.funcs ++ [f] }
    header := s.line, headerCol := name.utf8ByteSize + 5, line := s.line + 1, col := 1 }

def beginMethod (s : Sketch) (owner name : String) (result : Ty) (mutable : Bool) : Sketch × Nat :=
  let s := (s.beginFunc name result).updateFunc ({ · with owner })
  let (s, id) := s.headerBinding "self" .receiver (s.ty (.named owner false false)) mutable .none
  (s.updateFunc ({ · with receiver := id }), id)

def param (s : Sketch) (name : String) (ty : Ty) (mutable : Bool) (marker : Marker) : Sketch × Nat :=
  let (s, id) := s.headerBinding name .param ty mutable marker
  (s.updateFunc fun f => { f with params := f.params ++ [id] }, id)

def finish (s : Sketch) (body : List Nat) : Sketch × Nat :=
  let s := if 1 < s.col then s.endLine.1 else s
  let s := s.updateFunc fun f =>
    { f with body := body.map s.stmtAt, span := Range.of s.module.file s.header 1 s.line 2 }
  ({ s with line := s.line + 1, col := 1 }, s.module.funcs.length - 1)

structure Parts where
  x : Nat := 0
  y : Nat := 0
  args : List Nat := []
  inits : List (String × Range × Nat) := []
  body : Nat := 0
  result : Nat := 0

def blank (kind : ExprKind) (ty : Ty) : ExprInfo :=
  { id := 0, kind, span := Range.zero, ty, name := "", binding := 0, target := "", op := "", lit := ""
    litKind := .int, params := [] }

def expr (s : Sketch) (info : ExprInfo) (width : Nat) (p : Parts := {}) : Sketch × Nat :=
  let (s, span) := s.take width
  let id := s.module.exprs.size + 1
  let e : Expr := .node { info with id, span } (s.exprAt p.x) (s.exprAt p.y) (p.args.map s.exprAt)
    (p.inits.map fun (name, span, value) => .mk name span (s.exprAt value)) (s.stmtAt p.body)
    (s.exprAt p.result)
  ({ s with module := { s.module with exprs := s.module.exprs.push e } }, id)

def ident? (s : Sketch) (b : Nat) : Option (Sketch × Nat) :=
  (s.module.binding? b).map fun d =>
    s.expr { blank .ident d.ty with name := d.name, binding := b } d.name.utf8ByteSize

def literal (s : Sketch) (kind : LitKind) (ty : Ty) (text : String) (width : Nat) : Sketch × Nat :=
  s.expr { blank .lit ty with lit := text, litKind := kind } width

def structLit (s : Sketch) (name : String) (inits : List (String × Nat)) : Sketch × Nat :=
  let (s, inits) := inits.foldl (fun (s, out) (field, value) =>
    let (s, span) := Sketch.take s field.utf8ByteSize
    (s, out ++ [(field, span, value)])) (s, [])
  s.expr { blank .structLit (s.ty (.named name false false)) with name } name.utf8ByteSize { inits }

def addStmt (s : Sketch) (info : StmtInfo) (target value : Nat) (body : List Nat) (orElse : Nat) :
    Sketch × Nat :=
  let id := s.module.stmts.size + 1
  let t : Stmt := .node { info with id } (s.exprAt target) (s.exprAt value) (body.map s.stmtAt)
    (s.stmtAt orElse)
  ({ s with module := { s.module with stmts := s.module.stmts.push t } }, id)

def stmt (s : Sketch) (kind : StmtKind) (value : Nat := 0) (body : List Nat := [])
    (target : Nat := 0) (op : String := "") (binding : Nat := 0) (orElse : Nat := 0) : Sketch × Nat :=
  let (s, span) := s.endLine
  s.addStmt { id := 0, kind, span, binding, op } target value body orElse

def closureBlock (s : Sketch) (params : List Nat) (ty : Ty) (body : List Nat) : Sketch × Nat :=
  let (s, span) := s.take 2
  let (s, block) := s.addStmt { id := 0, kind := .block, span, binding := 0, op := "" } 0 0 body 0
  s.expr { blank .closure ty with params } 2 { body := block }

def letVar (s : Sketch) (name : String) (ty : Ty) (mutable : Bool) (marker : Marker) (value : Nat) :
    Sketch × Nat × Nat :=
  let (s, b) := s.binding name .local_ ty mutable marker
  let (s, id) := s.stmt .letVar value [] 0 "" b
  (s, b, id)

end Sketch

end Tenure
