import Tenure.Program.Basic
import Tenure.Program.Document
import Tenure.Source.FileSet
import Tenure.Ty.Syntax

/- From documents to programs: names of kinds, types and binding numbers are resolved, and nodes are
   numbered as they are finished, children first. The first fault in the order of the document ends
   it. -/
namespace Tenure

inductive Malformed where
  | missingFile
  | bindingZero (name : String)
  | duplicateBinding (id : Nat)
  | badType (source : String) (error : Ty.SyntaxError)
  | unknownBinding (id : Nat)
  | unknownStmt (kind : String)
  | unknownExpr (kind : String)
  | unboundStmt (kind : StmtKind)
  deriving DecidableEq, Repr

def Malformed.detail : Malformed → String
  | .missingFile => "missing file"
  | .bindingZero name => s!"binding {Text.quoted name} has id 0"
  | .duplicateBinding id => s!"duplicate binding id {id}"
  | .badType source error => error.message source
  | .unknownBinding id => s!"unknown binding id {id}"
  | .unknownStmt kind => s!"unknown statement kind {Text.quoted kind}"
  | .unknownExpr kind => s!"unknown expression kind {Text.quoted kind}"
  | .unboundStmt kind => s!"{kind.name} statement without binding"

def Malformed.message (m : Malformed) : String := "malformed typed AST: " ++ m.detail

namespace Document

/-- What names in a document mean: the file of its positions, the properties of its structs and the
bindings declared so far, with the numbers the document gives them. -/
structure Scope where
  file : Nat
  structs : List Struct
  numbers : List Nat := []
  bindings : Array Tenure.Binding := #[]

structure Arena where
  exprs : Array Tenure.Expr := #[]
  stmts : Array Tenure.Stmt := #[]

abbrev Accepting := StateT Arena (Except Malformed)

def rangeOf (file : Nat) (q : Quad) : Range :=
  Range.of file (q.getD 0 0) (q.getD 1 0) (q.getD 2 0) (q.getD 3 0)

/-- Of two structs with one name the later one counts. -/
def structProps (structs : List Struct) (name : String) : Option (Bool × Bool) :=
  (structs.reverse.find? (·.name == name)).map fun s => (s.copy, s.noClone)

def acceptTy (scope : Scope) (s : String) : Except Malformed Ty :=
  if s.isEmpty then .ok .unit
  else match Ty.parse s with
    | .ok t => .ok (t.withProps (structProps scope.structs))
    | .error e => .error (.badType s e)

def acceptBinding (scope : Scope) (id : Nat) : Except Malformed Nat :=
  if id = 0 then .ok 0
  else match scope.numbers.idxOf? id with
    | some i => .ok (i + 1)
    | none => .error (.unknownBinding id)

def acceptBindings (scope : Scope) : List Nat → Except Malformed (List Nat)
  | [] => .ok []
  | id :: ids => do
    let b ← acceptBinding scope id
    let bs ← acceptBindings scope ids
    return b :: bs

def exprTy (scope : Scope) (head : ExprHead) : Except Malformed Ty :=
  if head.ty.isEmpty then .ok .unknown else acceptTy scope head.ty

/-- An identifier without a type has the type of its binding. -/
def identTy (scope : Scope) (kind : ExprKind) (binding : Nat) (ty : Ty) : Ty :=
  match ty, kind with
  | .unknown, .ident => ((scope.bindings[binding - 1]?).map (·.ty)).getD .unknown
  | ty, _ => ty

def finishExpr (info : ExprInfo) (x y : Tenure.Expr) (args : List Tenure.Expr)
    (inits : List FieldInit) (body : Tenure.Stmt) (result : Tenure.Expr) :
    Accepting Tenure.Expr := fun arena =>
  let e := .node { info with id := arena.exprs.size + 1 } x y args inits body result
  .ok (e, { arena with exprs := arena.exprs.push e })

def finishStmt (info : StmtInfo) (target value : Tenure.Expr) (body : List Tenure.Stmt)
    (orElse : Tenure.Stmt) : Accepting Tenure.Stmt := fun arena =>
  let s := .node { info with id := arena.stmts.size + 1 } target value body orElse
  .ok (s, { arena with stmts := arena.stmts.push s })

mutual
def acceptExpr (scope : Scope) : Expr → Accepting Tenure.Expr
  | .absent => return .absent 0
  | .node head x y args inits body result => do
    match ExprKind.ofName? head.kind with
    | none => throw (.unknownExpr head.kind)
    | some kind =>
      let ty ← exprTy scope head
      let binding ← acceptBinding scope head.binding
      let x ← acceptExpr scope x
      let y ← acceptExpr scope y
      let args ← acceptExprs scope args
      let inits ← acceptInits scope inits
      let params ← acceptBindings scope head.params
      let body ← acceptStmt scope body
      let result ← acceptExpr scope result
      finishExpr
        { id := 0, kind, span := rangeOf scope.file head.span
          ty := if binding = 0 then ty else identTy scope kind binding ty
          name := head.name, binding, target := head.target, op := head.op, lit := head.lit
          litKind := LitKind.ofName head.litKind, params }
        x y args inits body result
def acceptExprs (scope : Scope) : List Expr → Accepting (List Tenure.Expr)
  | [] => return []
  | e :: es => do
    let e ← acceptExpr scope e
    let es ← acceptExprs scope es
    return e :: es
def acceptInits (scope : Scope) : List Init → Accepting (List FieldInit)
  | [] => return []
  | .mk name span value :: is => do
    let value ← acceptExpr scope value
    let is ← acceptInits scope is
    return .mk name (rangeOf scope.file span) value :: is
def acceptStmt (scope : Scope) : Stmt → Accepting Tenure.Stmt
  | .absent => return .absent 0
  | .node head target value body orElse => do
    match StmtKind.ofName? head.kind with
    | none => throw (.unknownStmt head.kind)
    | some kind =>
      let binding ← acceptBinding scope head.binding
      if (kind = .letVar ∨ kind = .forLoop) ∧ binding = 0 then throw (.unboundStmt kind)
      let target ← acceptExpr scope target
      let value ← acceptExpr scope value
      let body ← acceptStmts scope body
      let orElse ← acceptStmt scope orElse
      let op := if kind = .assign ∧ head.op.isEmpty then "=" else head.op
      finishStmt { id := 0, kind, span := rangeOf scope.file head.span, binding, op }
        target value body orElse
def acceptStmts (scope : Scope) : List Stmt → Accepting (List Tenure.Stmt)
  | [] => return []
  | s :: ss => do
    let s ← acceptStmt scope s
    let ss ← acceptStmts scope ss
    return s :: ss
end

def acceptFields (scope : Scope) : List Field → Except Malformed (List Tenure.Field)
  | [] => .ok []
  | f :: fs => do
    let ty ← acceptTy scope f.ty
    let fs ← acceptFields scope fs
    return { name := f.name, ty, span := rangeOf scope.file f.span } :: fs

def acceptStructs (scope : Scope) : List Struct → Except Malformed (List StructDecl)
  | [] => .ok []
  | s :: ss => do
    let fields ← acceptFields scope s.fields
    let ss ← acceptStructs scope ss
    return { name := s.name, fields, copy := s.copy, noClone := s.noClone,
             span := rangeOf scope.file s.span } :: ss

def declareBinding (scope : Scope) (b : Binding) : Except Malformed Scope := do
  if b.id = 0 then throw (.bindingZero b.name)
  if scope.numbers.contains b.id then throw (.duplicateBinding b.id)
  let ty ← acceptTy scope b.ty
  return { scope with
    numbers := scope.numbers ++ [b.id]
    bindings := scope.bindings.push
      { id := scope.bindings.size + 1, name := b.name, kind := BindingKind.ofName b.kind, ty
        mutable := b.mutable, marker := Marker.ofName b.marker, scope := b.scope
        span := rangeOf scope.file b.span } }

def declareBindings : Scope → List Binding → Except Malformed Scope
  | scope, [] => .ok scope
  | scope, b :: bs => do
    let scope ← declareBinding scope b
    declareBindings scope bs

/-- A method without an owner belongs to the type of its receiver. -/
def ownerOf (scope : Scope) (f : Func) (receiver : Nat) : String :=
  if receiver ≠ 0 ∧ f.owner.isEmpty then
    ((scope.bindings[receiver - 1]?).map (·.ty.structName)).getD ""
  else f.owner

def acceptFunc (scope : Scope) (id : Nat) (f : Func) : Accepting FuncDecl := do
  let result ← acceptTy scope f.result
  let receiver ← acceptBinding scope f.receiver
  let params ← acceptBindings scope f.params
  let body ← acceptStmts scope f.body
  return { id, name := f.name, receiver, owner := ownerOf scope f receiver, params, result, body
           isExtern := f.isExtern, span := rangeOf scope.file f.span }

def acceptFuncs (scope : Scope) : Nat → List Func → Accepting (List FuncDecl)
  | _, [] => return []
  | id, f :: fs => do
    let f ← acceptFunc scope id f
    let fs ← acceptFuncs scope (id + 1) fs
    return f :: fs

def acceptIn (file : Nat) (d : Document) : Except Malformed Module := do
  let scope : Scope := { file, structs := d.structs }
  let structs ← acceptStructs scope d.structs
  let scope ← declareBindings scope d.bindings
  let (funcs, arena) ← (acceptFuncs scope 0 d.funcs).run {}
  return { name := if d.module.isEmpty then "main" else d.module, path := d.file, file, structs
           funcs, exprs := arena.exprs, stmts := arena.stmts, bindings := scope.bindings }

/-- The program of a document. Its file is added to the file set first: from the document's own
text, or as `disk` has it. -/
def accept (fs : FileSet) (disk : String → Option Bytes) (d : Document) :
    FileSet × Except Malformed Module :=
  if d.file.isEmpty then (fs, .error .missingFile)
  else
    let (fs, file) := match d.source with
      | some text => fs.addVirtual d.file (Bytes.ofString text)
      | none => fs.register disk d.file
    (fs, acceptIn file d)

inductive Fault where
  | syntactic
  | misfit
  | malformed (reason : Malformed)
  deriving DecidableEq, Repr

def Fault.message : Fault → String
  | .syntactic => "malformed typed AST: invalid JSON"
  | .misfit => "malformed typed AST: unexpected JSON value"
  | .malformed reason => reason.message

def load (fs : FileSet) (disk : String → Option Bytes) (text : String) :
    FileSet × Except Fault Module :=
  match Json.parse? text with
  | none => (fs, .error .syntactic)
  | some j => match read j {} with
    | .error _ => (fs, .error .misfit)
    | .ok d =>
      let (fs, m) := d.accept fs disk
      (fs, m.mapError .malformed)

end Document

end Tenure
