import Tenure.Program.Walk
import Tenure.View.Source

/- Types and modules as data. Nodes name each other by number, and zero names none. -/
namespace Tenure.View

def showTy : Ty → Json
  | .unknown => .null
  | t => .arr [.str t.text, .bool t.isCopy, .bool t.isClonable]

def tyKind (t : Ty) (kind : String) (more : List (String × Json)) : Json :=
  .obj ([("kind", .str kind), ("text", .str t.text), ("copy", .bool t.isCopy),
    ("clonable", .bool t.isClonable)] ++ more)

mutual
def showTyTree : Ty → Json
  | .unknown => .null
  | .unit => tyKind .unit "unit" []
  | .int => tyKind .int "int" []
  | .float => tyKind .float "float" []
  | .bool => tyKind .bool "bool" []
  | .string => tyKind .string "string" []
  | .named n c d => tyKind (.named n c d) "named" [("name", .str n)]
  | .array e => tyKind (.array e) "array" [("elem", showTyTree e)]
  | .optional e => tyKind (.optional e) "optional" [("elem", showTyTree e)]
  | .func ps r =>
    tyKind (.func ps r) "func" [("params", .arr (showTyTrees ps)), ("result", showTyTree r)]
def showTyTrees : List Ty → List Json
  | [] => []
  | t :: ts => showTyTree t :: showTyTrees ts
end

def showExpr (e : Expr) : Json :=
  match e with
  | .absent _ => .null
  | .node i x y args inits body result => .obj [
    ("id", .nat i.id), ("kind", .str i.kind.name), ("span", showRange i.span), ("type", showTy i.ty),
    ("name", .str i.name), ("binding", .nat i.binding), ("target", .str i.target),
    ("op", .str i.op), ("lit", .str i.lit), ("lit_kind", .nat i.litKind.code), ("x", .nat x.id),
    ("y", .nat y.id), ("args", showNats (args.map Expr.id)), ("params", showNats i.params),
    ("body", .nat body.id), ("result", .nat result.id),
    ("fields", .arr (inits.map fun f => .arr [.str f.name, .nat f.value.id, showRange f.span])),
    ("children", showNats (e.children.map Expr.id)), ("root", .nat e.root)]

def showStmt (s : Stmt) : Json :=
  match s with
  | .absent _ => .null
  | .node i target value body orElse => .obj [
    ("id", .nat i.id), ("kind", .str i.kind.name), ("span", showRange i.span),
    ("binding", .nat i.binding), ("target", .nat target.id), ("op", .str i.op),
    ("value", .nat value.id), ("body", showNats (body.map Stmt.id)), ("else", .nat orElse.id)]

def showBinding (b : Binding) : Json := .obj [
  ("id", .nat b.id), ("name", .str b.name), ("kind", .nat b.kind.code), ("type", showTy b.ty),
  ("mutable", .bool b.mutable), ("annotation", .str b.marker.text), ("scope", .nat b.scope),
  ("span", showRange b.span), ("is_param", .bool b.kind.isParam)]

def showStruct (s : StructDecl) : Json := .obj [
  ("name", .str s.name), ("copy", .bool s.copy), ("noclone", .bool s.noClone),
  ("span", showRange s.span),
  ("fields", .arr (s.fields.map fun f => .arr [.str f.name, showTy f.ty, showRange f.span]))]

def showFunc (f : FuncDecl) : Json := .obj [
  ("id", .nat f.id), ("name", .str f.name), ("qualified", .str f.qualified),
  ("owner", .str f.owner), ("receiver", .nat f.receiver), ("params", showNats f.params),
  ("result", showTy f.result), ("body", showNats (f.body.map Stmt.id)), ("extern", .bool f.isExtern),
  ("span", showRange f.span), ("bindings", showNats f.declared)]

def showModule (fs : FileSet) (m : Module) : Json := .obj [
  ("name", .str m.name), ("path", .str m.path), ("file", .nat m.file), ("files", showFiles fs),
  ("structs", .arr (m.structs.map showStruct)), ("funcs", .arr (m.funcs.map showFunc)),
  ("exprs", .arr (m.exprs.toList.map showExpr)), ("stmts", .arr (m.stmts.toList.map showStmt)),
  ("bindings", .arr (m.bindings.toList.map showBinding))]

end Tenure.View
