import Tenure.Program.Basic

/- All nodes of a body in source order, each before its children. -/
namespace Tenure

inductive Node where
  | expr (e : Expr)
  | stmt (s : Stmt)

mutual
def Expr.nodes : Expr → List Node
  | .absent _ => []
  | .node info x y args inits body result =>
    .expr (.node info x y args inits body result) ::
      match info.kind with
      | .methodCall => x.nodes ++ Expr.nodesAll args
      | .call | .arrayLit => Expr.nodesAll args
      | .field | .unary => x.nodes
      | .index | .binary | .range => x.nodes ++ y.nodes
      | .structLit => FieldInit.nodesAll inits
      | .closure => result.nodes ++ body.nodes
      | _ => []
def Expr.nodesAll : List Expr → List Node
  | [] => []
  | e :: es => e.nodes ++ Expr.nodesAll es
def FieldInit.nodesAll : List FieldInit → List Node
  | [] => []
  | .mk _ _ value :: is => value.nodes ++ FieldInit.nodesAll is
def Stmt.nodes : Stmt → List Node
  | .absent _ => []
  | .node info target value body orElse =>
    .stmt (.node info target value body orElse) ::
      match info.kind with
      | .assign => target.nodes ++ value.nodes
      | .forLoop | .whileLoop | .branch => value.nodes ++ Stmt.nodesAll body ++ orElse.nodes
      | _ => value.nodes ++ Stmt.nodesAll body
def Stmt.nodesAll : List Stmt → List Node
  | [] => []
  | s :: ss => s.nodes ++ Stmt.nodesAll ss
end

def Node.declares : Node → List Nat
  | .stmt (.node info ..) => match info.kind with
    | .letVar | .forLoop => [info.binding]
    | _ => []
  | .expr (.node info ..) => if info.kind = .closure then info.params else []
  | _ => []

/-- The bindings of a function in declaration order: receiver, parameters, then those of the body. -/
def FuncDecl.declared (f : FuncDecl) : List Nat :=
  (if f.receiver = 0 then [] else [f.receiver]) ++ f.params ++
    (Stmt.nodesAll f.body).flatMap Node.declares

end Tenure
