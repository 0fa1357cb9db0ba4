import Tenure.Program.Basic

/- The order of a generated file: every struct with its methods behind it, then methods of structs
   that are declared elsewhere, then free functions. Foreign functions produce no text. -/
namespace Tenure

inductive Piece where
  | struct (s : StructDecl)
  | func (f : FuncDecl) (depth : Nat)
  | text (s : String)

namespace Layout

def written (m : Module) : List FuncDecl := m.funcs.filter (!·.isExtern)

def methodsOf (m : Module) (owner : String) : List FuncDecl :=
  (written m).filter fun f => !f.owner.isEmpty && f.owner == owner

def free (m : Module) : List FuncDecl := (written m).filter (·.owner.isEmpty)

def owners (m : Module) : List String :=
  (((written m).map (·.owner)).filter fun o => !o.isEmpty).eraseDups

def methodPieces : List FuncDecl → List Piece
  | [] => []
  | [f] => [.func f 1]
  | f :: fs => .func f 1 :: .text "\n" :: methodPieces fs

def implBlock (m : Module) (owner : String) : List Piece :=
  match methodsOf m owner with
  | [] => []
  | fs => .text ("impl " ++ owner ++ " \x7b\n") :: methodPieces fs ++ [.text "\x7d\n\n"]

/-- Structs, the first of a name with its methods; `seen` are the names before. -/
def structPieces (m : Module) (seen : List String) : List StructDecl → List Piece
  | [] => []
  | s :: ss =>
    .struct s :: (if seen.contains s.name then [] else implBlock m s.name) ++
      structPieces m (s.name :: seen) ss

end Layout

def Module.layout (m : Module) : List Piece :=
  Layout.structPieces m [] m.structs ++
    ((Layout.owners m).filter fun o => !(m.structs.map (·.name)).contains o).flatMap
      (Layout.implBlock m) ++
    (Layout.free m).flatMap fun f => [.func f 0, .text "\n"]

end Tenure
