import Tenure.SourceMap.Basic

/- Backend text as a tree. A mark says which source its text comes from, so marks nest by
   construction. -/
namespace Tenure

structure Mark where
  origin : Range
  stmt : Range
  synthetic : Bool := false
  deriving DecidableEq, Repr, Inhabited

inductive Doc where
  | text (s : String)
  | cat (ds : List Doc)
  | marked (m : Mark) (d : Doc)
  /-- Something that cannot be written: it refers to a node or binding that is not there. -/
  | fault

instance : Inhabited Doc := ⟨.text ""⟩

namespace Doc

def empty : Doc := .text ""

def synthetic (s : String) (origin stmt : Range) : Doc := .marked ⟨origin, stmt, true⟩ (.text s)

def mapped (origin stmt : Range) (ds : List Doc) : Doc := .marked ⟨origin, stmt, false⟩ (.cat ds)

def when_ (b : Bool) (s : String) : Doc := .text (if b then s else "")

def inParens (b : Bool) (d : Doc) : Doc := if b then .cat [.text "(", d, .text ")"] else d

def joined (s : String) : List Doc → List Doc
  | [] => []
  | [d] => [d]
  | d :: ds => d :: .text s :: joined s ds

mutual
def size : Doc → Nat
  | .text s => s.utf8ByteSize
  | .cat ds => sizeAll ds
  | .marked _ d => d.size
  | .fault => 0
def sizeAll : List Doc → Nat
  | [] => 0
  | d :: ds => d.size + sizeAll ds
end

mutual
def pieces : Doc → List String
  | .text s => [s]
  | .cat ds => piecesAll ds
  | .marked _ d => d.pieces
  | .fault => []
def piecesAll : List Doc → List String
  | [] => []
  | d :: ds => d.pieces ++ piecesAll ds
end

def flat (d : Doc) : String := String.join d.pieces

mutual
/-- The marks as entries of a text in which the document starts at `offset`. Inner marks precede
outer ones. -/
def entries (offset : Nat) : Doc → List Entry
  | .text _ => []
  | .cat ds => entriesAll offset ds
  | .marked m d =>
    d.entries offset ++
      [{ start := offset, stop := offset + d.size, origin := m.origin, stmt := m.stmt
         synthetic := m.synthetic }]
  | .fault => []
def entriesAll (offset : Nat) : List Doc → List Entry
  | [] => []
  | d :: ds => d.entries offset ++ entriesAll (offset + d.size) ds
end

mutual
def isSound : Doc → Bool
  | .text _ => true
  | .cat ds => isSoundAll ds
  | .marked _ d => d.isSound
  | .fault => false
def isSoundAll : List Doc → Bool
  | [] => true
  | d :: ds => d.isSound && isSoundAll ds
end

end Doc

end Tenure
