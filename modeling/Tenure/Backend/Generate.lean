import Tenure.Backend.Layout
import Tenure.Backend.Render
import Tenure.SourceMap.Build

/- A module as one backend file with its source map. Every piece is written on its own, and the finished
   chunks are put in a row. -/
namespace Tenure

structure Generated where
  module : String
  file : String
  text : String
  /-- There may be none when the unit was put together by hand. -/
  map : Option SourceMap
  deriving Inhabited

namespace Backend

/-- Warnings about unused scaffolding say nothing about the source, so they are switched off. -/
def prologue : String :=
  "#![allow(unused_parens, unused_variables, unused_mut, dead_code, unused_imports)]\n\n"

def header (m : Module) : Doc :=
  .cat [.text ("// Code generated by keel from " ++ m.path ++ ". DO NOT EDIT.\n"), .text prologue]

def pieceDoc (a : Analysis) : Piece → Doc
  | .struct s => s.render
  | .func f depth => f.render (Rendering.of a f) depth
  | .text s => .text s

def whole (a : Analysis) : Doc := .cat (header a.module :: a.module.layout.map (pieceDoc a))

/-- A text that grows at its end, with the entries of what is finished. -/
structure Writer where
  text : String := ""
  indent : Nat := 0
  entries : List Entry := []

namespace Writer

def size (w : Writer) : Nat := w.text.utf8ByteSize

/-- Offsets are words: a longer text has none for what comes next. -/
def pos? (w : Writer) : Option Nat := if w.size < range32 then some w.size else none

mutual
/-- Writes the document. What it marks is entered when it has been written. -/
def put : Doc → Writer → Option Writer
  | .text s, w => some { w with text := w.text ++ s }
  | .cat ds, w => putAll ds w
  | .marked m d, w => do
    let start ← w.pos?
    let w ← put d w
    let stop ← w.pos?
    let e : Entry := { start, stop, origin := m.origin, stmt := m.stmt, synthetic := m.synthetic }
    return { w with entries := w.entries ++ [e.normal] }
  | .fault, _ => none
def putAll : List Doc → Writer → Option Writer
  | [], w => some w
  | d :: ds, w => (put d w).bind (putAll ds)
end

def setIndent (w : Writer) (depth : Nat) : Writer := { w with indent := depth }

def putPiece (a : Analysis) (w : Writer) : Piece → Option Writer
  | .struct s => put s.render (w.setIndent 0)
  | .func f depth =>
    let w := w.setIndent depth
    put (f.render (Rendering.of a f) w.indent) w
  | .text s => put (.text s) (w.setIndent 0)

/-- Puts a finished chunk behind the text and moves its entries along. Only where the chunk starts has
to be a word, so that the end of the last one is never looked at. -/
def append (w chunk : Writer) : Option Writer := do
  let delta ← w.pos?
  return { w with text := w.text ++ chunk.text
                  entries := w.entries ++ chunk.entries.map (Entry.shift delta) }

def appendPiece (a : Analysis) (w : Writer) (p : Piece) : Option Writer :=
  (putPiece a {} p).bind w.append

end Writer

def assemble (a : Analysis) : Option Writer :=
  (Writer.put (header a.module) {}).bind (a.module.layout.foldlM (Writer.appendPiece a))

def fileName (m : Module) (wanted : String) : String :=
  if wanted.isEmpty then m.name ++ ".rs" else wanted

inductive Fault where
  | canceled
  | unwritable

end Backend

/-- The backend file of an analysed module, unless something it refers to is missing or an offset that
is asked for is no word. -/
def Analysis.generate (a : Analysis) (file : String := "") : Option Generated :=
  (Backend.assemble a).map fun w =>
    let file := Backend.fileName a.module file
    { module := a.module.name, file, text := w.text
      map := some (SourceMap.build a.module.name file w.entries) }

/-- A generation that has been called off ends at its first piece. -/
def Analysis.generateUnless (a : Analysis) (canceled : Bool) (file : String := "") :
    Except Backend.Fault Generated :=
  if canceled && !a.module.layout.isEmpty then .error .canceled
  else match a.generate file with
    | some u => .ok u
    | none => .error .unwritable

end Tenure
