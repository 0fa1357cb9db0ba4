import Tenure.Diagnostic.Code
import Tenure.Source.Position

/- Findings. Positions are always those of the source the author wrote. -/
namespace Tenure

/-- Lines and columns in backend text; columns count characters. -/
structure RawSpan where
  line : Nat
  col : Nat
  stopLine : Nat
  stopCol : Nat
  deriving DecidableEq, Repr, Inhabited

def RawSpan.zero : RawSpan := ⟨0, 0, 0, 0⟩

def RawSpan.isZero (s : RawSpan) : Bool := s == RawSpan.zero

structure RawDiagnostic where
  code : String := ""
  message : String := ""
  file : String := ""
  span : RawSpan := .zero
  severity : Severity := .info
  label : String := ""
  children : List String := []
  rendered : String := ""
  deriving DecidableEq, Repr, Inhabited

def RawDiagnostic.text (d : RawDiagnostic) : String :=
  let code := if d.code.isEmpty then "-" else d.code
  s!"{d.severity.text}[{code}] {d.file}:{d.span.line}:{d.span.col}: {d.message}"

structure Note where
  range : Range
  message : String
  deriving DecidableEq, Repr, Inhabited

/-- Replaces the text at a region. A non-empty `expect` has to be the text that is there. -/
structure Edit where
  range : Range
  newText : String
  expect : String := ""
  deriving DecidableEq, Repr, Inhabited

structure Fix where
  title : String
  edits : List Edit
  deriving DecidableEq, Repr, Inhabited

namespace Fix

def insert (title : String) (file : Nat) (place : Pos) (text : String) : Fix :=
  { title, edits := [{ range := ⟨file, place, place⟩, newText := text }] }

def replace (title : String) (r : Range) (newText expect : String) : Fix :=
  { title, edits := [{ range := r, newText, expect }] }

def delete (title : String) (r : Range) (expect : String) : Fix := replace title r "" expect

def wrap (title : String) (r : Range) (front back : String) : Fix :=
  { title, edits := [{ range := ⟨r.file, r.start, r.start⟩, newText := front },
                     { range := ⟨r.file, r.stop, r.stop⟩, newText := back }] }

end Fix

structure Diagnostic where
  severity : Severity := .error
  code : Code
  kind : Kind := .internal
  category : String := ""
  message : String
  primary : Range
  approximate : Bool := false
  notes : List Note := []
  suggestions : List String := []
  fixes : List Fix := []
  raw : Option RawDiagnostic := none
  deriving DecidableEq, Repr, Inhabited

namespace Diagnostic

def isError (d : Diagnostic) : Bool := Severity.error.level ≤ d.severity.level

end Diagnostic

end Tenure
