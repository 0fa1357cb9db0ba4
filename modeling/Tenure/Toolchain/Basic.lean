import Tenure.Diagnostic.Basic
import Tenure.Text.Letter
import Tenure.Text.Quoted

/- The native toolchain, as a build sees it. -/
namespace Tenure

structure Toolchain where
  name : String
  deriving DecidableEq, Repr, Inhabited

namespace Toolchain

def cargo : Toolchain := ⟨"cargo"⟩
def rustc : Toolchain := ⟨"rustc"⟩

def ofSetting? (s : String) : Option Toolchain :=
  match Text.lower (Text.trim s) with
  | "" | "cargo" => some cargo
  | "rustc" => some rustc
  | _ => none

def unknownMessage (s : String) : String :=
  s!"unknown toolchain {Text.quoted s} (supported: cargo, rustc)"

end Toolchain

structure BuildOutcome where
  success : Bool := false
  artifact : String := ""
  dir : String := ""
  sourcePath : String := ""
  command : List String := []
  records : List RawDiagnostic := []
  deriving Repr, Inhabited

inductive ToolFault where
  | missing (detail : String)
  /-- The toolchain gave up without a record of an error. -/
  | failed (detail : String) (outcome : BuildOutcome)
  | canceled
  | other (text : String)
  deriving Repr

namespace ToolFault

def withDetail (text detail : String) : String := if detail.isEmpty then text else s!"{text}: {detail}"

def message : ToolFault → String
  | .missing detail => withDetail "native toolchain not found" detail
  | .failed detail _ => withDetail "native build failed" detail
  | .canceled => "context canceled"
  | .other text => text

end ToolFault

end Tenure
