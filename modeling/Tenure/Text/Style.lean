import Tenure.Text.Bytes

/- Terminal styles. -/
namespace Tenure.Text

structure Style where
  codes : List Nat

namespace Style

def bold : Nat := 1
def faint : Nat := 2

def red : Style := ⟨[31, bold]⟩
def green : Style := ⟨[32, bold]⟩
def yellow : Style := ⟨[33, bold]⟩
def blue : Style := ⟨[34, bold]⟩
def cyan : Style := ⟨[36, bold]⟩
def dim : Style := ⟨[faint]⟩
def strong : Style := ⟨[bold]⟩

/-- What ends an attribute: weights have an end of their own, colors end with everything else. -/
def reset (code : Nat) : Nat := if code = bold ∨ code = faint then 22 else 0

def sequence (codes : List Nat) : String := "\x1b[" ++ ";".intercalate (codes.map toString) ++ "m"

def paintBytes (st : Style) (on : Bool) (s : Bytes) : Bytes :=
  if on then
    Bytes.ofString (sequence st.codes) ++ s ++ Bytes.ofString (sequence (st.codes.map reset))
  else s

def paint (st : Style) (on : Bool) (s : String) : String :=
  if on then sequence st.codes ++ s ++ sequence (st.codes.map reset) else s

end Style

end Tenure.Text
