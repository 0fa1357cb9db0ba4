import Tenure.Text.Blank

/- A bar that moves to its target like a damped spring, so that it never jumps. -/
namespace Tenure.Build

structure Bar where
  width : Int
  target : Float := 0
  shown : Float := 0
  velocity : Float := 0
  deriving Inhabited

namespace Bar

def frameLength : Float := 0.016666666

/-- How stiff the spring is; it is damped just enough not to swing. -/
def frequency : Float := 18

def unitInterval (x : Float) : Float := if x < 0 then 0 else if 1 < x then 1 else x

def aim (b : Bar) (target : Float) : Bar := { b with target := unitInterval target }

def rests (b : Bar) : Bool := (b.shown - b.target).abs < 0.001 && b.velocity < 0.01

def frame (b : Bar) : Bar :=
  if b.rests then b
  else
    let decay := Float.exp (-frequency * frameLength)
    let timed := frameLength * decay
    let scaled := timed * frequency
    let distance := b.shown - b.target
    { b with
      shown := distance * (scaled + decay) + b.velocity * timed + b.target
      velocity := distance * (-frequency * scaled) + b.velocity * (-scaled + decay) }

def frames : Nat → Bar → Bar
  | 0, b => b
  | n + 1, b => frames n b.frame

def wholeEven (x : Float) : Nat :=
  let low := x.floor
  let n := low.toUInt64.toNat
  if x - low < 0.5 then n else if 0.5 < x - low then n + 1 else n + n % 2

def filled (cells : Nat) (x : Float) : Nat :=
  let n := (cells.toFloat * x).round
  if n ≤ 0 then 0 else min cells n.toUInt64.toNat

def draw (width : Int) (x : Float) : String :=
  let percent := s!" {Text.padLeft 3 (toString (wholeEven (unitInterval x * 100)))}%"
  let cells := (width - percent.length).toNat
  let full := filled cells x
  String.ofList (List.replicate full '█' ++ List.replicate (cells - full) '░') ++ percent

def view (b : Bar) : String := draw b.width b.shown

end Bar

end Tenure.Build
