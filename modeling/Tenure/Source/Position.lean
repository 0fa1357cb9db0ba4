/- Positions. Lines and columns count from one and columns count bytes; zero means that nothing is
   known. All of them are 32-bit words held as naturals: a sum that leaves the word wraps. -/
namespace Tenure

def range32 : Nat := 4294967296

def wrap32 (n : Nat) : Nat := n % range32

structure Pos where
  line : Nat
  col : Nat
  deriving DecidableEq, Repr, Inhabited

namespace Pos

def zero : Pos := ⟨0, 0⟩

def isZero (p : Pos) : Bool := p.line == 0 && p.col == 0

def less (p q : Pos) : Bool := if p.line = q.line then p.col < q.col else p.line < q.line

theorem less_iff {p q : Pos} :
    p.less q = true ↔ p.line < q.line ∨ p.line = q.line ∧ p.col < q.col := by
  unfold less
  split
  · simp only [decide_eq_true_eq]
    omega
  · simp only [decide_eq_true_eq]
    omega

theorem less_false_iff {p q : Pos} :
    p.less q = false ↔ q.line < p.line ∨ q.line = p.line ∧ q.col ≤ p.col := by
  rw [← Bool.not_eq_true, less_iff]
  omega

end Pos

structure Range where
  file : Nat
  start : Pos
  stop : Pos
  deriving DecidableEq, Repr, Inhabited

namespace Range

def zero : Range := ⟨0, Pos.zero, Pos.zero⟩

def of (file line col stopLine stopCol : Nat) : Range := ⟨file, ⟨line, col⟩, ⟨stopLine, stopCol⟩⟩

def head (file : Nat) : Range := of file 1 1 1 1

def isZero (r : Range) : Bool := r.start.isZero && r.stop.isZero

def contains (r other : Range) : Bool :=
  r.file == other.file && !other.start.less r.start && !r.stop.less other.stop

/-- The smallest region around both, or the first when they lie in different files. -/
def cover (r other : Range) : Range :=
  if r.file ≠ other.file then r
  else
    { r with
      start := if other.start.less r.start then other.start else r.start
      stop := if r.stop.less other.stop then other.stop else r.stop }

def before (r other : Range) : Bool :=
  if r.file ≠ other.file then r.file < other.file
  else if r.start ≠ other.start then r.start.less other.start
  else r.stop.less other.stop

def text (r : Range) : String :=
  s!"{r.file}:{r.start.line}:{r.start.col}-{r.stop.line}:{r.stop.col}"

/-- `r` cut down to `bound`. A region outside of it becomes all of it. -/
def clamp (r bound : Range) : Range :=
  if bound.isZero || bound.contains r then r
  else if r.isZero || r.file != bound.file then bound
  else
    let start := if r.start.less bound.start then bound.start else r.start
    let stop := if bound.stop.less r.stop then bound.stop else r.stop
    if stop.less start then bound else { r with start, stop }

end Range

structure Span where
  file : Nat
  start : Nat
  stop : Nat
  deriving DecidableEq, Repr, Inhabited

namespace Span

def isEmpty (s : Span) : Bool := s.start == s.stop

def length (s : Span) : Nat := wrap32 (s.stop + range32 - s.start)

def text (s : Span) : String := s!"{s.file}:{s.start}-{s.stop}"

def contains (s other : Span) : Bool :=
  s.file == other.file && s.start ≤ other.start && other.stop ≤ s.stop

def cover (s other : Span) : Span :=
  if s.file ≠ other.file then s
  else { s with start := min s.start other.start, stop := max s.stop other.stop }

def shift (s : Span) (n : Nat) : Span :=
  { s with start := wrap32 (s.start + n), stop := wrap32 (s.stop + n) }

end Span

end Tenure
