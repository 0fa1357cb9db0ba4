import Tenure.Text.Category

/- User-perceived characters: a text falls into clusters that a terminal draws as one. -/
namespace Tenure.Text

inductive ClusterClass where
  | other | cr | lf | control | extend | joiner | regional | prepend | spacing
  | lead | vowel | tail | syllable | closedSyllable | pictograph
  deriving DecidableEq, Repr

def controlRanges : Array (Nat × Nat) := ranges
  ["0-9 2-1 2-H 2O-W E 12N 3JM 1KT 3-1 P-6 1E-F 17YO 6P-B AB9-F QXT-3 440-7 H406-V 2P-3J 6P-2RZ"]

def extendRanges : Array (Nat × Nat) := ranges
  ["1XA P 9Z P 2V P 6J J-1 2W P 3C G 2MU YF 36Q-1 14Z3-1 3VJ P 9L D 6Q OX 10DX 9-4 6TL-4 GX7L-2N"]

def prependRanges : Array (Nat × Nat) := ranges
  ["16O-5 60 1E AP-1 29 VG 1F8V G 6T-1 1H8 2 6X 22-5 JH CC"]

def unspacedRanges : Array (Nat × Nat) := ranges
  ["36Z-1 C 16-2 3-6 M 4-5 3 B-2 1XH 2-1 SGN 2 LGJ-1"]

def pictographRanges : Array (Nat × Nat) := ranges
  ["4P 5 68E D 61 N 2J-5 G-1 A8-1 D 2O 1Z Q-A 5-2 5K 6G-1 B A 1N-3 2-5 2-B 2-35 B-39 3-A 2 2 7 4",
   "7 B-1 G 3 5 2 5-2 2 C-4 1A-2 A F F AD-1 CW-2 K-1 1G 5 YJ D GQ 2 2FZB-73 E-2 W 1P-5 D-1 F 3-9",
   "J-1K S-E B L 3-8 2-3 A-C1 6-8T 9-7D 1D-3J 39-B 2E-16 D-3 1L-7 B-5 15-7 V-29 D-1A 2-9 2-C8",
   "75-SD"]

def clusterClass (c : Char) : ClusterClass :=
  let n := c.toNat
  let mark := category n
  if n == 0x0D then .cr
  else if n == 0x0A then .lf
  else if 0x20 ≤ n && n < 0x7F then .other
  else if n == 0x200D then .joiner
  else if 0x1F1E6 ≤ n && n ≤ 0x1F1FF then .regional
  else if inRanges controlRanges n then .control
  else if mark == 'N' || mark == 'E' || inRanges extendRanges n then .extend
  else if inRanges prependRanges n then .prepend
  else if n == 0xE33 || n == 0xEB3 || (mark == 'C' && !inRanges unspacedRanges n) then .spacing
  else if inRanges pictographRanges n then .pictograph
  else if (0x1100 ≤ n && n ≤ 0x115F) || (0xA960 ≤ n && n ≤ 0xA97C) then .lead
  else if (0x1160 ≤ n && n ≤ 0x11A7) || (0xD7B0 ≤ n && n ≤ 0xD7C6) then .vowel
  else if (0x11A8 ≤ n && n ≤ 0x11FF) || (0xD7CB ≤ n && n ≤ 0xD7FB) then .tail
  else if 0xAC00 ≤ n && n ≤ 0xD7A3 then
    if (n - 0xAC00) % 28 == 0 then .syllable else .closedSyllable
  else .other

/-- What the characters of the open cluster say about the next one: whether it holds a pictograph
followed by extenders only, whether a joiner came right after those, and whether it ends in an
unpaired regional indicator. -/
structure ClusterState where
  last : ClusterClass
  pictographic : Bool
  joined : Bool
  oddRegional : Bool

def ClusterState.start (k : ClusterClass) : ClusterState :=
  { last := k, pictographic := k == .pictograph, joined := false, oddRegional := k == .regional }

def ClusterState.next (s : ClusterState) (k : ClusterClass) : ClusterState :=
  { last := k
    pictographic := k == .pictograph || (s.pictographic && k == .extend)
    joined := s.pictographic && k == .joiner
    oddRegional := k == .regional && !s.oddRegional }

/-- Whether a character of class `k` starts a new cluster after `s`. -/
def ClusterState.breaks (s : ClusterState) (k : ClusterClass) : Bool :=
  match s.last, k with
  | .cr, .lf => false
  | .cr, _ | .lf, _ | .control, _ => true
  | _, .cr | _, .lf | _, .control => true
  | .lead, .lead | .lead, .vowel | .lead, .syllable | .lead, .closedSyllable => false
  | .syllable, .vowel | .syllable, .tail | .vowel, .vowel | .vowel, .tail => false
  | .closedSyllable, .tail | .tail, .tail => false
  | _, .extend | _, .joiner | _, .spacing => false
  | .prepend, _ => false
  | .joiner, .pictograph => !s.joined
  | .regional, .regional => !s.oddRegional
  | _, _ => true

/-- `current` holds the characters of the unfinished cluster, newest first. -/
def clustersFrom (s : ClusterState) (current : List Char) : List Char → List (List Char)
  | [] => [current.reverse]
  | c :: cs =>
    let k := clusterClass c
    if s.breaks k then current.reverse :: clustersFrom (.start k) [c] cs
    else clustersFrom (s.next k) (c :: current) cs

def clusters : List Char → List (List Char)
  | [] => []
  | c :: cs => clustersFrom (.start (clusterClass c)) [c] cs

end Tenure.Text
