import Tenure.Text.Bytes
import Tenure.Text.Cluster

/- Display width in terminal cells. A cluster is as wide as its first character that takes room. -/
namespace Tenure.Text

def unprintedRanges : Array (Nat × Nat) := ranges
  ["0-V 2O-W E 19E 3CS-3 1KT-4 P-6 1O-5 109D-1KV 64G 6Y-2 3-1"]

def combiningRanges : Array (Nat × Nat) := ranges
  ["LC-33 7O-4 O4-8 ST 4 6N D-1 198-2 1EO 1D-U 4D-8 GD-1R K1-W 2DB-2 6N-V II-1 N9X-3 2-9 X-1 29-1",
   "DR-H GTR-F R2 AH-4 27L-1 4A-A 1E-3 OR-1 1M-1 16-6 4-4 HA4-4 JRG-19 3-M F3-4 4-5 9-7 3-6 V-3",
   "45-2 2PO-6 2-G 3-6 2-1 2-4 2T 1MP-6"]

def wideRanges : Array (Nat × Nat) := ranges
  ["3CW-2N 3I3-1 E-1 5B-3 4 3 EI-1 M-1 1F-B 18 K E 9-1 I-1 6-1 9 6 M 8-1 2 5 3 8 5-1 T 10 2 5-2 2",
   "1Q-2 P F NW-1 1G 5 MJ-P 2-2G D-5X R-B 5-1Q 3-2D 3-2U 6-16 2-2L 2-2B D-1A 2-13 9-5F3 1T-H3G",
   "4-1I WQ-S HW-8MB 6L9-E7 LT-9 N-Y 2-I 2-3 46-2N 3K-6 M4A-4 C-1 F-4QF 9-YD 17-8 6W8-3 2-6 2-1",
   "2-82 G U-2 3 F-3 9-AZ C21 5N 5B 3-9 2U-2 E-17 5-8 8-1 F-5 4B-W D-8 2-1X 2-L D-16 5-4 D-G 4",
   "4-1Y 2 2-56 3-1Q E-3 2-N J R-1 E 2F-2C 1D-1X 7 4-2 3-2 5-3 C-1 8-8 6C-B 5 7W-1A 2-9 2-54 35-C",
   "4-8 8-19 2-6 9-D 5-8 8-8 ZS-1EKD 3-1EKD"]

def charWidth (c : Char) : Nat :=
  let n := c.toNat
  if n < 0x20 || (0x7F ≤ n && n ≤ 0x9F) || n == 0xAD then 0
  else if n < 0x300 then 1
  else if inRanges unprintedRanges n || inRanges combiningRanges n then 0
  else if inRanges wideRanges n then 2
  else 1

def clusterWidth : List Char → Nat
  | [] => 0
  | c :: cs => if charWidth c = 0 then clusterWidth cs else charWidth c

def clustersWidth (clusters : List (List Char)) : Nat := (clusters.map clusterWidth).foldr (· + ·) 0

def width (s : String) : Nat := clustersWidth (clusters s.toList)

/-- The width of bytes. A character that is cut off at the end belongs to the cluster before it. -/
def widthOfBytes (bs : Bytes) : Nat :=
  let cut := Bytes.cutOff bs
  let ks := clusters (Bytes.toChars (bs.take (bs.length - cut)))
  if cut = 0 then clustersWidth ks
  else match ks.reverse with
    | [] => 1
    | k :: before => clustersWidth before + clusterWidth (k ++ [Bytes.replacement])

def fitting (room : Nat) : List (List Char) → List (List Char)
  | [] => []
  | k :: ks => if clusterWidth k ≤ room then k :: fitting (room - clusterWidth k) ks else []

/-- A text wider than `room` is cut so that it fits together with `tail`. With a tail wider than
the room no cluster that takes room is kept. -/
def truncated (s : String) (room : Nat) (tail : String) : String :=
  if width s ≤ room then s
  else if width tail ≤ room then
    String.ofList (fitting (room - width tail) (clusters s.toList)).flatten ++ tail
  else tail

end Tenure.Text
