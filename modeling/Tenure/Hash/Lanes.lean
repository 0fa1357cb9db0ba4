import Tenure.Text.Bytes

/- A keyed 256-bit digest in four 64-bit lanes, for telling contents apart. -/
namespace Tenure.Hash

structure Lanes where
  a : UInt64
  b : UInt64
  c : UInt64
  d : UInt64
  deriving DecidableEq, Inhabited

namespace Lanes

def map (f : UInt64 → UInt64) (x : Lanes) : Lanes := ⟨f x.a, f x.b, f x.c, f x.d⟩

def zip (f : UInt64 → UInt64 → UInt64) (x y : Lanes) : Lanes :=
  ⟨f x.a y.a, f x.b y.b, f x.c y.c, f x.d y.d⟩

def add (x y : Lanes) : Lanes := zip (· + ·) x y

def xor (x y : Lanes) : Lanes := zip (· ^^^ ·) x y

def low8 : UInt64 := 0xFF

def low32 : UInt64 := 0xFFFFFFFF

def crossMul (x y : Lanes) : Lanes := zip (fun l h => (l &&& low32) * (h >>> 32)) x y

def swapHalves (n : UInt64) : UInt64 := (n >>> 32) ||| (n <<< 32)

def rotateHalves (count : Nat) (n : UInt64) : UInt64 :=
  let half (h : UInt64) : UInt64 :=
    if count % 32 = 0 then h
    else ((h <<< (count % 32).toUInt64) ||| (h >>> (32 - count % 32).toUInt64)) &&& low32
  half (n &&& low32) ||| (half (n >>> 32) <<< 32)

def byteOf (first second : UInt64) (i : Nat) : UInt64 :=
  let lane := if i < 8 then first else second
  (lane >>> (8 * (i % 8)).toUInt64) &&& low8

def pick (first second : UInt64) (order : List Nat) : UInt64 :=
  order.foldr (fun i n => (n <<< 8) ||| byteOf first second i) 0

def shuffled (x : Lanes) : Lanes :=
  let low (p q : UInt64) : UInt64 := pick p q [3, 12, 2, 5, 14, 1, 15, 0]
  let high (p q : UInt64) : UInt64 := pick p q [11, 4, 10, 13, 9, 6, 8, 7]
  ⟨low x.a x.b, high x.a x.b, low x.c x.d, high x.c x.d⟩

end Lanes

structure LaneState where
  v0 : Lanes
  v1 : Lanes
  mul0 : Lanes
  mul1 : Lanes
  deriving DecidableEq, Inhabited

namespace LaneState

open Lanes

def initial0 : Lanes :=
  ⟨0xdbe6d5d5fe4cce2f, 0xa4093822299f31d0, 0x13198a2e03707344, 0x243f6a8885a308d3⟩

def initial1 : Lanes :=
  ⟨0x3bd39e10cb0ef593, 0xc0acf169b5f18a8c, 0xbe5466cf34e90c6c, 0x452821e638d01377⟩

def start (key : Lanes) : LaneState :=
  { v0 := initial0.xor key, v1 := initial1.xor (key.map swapHalves), mul0 := initial0
    mul1 := initial1 }

def update (s : LaneState) (packet : Lanes) : LaneState :=
  let v1 := (s.v1.add s.mul0).add packet
  let mul0 := s.mul0.xor (crossMul v1 s.v0)
  let v0 := s.v0.add s.mul1
  let mul1 := s.mul1.xor (crossMul v0 v1)
  let v0 := v0.add v1.shuffled
  { v0, v1 := v1.add v0.shuffled, mul0, mul1 }

def permute (s : LaneState) : LaneState :=
  s.update ⟨swapHalves s.v0.c, swapHalves s.v0.d, swapHalves s.v0.a, swapHalves s.v0.b⟩

def permutes : Nat → LaneState → LaneState
  | 0, s => s
  | n + 1, s => permutes n s.permute

def reduce (a3 a2 a1 a0 : UInt64) : UInt64 × UInt64 :=
  let a3 := (a3 <<< 2) >>> 2
  (a0 ^^^ (a2 <<< 1) ^^^ (a2 <<< 2),
    a1 ^^^ ((a3 <<< 1) ||| (a2 >>> 63)) ^^^ ((a3 <<< 2) ||| (a2 >>> 62)))

def finish (s : LaneState) : Lanes :=
  let s := permutes 10 s
  let high := s.v1.add s.mul1
  let low := s.v0.add s.mul0
  let (h0, h1) := reduce high.b high.a low.b low.a
  let (h2, h3) := reduce high.d high.c low.d low.c
  ⟨h0, h1, h2, h3⟩

end LaneState

def word (bs : Bytes) : UInt64 := (bs.take 8).foldr (fun b n => n * 256 + b.toUInt64) 0

def lanes (bs : Bytes) : Lanes := ⟨word bs, word (bs.drop 8), word (bs.drop 16), word (bs.drop 24)⟩

def wordBytes : Nat → UInt64 → Bytes
  | 0, _ => []
  | n + 1, w => w.toUInt8 :: wordBytes n (w >>> 8)

def laneBytes (x : Lanes) : Bytes := [x.a, x.b, x.c, x.d].flatMap (wordBytes 8)

/-- The last, incomplete packet, filled up so that its length shows. -/
def lastPacket (bs : Bytes) : Bytes :=
  let n := bs.length
  let part := n % 4
  let full := n - part
  let front := bs.take full ++ List.replicate (32 - full) 0
  if 16 ≤ n then front.take 28 ++ bs.drop (n - 4)
  else if part ≠ 0 then
    front.take 16 ++ [bs.getD full 0, bs.getD (full + part / 2) 0, bs.getD (n - 1) 0] ++ front.drop 19
  else front

def absorbLast (s : LaneState) (bs : Bytes) : LaneState :=
  let n := bs.length.toUInt64
  let count := (n <<< 32) + n
  { s with
    v0 := s.v0.map (· + count)
    v1 := s.v1.map (Lanes.rotateHalves bs.length) }.update (lanes (lastPacket bs))

def absorbPackets : Nat → LaneState → Bytes → LaneState
  | 0, s, _ => s
  | fuel + 1, s, bs =>
    if bs.isEmpty then s
    else
      let packet := bs.take 32
      if packet.length < 32 then absorbLast s packet
      else absorbPackets fuel (s.update (lanes packet)) (bs.drop 32)

def keyed (key bs : Bytes) : Bytes :=
  laneBytes (absorbPackets (bs.length + 1) (.start (lanes key)) bs).finish

def contentKey : Bytes := Bytes.ofString "keel-unit-cache-key-0123456789AB"

def content (parts : List Bytes) : Bytes := keyed contentKey parts.flatten

end Tenure.Hash
