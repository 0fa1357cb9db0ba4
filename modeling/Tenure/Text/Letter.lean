import Tenure.Text.Ranges

/- Letter case: the one-to-one lower and upper forms of a character, and the case folding under
   which two spellings of a word compare equal. Folding may lengthen the text. -/
namespace Tenure.Text

def lowerRuns : Array Run := runs
  ["1T-P>2P 2U-M>68 2-6>6W Y-1A>75/2 2>2X 2-4>8J/2 3-E>8Q/2 3-18>97/2 2>73 1-4>AI/2 4>GJ 1-2>AR/2",
   "2>GK AW 2-1>GM B0 3>D9 GP GR B6 2>GW GZ 2>H5 H4 BD 4>HB HE 2>HH 1-4>BL/2 2>HS BS 2>HV 3>BX",
   "2>I0 C0 2-1>I2 1-2>C4/2 2>IA C9 4>CD 8>CM CM 2>CP CP 2>CS 1-G>CS/2 3-G>DB/2 3>DV 1-2>DV/2",
   "2>B9 CF 1-12>E1/2 2>BI 2-G>F7/2 8>8RP FW 2>BE 8RQ 3>G2 2>AO I1 I4 1-8>G7/2 82-2>OH/2 4>ON",
   "9>S3 7>Q4 2-2>Q5 2>R0 2-1>R1 2-G>Q9 2-8>QR 10>RB 9-M>RD/2 6>QG 3>S8 2>S2 SB 3-2>OR 1-F>UO",
   "1-V>TS 1D-W>V5/2 A-1G>WB/2 2>Y7 1-C>XU/2 3-2M>Y9/2 3-11>129 28A-11>8W0 2>8X3 6>8X9 K3-27>XV4",
   "1-5>3Y0 1P7-16>3BK 3-2>3CT 8X-44>5XD/2 A>67 2-2M>61T/2 A-7>64G 9-5>64W B-7>65C 9-7>65S",
   "9-5>668 C-6>66P/2 9-7>674 P-7>680 9-7>68G 9-7>68W 9-1>69C 1-1>67K 69F C-3>67M 69V C-1>6A8",
   "1-1>67Q D-1>6AO 1-1>67U 6AT C-1>67S 1-1>67W 6B7 8A>QX 4>2Z 6D 7>6KU 1A-F>6LS K>6MC MR-P>79S",
   "1F5-1B>8Q8 1D>8RL 2>H7 5TP HP 3-4>8RS/2 2>GH HD GG GI 2>8S3 3>8S6 9-1>FZ 1-2Q>8SH/2 9-2>8VG/2",
   "5>8VN NYM-18>WU9/2 K-Q>WW1/2 3S-C>X0J/2 4-1O>X0Z/2 B-2>X2Y/2 2>5TL 1-8>X33/2 5>X3G 2>H1",
   "3-2>X3L/2 4-I>X3R/2 2>H2 GS GX H8 H6 2>IM HZ IL XUB 1-E>X4L/2 2>X3O HU 5U6 1-2>X54/2 7>X5D",
   "6-2>X5J/2 T>X6E H7W-P>1EF5 XY-13>1FE0 3T-Z>1FIW 4D-A>1FO7 2-E>1FOJ 2-6>1FOZ 2-1>1FP7",
   "1D7-1E>1H34 2CU-V>1JGG GW1-V>20DC O81-X>2OMA"]

def upperRuns : Array Run := runs
  ["2P-P>1T 1N>PO 17-M>5C 2-6>60 AG 2-1A>74/2 2>21 2-4>8I/2 3-E>8P/2 3-18>96/2 3-4>AH/2 2B G3",
   "3-2>AQ/2 3>AV 4>AZ 6>B5 3>DY 4>BC FX 4>F4 3-4>BK/2 3>BR 5>BW 3>BZ 4-2>C3/2 3>C8 4>CC 2>DZ",
   "6>CK CK 2>CN CN 2>CQ CQ 2-E>CT/2 B2 2-G>DA/2 3>DT DT 2>DW 4-12>E0/2 4-G>F6/2 9>FV 3-1>8SE",
   "2>G1 5-8>G6/2 8RZ 8RX 8S0 AP AU 2-1>AX 2>B3 2>B4 X4B 4>B7 X4C 2>B8 2>X3H X4A 2>BB BA X4E 8RM",
   "X4D 3>BG 2>8RY BH 3>BJ 8>8RO 3>BQ 2>X51 BT 4>X4H BY G4 1-1>C1 G5 6>C7 B>X4I X4G 4N>PL",
   "18-2>OG/2 4>OM 4-2>SD 1B>P2 1-2>P4 2-G>PD PV 1-8>PV P8 1-1>PA 2>PE PK 4>PY PS R3 2-M>RC/2 PM",
   "PT S9 OV 2>PH 3>S7 3>SA 1H-V>SW 1-F>SG 2-W>V4/2 A-1G>WA/2 3-C>XT/2 XS 2-2M>Y8/2 1E-11>10X",
   "28A-16>5N4 3-2>5OD L5-5>3XS 1OJ>SY T0 TA 1-1>TD TE TM V6 WUI 6P>X31 4>8RN H>X52 37-44>5XC/2",
   "6>600 6-2M>61S/2 1-7>64O 9-5>654 B-7>65K 9-7>660 9-5>66G C-6>66X/2 9-7>67C 9-1>69M 1-3>6A0",
   "1-1>6AI 1-1>6BC 1-1>6AY 1-1>6BE 3-7>688 9-7>68O 9-7>694 9-1>69K 2>69O B>PL 5>6A4 D-1>6AG",
   "F-1>6AW 4>6B0 E>6BG 9N>6K2 Y-F>6LC 5>6MB NG-P>792 1FR-1B>8OW 2>8RK 4>FU FY 2-4>8RR/2 7>8S2",
   "3>8S5 B-2Q>8SG/2 9-2>8VF/2 5>8VM D-11>3A8 2>3BB 6>3BH NX0-18>WU8/2 K-Q>WW0/2 3S-C>X0I/2",
   "4-1O>X0Y/2 B-2>X2X/2 3-8>X32/2 5>X3F 5-2>X3K/2 X50 3-I>X3Q/2 C-E>X4K/2 5-2>X53/2 7>X5C",
   "6-2>X5I/2 T>X6D NX>X4J T-27>3VK GHU-P>1EE9 Y6-13>1FCW 3T-Z>1FHS 4C-A>1FN4 2-E>1FNG 2-6>1FNW",
   "2-1>1FO4 1DW-1E>1H1C 2BY-V>1JFK GW1-V>20CG O83-X>2OLC"]

def variantRuns : Array Run := runs
  ["51>QK 5M>37 CM>QH 3H>QR E>QA QG 4>QU QO Q>QI QP 4>QD 35V-5>3XS 1OJ>TU TW U6 1-1>U9 UA UI V7",
   "WUJ ER>601 83>QH RLE-27>3VK"]

def foldExpansions : Array (Nat × List Nat) := expansions
  ["67>37+37 29>2X+LJ P>JG+32 4N>2Y+LO BK>QH+LK+LD W>QT++ D3>12D+136 4Y7>2W+MP 38+LK 3B+LM 3D+",
   "2P+JI 4>37+37 4Y>QT+LV 2>++LC 2>++LD 2>++N6 16>64G+QH 64H+ 64I+ 64J+ 64K+ 64L+ 64M+ 64N+ 64G+",
   "64H+ 64I+ 64J+ 64K+ 64L+ 64M+ 64N+ 65C+ 65D+ 65E+ 65F+ 65G+ 65H+ 65I+ 65J+ 65C+ 65D+ 65E+",
   "65F+ 65G+ 65H+ 65I+ 65J+ 674+ 675+ 676+ 677+ 678+ 679+ 67A+ 67B+ 674+ 675+ 676+ 677+ 678+",
   "679+ 67A+ 67B+ 3>67K+ Q9+ Q4+ 2>Q9+N6 ++QH 5>+QH 6>67O+ QF+ Q6+ 2>QF+N6 ++QH 5>+QH 6>QH+LK+LC",
   "++LD 3>+N6 +LK+N6 B>QT++LC ++LD QP+LV 2>QT+N6 +LK+N6 B>67W+QH QX+ R2+ 2>QX+N6 ++QH 5>+QH",
   "179G>2U+2U +2X +30 +2U+2X ++30 37+38 + D>12S+12U +12D +12J 132+12U 12S+12L"]

def lowerChar (c : Char) : Char :=
  if c.toNat < 128 then c.toLower else Char.ofNat (applyRuns lowerRuns c.toNat)

def upperChar (c : Char) : Char :=
  if c.toNat < 128 then c.toUpper else Char.ofNat (applyRuns upperRuns c.toNat)

def foldChar (c : Char) : List Char :=
  if c.toNat < 128 then [c.toLower]
  else match findExpansion foldExpansions c.toNat with
    | some cs => cs.map Char.ofNat
    | none => [Char.ofNat (applyRuns variantRuns (applyRuns lowerRuns c.toNat))]

def lower (s : String) : String := String.ofList (s.toList.map lowerChar)

def upper (s : String) : String := String.ofList (s.toList.map upperChar)

/-- Two texts that differ only in case have the same folding. -/
def foldCase (s : String) : String := String.ofList (s.toList.flatMap foldChar)

end Tenure.Text
