import Tenure.Text.Ranges

/- Canonical composition. A text is taken apart into base characters and marks, the marks of one
   base are put into their canonical order, and marks are joined with their base again where a
   single character stands for the pair. Two canonically equal texts compose to the same text. -/
namespace Tenure.Text

/-- Combining classes; a character outside the table has class zero and starts a new sequence. -/
def classRanges : Array (Nat × Nat × Nat) := valuedRanges
  ["LC-K>6E 6G 1-3>64 6G 60 1-4>64 1-1>5M 1-3>64 1-1>5M 1-A>64 1-4>1 1-3>64 1-7>6E 6O 6E 1-2>64",
   "1-2>6E 1-1>64 2-2>6E 1-3>64 6E 6G 1-1>64 6E 6H 1-1>6I 6H 1-1>6I 6H 1-C>6E 7O-4>6E 7E>64",
   "1-3>6E 64 1-2>6E 66 64 1-5>6E 1-5>64 1-1>6E 64 1-1>6E 66 6C 6E A B C D E F G H I 1-1>J K L M",
   "2>N 2>O P 2>6E 64 2>I 21-7>6E U V W 1D>R S T U V W X Y 1-1>6E 1-1>64 1-4>6E 64 1-1>6E 64 H>Z",
   "2U-6>6E 3-3>6E 64 6E 3-1>6E 2>64 1-1>6E 64 10>10 V>6E 64 1-1>6E 64 1-1>6E 1-2>64 6E 1-1>64 6E",
   "64 1-2>6E 64 6E 64 6E 64 6E 64 1-1>6E 4H-6>6E 64 6E A>64 P-3>6E 2-8>6E 2-2>6E 2-4>6E 18-2>64",
   "1P>6E 1-2>64 1-3>6E 17-4>6E 1-4>64 1-D>6E 2>64 1-1>6E 64 1-1>6E 64 1-2>6E 1-2>64 R S T 1-2>6E",
   "64 1-1>6E 1-1>64 1-4>6E 1P>7 H>9 4>6E 64 1-1>6E 2W>7 H>9 1D>6E 1Q>7 H>9 33>7 H>9 33>7 H>9",
   "3K>9 33>7 H>9 8>2C 2J 2U>7 H>9 32-1>9 H>9 3H>9 32-1>2V 9 E-3>2Z 31-1>3A 9 E-3>3E 25-1>64 S>64",
   "2>64 2>60 1K>3L 3M 2>3O 6-3>3M 3>3M 2-1>6E 9 2-1>6E 1R>64 35>7 2-1>9 2B>64 K0-2>6E QD-1>9 V>9",
   "4E>9 B>6E 5O>6C 40>66 6E 64 64>6E 64 20>9 L-7>6E 3>64 1D-4>6E 1-5>64 1-1>6E 64 2-1>64 1-1>6E",
   "1-1>64 1-4>6E 64 1-3>6E 2U>7 G>9 13>6E 64 1-6>6E 1J-1>9 1N>7 C-1>9 1W>7 49-2>6E 2>1 1-4>64",
   "1-1>6E 1-3>64 6E 2-6>1 5>64 7>6E 4-1>6E 5J-1>6E 64 1-6>6E 64 1-1>6E 6I 5Y 64 5M 1-10>6E 6G",
   "1-1>6C 64 62 6E 6H 64 6E 64 K1-1>6E 1-1>1 1-3>6E 1-2>1 1-1>6E 5>6E 4-1>1 6E 64 6E 1-1>1",
   "1-3>64 6E 2DB-2>6E 3Y>9 2P-V>6E FF>62 6C 6G 66 1-1>68 2Y-1>8 N9X>6E 5-9>6E X-1>6E 29-1>6E",
   "7P>9 12>9 48>9 S-H>6E 1M-2>64 12>9 2O>7 D>9 6O>6E 2-1>6E 64 3-1>6E 6-1>6E 2>6E 1H>9 6V>9",
   "FN5>Q LE-6>6E 1-6>64 1-1>6E R2>64 6B>64 46-4>6E 1AR>64 2>6E 15>6E 1 64 5>9 4M>6E 64 FY-3>6E",
   "AS-1>6E 29-2>64 1Z-1>64 1-2>6E 64 6E 1-3>64 1E>6E 64 6E 64 5D>9 16>9 F>9 1M>9 7 1Y-2>6E",
   "1D-1>9 1R>7 25>9 A>7 2Z>9 7 4Z>7 9 29-1>7 H>9 P-6>6E 4-4>6E 5Q>9 4>7 O>6E 2S>9 7 70>9 7 3J>9",
   "3B>9 7 38>9 7I>9 7 77-1>9 5>7 4D>9 2C>9 J>9 2A>9 BQ>9 77>7 2-1>9 2A>9 BU-1>9 EY6-4>1 1O-6>6E",
   "XM-1>6 F59>1 43R-1>60 1-2>1 4>6A 1-4>60 9-7>64 3-4>6E 1-1>64 V-3>6E 45-2>6E 2PO-6>6E 2-G>6E",
   "3-6>6E 2-1>6E 2-4>6E 2T>6E 4H-6>6E AG>6E 1Q-3>6E E5-1>6G 64 6E RL-6>64 32-5>6E 7"]

def pairTable : Array (Nat × List Nat) := expansions
  ["5C>1T+LC +LD +LE +LF +LK +LM 2>1V+MF 1X+LC +LD +LE +LK 21+LC +LD +LE +LK 2>26+LF 27+LC +LD",
   "+LE +LF +LK 3>2D+LC +LD +LE +LK 2H+LD 3>2P+LC +LD +LE +LF +LK +LM 2>2R+MF 2T+LC +LD +LE +LK",
   "2X+LC +LD +LE +LK 2>32+LF 33+LC +LD +LE +LF +LK 3>39+LC +LD +LE +LK 3D+LD 2>+LK 1T+LG 2P+",
   "1T+LI 2P+ 1T+MG 2P+ 1V+LD 2R+ 1V+LE 2R+ 1V+LJ 2R+ 1V+LO 2R+ 1W+ 2S+ 3>1X+LG 2T+ 1X+LI 2T+",
   "1X+LJ 2T+ 1X+MG 2T+ 1X+LO 2T+ 1Z+LE 2V+ 1Z+LI 2V+ 1Z+LJ 2V+ 1Z+MF 2V+ 20+LE 2W+ 3>21+LF 2X+",
   "21+LG 2X+ 21+LI 2X+ 21+MG 2X+ 21+LJ 4>22+LE 2Y+ 23+MF 2Z+ 2>24+LD 30+ 24+MF 30+ 24+LO 30+",
   "5>26+LD 32+ 26+MF 32+ 26+LO 32+ 4>27+LG 33+ 27+LI 33+ 27+LN 33+ 3>2A+LD 36+ 2A+MF 36+ 2A+LO",
   "36+ 2B+LD 37+ 2B+LE 37+ 2B+MF 37+ 2B+LO 37+ 2C+MF 38+ 2C+LO 38+ 3>2D+LF 39+ 2D+LG 39+ 2D+LI",
   "39+ 2D+LM 39+ 2D+LN 39+ 2D+MG 39+ 2F+LE 3B+ 2H+ 3D+ 2H+LK 2I+LD 3E+ 2I+LJ 3E+ 2I+LO 3E+",
   "Y>27+M3 33+ E>2D+ 39+ T>1T+LO 2P+ 21+ 2X+ 27+ 33+ 2D+ 39+ 64+LG 70+ 64+LD 70+ 64+LO 70+ 64+LC",
   "70+ 2>5G+LG 6C+ FA+ FB+ 5I+ 6E+ 3>1Z+LO 2V+ 23+ 2Z+ 27+MG 33+ DM+LG DN+ C7+LO IA+ 2Y+ 4>1Z+LD",
   "2V+ 3>26+LC 32+ 5H+LD 6D+ 5I+ 6E+ 60+ 6W+ 1T+LR 2P+ 1T+LT 2P+ 1X+LR 2T+ 1X+LT 2T+ 21+LR 2X+",
   "21+LT 2X+ 27+LR 33+ 27+LT 33+ 2A+LR 36+ 2A+LT 36+ 2D+LR 39+ 2D+LT 39+ 2B+ME 37+ 2C+ 38+",
   "3>20+LO 2W+ 7>1T+LJ 2P+ 1X+MF 2T+ 5Y+LG 6U+ 5X+ 6T+ 27+LJ 33+ FI+LG FJ+ 2H+ 3D+ 9E>4O+LD PD+",
   "2>PH+ PJ+ PL+ 2>PR+ 2>PX+ Q1+ QY+ Q>PL+LK PX+ Q9+LD QD+ QF+ QH+ QZ+ Q>QH+LK QT+ QN+LD QT+ QX+",
   "5>R6+ +LK 18>T1+LC +LK 2>SZ+LD 4>SM+LK 5>T6+LD T4+LC TF+LI B>T4+ W>U0+ N>TX+LC +LK 2>TV+LD",
   "4>UU+LK 5>U2+LD U0+LC UB+LI O>VO+LR VP+ 22>T2+LI TY+ E>SW+ TS+ SW+LK TS+ 3>T1+LI TX+ 3>YG+LK",
   "YH+ T2+ TY+ T3+ TZ+ 3>T4+LG U0+ T4+LK U0+ TA+ U6+ 3>YW+ YX+ TP+ UL+ TF+LG UB+ TF+LK UB+ TF+LN",
   "UB+ TJ+LK UF+ 3>TN+ UJ+ 89>17R+18Z +190 18O+ 17R+191 18Q+190 4A>1CL+ 2>1C1+ H>1CI+ GM>1T4+1TO",
   "8>1TC+ 3>1TF+ 47>1XJ+1XA +1XZ AK>287+28M 3>+27Y +28N 20>2AA+2C7 1I>2BQ+2BI 2BR+ 2BQ+2C7",
   "3G>2FA+2FQ 3C>2IN+2J9 7>2IU+ +2JA 2>+2IQ 2IY+2J9 3J>2ME+2M6 2MF+ 2ME+2MV 3Y>2QH+2Q2 2>+2Q7",
   "2QK+2Q2 2QH+2QN G8>36T+372 25C>5C5+5DH 2>5C7+ 2>5C9+ 2>5CB+ 2>5CD+ 4>5CH+ 15>5DM+ 2>5DO+",
   "3>5DQ+ 5DR+ 2>5DU+ JH>1T+MD 2P+ 1U+LJ 2Q+ 1U+MB 2Q+ 1U+MP 2Q+ 5J+LD 6F+ 1W+LJ 2S+ 1W+MB 2S+",
   "1W+MP 2S+ 1W+MF 2S+ 1W+ML 2S+ 7M+LC 7N+ 7M+LD 7N+ 1X+ML 2T+ 1X+MO 2T+ FC+LI FD+ 1Y+LJ 2U+",
   "1Z+LG 2V+ 20+LJ 2W+ 20+MB 2W+ 20+LK 2W+ 20+MF 2W+ 20+MM 2W+ 21+MO 2X+ 5R+LD 6N+ 23+ 2Z+ 23+MB",
   "2Z+ 23+MP 2Z+ 24+MB 30+ 5YU+LG 5YV+ 24+MP 30+ 24+ML 30+ 25+LD 31+ 25+LJ 31+ 25+MB 31+ 26+LJ",
   "32+ 26+MB 32+ 26+MP 32+ 26+ML 32+ 5X+LD 6T+ 5X+LK 6T+ 98+LC 99+ 98+LD 99+ 28+ 34+ 28+LJ 34+",
   "2A+ 36+ 2A+MB 36+ 5ZU+LG 5ZV+ 2A+MP 36+ 2B+LJ 37+ 2B+MB 37+ 9M+LJ 9N+ 9S+ 9T+ 602+ 603+ 2C+",
   "38+ 2C+MB 38+ 2C+MP 38+ 2C+ML 38+ 2D+MC 39+ 2D+MO 39+ 2D+ML 39+ A0+LD A1+ A2+LK A3+ 2E+LF 3A+",
   "2E+MB 3A+ 2F+LC 3B+ 2F+LD 3B+ 2F+LK 3B+ 2F+LJ 3B+ 2F+MB 3B+ 2G+LJ 3C+ 2G+LK 3C+ 2H+LJ 3D+",
   "2I+LE 3E+ 2I+MB 3E+ 2I+MP 3E+ 2W+ 38+LK 3B+LM 3D+ 2>AN+LJ 5>1T+MB 2P+ 1T+LL 2P+ 5E+LD 6A+",
   "5E+LC 6A+ 5E+LL 6A+ 5E+LF 6A+ 61S+LE 61T+ 76+LD 77+ 76+LC 77+ 76+LL 77+ 76+LF 77+ 61S+LI 61T+",
   "1X+MB 2T+ 1X+LL 2T+ 1X+LF 2T+ 5M+LD 6I+ 5M+LC 6I+ 5M+LL 6I+ 5M+LF 6I+ 62G+LE 62H+ 21+LL 2X+",
   "21+MB 2X+ 27+ 33+ 27+LL 33+ 5W+LD 6S+ 5W+LC 6S+ 5W+LL 6S+ 5W+LF 6S+ 630+LE 631+ BK+LD BL+",
   "BK+LC BL+ BK+LL BL+ BK+LF BL+ BK+MB BL+ 2D+ 39+ 2D+LL 39+ BZ+LD C0+ BZ+LC C0+ BZ+LL C0+ BZ+LF",
   "C0+ BZ+MB C0+ 2H+LC 3D+ 2H+MB 3D+ 2H+LL 3D+ 2H+LF 3D+ 7>Q9+LV +LW 64G+LC 64H+ 64G+LD 64H+",
   "64G+N6 64H+ PD+LV +LW 64O+LC 64P+ 64O+LD 64P+ 64O+N6 64P+ QD+LV +LW 64W+LC 64X+ 64W+LD 64X+",
   "3>PH+LV +LW 654+LC 655+ 654+LD 655+ 3>QF+LV +LW 65C+LC 65D+ 65C+LD 65D+ 65C+N6 65D+ PJ+LV +LW",
   "65K+LC 65L+ 65K+LD 65L+ 65K+N6 65L+ QH+LV +LW 65S+LC 65T+ 65S+LD 65T+ 65S+N6 65T+ PL+LV +LW",
   "660+LC 661+ 660+LD 661+ 660+N6 661+ QN+LV +LW 668+LC 669+ 668+LD 669+ 3>PR+LV +LW 66G+LC 66H+",
   "66G+LD 66H+ 3>QT+LV +LW 66O+LC 66P+ 66O+LD 66P+ 66O+N6 66P+ 2>PX+LW 2>66X+LC 2>+LD 2>+N6",
   "QX+LV +LW 674+LC 675+ 674+LD 675+ 674+N6 675+ Q1+LV +LW 67C+LC 67D+ 67C+LD 67D+ 67C+N6 67D+",
   "Q9+LC 2>QD+ 2>QF+ 2>QH+ 2>QN+ 2>QT+ 2>QX+ 4>64G+N9 64H+ 64I+ 64J+ 64K+ 64L+ 64M+ 64N+ 64O+",
   "64P+ 64Q+ 64R+ 64S+ 64T+ 64U+ 64V+ 65C+ 65D+ 65E+ 65F+ 65G+ 65H+ 65I+ 65J+ 65K+ 65L+ 65M+",
   "65N+ 65O+ 65P+ 65Q+ 65R+ 674+ 675+ 676+ 677+ 678+ 679+ 67A+ 67B+ 67C+ 67D+ 67E+ 67F+ 67G+",
   "67H+ 67I+ 67J+ Q9+LI +LG 67K+N9 Q9+ Q4+ 2>Q9+N6 69I+N9 PD+LI +LG +LC 2>+N9 5>4O+N6 67O+N9 QF+",
   "Q6+ 2>QF+N6 69Y+N9 PH+LC 2>PJ+ 2>+N9 69R+LC +LD +N6 QH+LI +LG QY+LC 4>QH+N6 QY+ PL+LI +LG +LC",
   "3>6BI+ +LD +N6 QT+LI +LG QZ+LC 2>QP+LV +LW QT+N6 QZ+ PX+LI +LG +LC 2>PT+LW 4O+LC 5>67W+N9 QX+",
   "R2+ 2>QX+N6 6BA+N9 PR+LC 2>Q1+ 2>+N9 BI>6MO+MW 6MQ+ J>6MS+ V>6OG+ 6OK+ 6OI+ 1H>6PV+ 5>6Q0+",
   "3>6Q3+ O>6QR+ 2>6QT+ R>6RG+ 3>6RN+ 3>6RP+ 2>6RS+ N>1P+ 2>6SH+ B>6RX+ 1O+ 1Q+ 6SK+ 6SL+ 3>6SY+",
   "6SZ+ 3>6T2+ 6T3+ 7>6T6+ 6T7+ 3>6TE+ 6TF+ 3>6TI+ 6TJ+ Z>6UA+ 6UG+ 6UH+ 6UJ+ 1D>6T8+ 6T9+ 6TT+",
   "6TU+ 7>6UQ+ 6UR+ 6US+ 6UT+ 2N3>9JF+9LL 2>9JH+ 2>9JJ+ 2>9JL+ 2>9JN+ 2>9JP+ 2>9JR+ 2>9JT+",
   "2>9JV+ 2>9JX+ 2>9JZ+ 2>9K1+ 3>9K4+ 2>9K6+ 2>9K8+ 7>9KF+ +9LM 2>9KI+9LL +9LM 2>9KL+9LL +9LM",
   "2>9KO+9LL +9LM 2>9KR+9LL +9LM N>9JA+9LL A>9LP+ E>9M3+ 2>9M5+ 2>9M7+ 2>9M9+ 2>9MB+ 2>9MD+",
   "2>9MF+ 2>9MH+ 2>9MJ+ 2>9ML+ 2>9MN+ 2>9MP+ 3>9MS+ 2>9MU+ 2>9MW+ 7>9N3+ +9LM 2>9N6+9LL +9LM",
   "2>9N9+9LL +9LM 2>9NC+9LL +9LM 2>9NF+9LL +9LM N>9LY+9LL 3>9NZ+ 9O0+ 9O1+ 9O2+ 4>9OD+",
   "1864>1HUH+1HVE 2>1HUJ+ F>1HUT+ 3N>1HYP+1HYF 1HYQ+ F0>1IDJ+1IDA +1IDZ A7>1INT+1INU +1INK",
   "2>+1INX 70>1IUW+1IUN 1IUX+ OT>1JJP+1JJK"]

/-- Characters that are taken apart and never joined again. -/
def splitTable : Array (Nat × List Nat) := expansions
  ["N4>LC LD 2>LV LK+LD 1C>JD A>1N 9>53 15D>1SL+1TO 1SM+ 1SN+ 1SS+ 1SX+ 1SY+ 1T7+ 1TB+ 3H>1WH+1X8",
   "1WI+ 2>1WV+ 2C>20I+20S 3>20O+ Z>1ZQ+ 1ZR+ 1ZW+ 3>20B+ 72>275+27W 276+ RQ>30I+33R A>30S+",
   "5>30X+ 5>312+ 5>317+ D>30G+33P A>31T+31U 2>+31W 33M+328 2>33N+ 9>31T+ I>32Q+33R A>330+ 5>335+",
   "5>33A+ 5>33F+ D>32O+33P 33S>Q4 2>Q5 2>Q6 2>Q7 2>R0 2>R1 2>R2 1Q>P2 3>QH B>P4 2>P5 8>PC 8>P6",
   "8>Q8 8>PA 3>P1 2O A>P8 2>PB 2>50 3>6BM 6BN 85>Q1 4>23 5H E6>9HK 9HL 1IQ>8GT+MW 14PW>RPK KC4",
   "S7E RT4 LW1 FG2 GKL VJ0 VJ0 HN5 SSX GW7 HMW JCM NE1 P6T QIN QT6 R20 SJZ KXU LJV MAH MVY Q4D",
   "SQ2 UEP FIA GHH L50 MJF QI5 V8E IFK M3V QFH R50 JIH PNC QVZ IQ2 KD3 LM2 MPO SLQ FPI G53 GDA",
   "JWK L3N MJ4 NHJ PA9 QH2 QJG S1B TV6 UPB V7E NT8 NZZ OTC Q15 T1G VB3 RFA HJZ IRO OKG PDQ MLE",
   "NUY RSY TTJ HJS I8Y KYB LP6 LXR OQ7 OXJ TOR GCY PE3 G64 G5O O4C OU6 Q29 TPX RK0 JIN KXU RGE",
   "FG9 I5J IZ6 MTJ N74 GEV NWB FR3 IW9 FF1 LHO K1K OPU GJN HGE NI9 Q4P RE2 LA2 SDS LFS JJY PUT",
   "JOG N6T FJI G2X G5L KN5 OO7 PRJ RF6 SSV GDX GN6 HO3 IR0 K3P M4E NXM TKD UI2 VBR VDA GBF KAU",
   "L87 SBM INO J9S JCW JVE LYB MDL N0P O22 OVO PDB S9Y Q9A SGZ T3E G7R GBN GQL MA0 R0I RE2 IQ1",
   "IYD JNF L9Q OJI MT1 FL0 H6H I5J III IZG MUQ MZT P7E PC6 SVO TTI TVS U1K FPN O1A SS4 TRS J4X",
   "FIE FYY I5Q I7Z K2H KXU MHA NCY Q9O SJG VIL K94 TNY GAX KFV KJ7 LKX LUK MX5 N6H NSB OPC U3I",
   "G31 JE6 TQ0 FU3 IE1 LPM SA2 IVF J7O KK7 MTJ TQE G89 GLR I91 K5V KEM KO8 LID MX2 NAA P6H R0V",
   "R1D SSS TSY GFZ LVE GM5 MHC N14 QGQ TR7 UVR VBZ KGN LOR PNS O97 OBK OLU MO0 M8P RIW FK0 PX2",
   "G8Q G7B IP2 JIR ONQ I2T LJY KAC SAJ QX8 TOT R63 IQB G1S GXS 3>HGA 2>K8K 3>G66 MQY NGQ NY4 NZ2",
   "NZ9 O0F TW6 ON2 P8D 2>QHE 2>RG8 3>SHK SN1 4>U7J U7W U94 V5G SM6 TRR FQM FZB G25 GCP GDG GGH",
   "GWT GZQ H2G HFK HIG I90 I9A J2S J8O J9Q JCI K0F K4I K9D KN9 LMF LQY LYA MEM MJV MXU NTD NY6",
   "NYH NYG NYO NYU NZ1 O0D O0E O5C O75 OG0 OVO OW9 OXT P6A PAD PNX PRT PRT Q53 R2O R6E RGH RI1",
   "RTF RUW SDY SHK TSZ U0V U2J J1X 36CU PP4 3>FFQ G51 G2W FPC G1X G3K GCN GE2 GWT GUT GWP GYQ",
   "HGA HIR HMS HN8 HUQ I08 IQA IQH IUH IWD J4O J7Y J60 J9Q J8G JCI JEC JPG JRW JTE K0M K8K KD3",
   "KD7 KEU L89 LA2 LKX LWB LVV LYA M5A MEM NMV MK5 MNJ MQY N01 N46 N5N NBX NBZ NGQ NH7 NHW NKA",
   "NK0 NV0 O8H OG0 OL7 ORF OVO P4U PAD PXU Q27 QRD R41 R5Y R6E REN RG8 REZ RGH RGE RFX RI1 RKA",
   "RUW SAG SJ6 SRD SXI TQ4 TSZ TW6 TZV U0V U17 U2J UMQ VJ0 313E 3138 33DH BRX CNS COP 39E1 3BGW",
   "3I6R VGJ VIM 1W>15L+14K 2>16A+14N B>161+14X +14Y 1DMX+14X +14Y 15C+14N +14O +14S 15D+ 15E+",
   "15F+ 15G+ 15H+ 15I+ 2>15K+ 15L+ 15M+ 15N+ 15O+ 2>15Q+ 2>15S+ 15T+ 2>15V+ 15W+ 2>15Y+ 15Z+",
   "160+ 161+ 162+ 15H+14P 15D+14V 15N+ 15W+ 16A8>2JX3+2JXH 2JX4+ 2JXB+2JXQ +2JXR +2JXS +2JXT",
   "+2JXU 2F>2JZT+2JXH 2JZU+ 2JZV+2JXQ 2JZW+ 2JZV+2JXR 2JZW+ 1M4G>FGD FG8 FGH 2TCY FOG FQM FQZ",
   "FSY FWA FX5 FZB FYN AE6 2UD6 G25 G2C G2S G3B 2U58 AEX G2V G3X 2U6J G47 G4K FKC G4S G51 3LY7",
   "G6T G77 AFZ G8R G92 GAA GAF AHH GCN GCP GDG GE2 GED GEE GEV GG9 GGH GGQ GHF GHP GHR GHR GHR",
   "2V58 M7K GJU GKF 2VDV GKR GKX GLI GPQ GMW GNC GO8 GPU GS6 GSW GUR GV7 GW4 GW4 GWP GX7 GXF GXU",
   "H7A GZQ H7B H1T H2S G7B HKE HCE HDG HE5 HAJ HF6 HF5 HIK 2X9G HKI HKN HL2 HLM HLU HNM 2XM0",
   "2XNU HRG HSR HT3 HQW HUU AUM AV0 HZC I0U I0U 2Y88 I4J I54 I5J I5V 2YHK I67 I6E ITV I76 AYP",
   "I8W I9A IBK IA5 2Z1G IF7 2Z1I IGE IGB IGS IJL IJM B3J IKD ILK IM5 IND B4Y 2ZR7 B5O IPC IPF",
   "IPI IQ2 3PG2 IRI 3035 3035 POH ISI ISI B7R 335K 3CGQ IUA IUJ B8J IVU IX9 IXJ IYH J29 BAY BA4",
   "J2S 30T0 J47 J7S J7W J7Y J7W J96 J9Q JAQ JAC JAN JBY JCI JCM JDC JDN JFH JHT JIS JM8 31N0 JLP",
   "JJW JMW JNN JQC 31TD JS2 JPH JOP BHQ JU1 JUM JVH JUF BJG K0F K18 32MI K4J KC8 K7D BO9 K9D BNS",
   "BMS G42 G45 KCG K9O PF1 DEH KD3 KD7 KDD KF2 KER 33CZ BPL KJE KG5 KLU KN9 33HP KNI KKF KR8 BRX",
   "KSI KV7 KX6 L2G 33XF L3V BVC L5T 34BR L78 BWU L82 L9B LA2 LA3 34P9 2YVF 34SA LE6 354S LHB LHP",
   "LEV LJQ LKU LMF LKX LM1 LMG LMT 357I LKK LRJ LTA C37 LVV LVR 35JL LQ1 M0E 35NI 35OU M2U M61",
   "M5A M57 C5Y M6I M7X M7R M99 2U5H MDH 368Z MFW 36I3 MJS MK5 MKW 36YW MM8 MMT 3779 37DG MT6 MTN",
   "CDO MUD CE0 CE0 MYV MZG N01 N0L N2I CGR N50 386U N5Q 389E N74 2ZRZ NBK 38V5 38VS 38ZO CN0 CNC",
   "NHW 394J 394I 395L 396B NJ2 NJ3 NJ3 NKA COP NM3 CP2 CRA 39R1 NRI NT8 NV0 CTF 3A5I NYU 3A8Q",
   "3A9X O0F O2Z CVJ O5C O5M O5R 3AT8 3B1J 3B1J OA6 D1E 3B8R OG6 OG9 D2F 3BEO ONM D5S OO8 OO3 OOW",
   "3C06 ORN D8H OUF OW2 OXX D9W 3CIW 3CJR DAX 3CNT P6I 3CQM P79 PA2 PAD 3D22 3D43 PCW 3D7S PDC",
   "33A7 DED PF6 PHF DFV PJ2 HX1 3DLZ 3DMD 33BN 33BW POH POK SDA DIJ PSH PSB PST GC3 PTD PTF PTP",
   "PUU 3EBG PUT PWD PYB Q0D PWJ Q0T Q1Z Q53 PXV Q16 Q18 Q1O 3EIE 3EQZ 3EMT DNV Q9D Q9F QAE 3G0A",
   "QCK 3F3G DP9 DPD 3F75 3FF6 DPN QJ4 QJG QJR QJT QLL QKO QOE QN6 QRD QP4 QQZ QRQ DSN QU9 QV5",
   "DTL QXS QXV 3GIV R13 R1A DV9 R22 AEZ 3GZ2 3H46 DZ2 DZB RDS RFX RKA RPX 3HRC RSB RSX RVF RXZ",
   "3I9B 2UPW S0B RZW S1C 2UVY S7O SAG 3JKI 3JL9 SK4 SMP SNL 3JU6 SNV SVS T07 T08 SXO T89 T91",
   "3KSA TJF EJ9 TKN 3L2V ELI TS3 IIA TUR 3LTX 3LZU EPA EPI U00 3MDM ER6 3MHI U17 U17 U21 3MPI",
   "U76 EUR U95 UCN UDE UF2 EZ2 3NSG UMQ UV4 V0D F66 F71 V3B 3OWE F7C 3OXX 3P5A 3P8X VCR F9Y VEH",
   "VEM VET VF3 VFA VGB 3PXC"]

def combiningClass (c : Nat) : Nat := (findValue classRanges c).getD 0

def hangulBase : Nat := 0xAC00

def hangulSyllables : Nat := 11172

/-- A step of taking apart: a precomposed syllable or a table entry. -/
def splitOnce (c : Nat) : Option (List Nat) :=
  if hangulBase ≤ c ∧ c < hangulBase + hangulSyllables then
    let s := c - hangulBase
    let lead := 0x1100 + s / 588
    let vowel := 0x1161 + s % 588 / 28
    if s % 28 = 0 then some [lead, vowel] else some [lead, vowel, 0x11A7 + s % 28]
  else (findExpansion pairTable c).or (findExpansion splitTable c)

def split : Nat → Nat → List Nat
  | 0, c => [c]
  | depth + 1, c => match splitOnce c with
    | some cs => cs.flatMap (split depth)
    | none => [c]

def insertMark (c : Nat) : List Nat → List Nat
  | [] => [c]
  | d :: ds => if combiningClass d ≤ combiningClass c then d :: insertMark c ds else c :: d :: ds

/-- Marks between two class zero characters, sorted by class without disturbing equal classes. -/
def orderMarks : List Nat → List Nat → List Nat
  | marks, [] => marks
  | marks, c :: cs =>
    if combiningClass c = 0 then marks ++ c :: orderMarks [] cs else orderMarks (insertMark c marks) cs

def joinHangul (a b : Nat) : Option Nat :=
  if 0x1100 ≤ a ∧ a < 0x1113 ∧ 0x1161 ≤ b ∧ b < 0x1176 then
    some (hangulBase + ((a - 0x1100) * 21 + (b - 0x1161)) * 28)
  else if hangulBase ≤ a ∧ a < hangulBase + hangulSyllables ∧ (a - hangulBase) % 28 = 0 ∧
      0x11A8 ≤ b ∧ b < 0x11C3 then some (a + (b - 0x11A7))
  else none

def join (a b : Nat) : Option Nat :=
  (joinHangul a b).or ((pairTable.find? fun p => p.2 == [a, b]).map (·.1))

/-- `base` is the last starter, `kept` the marks after it that did not join, newest first. -/
def composeFrom (base : Nat) : List Nat → List Nat → List Nat
  | kept, [] => base :: kept.reverse
  | kept, c :: cs =>
    let blocked := match kept with
      | [] => false
      | d :: _ => combiningClass c ≤ combiningClass d
    let joined := if blocked then none else join base c
    match joined with
    | some b => composeFrom b kept cs
    | none =>
      if combiningClass c = 0 then base :: kept.reverse ++ composeFrom c [] cs
      else composeFrom base (c :: kept) cs

def compose : List Nat → List Nat
  | [] => []
  | c :: cs => if combiningClass c = 0 then composeFrom c [] cs else c :: compose cs

def composed (s : String) : String :=
  if s.toList.all fun c => c.toNat < 0x300 then s
  else String.ofList ((compose (orderMarks [] (s.toList.flatMap fun c => split 5 c.toNat))).map Char.ofNat)

end Tenure.Text
