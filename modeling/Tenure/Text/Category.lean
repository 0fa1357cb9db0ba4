import Tenure.Text.Letter

/- Classes of characters: the general category of every character, and scripts. Their names are
   compared without case, blanks, underscores and hyphens. -/
namespace Tenure.Text

/-- A partition is written as run lengths with a mark each: `3U` are three numbers marked `U`. Under
the mark `/` upper and lower case letters take turns. -/
def marksFrom (lo count : Nat) : List Char → List (Nat × Nat × Char)
  | [] => []
  | c :: cs =>
    if c.isDigit then marksFrom lo (10 * count + digitValue c) cs
    else
      let next := lo + max count 1
      let run := if c = '/' then
          (List.range count).map fun i => (lo + i, lo + i, if i % 2 = 0 then 'U' else 'L')
        else [(lo, next - 1, c)]
      run ++ marksFrom next 0 cs

def categoryRuns : Array (Nat × Nat × Char) :=
  List.toArray <| marksFrom 0 0 <| List.flatMap String.toList
  ["32cs3PY3PBQPXPH2P10D2P3X2P26UBPQKJK26LBXQX33csP4YSPKSOGXfSKSX2FKL2PKFOV3FP23UX7U24LX8L55/2L",
   "15/2L46/2ULULU3L2ULUL2UL3U2L4UL2UL3U3L2UL2UL4/2ULU2LUL2UL3ULUL2U2LOU3L4OUTLUTLUTL15/2L17/2LUT",
   "LUL3UL57/7L2UL2U2LUL4UL7/69LO27L18M4K12M14K5M7KMKM17K112N4/MKUL2nM3LPU4n2KUP3UnUn2UL17Un9U35L",
   "U2L3U3L23/5LULXUL2U2L51U48L34/S5N2E54/2UL11/2L96/n38U2nM6P41LPH2n2SYn45NHNP2NP2NPN8n27O4n4O2P",
   "11n6f3X2PY2P2S11NPf3P32OM10O21N10D4P2ON99OPO7NfS6N2M2NS4N2O10D3O2SO14PnfON30O27N2n89O11NO14n",
   "10D33O9N2MS3PM2nN2Y22O4NM9NM3NM5N2n15Pn25O3N2nPn11O5n24OK6On2f6n8N41OM24Nf32NC54ONCNO3C8N4CN",
   "2CO7N10O2N2P10DPM15ON2Cn8O2n2O2n22On7OnO3n4O2nNO3C4N2n2C2n2CNO8nC4n2On3O2N2n10D2O2Y6FSYOPN2n",
   "2NCn6O4n2O2n22On7On2On2On2O2nNn3C2N4n2N2n3N3nN7n4OnO7n10D2N3ONP10n2NCn9On3On22On7On2On5O2nNO",
   "3C5Nn2NCn2CN2nO15n2O2N2n10DPY7nO6NnN2Cn8O2n2O2n22On7On2On5O2nNOCNC4N2n2C2n2CN7n2NC4n2On3O2N2n",
   "10DSO6F10nNOn6O3n3On4O3n2OnOn2O3n2O3n3O3n12O4n2CN2C3n3Cn3CN2nO6nC14n10D3F6SYS5nN3CN8On3On23On",
   "16O2nNO3N4Cn3Nn4N7n2Nn3O2nO2n2O2N2n10D7nP7FSON2CP8On3On23On10On5O2nNOCN5CnN2Cn2C2N7n2C6n2On2O",
   "2N2n10Dn2OC12n2N2C9On3On41O2NO3C4Nn3Cn3CNOS4n3OC7F3O2N2n10D9FS6OnN2Cn18O3n24On9OnO2n7O3nN4n3C",
   "3NnNn8C6n10D2n2CP12n48ON2O7N4nY6OM8NP10D2P37n2OnOn5On24OnOn10ON2O9NO2n5OnMn7Nn10D2n4O32nO3S",
   "15PSP3S2N6S10D10FSNSNSNBQBQ2C8On36O4n14NC5NP2N5O11Nn36Nn8SN6Sn2S5P4S2P37n43O2C4NC6NC2N2C2NO",
   "10D6P6O2C2N4O3NO3C2O7C3O4N13ON2C2N6CNOC10D3CN2S38UnU5nU2n43LPM3L329On4O2n7OnOn4O2n41On4O2n33O",
   "n4O2n7OnOn4O2n15On57On4O2n67O2n3N9P20F3n16O10S6n86U2n6L2nH620OSP17Os26OBQ3n75O3P3R8O7n18O3NC",
   "9n19O2NC2P9n18O2N12n13On3On2N12n52O2NC7N8CN2C11N3PM3PYON2n10D6n10F6n6PH4P3NfN10D6n35OM53O7n5O",
   "2N34ONO5n70O10n31On3N4C2N3C4n2CN6C3N4nS3n2P10D30O2n5O11n44O4n26O6n10DF3n34S23O2N2CN2n2P53OCNC",
   "7NnNCN2C8N6C10N2nN10D6n10D6n7PM6P2n14NE16N49n4NC47ONC5NCN5CN2C8O3n10D7P10S9N9S2Pn2NC30OC4N2C",
   "2NC3N2O10D44ONC2N3CNC3N2C8n4P36O8C8N2C2N3n5P10D3n3O10D30O6M2P9L7n43U2n3U8P8n3NP13NC7N4ON6ON2O",
   "C2NO5n44L63M13LM34L37M64N149/9L97/9L8U6L2n6U2n8L8U8L8U6L2n6U2n8LnUnUnUnU8L8U14L2n8L8T8L8T8L8T",
   "5Ln2L4UTKL3K3Ln2L4UT3K4L2n2L4Un3K8L5U3K2n3Ln2L4UT2Kn11s5f6H2PGVB2GVBG8Plp5fs9PGV4P2J3PXBQ11PX",
   "PJ10Ps5fn10fFM2n6F3XBQM10F3XBQn13M3n33Y15n13N4EN3E12N15n2SU4SU2SL3U2L3ULSU2SX5U6SUSUSUS4USL4U",
   "L4OL2S2L2U5XU4LSX2SLS16F35RUL4RF2S4n5X5S2X4SX2SX2SX7SX31S2X2SXSX31S268X8SBQBQ20S2X7SBQ81SX30S",
   "25X40S6X69S25n11S21n60F78S22F183SX9SX54S8X111SX248SBQBQBQBQBQBQBQ30F44S5XBQ31XBQBQBQBQBQ16X",
   "256S131XBQBQBQBQBQBQBQBQBQBQBQ63XBQBQ32XBQ258X48S21X2S6X39S2n32Sn105S48U48LUL3U2L6/4ULU2LU6L",
   "2M3UL97/2L6S4/3NUL5n4PF2P38LnL5nL2n56O7nMP14nN23O9n7On7On7On7On7On7On7On7On32N2PGVGV3PGVPGV9P",
   "H2PHPGV2PGVBQBQBQBQ5PM10P2H4PHPB13P2S3PBQBQBQBQH34n26Sn89S12n214S26n12S4ns3PSMORBQBQBQBQBQ2SB",
   "QBQBQBQHB2QS9R4N2CH5M2S3RMOP2Sn86O2n2N2K2MOH90OP3MO5n43On94On2S4F10S32O36S12n16O31Sn10F30S8FS",
   "15F32S10F39S15F320S6592O64S21013OM1143O3n55S9n40O6M2P268OM3P16O10D2O20n46/ON3EP10NPM28/2M2N",
   "70O10R2N6P8n23K9M2K13/3L62/M8L4/2UL8/M2K4/OULU3L20/5UL5UL14/4ULUL5nULnLnL4/24n3MULO2ML7ON3ON",
   "4ON23O2C2NC4SN3n6F2SYS6n52O4P8n2C50O16C2N8n2P10D6n18N6O3POP2ON10D28O8N2P23O11N2C11nP29O3n3NC",
   "47ON2C4N2C2N3C13PnM10D4n2P5ONM9O10D5On41O6N2C2N2C2N9n3ON8ONC2n10D2n4P16OM6O3SOCNC50ONO3N2O2N",
   "5O2NONO24n2OM2P11OC2N2C2PO2MCN10n6O2n6O2n6O9n7On7On43LK4M9LM2K4n80L35O2CN2CN2CPCN2n10D6n",
   "11172O12n23O4n49O4n2048u6400o366O2n106O38n7L12n5L5nON10OX13On5OnOn2On2On108O17K16n363OQB16S",
   "64O2n54O7nS32n12OY3S16N7PBQP6n16NP2H2JBQBQBQBQBQBQBQBQ2PBQ4P3J3Pn4PHBQBQBQ3PXH3XnPY2P4n5On",
   "135O2nfn3PY3PBQPXPH2P10D2P3X2P26UBPQKJK26LBXQXBQPBQ2P10OM45O2M31O3n6O2n6O2n6O2n3O3n2YXKS2YnS",
   "4X2S10n3f2S2n12On26On19On2On15O2n14O34n123O5n3P4n45F3n9S53R4F17S2F3Sn13S3nS47n45SN130n29O3n",
   "49O15nN27F4n32O4F9n20OR8OR5n38O5N5n30OnP36O4n8OP5R42n40U40L78O2n10D6n36U4n36L4n40O8n52O11nP",
   "11Un15Un7Un2Un11Ln15Ln7Ln2L67n311O9n22O10n8O24n6Mn42Mn9M69n6O2nOn44On2O3nO2n23OnP8F23O2S7F31O",
   "8n9F48n19On2O5n5F22O6F3nP26O5nP64n56O4n2F2O16F2n46FO3Nn2N5n4N4On3On29O2n3N4nN9F7n9P7n29O2FP",
   "29O3F32n8OS28O2N4n5F7P9n54O3n7P22O2n8F19O5n8F18O7n4P12n7F80n73O55n51U13n51L7n6F36O4N8n10D294n",
   "31Fn42On2NH2n2O75n3N29O10FO8n22O11N4F5P22n18O4N4P38n21O7F20n23O9nCNC53O15N7P4n20F10DN2O2NO9n",
   "3NC45O3C4N2C2N2Pf4PN10nf2n25O7n10D6n3N36O5NC8Nn10D4PO2CO8n35ON2PO9n2NC48O3C9N2C4O4P4NPCN10DOP",
   "O3Pn20F11n18On25O3C3N2CNC2N6PN2ON62n7OnOn4On15On10OP6n47ON3C8N5n10D6n2N2Cn8O2n2O2n22On7On2On",
   "5On2NO2CN4C2n2C2n3C2nO6nC5n5O2C2n7N3n5N139n53O3C8N2C3NCN4O5P10D2PnPN3O30n48O3C6NCN4C2NC2N2OPO",
   "8n10D166n47O3C4N2n4C2NC2N23P4O2N34n48O3C8N2CNC2N3PO11n10D6n13P19n43ONCN2C6NCNOP6n10D54n27O2n",
   "3N2C4NC5N4n10D2F3PS7O185n44O3C9NC2NP100n32U32L10D9F12n8O2nO2n8On2On24O6Cn2C2n2NCNOCOCN3P9n10D",
   "70n8O2n39O3C4N2n2N4CNOPOC27nO10N40O6NCO4N8PN8nO6N2C3N46O13NC2N3PO5P13n73O7n10P246n9On37OC7Nn",
   "6NCNO5P10n10D19F3n2P30O2n22NnC7NC2NC2N73n7On2On38O6N3nNn2Nn7NON8n10D6n6On2On32O5Cn2Nn2CNCNO7n",
   "10D310n19O2N2C2P7n2NOC13On34O2C5N3n2CNCN13P10D86nO15n21F8S4Y17S13nP922O102n111Rn5P11n196O",
   "2636n97O2P13n1072O16fN6O15N4010n583O8633n569O7n31On10D4n2P79On10D6n30O2n5NP10n48O7N5P4S4MPS",
   "10n10Dn7Fn21O5n19O688n32U32L23F4P101n75O4nNO55C7n4N13M64n2MPMN11n2C14n6136O8n1238O42n9O8935n",
   "4Mn7Mn2Mn291O15nO29n3O2nO14n4O8n396O2308n107O5n13O3n9O7n10O2nS2NP4f4700n46N2n23N9n116S60n246S",
   "10n39S2n60S2C3N3S6C8f8N2S7N30S4N61S21n66S3NS122n20F12n20F12n87S9n25F135n26U26L26U7Ln18L26U26L",
   "Un2U2nU2n2U2n4Un8U4LnLn7Ln11L26U26L2Un4U2n8Un7Un26L2Un4Un5UnU3n7Un26L26U26L26U26L26U26L26U26L",
   "26U26L26U28L2n25UX25LX6L25UX25LX6L25UX25LX6L25UX25LX6L25UX25LX6LUL2n50D512S55N4S50N8SN14SN2S",
   "5P15n5Nn15N1104n10LO20L6n6L213n7Nn17N2n7Nn2Nn5N5n62M33nN112n45O3n7N7M2n10D4nOS320n30ON17n44O",
   "4N10D5nY464n27OM4N10D742n7On4On2On15On197O2n9F7N41n34U34L7NM4n10D4n2P785n59FS3FY4F76n45FS15F",
   "194n4On27On2OnO2nOn10On4OnOnO6nO4nOnOnOn3On2OnO2nOnOnOnOnOn2OnO2n4On7On4On4OnOn10On17O5n3On5O",
   "n17O52n2X270n44S4n100S12n15S2n15Sn15Sn37S10n13F161S56n29S13n44S4n9S7n2S14n6S154n251S5K728S4n",
   "17S3n13S3n119S4n95S6n12S4nS15n12S4n56S8n10S6n40S8n30S2n2S78n340S12n14S2n13S3n9S7n46Sn7S8n14S",
   "4n9S7n9S7n147Sn55S37n10D1030n42720O32n4154O6n222O2n5762O14n7473O3103n542O1506n4939O5n4192O",
   "711761nf30n96f128n240N65040n65534o2n65534o2n"]

def category (n : Nat) : Char := ((rowFor categoryRuns (·.1) n).map (·.2.2)).getD 'n'

/-- Which characters are shown as themselves inside a quoted text. -/
def isPrintable (c : Char) : Bool := c == ' ' || (category c.toNat).isUpper

def categoryNames : List (String × List String) := [
  ("U", ["lu", "uppercaseletter"]), ("L", ["ll", "lowercaseletter"]),
  ("T", ["lt", "titlecaseletter"]), ("M", ["lm", "modifierletter"]), ("O", ["lo", "otherletter"]),
  ("N", ["mn", "nonspacingmark"]), ("C", ["mc", "spacingmark"]), ("E", ["me", "enclosingmark"]),
  ("D", ["nd", "decimalnumber", "digit"]), ("R", ["nl", "letternumber"]),
  ("F", ["no", "othernumber"]), ("J", ["pc", "connectorpunctuation"]),
  ("H", ["pd", "dashpunctuation"]), ("B", ["ps", "openpunctuation"]),
  ("Q", ["pe", "closepunctuation"]), ("G", ["pi", "initialpunctuation"]),
  ("V", ["pf", "finalpunctuation"]), ("P", ["po", "otherpunctuation"]),
  ("X", ["sm", "mathsymbol"]), ("Y", ["sc", "currencysymbol"]), ("K", ["sk", "modifiersymbol"]),
  ("S", ["so", "othersymbol"]), ("s", ["zs", "spaceseparator"]), ("l", ["zl", "lineseparator"]),
  ("p", ["zp", "paragraphseparator"]), ("c", ["cc", "control", "cntrl"]), ("f", ["cf", "format"]),
  ("o", ["co", "privateuse"]), ("n", ["cn", "unassigned"]), ("", ["", "cs", "surrogate"]),
  ("ULTMO", ["l", "letter"]), ("ULT", ["lc", "casedletter"]),
  ("NCE", ["m", "mark", "combiningmark"]), ("DRF", ["n", "number"]),
  ("JHBQGVP", ["p", "punct", "punctuation"]), ("XYKS", ["s", "symbol"]),
  ("slp", ["z", "separator"]), ("cfon", ["c", "other"])]

def scripts : List String :=
  ["adlam 2OLC-23 5-9 5-1 caucasianalbanian 1FLC-1F C ahom 1J40-Q 3-E 5-M arabic 16O-4 2-5 2-D",
   "2-2 2-V 2-9 C-P 2-2Z 2-X 29-1B 6P-U 2-1 7-21 2-S 1BV5-36 H-A2 3-27 3-1H 8 X-F 35-4 2-3Q 31G-U",
   "3J-2 181T-3 2-Q 2-1 2 3 2-9 2-3 2 2 7 5 2 2 2-2 2-1 2 3 2 2 2 2 2-1 2 3-3 2-6 2-3 2-3 2 2-9",
   "2-G 6-2 2-4 2-G 1H-1 imperialaramaic 1G74-L 2-8 armenian 10X-11 3-1D 3-2 1CHW-4 avestan",
   "1GQO-1H 4-6 balinese 5C0-24 4-1A bamum WWW-2F 124P-FS bassavah 1ZO0-T 3-5 batak 5HC-1F 9-3",
   "bengali 1VK-3 2-7 3-1 3-L 2-6 2 4-3 3-8 3-1 3-3 9 5-1 2-4 3-O bhaiksuki 1K3K-8 2-18 2-D B-S",
   "bopomofo KQ-1 93U-16 35-V brahmi 1HQ8-25 5-Z A braille 7WG-73 buginese 54W-R 3-1 buhid 4LC-J",
   "chakma 1HXC-1G 2-H canadianaboriginal 3Y8-HR FL-1X 1EWR-F carian 1F34-1C cham XKW-1I A-D 3-9",
   "3-3 cherokee 3VK-2D 3-5 TWZ-27 chorasmian 1HO0-R coptic RM-D 80H-37 6-6 cyprominoan 1NYO-2Q",
   "cypriot 1G5C-5 3 2-17 2-1 4 3 cyrillic SG-3O 3-4O 4LT-8 4J 25 38O-V NR5-2N HAN-1 18N5-1P Y",
   "devanagari 1S0-28 5-E 3-P VHD-V MIP-9 divesakuru 1JI8-6 3 3-7 2-1 2-T 2-1 3-B A-9 dogra",
   "1JB4-1N deseret 1FCW-27 duployan 2FPC-2Y 6-C 4-8 8-9 3-3 egyptianhieroglyphs 1O1S-UT elbasan",
   "1FK0-13 elymaic 1HPC-M ethiopic 3K0-20 2-3 3-6 2 2-3 3-14 2-3 3-W 2-3 3-6 2 2-3 3-E 2-1K 2-3",
   "3-1U 3-V 4-P 547-M A-6 2-6 2-6 2-6 2-6 2-6 2-6 2-6 OPV-5 3-5 3-5 A-6 2-6 1QK2-6 2-3 2-1 2-E",
   "georgian 3A8-11 2 6 3-16 2-3 2A9-16 3-2 37L-11 2 6 glagolitic 8OW-2N 2E1T-6 2-G 3-6 2-1 2-4",
   "gunjalagondi 1KDC-5 2-1 2-10 2-1 2-5 8-9 masaramgondi 1KAO-6 2-1 2-17 4 2-1 2-8 9-9 gothic",
   "1F74-Q grantha 1IBK-3 2-7 3-1 3-L 2-6 2-1 2-4 3-8 3-1 3-2 3 7 6-6 3-6 4-4 greek OG-3 2-2 3-3",
   "2 5 2 2-2 2 2-J 2-1Q F-F 4YV-4 1F-4 5-4 2D 8X-L 3-5 3-11 3-5 3-7 2 2 2 2-U 3-1G 2-E 2-D 3-5",
   "2-I 3-2 2-8 88 RB3 GYJ-26 I 155S-1X gujarati 22P-2 2-8 2-2 2-L 2-6 2-1 2-4 3-9 2-2 2-2 3 G-3",
   "3-B 8-6 gurmukhi 1Z5-2 2-5 5-1 3-L 2-6 2-1 2-1 2-1 3 2-4 5-1 3-2 4 8-3 2 8-G hangul 3CW-73",
   "5YN-1 76-2L 36-U 1U-U NHE-S HW-8MB D-M 5-1C 7TX-U 4-5 3-5 3-5 3-2 han 96O-P 2-2G D-5X 1C 2",
   "Q-8 F-3 QT-533 1T-G73 HKX-A5 3-2X N49-1 D-1 SGF-WYN X-37D 7-65 3-4G1 F-5RK 2E8-F1 15V-3T6",
   "6-38F hanunoo 4KG-K hatran 1GBK-I 2-1 6-4 hebrew 13L-1I 9-Q 5-5 1CFD-P 2-4 2 2-1 2-1 2-9",
   "hiragana 9J5-2D 7-2 23QA-7Y J U-2 CRY anatolianhieroglyphs 1S00-G6 pahawhhmong 1ZPC-1X B-9",
   "2-6 2-K 6-I nyiakengpuachuehmong 2N0G-18 4-D 3-9 5-1 oldhungarian 1H1C-1E E-1E 8-5 olditalic",
   "1F5S-Z A-2 javanese XHC-25 3-9 5-1 kayahli XDS-19 2 katakana 9LT-2H 3-2 6P-F 5T-1A 2-2F",
   "14B3-9 2-18 YTV-3 2-6 2-1 2 80-2 1F F-3 kawi 1KOW-G 2-14 4-R kharoshthi 1GJK-3 2-1 6-7 2-2",
   "2-S 3-2 5-9 8-8 khmer 4N4-2L 3-9 7-9 DJ-V khojki 1I4G-H 2-1A khitansmallscript 20O4 5CS-D1",
   "kannada 2GW-C 2-2 2-M 2-9 2-4 3-8 2-2 2-3 8-1 7-1 2-3 3-9 2-2 kaithi 1HTS-1U B taitham 55S-1Q",
   "2-S 3-A 7-9 7-D lao 2V5-1 2 2-4 2-N 2 2-M 3-4 2 2-6 2-9 3-3 latin 1T-P 7-P 1C G 6-M 2-U 2-CG",
   "14-4 55O-11 7-1C 6-3 6-C 2-1X 1U-73 AA E H-C 3Y-1 7 S I-14 254-V O83-2T 4-1R 6-1 2 2-4 P-D",
   "MP-16 2-8 2-3 FPZ-6 T7-P 7-P 1LY-5 2-15 2-8 16IU-U 7-5 lepcha 5J4-1J 4-E 4-2 limbu 4XS-U 2-B",
   "5-B 5 4-B lineara 1FR4-8M A-L B-7 linearb 1EKG-B 2-P 2-I 2-1 2-E 3-D Z-3E lisu WK0-1B O8H",
   "lycian 1F28-S lydian 1GDC-P 6 mahajani 1HZK-12 makasar 1KO0-O mandaic 1MO-R 3 manichaean",
   "1GOW-12 5-B marchen 1K6O-V 3-L 2-D medefaidrin 20CG-2I mendekikakui 2OE8-5G 3-F",
   "meroiticcursive 1GGW-N 5-J 3-19 meroitichieroglyphs 1GG0-V malayalam 2KG-C 2-2 2-1E 2-2 2-5",
   "5-F 3-P modi 1IWW-1W C-9 mongolian 4QO-1 3 2-J 7-2G 8-16 1E46-C mro 1ZK0-U 2-9 5-1",
   "meeteimayek XR4-M 5M-19 3-9 multani 1I80-6 2 2-3 2-E 2-A myanmar 35S-4F U9T-U 2Q-V nagmundari",
   "2NRK-15 nandinagari 1JMO-7 3-19 3-A oldnortharabian 1GN4-V nabataean 1G8W-U 9-8 newa 1IIO-2J",
   "2-4 nko 1J4-1M 3-2 nushu 20O1 CY7-AZ ogham 4G0-S olchiki 5LC-1B oldturkic 1GXS-20 oriya 269-2",
   "2-7 3-1 3-L 2-6 2-1 2-4 3-8 3-1 3-2 8-2 5-1 2-4 3-H osage 1FHS-Z 5-Z osmanya 1FGG-T 3-9",
   "olduyghur 1HM8-P palmyrene 1G80-V paucinhau 1JUO-1K oldpermic 1F80-16 phagspa X8G-1J",
   "inscriptionalpahlavi 1GTC-I 6-7 psalterpahlavi 1GU8-H 8-3 D-6 phoenician 1GCG-R 4 miao",
   "20HS-22 5-1K 8-G inscriptionalparthian 1GSG-L 3-7 rejang XF4-Z C hanifirohingya 1H4W-13 9-9",
   "runic 4GW-22 4-A samaritan 1KW-19 3-E oldsoutharabian 1GM8-V saurashtra XA8-1X 9-B",
   "signwriting 2L8G-I3 G-4 2-E shavian 1FF4-1B sharada 1I0W-2N siddham 1ITC-1H 3-11 khudawadi",
   "1I9C-1M 6-9 sinhala 2O1-2 2-H 4-N 2-8 2 3-6 4 5-5 2 2-7 7-9 3-2 1FCD-J sogdian 1HKG-15",
   "oldsogdian 1HJ4-13 sorasompeng 1HW0-O 8-9 soyombo 1JRK-2A sundanese 5FK-1R 75-7 sylotinagri",
   "X6O-18 syriac 1DS-D 2-1N 3-2 7L-A tagbanwa 4M8-C 2-2 2-1 takri 1J0G-1L 7-9 taile 500-T 3-4",
   "newtailue 51C-17 5-P 7-A 4-1 tamil 29U-1 2-5 4-2 2-3 4-1 2 2-1 4-1 4-2 4-B 5-4 4-2 2-3 3 7",
   "F-K 1IH2-1D E tangut 20O0 W-4QF 9-LB E9-8 taiviet XOG-1U P-4 telugu 2DC-C 2-2 2-M 2-F 3-8 2-2",
   "2-3 8-1 2-2 3 3-3 3-9 8-8 tifinagh 8XC-1J 8-1 F tagalog 4JK-L A thaana 1HC-1D thai 2RL-1L 6-R",
   "tibetan 2YO-1Z 2-Z 5-12 2-Z 2-E 2-6 5-1 tirhuta 1IM8-1Z 9-9 tangsa 1ZLC-26 2-9 toto 2NBK-U",
   "ugaritic 1F9C-T 2 vai WLC-8B vithkuqi 1FN4-A 2-E 2-6 2-1 2-A 2-E 2-6 2-1 warangciti 1JFK-2A D",
   "wancho 2NCW-1L 6 oldpersian 1FA8-Z 5-D cuneiform 1KW0-PL 2V-32 2-4 C-5F yezidi 1HFK-15 2-2",
   "3-1 yi VLS-WC 4-1I zanabazarsquare 1JPC-1Z inherited LC-33 7Q-1 CL-A R KH-3 3FG-U EA-2 2-C",
   "2-6 5 7 4-1 5J-1R EL-1 5F-W 30A-3 30-1 14KM-F H-D R4 6B 38B 1139-19 3-M F5-2 I-7 3-6 V-3",
   "H45V-6N common 0-1S R-5 R-1A 2-E 2-4 O W CI-12 6-4 3-J 39 A 7 2 HQ 7 F 4 X 4D ED 3M-1 YI BA-3",
   "83 168-2 20-1 5O-1 2 Y6 E 8-3 2-5 2-2 3 LI-B 3-2E 2-A 4-A 2-E I-W 1S-11 2-2 3-5 2-Q 2-G 16-2",
   "5-IE Q-A M-PR 75-HF 3-V 2-2W E9-2L B7-B 5-4 2 2-O G-7 5-3 2K-1 4 2J-1 44-F X-Z 1P-1R W-28 1C",
   "2H-4N 535-1R HKX-X 2V-2 4M-9 6T 4H B0 F-1 G5V-1 5T-9 N-Y 2-I 2-3 44 2-V R-5 R-A B 1A-1 1T-6",
   "2-6 B-4 77-2 5-18 4-8 29-C 1G-18 6D-Q 10O5-3 3OT-37 1P-6T B-12 3-1P 4-G 9-1 8-T 5-1O 5Y-J D-J",
   "D-2E A-O 3S-2C 2-1Y 2-1 3 3-1 3-3 2-B 2 2-6 2-1S 2-3 3-7 2-6 2-R 2-3 2-4 2 4-6 2-9F 3-83 3-1D",
   "41E-1V 25-1O JN-17 5-2R D-E 3-E 2-E 2-10 B-4T 1L-P 2-1 E-17 5-8 8-1 F-5 4B-RB 5-G 4-C 4-3A",
   "5-2M 7-B 5 G-B 5-1J 9-9 7-13 9-T 3-1 27-9F D-D 3-C 4-8 8-19 2-6 9-D 5-8 8-8 8-42 2-1I 12-9",
   "GVM0 V-2N"]

def plainName (s : String) : String :=
  lower (String.ofList (s.toList.filter fun c => c != ' ' && c != '_' && c != '-'))

def scriptRanges? (name : List Char) : Option (List (Nat × Nat)) :=
  match (rows scripts).dropWhile (· != name) with
  | [] => none
  | _ :: rest => some (rangesAfter 0 (rest.takeWhile fun row => !row.all Char.isLower))

def classRanges? (name : String) : Option (List (Nat × Nat)) :=
  let name := plainName name
  if name = "any" then some [(0, 0x10FFFF)]
  else if name = "ascii" then some [(0, 0x7F)]
  else match categoryNames.find? (·.2.contains name) with
    | some (marks, _) => some (categoryRuns.toList.filterMap fun (lo, hi, mark) =>
        if marks.toList.contains mark then some (lo, hi) else none)
    | none => if name.toList.all Char.isLower then scriptRanges? name.toList else none

end Tenure.Text
