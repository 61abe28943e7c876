import StacCatalog.Text.Digit
import StacCatalog.Text.Word

/-!
# Names: a letter or underscore, then letters, digits, marks and underscores of all scripts
-/

namespace StacCatalog.Text

/-- Characters that a name may have after its first, beside letters and digits. -/
def marks : Ranges :=
  Ranges.ofRuns 0 [183,1,584,112,23,1,251,5,265,45,1,1,1,2,1,2,1,1,72,11,48,21,16,1,101,7,2,6,2,2,1,
    4,35,1,30,27,91,11,58,9,9,1,24,4,1,9,1,3,1,5,43,3,60,8,42,24,1,33,54,3,1,18,1,7,10,2,29,3,56,1,
    1,7,2,2,2,3,9,1,10,2,26,1,2,3,56,1,1,5,4,2,2,3,3,1,30,2,3,1,11,3,56,1,1,8,1,3,1,3,20,2,22,6,1,3,
    56,1,1,7,2,2,2,3,7,3,10,2,30,1,59,5,3,3,1,4,9,1,40,5,55,1,1,7,1,3,1,4,7,2,11,2,29,3,56,1,1,7,1,
    3,1,4,7,2,11,2,28,4,55,2,1,7,1,3,1,4,9,1,10,2,29,3,70,1,4,6,1,1,1,8,18,2,61,1,2,7,12,8,98,1,2,9,
    11,6,74,2,27,1,1,1,1,1,4,2,49,20,1,2,5,11,1,36,9,1,100,20,23,4,4,3,1,3,2,7,3,4,13,12,1,1,10,4,
    703,3,946,4,28,3,29,2,30,2,64,32,9,1,45,3,1,1,117,2,34,1,118,12,4,12,219,5,57,10,1,29,2,1,48,14,
    1,16,49,5,47,17,38,9,12,3,30,13,56,14,48,20,152,3,1,21,4,1,6,1,2,3,198,64,575,2,19,1,123,13,4,1,
    3,12,39,1,21,1,3008,3,141,1,96,32,554,6,105,2,30164,1,4,10,32,2,80,2,272,1,3,1,4,1,23,5,4,1,83,
    2,50,18,26,18,13,1,38,8,25,13,44,4,47,14,36,1,67,14,12,1,8,2,45,3,50,1,1,3,2,2,5,2,1,1,41,5,5,2,
    236,8,1,2,20272,1,737,16,16,16,3,2,24,3,239,1,701,1,226,1,149,5,1670,3,1,2,5,4,40,3,4,1,165,2,
    573,4,387,2,153,11,49,4,122,3,53,15,41,1,2,2,10,4,45,11,7,1,61,3,36,14,16,2,44,1,12,3,48,14,8,4,
    1,2,92,12,6,1,160,12,21,4,55,2,1,7,2,2,2,3,9,1,10,2,2,7,3,5,192,18,23,1,81,20,235,7,2,9,27,2,82,
    17,106,13,101,15,256,15,245,6,1,2,2,4,1,1,1,2,141,7,2,7,3,1,28,10,40,7,1,4,8,1,9,11,46,16,405,8,
    1,8,82,22,1,14,122,6,3,1,1,2,1,7,1,1,66,5,1,2,1,5,347,4,19449,5,59,7,1048,1,1,55,7,4,81,1,11,2,
    19627,2,4705,46,2,23,542,5,3,6,8,8,2,7,30,4,148,3,1979,55,4,50,8,1,14,1,22,5,1,15,1360,7,1,17,2,
    7,1,2,1,5,261,7,375,1,61,4,1504,7,109,7,792501,240]

/-- Letters and digits that no name may have. -/
def unnamed : Ranges :=
  Ranges.ofRuns 0 [178,2,5,1,2,3,699,1,1657,6,376,6,120,3,133,7,217,7,17,9,433,10,1086,11,1139,10,
    2166,1,3,6,6,10,198,16,41,1,726,60,78,22,630,30,1385,1,305,1,866,4,138,10,30,8,1,15,32,10,39,15,
    30064,6,21544,6,406,2,116,1,1,1,1,1,1,1,1,1,1,1,1,1,1,1,648,45,65,4,17,2,341,27,36,4,1332,8,25,
    7,39,9,75,5,22,6,160,2,2,16,2,46,64,9,52,2,30,3,75,5,104,8,24,8,41,7,330,6,352,31,158,10,42,4,
    112,7,134,20,379,20,1349,2,430,9,871,19,851,21,19334,7,798,23,25673,20,108,25,5454,9,929,59,1,3,
    1,4,76,45,1,15,962,13]

/-- Letters that a name may have, but not at its start. -/
def unstarted : Ranges :=
  [(0xe33, 0xe33), (0xeb3, 0xeb3), (0x1369, 0x1371), (0x19da, 0x19da), (0xff9e, 0xff9f)]

/-- Whether a name may have a character after its first. -/
def isNamePart (c : Char) : Bool :=
  (isWord c && !unnamed.has c) || marks.has c

/-- Whether a name may start with a character. -/
def isNameStart (c : Char) : Bool :=
  (isWord c && !unnamed.has c && !unstarted.has c && (digitValue? c).isNone) ||
    [0x1885, 0x1886, 0x2118, 0x212e].contains c.toNat

/-- Whether a text is a name. -/
def isIdentifier : List Char → Bool
  | [] => false
  | c :: rest => isNameStart c && rest.all isNamePart

end StacCatalog.Text
