import StacCatalog.Text.Ranges

/-!
# Letter case for all scripts: lower case and title case of a text
-/

namespace StacCatalog.Text

/-- Runs of characters with a lower-case form of one character. -/
def lowerRuns : List Shift :=
  Shift.ofRuns 0 [(65,25,1,32),(101,22,1,32),(1,6,1,32),(33,46,2,1),(3,4,2,1),(2,14,2,1),(2,44,2,1),
    (1,0,1,-121),(0,4,2,1),(3,0,1,210),(0,2,2,1),(1,0,1,206),(0,0,1,1),(1,1,1,205),(0,0,1,1),
    (2,0,1,79),(0,0,1,202),(0,0,1,203),(0,0,1,1),(1,0,1,205),(0,0,1,207),(1,0,1,211),(0,0,1,209),
    (0,0,1,1),(3,0,1,211),(0,0,1,213),(1,0,1,214),(0,4,2,1),(1,0,1,218),(0,0,1,1),(1,0,1,218),
    (2,0,1,1),(1,0,1,218),(0,0,1,1),(1,1,1,217),(0,2,2,1),(1,0,1,219),(0,0,1,1),(3,0,1,1),(7,0,1,2),
    (0,0,1,1),(1,0,1,2),(0,0,1,1),(1,0,1,2),(0,16,2,1),(2,16,2,1),(2,0,1,2),(0,2,2,1),(1,0,1,-97),
    (0,0,1,-56),(0,38,2,1),(1,0,1,-130),(1,16,2,1),(7,0,1,10795),(0,0,1,1),(1,0,1,-163),
    (0,0,1,10792),(2,0,1,1),(1,0,1,-195),(0,0,1,69),(0,0,1,71),(0,8,2,1),(289,2,2,1),(3,0,1,1),
    (8,0,1,116),(6,0,1,38),(1,2,1,37),(1,0,1,64),(1,1,1,63),(1,16,1,32),(1,8,1,32),(35,0,1,8),
    (8,22,2,1),(5,0,1,-60),(2,0,1,1),(1,0,1,-7),(0,0,1,1),(2,2,1,-130),(0,15,1,80),(0,31,1,32),
    (48,32,2,1),(9,52,2,1),(1,0,1,15),(0,12,2,1),(2,94,2,1),(2,37,1,48),(2889,37,1,7264),
    (1,0,1,7264),(5,0,1,7264),(722,79,1,38864),(0,5,1,8),(2202,42,1,-3008),(2,2,1,-3008),
    (320,148,2,1),(9,0,1,-7615),(1,94,2,1),(9,7,1,-8),(8,5,1,-8),(10,7,1,-8),(8,7,1,-8),(8,5,1,-8),
    (11,6,2,-8),(8,7,1,-8),(24,7,1,-8),(8,7,1,-8),(8,7,1,-8),(8,1,1,-8),(0,1,1,-74),(0,0,1,-9),
    (11,3,1,-86),(0,0,1,-9),(11,1,1,-8),(0,1,1,-100),(12,1,1,-8),(0,1,1,-112),(0,0,1,-7),
    (11,1,1,-128),(0,1,1,-126),(0,0,1,-9),(297,0,1,-7517),(3,0,1,-8383),(0,0,1,-8262),(6,0,1,28),
    (45,15,1,16),(19,0,1,1),(818,25,1,26),(1840,47,1,48),(48,0,1,1),(1,0,1,-10743),(0,0,1,-3814),
    (0,0,1,-10727),(2,4,2,1),(1,0,1,-10780),(0,0,1,-10749),(0,0,1,-10783),(0,0,1,-10782),(1,0,1,1),
    (2,0,1,1),(8,1,1,-10815),(0,98,2,1),(8,2,2,1),(4,0,1,1),(31053,44,2,1),(19,26,2,1),(135,12,2,1),
    (3,60,2,1),(10,2,2,1),(1,0,1,-35332),(0,8,2,1),(4,0,1,1),(1,0,1,-42280),(2,2,2,1),(3,18,2,1),
    (1,0,1,-42308),(0,0,1,-42319),(0,0,1,-42315),(0,0,1,-42305),(0,0,1,-42308),(1,0,1,-42258),
    (0,0,1,-42282),(0,0,1,-42261),(0,0,1,928),(0,14,2,1),(1,0,1,-48),(0,0,1,-42307),(0,0,1,-35384),
    (0,2,2,1),(6,0,1,1),(5,2,2,1),(28,0,1,1),(22315,25,1,32),(1221,39,1,40),(136,35,1,40),
    (156,10,1,39),(1,14,1,39),(1,6,1,39),(1,1,1,39),(1770,50,1,64),(3053,31,1,32),(21888,31,1,32),
    (31392,33,1,34)]

/-- Runs of characters whose title-case form of one character is not the letter that they are the
lower case of. -/
def titleExceptions : List Shift :=
  Shift.ofRuns 0 [(181,0,1,743),(123,0,1,-232),(77,0,1,-300),(68,0,1,1),(1,0,1,-1),(0,0,1,1),
    (1,0,1,-1),(0,0,1,1),(1,0,1,-1),(36,0,1,1),(1,0,1,-1),(337,0,1,84),(124,0,1,-31),(13,0,1,-62),
    (0,0,1,-57),(3,0,1,-47),(0,0,1,-54),(25,0,1,-86),(0,0,1,-80),(3,0,1,-96),(3290,42,1,0),
    (2,2,1,0),(2944,0,1,-6254),(0,0,1,-6253),(0,0,1,-6244),(0,1,1,-6242),(0,0,1,-6243),
    (0,0,1,-6236),(0,0,1,-6181),(0,0,1,35266),(530,0,1,-59),(290,0,1,-7205)]

/-- Runs of characters with a title-case form of one character. -/
def titleRuns : List Shift :=
  titleExceptions ++ lowerRuns.map Shift.inverse

/-- Characters with a title-case form of several characters. -/
def titleExpansions : List (Nat × String) :=
  [(0xdf, "Ss"), (0x149, "\u02bcN"), (0x1f0, "J\u030c"), (0x390, "\u0399\u0308\u0301"),
   (0x3b0, "\u03a5\u0308\u0301"), (0x587, "\u0535\u0582"), (0x1e96, "H\u0331"), (0x1e97, "T\u0308"),
   (0x1e98, "W\u030a"), (0x1e99, "Y\u030a"), (0x1e9a, "A\u02be"), (0x1f50, "\u03a5\u0313"),
   (0x1f52, "\u03a5\u0313\u0300"), (0x1f54, "\u03a5\u0313\u0301"), (0x1f56, "\u03a5\u0313\u0342"),
   (0x1fb2, "\u1fba\u0345"), (0x1fb4, "\u0386\u0345"), (0x1fb6, "\u0391\u0342"),
   (0x1fb7, "\u0391\u0342\u0345"), (0x1fc2, "\u1fca\u0345"), (0x1fc4, "\u0389\u0345"),
   (0x1fc6, "\u0397\u0342"), (0x1fc7, "\u0397\u0342\u0345"), (0x1fd2, "\u0399\u0308\u0300"),
   (0x1fd3, "\u0399\u0308\u0301"), (0x1fd6, "\u0399\u0342"), (0x1fd7, "\u0399\u0308\u0342"),
   (0x1fe2, "\u03a5\u0308\u0300"), (0x1fe3, "\u03a5\u0308\u0301"), (0x1fe4, "\u03a1\u0313"),
   (0x1fe6, "\u03a5\u0342"), (0x1fe7, "\u03a5\u0308\u0342"), (0x1ff2, "\u1ffa\u0345"),
   (0x1ff4, "\u038f\u0345"), (0x1ff6, "\u03a9\u0342"), (0x1ff7, "\u03a9\u0342\u0345"),
     (0xfb00, "Ff"),
   (0xfb01, "Fi"), (0xfb02, "Fl"), (0xfb03, "Ffi"), (0xfb04, "Ffl"), (0xfb05, "St"), (0xfb06, "St"),
   (0xfb13, "\u0544\u0576"), (0xfb14, "\u0544\u0565"), (0xfb15, "\u0544\u056b"),
     (0xfb16, "\u054e\u0576"),
   (0xfb17, "\u0544\u056d")]

def cased : Ranges :=
  Ranges.ofRuns 0 [65,26,6,26,47,1,10,1,4,1,5,23,1,31,1,195,1,4,4,208,1,36,7,2,30,5,96,1,42,4,2,2,2,
    4,1,1,6,1,1,3,1,1,1,20,1,83,1,139,8,166,1,38,9,41,2839,38,1,1,5,1,2,43,2,3,672,86,2,6,2178,9,7,
    43,2,3,64,192,64,278,2,6,2,38,2,6,2,8,1,1,1,1,1,1,1,31,2,53,1,7,1,1,3,3,1,7,3,4,2,6,4,13,5,3,1,
    7,116,1,13,1,16,13,101,1,4,1,2,10,1,1,3,5,6,1,1,1,1,1,1,4,1,6,4,1,2,4,5,5,4,1,17,32,3,2,817,52,
    1814,229,6,4,3,2,12,38,1,1,5,1,30994,46,18,30,132,102,3,4,1,59,5,2,1,1,1,5,27,2,1,3,821,43,1,13,
    7,80,20288,7,12,5,1033,26,6,26,1189,80,96,36,4,36,116,11,1,15,1,7,1,2,1,11,1,15,1,7,1,2,451,1,2,
    3,1,42,1,9,1221,51,13,51,2989,64,21856,64,25984,85,1,71,1,2,2,1,2,2,2,4,1,12,1,1,1,7,1,65,1,4,2,
    8,1,7,1,28,1,4,1,5,1,1,3,7,1,340,2,25,1,25,1,31,1,25,1,31,1,25,1,31,1,25,1,31,1,25,1,8,1844,10,
    1,20,2529,68,2028,26,6,26,6,26]

/-- Characters that are skipped when looking for the letters around a sigma. -/
def caseless : Ranges :=
  Ranges.ofRuns 0 [39,1,6,1,11,1,35,1,1,1,71,1,4,1,1,1,4,1,2,2,503,192,4,2,4,1,9,2,1,1,251,7,207,1,
    5,1,49,45,1,1,1,2,1,2,1,1,44,1,11,6,10,11,1,1,35,1,10,21,16,1,101,8,1,10,1,4,33,1,1,1,30,27,91,
    11,58,11,4,1,2,1,24,24,43,3,44,1,7,2,6,8,41,58,55,1,1,1,4,8,4,1,3,7,10,2,13,1,15,1,58,1,4,4,8,1,
    20,2,26,1,2,2,57,1,4,2,4,2,2,3,3,1,30,2,3,1,11,2,57,1,4,5,1,2,4,1,20,2,22,6,1,1,58,1,2,1,1,4,8,
    1,7,2,11,2,30,1,61,1,12,1,50,1,3,1,55,1,1,3,5,3,1,4,7,2,11,2,29,1,58,1,2,1,6,1,5,2,20,2,28,2,57,
    2,4,4,8,1,20,2,29,1,72,1,7,3,1,1,90,1,2,7,11,9,98,1,2,9,9,1,1,6,74,2,27,1,1,1,1,1,55,14,1,5,1,2,
    5,11,1,36,9,1,102,4,1,6,1,2,2,2,25,2,4,3,16,4,13,1,2,2,6,1,15,1,94,1,608,3,946,3,29,2,30,2,30,2,
    64,2,1,7,8,1,2,11,3,1,5,1,45,5,51,1,65,2,34,1,118,3,4,2,9,1,6,3,219,2,2,1,58,1,1,7,1,1,1,1,2,8,
    6,10,2,1,39,1,8,31,49,4,48,1,1,5,1,1,5,1,40,9,12,2,32,4,2,2,1,3,56,1,1,2,3,1,1,3,58,8,2,2,64,6,
    82,3,1,13,1,7,4,1,6,1,3,2,50,63,13,1,34,101,445,1,1,3,11,3,13,3,13,3,13,2,12,5,8,2,10,1,2,1,2,5,
    49,5,1,10,1,1,13,1,16,13,51,33,2955,2,113,3,125,1,15,1,96,32,47,1,469,1,36,4,3,5,5,1,93,6,93,3,
    28438,1,1250,6,270,1,98,4,1,10,1,1,28,4,80,2,14,34,78,1,23,3,103,3,3,2,8,1,3,1,4,1,25,2,5,1,151,
    2,26,18,13,1,38,8,25,11,46,3,48,1,2,4,2,2,17,1,21,2,66,6,2,2,2,2,12,1,8,1,35,1,11,1,51,1,1,3,2,
    2,5,2,1,1,27,1,14,2,5,2,1,1,100,5,9,3,121,1,2,1,4,1,20272,1,147,17,573,16,3,1,12,16,34,1,2,1,
    169,1,7,1,6,1,11,1,35,1,1,1,47,1,45,2,67,1,21,3,513,1,226,1,149,5,1029,6,1,42,1,9,582,3,1,2,5,4,
    40,3,4,1,165,2,573,4,387,2,153,11,49,4,123,1,54,15,41,1,2,2,10,3,49,4,2,2,2,1,4,1,10,1,50,3,36,
    5,1,8,62,1,12,2,52,9,10,4,2,1,95,3,2,1,1,2,6,1,160,1,3,8,21,2,57,2,3,1,37,7,3,5,195,8,2,3,1,1,
    23,1,84,6,1,1,4,2,1,2,238,4,6,2,1,2,27,2,85,8,2,1,1,2,106,1,1,1,2,6,1,1,101,3,2,4,1,5,259,9,1,2,
    256,2,1,1,4,1,144,4,2,2,4,1,32,10,40,6,2,4,8,1,9,6,2,3,46,13,1,2,406,7,1,6,1,1,82,22,2,7,1,2,1,
    2,122,6,3,1,1,2,1,7,1,1,72,2,3,1,1,1,347,2,5435,9,14007,5,59,7,9,4,1035,1,63,17,64,2,1,2,16395,
    4,1,7,1,2,3230,2,1,4,4700,46,2,23,544,3,9,16,2,7,30,4,148,3,1979,55,4,50,8,1,14,1,22,5,1,15,
    1360,7,1,17,2,7,1,2,1,5,261,14,368,1,61,4,1504,7,109,8,2735,5,789505,1,30,96,128,240]

def isCased (c : Char) : Bool :=
  if c.toNat < 128 then c.isAlpha else cased.has c

/-- The nearest character of weight in a list has case. -/
def casedFirst (cs : List Char) : Bool :=
  match cs.dropWhile (fun c => caseless.has c) with
  | [] => false
  | c :: _ => isCased c

/-- The lower-case form of a character standing between the (reversed) text before it and the text
after it. -/
def lowerChar (before : List Char) (c : Char) (after : List Char) : List Char :=
  if c.toNat < 128 then [c.toLower]
  else if c.toNat == 0x130 then ['i', Char.ofNat 0x307]
  else if c.toNat == 0x3A3 then
    [Char.ofNat (if casedFirst before && !casedFirst after then 0x3C2 else 0x3C3)]
  else [shift lowerRuns c]

/-- Lower case, given the (reversed) text already read. -/
def lowerFrom (before : List Char) : List Char → List Char
  | [] => []
  | c :: rest => lowerChar before c rest ++ lowerFrom (c :: before) rest

def lower (s : String) : String :=
  String.ofList (lowerFrom [] s.toList)

def titleChar (c : Char) : List Char :=
  if c.toNat < 128 then [c.toUpper]
  else
    match titleExpansions.lookup c.toNat with
    | some t => t.toList
    | none => [shift titleRuns c]

/-- Title case, given the (reversed) text already read: a letter after a cased letter is lowered,
any other is raised. -/
def titleFrom (before : List Char) : List Char → List Char
  | [] => []
  | c :: rest =>
    let out := match before with
      | p :: _ => if isCased p then lowerChar before c rest else titleChar c
      | [] => titleChar c
    out ++ titleFrom (c :: before) rest

/-- A text with every word starting in title case. -/
def title (s : String) : String :=
  String.ofList (titleFrom [] s.toList)

end StacCatalog.Text
