import StacCatalog.Text.Digit
import StacCatalog.Text.Fold
import StacCatalog.Text.Word

/-!
# Text.Pattern.Basic
-/

namespace StacCatalog.Text

/-- A category of characters. -/
inductive Category where
  | digit
  | blank
  | word
  deriving DecidableEq, Repr

/-- Whether a character is a letter, a digit or an underscore; `ascii` leaves out those beyond
ASCII. -/
def isWordIn (ascii : Bool) (c : Char) : Bool :=
  if ascii then c.isAlphanum || c == '_' else isWord c

/-- Whether a character is of a category; `ascii` leaves out those beyond ASCII. -/
def Category.has (k : Category) (ascii : Bool) (c : Char) : Bool :=
  match k with
  | .digit => if ascii then c.isDigit else (digitValue? c).isSome
  | .blank => if ascii then isPadding c && c.toNat < 128 else isBlank c
  | .word => isWordIn ascii c

/-- A member of a set of characters. -/
inductive SetItem where
  | span (first last : Nat)
  | category (negated ascii : Bool) (c : Category)
  deriving DecidableEq, Repr

/-- The places that match no character. -/
inductive Anchor where
  | textStart
  | textEnd
  /-- The start of the text, or after a line break. -/
  | lineStart
  /-- The end of the text, or before a line break. -/
  | lineEnd
  /-- The end of the text, or before a line break that ends it. -/
  | lastLineEnd
  /-- Between a word and what is none, or not so. -/
  | edge (negated ascii : Bool)
  deriving DecidableEq, Repr

/-- In which order repetitions are tried. -/
inductive Greed where
  | greedy
  | lazy
  /-- As many as there are, and no fewer afterwards. -/
  | possessive
  deriving DecidableEq, Repr

/-- A pattern. -/
inductive Pattern where
  | literal (fold : Fold) (code : Nat)
  /-- Any character; `breaks` says whether also a line break. -/
  | any (breaks : Bool)
  | set (fold : Fold) (negated : Bool) (items : List SetItem)
  | anchor (a : Anchor)
  | seq (parts : List Pattern)
  | alt (parts : List Pattern)
  | group (n : Nat) (p : Pattern)
  /-- What a group matched. -/
  | reference (fold : Fold) (n : Nat)
  /-- One pattern if a group took part, another if it did not. -/
  | condition (n : Nat) (yes no : Pattern)
  /-- The first way to match, and no other afterwards. -/
  | atomic (p : Pattern)
  /-- A look ahead, or behind by a number of characters. -/
  | look (behind : Option Nat) (negated : Bool) (p : Pattern)
  | repeated (least : Nat) (most : Option Nat) (greed : Greed) (p : Pattern)
  deriving Repr, Inhabited

namespace Pattern

/-- A repetition without an upper bound counts as so many. -/
def unboundedTimes : Nat := 4294967295

/-- A least width, cut off at the greatest there is. -/
def leastWidth (n : Nat) : Nat :=
  min n (unboundedTimes - 1)

/-- A greatest width, cut off where it counts as unbounded. -/
def mostWidth (n : Nat) : Nat :=
  min n unboundedTimes

mutual

/-- The least and the greatest number of characters that a pattern matches, given those of the
groups. -/
def width (groups : List (Nat × Nat × Nat)) : Pattern → Nat × Nat
  | .literal .. | .any _ | .set .. => (1, 1)
  | .anchor _ | .look .. => (0, 0)
  | .seq parts => seqWidth groups parts
  | .alt parts => altWidth groups parts
  | .group _ p | .atomic p => width groups p
  | .reference _ n => (groups.lookup n).getD (0, 0)
  | .condition _ yes no =>
    let (a, b) := width groups yes
    let (c, d) := width groups no
    (min a c, max b d)
  | .repeated least most _ p =>
    let (a, b) := width groups p
    (leastWidth (a * least), mostWidth (b * most.getD unboundedTimes))

/-- The widths of a sequence. -/
def seqWidth (groups : List (Nat × Nat × Nat)) : List Pattern → Nat × Nat
  | [] => (0, 0)
  | p :: rest =>
    let (a, b) := width groups p
    let (c, d) := seqWidth groups rest
    (leastWidth (a + c), mostWidth (b + d))

/-- The widths of alternatives. -/
def altWidth (groups : List (Nat × Nat × Nat)) : List Pattern → Nat × Nat
  | [] => (0, 0)
  | [p] => width groups p
  | p :: rest =>
    let (a, b) := width groups p
    let (c, d) := altWidth groups rest
    (min a c, max b d)

end

end Pattern

end StacCatalog.Text
