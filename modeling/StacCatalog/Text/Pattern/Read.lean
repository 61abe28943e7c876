import StacCatalog.Fault
import StacCatalog.Text.Identifier
import StacCatalog.Text.Pattern.Basic

/-!
# Reading search patterns from their text
-/

namespace StacCatalog.Text.Pattern

/-! ### Signs -/

/-- A sign of a pattern. -/
inductive Sign where
  | plain (c : Char)
  | escaped (c : Char)
  /-- A backslash at the end. -/
  | lone
  deriving DecidableEq, Repr

def signs : List Char → List Sign
  | [] => []
  | '\\' :: c :: rest => .escaped c :: signs rest
  | ['\\'] => [.lone]
  | c :: rest => .plain c :: signs rest

def Sign.chars : Sign → List Char
  | .plain c => [c]
  | .escaped c => ['\\', c]
  | .lone => ['\\']

/-- At most `n` plain characters of a class, and the rest. -/
def spanOf (p : Char → Bool) : Nat → List Sign → List Char × List Sign
  | n + 1, .plain c :: rest =>
    if p c then
      let (cs, rest) := spanOf p n rest
      (c :: cs, rest)
    else ([], .plain c :: rest)
  | _, rest => ([], rest)

/-- The characters up to a closing one, of which there is at least one. -/
def upToClose (close : Char) : List Sign → Outcome (List Char × List Sign)
  | [] | .lone :: _ => .error .badPattern
  | sign :: rest => do
    if sign = .plain close then return ([], rest)
    else
      let (cs, rest) ← upToClose close rest
      return (sign.chars ++ cs, rest)

/-- A name or number up to a closing character. -/
def enclosedName (close : Char) (rest : List Sign) : Outcome (List Char × List Sign) := do
  let (name, rest) ← upToClose close rest
  if name.isEmpty then .error .badPattern else return (name, rest)

/-- The signs after a comment, which a plain character ends. -/
def afterComment (close : Char) : List Sign → Option (List Sign)
  | [] => none
  | sign :: rest => if sign = .plain close then some rest else afterComment close rest

/-! ### Escapes -/

def isOctal (c : Char) : Bool :=
  '0' ≤ c && c ≤ '7'

def isHex (c : Char) : Bool :=
  c.isDigit || ('a' ≤ c && c ≤ 'f') || ('A' ≤ c && c ≤ 'F')

/-- The value of digits in a base. -/
def valueIn (base : Nat) (cs : List Char) : Nat :=
  cs.foldl (fun n c => n * base + digit c) 0
where
  /-- The value of a digit up to `f`. -/
  digit (c : Char) : Nat :=
    if c.isDigit then c.toNat - 48 else if 'a' ≤ c then c.toNat - 87 else c.toNat - 55

/-- The control character of an escape letter. -/
def control? : Char → Option Nat
  | 'a' => some 7
  | 'b' => some 8
  | 'f' => some 12
  | 'n' => some 10
  | 'r' => some 13
  | 't' => some 9
  | 'v' => some 11
  | '\\' => some 92
  | _ => none

def category? (ascii : Bool) : Char → Option SetItem
  | 'd' => some (.category false ascii .digit)
  | 'D' => some (.category true ascii .digit)
  | 's' => some (.category false ascii .blank)
  | 'S' => some (.category true ascii .blank)
  | 'w' => some (.category false ascii .word)
  | 'W' => some (.category true ascii .word)
  | _ => none

def anchor? (ascii : Bool) : Char → Option Anchor
  | 'A' => some .textStart
  | 'Z' => some .textEnd
  | 'b' => some (.edge false ascii)
  | 'B' => some (.edge true ascii)
  | _ => none

/-- The number of hexadecimal digits after an escape letter. -/
def hexLength? : Char → Option Nat
  | 'x' => some 2
  | 'u' => some 4
  | 'U' => some 8
  | _ => none

/-- Exactly `n` hexadecimal digits, as a code point. -/
def codePoint (n : Nat) (rest : List Sign) : Outcome (Nat × List Sign) :=
  let (digits, rest) := spanOf isHex n rest
  let value := valueIn 16 digits
  if digits.length = n && value < 0x110000 then .ok (value, rest) else .error .badPattern

def octal (digits : List Char) : Outcome Nat :=
  let value := valueIn 8 digits
  if value ≤ 255 then .ok value else .error .badPattern

/-- An escape inside a set. -/
def setEscape (ascii : Bool) (c : Char) (rest : List Sign) : Outcome (SetItem × List Sign) :=
  match control? c, category? ascii c, hexLength? c with
  | some n, _, _ => .ok (.span n n, rest)
  | _, some item, _ => .ok (item, rest)
  | _, _, some length => do
    let (n, rest) ← codePoint length rest
    return (.span n n, rest)
  | none, none, none =>
    if isOctal c then do
      let (more, rest) := spanOf isOctal 2 rest
      let n ← octal (c :: more)
      return (.span n n, rest)
    else if c.isDigit || c.isAlpha then .error .badPattern
    else .ok (.span c.toNat c.toNat, rest)

/-- One end of a member of a set. -/
def setMember (ascii : Bool) : List Sign → Outcome (SetItem × List Sign)
  | .plain c :: rest => .ok (.span c.toNat c.toNat, rest)
  | .escaped c :: rest => setEscape ascii c rest
  | _ => .error .badPattern

/-- The members of a set up to its closing bracket, which is a member at the start. -/
def setItems (ascii : Bool) : Nat → List SetItem → List Sign → Outcome (List SetItem × List Sign)
  | 0, _, _ => .error .badPattern
  | fuel + 1, done, all =>
    match all, done with
    | .plain ']' :: rest, _ :: _ => .ok (done.reverse, rest)
    | all, done => do
      let (first, rest) ← setMember ascii all
      match rest with
      | .plain '-' :: .plain ']' :: rest => return ((.span 45 45 :: first :: done).reverse, rest)
      | .plain '-' :: rest =>
        let (last, rest) ← setMember ascii rest
        match first, last with
        | .span lo _, .span hi _ =>
          if hi < lo then .error .badPattern else setItems ascii fuel (.span lo hi :: done) rest
        | _, _ => .error .badPattern
      | rest => setItems ascii fuel (first :: done) rest

/-! ### Flags -/

/-- How a part of a pattern is read. -/
structure Flags where
  ignoreCase : Bool
  multiline : Bool
  /-- Whether a point also matches a line break. -/
  dotAll : Bool
  /-- Whether blanks and comments may stand between the signs. -/
  verbose : Bool
  ascii : Bool
  deriving DecidableEq, Repr

/-- The flags at the start. -/
def Flags.plain : Flags := ⟨false, false, false, false, false⟩

/-- How letter case is treated. -/
def Flags.fold (flags : Flags) : Fold :=
  if flags.ignoreCase then (if flags.ascii then .ascii else .all) else .exact

/-- A letter that changes how a part is read. -/
inductive Switch where
  | ignoreCase
  | multiline
  | dotAll
  | verbose
  | ascii
  | unicode
  deriving DecidableEq, Repr

def Switch.ofLetter? : Char → Option Switch
  | 'i' => some .ignoreCase
  | 'm' => some .multiline
  | 's' => some .dotAll
  | 'x' => some .verbose
  | 'a' => some .ascii
  | 'u' => some .unicode
  | _ => none

/-- Turns a switch on or off. -/
def Flags.turn (flags : Flags) (on : Bool) : Switch → Flags
  | .ignoreCase => { flags with ignoreCase := on }
  | .multiline => { flags with multiline := on }
  | .dotAll => { flags with dotAll := on }
  | .verbose => { flags with verbose := on }
  | .ascii => { flags with ascii := on }
  | .unicode => { flags with ascii := !on }

/-- Switches, and the character after them. -/
def switches : List Sign → Outcome (List Switch × Char × List Sign)
  | .plain c :: rest =>
    match Switch.ofLetter? c with
    | some s => do
      let (more, stop, rest) ← switches rest
      return (s :: more, stop, rest)
    | none => .ok ([], c, rest)
  | _ => .error .badPattern

/-- The flags of a part that begins with switches: those to turn on, and after a minus those to turn
off. The alphabet can be chosen and not given up, and switches for the whole pattern come too late.
-/
def partFlags (flags : Flags) (all : List Sign) : Outcome (Flags × List Sign) := do
  let (on, stop, rest) ← switches all
  let (off, last, rest) ← if stop = '-' then switches rest else pure ([], stop, rest)
  if last ≠ ':' || (stop = '-' && off.isEmpty) || (on.contains .ascii && on.contains .unicode) ||
      off.contains .ascii || off.contains .unicode || off.any on.contains then .error .badPattern
  else return (off.foldl (Flags.turn · false) (on.foldl (Flags.turn · true) flags), rest)

/-! ### Groups -/

/-- What has been read so far. -/
structure Scan where
  /-- The number of the next group. -/
  groups : Nat
  /-- The least and the greatest width of the groups that are closed. -/
  closed : List (Nat × Nat × Nat)
  names : List (String × Nat)
  /-- The groups that conditions ask for by number. -/
  asked : List Nat
  /-- Inside a look behind, the first group that it may not refer to. -/
  behind : Option Nat
  /-- Whether a look behind has more than one width. -/
  loose : Bool

namespace Scan

def start : Scan := ⟨1, [], [], [], none, false⟩

def isClosed (scan : Scan) (n : Nat) : Bool :=
  (scan.closed.lookup n).isSome

/-- Whether a look behind, if there is one around, may refer to a group. -/
def inReach (scan : Scan) (n : Nat) : Bool :=
  match scan.behind with
  | some first => scan.isClosed n && n < first
  | none => true

/-- Opens a group, whose name must be new. -/
def openGroup (scan : Scan) (name : Option (List Char)) : Outcome (Nat × Scan) :=
  let n := scan.groups
  match name.map String.ofList with
  | none => .ok (n, { scan with groups := n + 1 })
  | some name =>
    if (scan.names.lookup name).isSome then .error .badPattern
    else .ok (n, { scan with groups := n + 1, names := (name, n) :: scan.names })

/-- Closes a group. -/
def closeGroup (scan : Scan) (n : Nat) (p : Pattern) : Scan :=
  { scan with closed := (n, p.width scan.closed) :: scan.closed }

end Scan

/-- A reference to a group, which must be closed. -/
def referenceTo (flags : Flags) (scan : Scan) (n : Nat) : Outcome Pattern :=
  if scan.isClosed n && scan.inReach n then .ok (.reference flags.fold n) else .error .badPattern

/-- The group that a condition asks for, by name or by number. -/
def askedGroup (scan : Scan) (name : List Char) : Outcome (Nat × Scan) := do
  let (n, scan) ← if isIdentifier name then
      match scan.names.lookup (String.ofList name) with
      | some n => pure (n, scan)
      | none => .error .badPattern
    else
      match readInt? (String.ofList name) with
      | some (.ofNat (n + 1)) => pure (n + 1, { scan with asked := (n + 1) :: scan.asked })
      | _ => .error .badPattern
  if scan.inReach n then return (n, scan) else .error .badPattern

/-- An escape outside of sets. -/
def escape (flags : Flags) (scan : Scan) (c : Char) (rest : List Sign) :
    Outcome (Pattern × List Sign) :=
  let literal (n : Nat) : Pattern := .literal flags.fold n
  match category? flags.ascii c, anchor? flags.ascii c, control? c, hexLength? c with
  | some item, _, _, _ => .ok (.set flags.fold false [item], rest)
  | _, some a, _, _ => .ok (.anchor a, rest)
  | _, _, some n, _ => .ok (literal n, rest)
  | _, _, _, some length => do
    let (n, rest) ← codePoint length rest
    return (literal n, rest)
  | none, none, none, none =>
    if c == '0' then
      let (more, rest) := spanOf isOctal 2 rest
      .ok (literal (valueIn 8 more), rest)
    else if c.isDigit then
      let (second, afterSecond) := spanOf Char.isDigit 1 rest
      let (third, afterThird) := spanOf isOctal 1 afterSecond
      if isOctal c && second.any isOctal && !third.isEmpty then do
        return (literal (← octal (c :: second ++ third)), afterThird)
      else do
        return (← referenceTo flags scan (valueIn 10 (c :: second)), afterSecond)
    else if c.isAlpha then .error .badPattern
    else .ok (literal c.toNat, rest)

/-- The number of repetitions that a repetition sign asks for. -/
structure Times where
  least : Nat
  most : Option Nat

/-- The number that digits say, if it is not too large. -/
def timesOf (digits : List Char) : Outcome Nat :=
  let n := valueIn 10 digits
  if maxDigits < digits.length then
    .error (.invalid "Exceeds the limit for integer string conversion")
  else if unboundedTimes ≤ n then .error (.overflow "the repetition number is too large")
  else .ok n

/-- A counted repetition after its opening brace; `none` if the brace is a plain character. -/
def counted (all : List Sign) : Outcome (Option (Times × List Sign)) :=
  match all with
  | .plain '\x7d' :: _ => .ok none
  | all =>
    let (low, rest) := spanOf Char.isDigit all.length all
    let (high, rest) := match rest with
      | .plain ',' :: rest => spanOf Char.isDigit rest.length rest
      | rest => (low, rest)
    match rest with
    | [.plain '\x7d', .lone] => .error .badPattern
    | .plain '\x7d' :: rest => do
      let least ← timesOf low
      let most ← timesOf high
      if high.isEmpty then return some (⟨least, none⟩, rest)
      else if most < least then .error .badPattern
      else return some (⟨least, some most⟩, rest)
    | _ => .ok none

/-- The previous pattern repeated. An anchor or another repetition cannot be. -/
def repeatLast (times : Times) (done : List Pattern) (rest : List Sign) :
    Outcome (List Pattern × List Sign) :=
  let (greed, rest) := match rest with
    | .plain '?' :: rest => (Greed.lazy, rest)
    | .plain '+' :: rest => (Greed.possessive, rest)
    | rest => (Greed.greedy, rest)
  match done with
  | [] | .anchor _ :: _ | .repeated .. :: _ => .error .badPattern
  | p :: done => .ok (.repeated times.least times.most greed p :: done, rest)

/-! ### Patterns -/

/-- What comes after an opening parenthesis. -/
inductive Opening where
  | comment
  | capture (name : Option (List Char))
  /-- A part that is read with flags of its own. -/
  | part (flags : Flags)
  | atomic
  | look (behind negated : Bool)
  | reference (name : List Char)
  | condition (name : List Char)

/-- What an opening parenthesis opens. -/
def opening (flags : Flags) : List Sign → Outcome (Opening × List Sign)
  | .plain '?' :: .plain ':' :: rest => .ok (.part flags, rest)
  | .plain '?' :: .plain '>' :: rest => .ok (.atomic, rest)
  | .plain '?' :: .plain '=' :: rest => .ok (.look false false, rest)
  | .plain '?' :: .plain '!' :: rest => .ok (.look false true, rest)
  | .plain '?' :: .plain '<' :: .plain '=' :: rest => .ok (.look true false, rest)
  | .plain '?' :: .plain '<' :: .plain '!' :: rest => .ok (.look true true, rest)
  | .plain '?' :: .plain '#' :: rest => .ok (.comment, rest)
  | .plain '?' :: .plain 'P' :: .plain '<' :: rest => do
    let (name, rest) ← enclosedName '>' rest
    if isIdentifier name then return (.capture (some name), rest) else .error .badPattern
  | .plain '?' :: .plain 'P' :: .plain '=' :: rest => do
    let (name, rest) ← enclosedName ')' rest
    return (.reference name, rest)
  | .plain '?' :: .plain '(' :: rest => do
    let (name, rest) ← enclosedName ')' rest
    return (.condition name, rest)
  | .plain '?' :: rest => do
    let (flags, rest) ← partFlags flags rest
    return (.part flags, rest)
  | rest => .ok (.capture none, rest)

/-- One of some patterns. -/
def oneOf : List Pattern → Pattern
  | [p] => p
  | parts => .alt parts

/-- The signs after a closing parenthesis. -/
def afterClose : List Sign → Outcome (List Sign)
  | .plain ')' :: rest => .ok rest
  | _ => .error .badPattern

mutual

/-- Alternatives, up to the end of the text or a closing parenthesis. -/
def alternatives : Nat → Flags → Scan → List Sign → Outcome (List Pattern × Scan × List Sign)
  | 0, _, _, _ => .error .badPattern
  | fuel + 1, flags, scan, all => do
    let (p, scan, rest) ← sequence fuel flags scan [] all
    match rest with
    | .plain '|' :: rest =>
      let (more, scan, rest) ← alternatives fuel flags scan rest
      return (p :: more, scan, rest)
    | rest => return ([p], scan, rest)

/-- A sequence, up to the end of the text, a bar or a closing parenthesis. -/
def sequence : Nat → Flags → Scan → List Pattern → List Sign → Outcome (Pattern × Scan × List Sign)
  | 0, _, _, _, _ => .error .badPattern
  | fuel + 1, flags, scan, done, all =>
    match all with
    | [] | .plain '|' :: _ | .plain ')' :: _ => .ok (.seq done.reverse, scan, all)
    | .lone :: _ => .error .badPattern
    | .escaped c :: rest => do
      let (p, rest) ← escape flags scan c rest
      sequence fuel flags scan (p :: done) rest
    | .plain c :: rest =>
      let repeatedBy (times : Times) (rest : List Sign) := do
        let (done, rest) ← repeatLast times done rest
        sequence fuel flags scan done rest
      let followedBy (p : Pattern) := sequence fuel flags scan (p :: done) rest
      if flags.verbose && c.toNat < 128 && isPadding c then sequence fuel flags scan done rest
      else if flags.verbose && c == '#' then sequence fuel flags scan done
        ((afterComment '\n' rest).getD [])
      else
        match c with
        | '[' => do
          let (negated, rest) := match rest with
            | .plain '^' :: rest => (true, rest)
            | rest => (false, rest)
          let (items, rest) ← setItems flags.ascii (rest.length + 1) [] rest
          sequence fuel flags scan (.set flags.fold negated items :: done) rest
        | '*' => repeatedBy ⟨0, none⟩ rest
        | '+' => repeatedBy ⟨1, none⟩ rest
        | '?' => repeatedBy ⟨0, some 1⟩ rest
        | '\x7b' => do
          match ← counted rest with
          | some (times, rest) => repeatedBy times rest
          | none => followedBy (.literal flags.fold c.toNat)
        | '.' => followedBy (.any flags.dotAll)
        | '^' => followedBy (.anchor (if flags.multiline then .lineStart else .textStart))
        | '$' => followedBy (.anchor (if flags.multiline then .lineEnd else .lastLineEnd))
        | '(' => do
          let (opened, rest) ← opening flags rest
          let (p?, scan, rest) ← enclosed fuel flags scan opened rest
          sequence fuel flags scan (p?.toList ++ done) rest
        | c => followedBy (.literal flags.fold c.toNat)

/-- What an opening parenthesis opens, the closing one taken off; `none` for a comment. -/
def enclosed : Nat → Flags → Scan → Opening → List Sign →
    Outcome (Option Pattern × Scan × List Sign)
  | 0, _, _, _, _ => .error .badPattern
  | fuel + 1, flags, scan, opened, all =>
    match opened with
    | .comment =>
      match afterComment ')' all with
      | some rest => .ok (none, scan, rest)
      | none => .error .badPattern
    | .reference name => do
      match scan.names.lookup (String.ofList name) with
      | some n => return (some (← referenceTo flags scan n), scan, all)
      | none => .error .badPattern
    | .capture name => do
      let (n, scan) ← scan.openGroup name
      let (parts, scan, rest) ← alternatives fuel flags scan all
      let rest ← afterClose rest
      return (some (.group n (oneOf parts)), scan.closeGroup n (oneOf parts), rest)
    | .part inner => do
      let (parts, scan, rest) ← alternatives fuel inner scan all
      let rest ← afterClose rest
      return (some (.seq [oneOf parts]), scan, rest)
    | .atomic => do
      let (parts, scan, rest) ← alternatives fuel flags scan all
      let rest ← afterClose rest
      return (some (.atomic (oneOf parts)), scan, rest)
    | .look false negated => do
      let (parts, scan, rest) ← alternatives fuel flags scan all
      let rest ← afterClose rest
      return (some (.look none negated (oneOf parts)), scan, rest)
    | .look true negated => do
      let outside := scan.behind
      let (parts, scan, rest) ← alternatives fuel flags
        { scan with behind := some (outside.getD scan.groups) } all
      let rest ← afterClose rest
      let (least, most) := (oneOf parts).width scan.closed
      let scan := { scan with behind := outside, loose := scan.loose || least != most }
      return (some (.look (some least) negated (oneOf parts)), scan, rest)
    | .condition name => do
      let (n, scan) ← askedGroup scan name
      let (yes, scan, rest) ← sequence fuel flags scan [] all
      match rest with
      | .plain '|' :: rest =>
        let (no, scan, rest) ← sequence fuel flags scan [] rest
        let rest ← afterClose rest
        return (some (.condition n yes no), scan, rest)
      | rest =>
        let rest ← afterClose rest
        return (some (.condition n yes (.seq [])), scan, rest)

end

/-- A pattern that was read, with the number of its groups, the whole match included, and their
names. -/
structure Compiled where
  pattern : Pattern
  groups : Nat
  names : List (String × Nat)

/-- Reads a pattern. -/
def parse (s : List Char) : Outcome Compiled := do
  let (parts, scan, rest) ← alternatives (4 * s.length + 4) .plain .start (signs s)
  if !rest.isEmpty || scan.loose || scan.asked.any (scan.groups ≤ ·) then .error .badPattern
  else return ⟨oneOf parts, scan.groups, scan.names⟩

end StacCatalog.Text.Pattern
