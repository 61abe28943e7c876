import StacCatalog.Text.Pattern.Match
import StacCatalog.Text.Pattern.Read

/-!
# Replacing what a pattern matches
-/

namespace StacCatalog.Text.Pattern

/-- A piece of a replacement. -/
inductive Piece where
  | text (cs : List Char)
  | group (n : Nat)
  deriving DecidableEq, Repr

/-- The group of a reference by name or by number. -/
def namedGroup (p : Compiled) (name : List Char) : Outcome Nat :=
  if isIdentifier name then
    match p.names.lookup (String.ofList name) with
    | some n => .ok n
    | none => .error (.outOfRange ("unknown group name " ++ Text.quoted (String.ofList name)))
  else
    match readInt? (String.ofList name) with
    | some (.ofNat n) => .ok n
    | _ => .error .badPattern

/-- A reference to a group that must be there. -/
def groupPiece (p : Compiled) (n : Nat) : Outcome Piece :=
  if n < p.groups then .ok (.group n) else .error .badPattern

/-- An escape in a replacement. -/
def pieceEscape (p : Compiled) (c : Char) (rest : List Sign) : Outcome (Piece × List Sign) :=
  if c == 'g' then
    match rest with
    | .plain '<' :: rest => do
      let (name, rest) ← enclosedName '>' rest
      return (← groupPiece p (← namedGroup p name), rest)
    | _ => .error .badPattern
  else if c == '0' then
    let (more, rest) := spanOf isOctal 2 rest
    .ok (.text [Char.ofNat (valueIn 8 more)], rest)
  else if c.isDigit then
    let (second, afterSecond) := spanOf Char.isDigit 1 rest
    let (third, afterThird) := spanOf isOctal 1 afterSecond
    if isOctal c && second.any isOctal && !third.isEmpty then do
      return (.text [Char.ofNat (← octal (c :: second ++ third))], afterThird)
    else do
      return (← groupPiece p (valueIn 10 (c :: second)), afterSecond)
  else
    match control? c with
    | some n => .ok (.text [Char.ofNat n], rest)
    | none => if c.isAlpha then .error .badPattern else .ok (.text ['\\', c], rest)

/-- The pieces of a replacement. -/
def pieces (p : Compiled) : Nat → List Sign → Outcome (List Piece)
  | 0, _ => .ok []
  | _, [] => .ok []
  | _, .lone :: _ => .error .badPattern
  | fuel + 1, .plain c :: rest => do return .text [c] :: (← pieces p fuel rest)
  | fuel + 1, .escaped c :: rest => do
    let (piece, rest) ← pieceEscape p c rest
    return piece :: (← pieces p fuel rest)

/-- The text that takes the place of a match. -/
def expand (text : Array Char) (start : Nat) (st : State) (parts : List Piece) : List Char :=
  parts.flatMap fun
    | .text cs => cs
    | .group n =>
      let (first, last) := if n = 0 then (start, st.pos) else (st.groups.lookup n).getD (0, 0)
      slice text first last

/-- Replaces every match from a position on. After an empty match the next one must not be empty at
the same place. -/
def replaceFrom (p : Pattern) (text : Array Char) (parts : List Piece) :
    Nat → Nat → Option Nat → List Char
  | 0, pos, _ => slice text pos text.size
  | rounds + 1, pos, barred =>
    match search p text barred (text.size + 2) pos with
    | none => slice text pos text.size
    | some (start, st) =>
      slice text pos start ++ expand text start st parts ++
        replaceFrom p text parts rounds st.pos (if st.pos = start then some st.pos else none)

/-- Replaces every match of a pattern. -/
def replaceAll (pattern replacement text : List Char) : Outcome (List Char) := do
  let p ← parse pattern
  let parts ← pieces p (replacement.length + 1) (signs replacement)
  return replaceFrom p.pattern text.toArray parts (2 * text.length + 2) 0 none

end StacCatalog.Text.Pattern
