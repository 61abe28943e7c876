import StacCatalog.Keyed
import StacCatalog.Text.Pattern.Basic

/-!
# Matching a pattern against a text
-/

namespace StacCatalog.Text.Pattern

/-- Whether a character is in a set. -/
def inSet (fold : Fold) (negated : Bool) (items : List SetItem) (c : Char) : Bool :=
  let alike := fold.alike c
  negated != items.any fun
    | .span first last => alike.any fun n => first ≤ n && n ≤ last
    | .category neg ascii k => neg != k.has ascii (fold.lower c)

/-- Whether an anchor holds at a position. -/
def holdsAt (text : Array Char) (pos : Nat) : Anchor → Bool
  | .textStart => pos == 0
  | .textEnd => pos == text.size
  | .lineStart => pos == 0 || text[pos - 1]? == some '\n'
  | .lineEnd => pos == text.size || text[pos]? == some '\n'
  | .lastLineEnd => pos == text.size || (pos + 1 == text.size && text[pos]? == some '\n')
  | .edge negated ascii =>
    let before := 0 < pos && (text[pos - 1]?).any (isWordIn ascii)
    let after := (text[pos]?).any (isWordIn ascii)
    text.size != 0 && negated != (before != after)

def slice (text : Array Char) (first last : Nat) : List Char :=
  (text.extract first last).toList

/-! ### The machine -/

/-- How far a match has come: the position, and where the groups that took part start and end. -/
structure State where
  pos : Nat
  groups : List (Nat × Nat × Nat)
  deriving DecidableEq, Repr

/-- Work that is left to do. -/
inductive Task where
  | node (p : Pattern)
  /-- Note the end of a group. -/
  | close (n start : Nat)
  /-- Go on repeating; `since` is where the last round started that was not due. -/
  | again (least : Nat) (most : Option Nat) (greed : Greed) (p : Pattern) (since : Option Nat)
  /-- Forget all choices but so many. -/
  | commit (choices : Nat)
  /-- Forget all choices but so many, and go back to a position. -/
  | goBack (choices pos : Nat)
  /-- Forget all choices but so many, and fail. -/
  | refute (choices : Nat)

/-- A choice to go back to. -/
structure Choice where
  tasks : List Task
  state : State

/-- What is to be done, how far the match has come, and the choices to go back to, the latest first.
-/
structure Machine where
  tasks : List Task
  state : State
  choices : List Choice

/-- The machine after a failure; `none` if there is no choice left. -/
def resume? : List Choice → Option Machine
  | [] => none
  | c :: rest => some ⟨c.tasks, c.state, rest⟩

/-- The earliest choices. -/
def earliest (n : Nat) (choices : List Choice) : List Choice :=
  choices.drop (choices.length - n)

/-- One round of a repetition, after which the repetition goes on. A round that must be kept forgets
its choices. -/
def roundTasks (least : Nat) (most : Option Nat) (greed : Greed) (p : Pattern) (since : Option Nat)
    (choices : Nat) (rest : List Task) : List Task :=
  let next := Task.again (least - 1) (most.map (· - 1)) greed p since
  if greed = .possessive then .node p :: .commit choices :: next :: rest
    else .node p :: next :: rest

/-- One step of the machine. -/
def step (text : Array Char) (task : Task) (rest : List Task) (st : State) (choices : List Choice) :
    Option Machine :=
  let go (tasks : List Task) : Option Machine := some ⟨tasks, st, choices⟩
  let take (length : Nat) (ok : Bool) : Option Machine :=
    if ok then some ⟨rest, { st with pos := st.pos + length }, choices⟩ else resume? choices
  let takeChar (ok : Char → Bool) : Option Machine := take 1 ((text[st.pos]?).any ok)
  match task with
  | .close n start =>
    some ⟨rest, { st with groups := Keyed.set st.groups n (start, st.pos) }, choices⟩
  | .commit n => some ⟨rest, st, earliest n choices⟩
  | .goBack n pos => some ⟨rest, { st with pos := pos }, earliest n choices⟩
  | .refute n => resume? (earliest n choices)
  | .again least most greed p since =>
    let round (since : Option Nat) := roundTasks least most greed p since choices.length rest
    if 0 < least then go (round since)
    else if most = some 0 || since = some st.pos then go rest
    else if greed = .lazy then some ⟨rest, st, ⟨round (some st.pos), st⟩ :: choices⟩
    else some ⟨round (some st.pos), st, ⟨rest, st⟩ :: choices⟩
  | .node p =>
    match p with
    | .literal fold code => takeChar fun c => (fold.alike c).contains code
    | .any breaks => takeChar fun c => breaks || c != '\n'
    | .set fold negated items => takeChar (inSet fold negated items)
    | .anchor a => take 0 (holdsAt text st.pos a)
    | .seq parts => go (parts.map .node ++ rest)
    | .alt parts => resume? (parts.map (fun part => ⟨.node part :: rest, st⟩) ++ choices)
    | .group n part => go (.node part :: .close n st.pos :: rest)
    | .reference fold n =>
      match st.groups.lookup n with
      | none => resume? choices
      | some (first, last) =>
        let wanted := (slice text first last).map fold.lower
        take wanted.length ((slice text st.pos (st.pos + wanted.length)).map fold.lower == wanted)
    | .condition n yes no => go (.node (if (st.groups.lookup n).isSome then yes else no) :: rest)
    | .atomic part => go (.node part :: .commit choices.length :: rest)
    | .look behind negated part =>
      let back := behind.getD 0
      let start := { st with pos := st.pos - back }
      if negated then
        if st.pos < back then go rest
        else some ⟨[.node part, .refute choices.length], start, ⟨rest, st⟩ :: choices⟩
      else if st.pos < back then resume? choices
      else some ⟨.node part :: .goBack choices.length st.pos :: rest, start, choices⟩
    | .repeated least most greed part => go (.again least most greed part none :: rest)

/-- Runs the machine for a number of steps. `barred` is a position at which the match must not end.
-/
def run (text : Array Char) (barred : Option Nat) : Nat → Machine → Option State
  | 0, _ => none
  | steps + 1, ⟨[], st, choices⟩ =>
    if barred = some st.pos then
      match resume? choices with
      | some m => run text barred steps m
      | none => none
    else some st
  | steps + 1, ⟨task :: rest, st, choices⟩ =>
    match step text task rest st choices with
    | some m => run text barred steps m
    | none => none

/-- The greatest number of steps of one attempt. -/
def maxSteps : Nat := 1000000000000

/-- The first match that starts at or after a position. A match that would be empty at `barred` does
not count. -/
def search (p : Pattern) (text : Array Char) (barred : Option Nat) :
    Nat → Nat → Option (Nat × State)
  | 0, _ => none
  | tries + 1, start =>
    if text.size < start then none
    else
      let bar := if barred = some start then barred else none
      match run text bar maxSteps ⟨[.node p], ⟨start, []⟩, []⟩ with
      | some st => some (start, st)
      | none => search p text barred tries (start + 1)

end StacCatalog.Text.Pattern
