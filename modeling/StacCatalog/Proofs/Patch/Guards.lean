import StacCatalog.Patch.Script
import StacCatalog.Proofs.Json.Paths
import StacCatalog.Proofs.Patch.Accessors

/-!
# The checks of a script, read back from their text
-/

namespace StacCatalog.Patch

open List
open Option (bind_some map_some)

/-- What a guard asks of a document. -/
inductive Condition where
  /-- The object at a place has a key. -/
  | holdsKey (place : List String) (key : String)
  /-- There is an array at a place. -/
  | isArray (place : List String)
  /-- What is at a place has fewer entries than a number. -/
  | smaller (place : List String) (bound : Nat)
  | not (c : Condition)
  | and (first second : Condition)
  | or (first second : Condition)
  deriving DecidableEq, Repr

/-- What a script finds at a place. A member that is not there is `null`, and only objects have
members. -/
def valueAt : Json → List String → Option Json
  | value, [] => some value
  | .obj fields, key :: rest => valueAt (Fields.getD fields key) rest
  | _, _ :: _ => none

namespace Condition

/-- Whether a condition holds; `none` if its evaluation breaks off. -/
def eval (document : Json) : Condition → Option Bool
  | .holdsKey place key =>
    (valueAt document place).bind fun
      | .obj fields => some (Fields.has fields key)
      | _ => none
  | .isArray place =>
    (valueAt document place).map fun
      | .arr _ => true
      | _ => false
  | .smaller place bound =>
    (valueAt document place).bind fun
      | .arr items => some (decide (items.length < bound))
      | .obj fields => some (decide (fields.length < bound))
      | _ => none
  | .not c => (c.eval document).map (!·)
  | .and first second =>
    (first.eval document).bind fun holds => if holds then second.eval document else some false
  | .or first second =>
    (first.eval document).bind fun holds => if holds then some true else second.eval document

end Condition

/-! ### Reading conditions -/

/-- Reads one call or comparison, and hands over the text behind it. -/
def atom (cs : List Char) : Option (Condition × List Char) :=
  (cs.dropPrefix? "ctx._source".toList).bind fun rest =>
    let names := (accessors rest).1
    let behind := (accessors rest).2
    let place := names.dropLast.map String.ofList
    if let some rest := behind.dropPrefix? " instanceof ArrayList".toList then
      some (.isArray (names.map String.ofList), rest)
    else if names.getLast? = some "size".toList then
      (behind.dropPrefix? "() < ".toList).map fun rest =>
        (.smaller place (Nat.ofDigitChars 10 (rest.takeWhile Char.isDigit) 0),
          rest.dropWhile Char.isDigit)
    else if names.getLast? = some "containsKey".toList then
      (behind.dropPrefix? "('".toList).bind fun rest =>
        ((rest.dropWhile (· != '\'')).dropPrefix? "')".toList).map fun behind =>
          (.holdsKey place (String.ofList (rest.takeWhile (· != '\''))), behind)
    else none

mutual

/-- Reads conditions of which one must hold. The number bounds the depth of the reading. -/
def either : Nat → List Char → Option (Condition × List Char)
  | 0, _ => none
  | depth + 1, cs =>
    (both depth cs).bind fun (first, rest) =>
      match rest.dropPrefix? " || ".toList with
      | some more => (either depth more).map fun (second, rest) => (.or first second, rest)
      | none => some (first, rest)

/-- Reads conditions which must all hold. -/
def both : Nat → List Char → Option (Condition × List Char)
  | 0, _ => none
  | depth + 1, cs =>
    (single depth cs).bind fun (first, rest) =>
      match rest.dropPrefix? " && ".toList with
      | some more => (both depth more).map fun (second, rest) => (.and first second, rest)
      | none => some (first, rest)

/-- Reads a condition that is negated, in parentheses, or an atom. -/
def single : Nat → List Char → Option (Condition × List Char)
  | 0, _ => none
  | depth + 1, '!' :: cs => (single depth cs).map fun (c, rest) => (.not c, rest)
  | depth + 1, '(' :: cs =>
    (either depth cs).bind fun (c, rest) => (rest.dropPrefix? ")".toList).map fun rest => (c, rest)
  | _ + 1, cs => atom cs

end

section Rules

variable {depth : Nat} {cs more rest : List Char} {c first second : Condition}

theorem either_one (h : both depth cs = some (c, rest))
    (hrest : rest.dropPrefix? " || ".toList = none) : either (depth + 1) cs = some (c, rest) := by
  rw [either, h, bind_some]
  dsimp only
  rw [hrest]

theorem either_two (h : both depth cs = some (first, " || ".toList ++ more))
    (hmore : either depth more = some (second, rest)) :
    either (depth + 1) cs = some (.or first second, rest) := by
  rw [either, h, bind_some]
  dsimp only
  rw [dropPrefix?_append]
  dsimp only
  rw [hmore, map_some]

theorem both_one (h : single depth cs = some (c, rest))
    (hrest : rest.dropPrefix? " && ".toList = none) : both (depth + 1) cs = some (c, rest) := by
  rw [both, h, bind_some]
  dsimp only
  rw [hrest]

theorem both_two (h : single depth cs = some (first, " && ".toList ++ more))
    (hmore : both depth more = some (second, rest)) :
    both (depth + 1) cs = some (.and first second, rest) := by
  rw [both, h, bind_some]
  dsimp only
  rw [dropPrefix?_append]
  dsimp only
  rw [hmore, map_some]

theorem single_not (h : single depth cs = some (c, rest)) :
    single (depth + 1) ('!' :: cs) = some (.not c, rest) := by
  rw [single, h, map_some]

theorem single_parens (h : either depth cs = some (c, ')' :: rest)) :
    single (depth + 1) ('(' :: cs) = some (c, rest) := by
  rw [single, h, bind_some]
  simp [dropPrefix?]

theorem single_source (depth : Nat) (cs : List Char) :
    single (depth + 1) ("ctx._source".toList ++ cs) = atom ("ctx._source".toList ++ cs) := by
  have hchars : "ctx._source".toList ++ cs = 'c' :: ("tx._source".toList ++ cs) := rfl
  rw [hchars, single] <;> exact fun _ h => absurd (cons.inj h).1 (by decide)

end Rules

section Atoms

variable {place : List Char} {names : List String} (hplace : accessors place =
    (names.map String.toList, []))

include hplace

theorem accessors_place {rest : List Char} (hrest : ∀ c ∈ rest.head?, isNameChar c = false) :
    accessors (place ++ rest) =
      (names.map String.toList ++ (accessors rest).1, (accessors rest).2) := by
  have hall : (accessors place).2 = [] := by rw [hplace]
  rw [accessors_append hall hrest, hplace]

theorem accessors_call {name : List Char} (hname : name.all isNameChar = true) (hne : name ≠ [])
    (tail : List Char) :
    accessors (place ++ '.' :: (name ++ '(' :: tail)) =
      (names.map String.toList ++ [name], '(' :: tail) := by
  rw [accessors_place hplace (by rintro _ ⟨⟩; decide),
    accessors_point hne (all_eq_true.mp hname) (by rintro _ ⟨⟩; decide), accessors_of_head
      (by rintro _ ⟨⟩; decide)]

theorem atom_isArray (rest : List Char) :
    atom ("ctx._source".toList ++ (place ++ (" instanceof ArrayList".toList ++ rest))) =
      some (.isArray names, rest) := by
  have hblank : ∀ c ∈ (" instanceof ArrayList".toList ++ rest).head?,
      isNameChar c = false ∧ c ≠ '.' ∧ c ≠ '[' := by
    intro c hc
    cases hc
    decide
  have hread : accessors (place ++ (" instanceof ArrayList".toList ++ rest)) =
      (names.map String.toList, " instanceof ArrayList".toList ++ rest) := by
    rw [accessors_place hplace fun c hc => (hblank c hc).1, accessors_of_head fun c hc =>
      (hblank c hc).2, append_nil]
  unfold atom
  rw [dropPrefix?_append, bind_some, hread]
  dsimp only
  rw [dropPrefix?_append, map_map]
  simp

theorem atom_smaller (bound : Nat) (rest : List Char) :
    atom ("ctx._source".toList ++
          (place ++ (".size() < ".toList ++ (Nat.toDigits 10 bound ++ ')' :: rest)))) =
      some (.smaller names bound, ')' :: rest) := by
  have hdigits : ∀ c ∈ Nat.toDigits 10 bound, c.isDigit = true := fun c hc =>
    Nat.isDigit_of_mem_toDigits (by decide) (by decide) hc
  obtain ⟨htake, hdrop⟩ := takeWhile_append_stop hdigits
      (show ∀ c ∈ (')' :: rest).head?, c.isDigit = false by
    intro c hc
    cases hc
    rfl)
  generalize htail : Nat.toDigits 10 bound ++ ')' :: rest = tail
  have hcall : ".size() < ".toList ++ tail = '.' :: ("size".toList ++ ("() < ".toList ++ tail)) :=
      rfl
  have hread : accessors (place ++ '.' :: ("size".toList ++ ("() < ".toList ++ tail))) =
      (names.map String.toList ++ ["size".toList], "() < ".toList ++ tail) :=
    accessors_call hplace (by decide) (by decide) _
  have hnone : ("() < ".toList ++ tail).dropPrefix? " instanceof ArrayList".toList = none := rfl
  unfold atom
  rw [hcall, dropPrefix?_append, Option.bind_some, hread]
  dsimp only
  rw [hnone]
  dsimp only
  rw [getLast?_concat, if_pos rfl, dropPrefix?_append, Option.map_some, ← htail, htake,
    hdrop, dropLast_concat, Nat.ofDigitChars_ten_toDigits, map_map]
  simp

theorem atom_holdsKey {key : String} (hkey : '\'' ∉ key.toList) (rest : List Char) :
    atom ("ctx._source".toList ++
          (place ++ (".containsKey('".toList ++ (key.toList ++ ("')".toList ++ rest))))) =
      some (.holdsKey names key, rest) := by
  obtain ⟨htake, hdrop⟩ :=
      takeWhile_append_char hkey (show ∀ c ∈ ("')".toList ++ rest).head?, c = '\'' by
    intro c hc
    cases hc
    rfl)
  generalize htail : key.toList ++ ("')".toList ++ rest) = tail
  have hcall : ".containsKey('".toList ++ tail = '.' ::
      ("containsKey".toList ++ ("('".toList ++ tail)) := rfl
  have hread : accessors (place ++ '.' :: ("containsKey".toList ++ ("('".toList ++ tail))) =
      (names.map String.toList ++ ["containsKey".toList], "('".toList ++ tail) :=
    accessors_call hplace (by decide) (by decide) _
  have hnone : ("('".toList ++ tail).dropPrefix? " instanceof ArrayList".toList = none := rfl
  unfold atom
  rw [hcall, dropPrefix?_append, bind_some, hread]
  dsimp only
  rw [hnone]
  dsimp only
  rw [getLast?_concat, if_neg (by decide), if_pos rfl, dropPrefix?_append,
    bind_some, ← htail, htake, hdrop, dropPrefix?_append, map_some, dropLast_concat,
    String.ofList_toList, map_map]
  simp

end Atoms

/-- A condition, and the message with which a script stops if it holds. -/
structure Guard where
  condition : Condition
  message : String
  deriving DecidableEq, Repr

namespace Guard

def read? (text : String) : Option Guard :=
  (text.toList.dropPrefix? "if (".toList).bind fun cs =>
    (either cs.length cs).bind fun (condition, rest) =>
      (rest.dropPrefix? ")\x7bDebug.explain('".toList).bind fun rest =>
        if rest.dropWhile (· != '\'') = "');\x7d".toList then
          some { condition, message := String.ofList (rest.takeWhile (· != '\'')) }
        else none

def Stops (guard : Guard) (document : Json) : Prop :=
  guard.condition.eval document = some true

theorem read?_eq_some {text message : String} {cs : List Char} {condition : Condition}
    (hmessage : '\'' ∉ message.toList)
    (htext : text.toList = "if (".toList ++ (cs ++ ')' :: (Command.explain message).toList))
    (h :
      ∀ depth behind, either (depth + 12) (cs ++ ')' :: behind) = some (condition, ')' :: behind)) :
    read? text = some { condition, message } := by
  have hpieces (a b c : String) : (a ++ b ++ c).toList = a.toList ++ (b.toList ++ c.toList) := by
    simp
  have hexplain : (Command.explain message).toList =
      "\x7bDebug.explain('".toList ++ (message.toList ++ "');\x7d".toList) := hpieces _ _ _
  have hopen : ∀ behind : List Char,
      ')' :: ("\x7bDebug.explain('".toList ++ behind) = ")\x7bDebug.explain('".toList ++ behind :=
        fun _ => rfl
  obtain ⟨htake, hdrop⟩ := takeWhile_append_char hmessage
      (show ∀ c ∈ "');\x7d".toList.head?, c = '\'' by
    intro c hc
    cases hc
    rfl)
  unfold read?
  rw [htext, dropPrefix?_append, Option.bind_some, hexplain]
  -- The text is longer than the reading is deep.
  obtain ⟨depth, hdepth⟩ :
      ∃ depth, (cs ++ ')' ::
      ("\x7bDebug.explain('".toList ++ (message.toList ++ "');\x7d".toList))).length =
      depth + 12 := by
    have hlength : "\x7bDebug.explain('".toList.length = 16 := rfl
    refine ⟨cs.length + message.toList.length + "');\x7d".toList.length + 5, ?_⟩
    rw [length_append, length_cons, length_append, length_append, hlength]
    omega
  rw [hdepth, h, Option.bind_some]
  dsimp only
  rw [hopen, dropPrefix?_append, Option.bind_some, htake, hdrop, if_pos rfl, String.ofList_toList]

end Guard

end StacCatalog.Patch
