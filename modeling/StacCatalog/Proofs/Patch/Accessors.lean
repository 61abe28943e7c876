import Mathlib.Data.List.Infix
import StacCatalog.Patch.Path
import StacCatalog.Proofs.Text.Spans

/-!
# Places in a script, and the names they are reached by
-/

namespace StacCatalog.Patch

open List

variable {rest : List Char}

/-- The characters that divide the parts of a script: points, slashes, quotes, brackets and blanks.
-/
def isMark (c : Char) : Bool :=
  "./'\"[]()\x7b\x7d".toList.contains c || Text.isBlank c

def isNameChar (c : Char) : Bool :=
  !isMark c && c != ':'

/-- A key that has characters, and none that divides the parts of a script. -/
structure Undivided (key : List Char) : Prop where
  ne_nil : key ≠ []
  no_mark : ∀ c ∈ key, isMark c = false

instance (key : List Char) : Decidable (Undivided key) :=
  decidable_of_iff ((!key.isEmpty && key.all (!isMark ·)) = true) (by
    rw [Bool.and_eq_true, Bool.not_eq_true', isEmpty_eq_false_iff, all_eq_true]
    simp only [Bool.not_eq_true']
    exact ⟨fun h => ⟨h.1, h.2⟩, fun h => ⟨h.ne_nil, h.no_mark⟩⟩)

/-- The names of the accessors at the beginning of a text, and the text behind them. -/
def accessors (cs : List Char) : List (List Char) × List Char :=
  match cs with
  | '.' :: rest =>
    if rest.takeWhile isNameChar = [] then ([], cs)
    else
      let (names, behind) := accessors (rest.dropWhile isNameChar)
      (rest.takeWhile isNameChar :: names, behind)
  | '[' :: '\'' :: rest =>
    if (rest.dropWhile (· != '\'')).take 2 = ['\'', ']'] then
      let (names, behind) := accessors ((rest.dropWhile (· != '\'')).drop 2)
      (rest.takeWhile (· != '\'') :: names, behind)
    else ([], cs)
  | _ => ([], cs)
termination_by cs.length
decreasing_by
  · have hle := (dropWhile_sublist isNameChar (l := rest)).length_le
    simp only [length_cons]
    omega
  · have hle := (dropWhile_sublist (· != '\'') (l := rest)).length_le
    simp only [length_cons, length_drop]
    omega

/-- The names by which a text reaches a member of the document, if it is a place and nothing else.
-/
def placeOf? (text : String) : Option (List String) :=
  match (text.toList.dropPrefix? "ctx._source".toList).map accessors with
  | some (names, []) => some (names.map String.ofList)
  | _ => none

/-- The accessor of a key: a key with a colon stands in quotes. -/
def accessor (key : List Char) : List Char :=
  if ':' ∈ key then indexed key else '.' :: key

/-- A path in which the keys of a list have been put in brackets, one after the other. -/
def bracketed (keys : List (List Char)) (path : List Char) : List Char :=
  keys.foldl (fun path key => replaceKey key 0 path) path

/-! ### Reading -/

theorem accessors_point {name : List Char} (hne : name ≠ [])
    (hname : ∀ c ∈ name, isNameChar c = true) (hrest : ∀ c ∈ rest.head?, isNameChar c = false) :
    accessors ('.' :: (name ++ rest)) = (name :: (accessors rest).1, (accessors rest).2) := by
  obtain ⟨htake, hdrop⟩ := takeWhile_append_stop hname hrest
  rw [accessors, htake, hdrop, if_neg hne]

theorem accessors_indexed {name : List Char} (hname : '\'' ∉ name) (rest : List Char) :
    accessors (indexed name ++ rest) = (name :: (accessors rest).1, (accessors rest).2) := by
  have hshape : indexed name ++ rest = '[' :: '\'' :: (name ++ '\'' :: ']' :: rest) := by
    simp [indexed]
  have hquote : ∀ c ∈ ('\'' :: ']' :: rest).head?, c = '\'' := by simp
  obtain ⟨htake, hdrop⟩ := takeWhile_append_char hname hquote
  rw [hshape, accessors, htake, hdrop]
  rfl

theorem accessors_of_head (h : ∀ c ∈ rest.head?, c ≠ '.' ∧ c ≠ '[') :
    accessors rest = ([], rest) := by
  unfold accessors
  split
  · exact absurd rfl (h '.' rfl).1
  · exact absurd rfl (h '[' rfl).2
  · rfl

@[simp] theorem accessors_nil : accessors [] = ([], []) :=
  accessors_of_head (by simp)

/-- Behind a point the first name has no colon. -/
theorem isNameChar_of_accessors_point {cs name : List Char}
    (h : name ∈ (accessors ('.' :: cs)).1.head?) : ∀ c ∈ name, isNameChar c = true := by
  rw [accessors] at h
  split at h
  · cases h
  · cases h
    exact fun c hc => mem_takeWhile_imp hc

theorem eq_indexed_append (hclosed : (rest.dropWhile (· != '\'')).take 2 = ['\'', ']']) :
    '[' :: '\'' :: rest =
      indexed (rest.takeWhile (· != '\'')) ++ (rest.dropWhile (· != '\'')).drop 2 := by
  conv_lhs => rw [← takeWhile_append_dropWhile (p := (· != '\'')) (l := rest),
    ← take_append_drop 2 (rest.dropWhile (· != '\'')), hclosed]
  simp [indexed]

theorem accessors_append {cs : List Char} (hall : (accessors cs).2 = [])
    (hrest : ∀ c ∈ rest.head?, isNameChar c = false) :
    accessors (cs ++ rest) = ((accessors cs).1 ++ (accessors rest).1, (accessors rest).2) := by
  fun_induction accessors cs with
  | case1 name hnone => cases hall
  | case2 name hsome names behind hread ih =>
    rw [hread] at ih
    have hhead : ∀ c ∈ (name.dropWhile isNameChar ++ rest).head?, isNameChar c = false := by
      intro c hc
      cases hdrop : name.dropWhile isNameChar with
      | nil =>
        rw [hdrop] at hc
        exact hrest c hc
      | cons d more =>
        rw [hdrop] at hc
        cases hc
        have hfirst := head?_dropWhile_not isNameChar name
        rw [hdrop] at hfirst
        simpa using hfirst
    have hname := takeWhile_append_dropWhile (p := isNameChar) (l := name)
    conv_lhs => rw [← hname, cons_append, append_assoc]
    rw [accessors_point hsome (fun c hc => mem_takeWhile_imp hc) hhead, ih hall]
    rfl
  | case3 name hclosed names behind hread ih =>
    rw [hread] at ih
    rw [eq_indexed_append hclosed, append_assoc, accessors_indexed (notMem_takeWhile _ _), ih hall]
    rfl
  | case4 name hopen => cases hall
  | case5 cs hpoint hindex =>
    dsimp only at hall
    subst hall
    rfl

namespace Undivided

variable {key : List Char}

theorem notMem (h : Undivided key) {c : Char} (hc : isMark c = true) : c ∉ key := by
  intro hmem
  rw [h.no_mark c hmem] at hc
  cases hc

theorem isNameChar (h : Undivided key) (hcolon : ':' ∉ key) : ∀ c ∈ key, isNameChar c = true := by
  intro c hc
  rw [Patch.isNameChar, h.no_mark c hc, Bool.not_false, Bool.true_and, bne_iff_ne]
  rintro rfl
  exact hcolon hc

theorem accessors_accessor (h : Undivided key)
    (hrest : ∀ c ∈ rest.head?, Patch.isNameChar c = false) :
    accessors (accessor key ++ rest) = (key :: (accessors rest).1, (accessors rest).2) := by
  unfold accessor
  split
  · exact accessors_indexed (h.notMem (by decide)) rest
  · rename_i hcolon
    exact accessors_point h.ne_nil (h.isNameChar hcolon) hrest

end Undivided

theorem isMark_head_flatMap_accessor (keys : List (List Char)) :
    ∀ c ∈ (keys.flatMap accessor).head?, isMark c = true := by
  intro c hc
  cases keys with
  | nil => cases hc
  | cons key keys =>
    rw [flatMap_cons, accessor] at hc
    split at hc
    all_goals
      cases hc
      decide

theorem accessors_flatMap {keys : List (List Char)} (hkeys : ∀ key ∈ keys, Undivided key) :
    accessors (keys.flatMap accessor) = (keys, []) := by
  induction keys with
  | nil => exact accessors_nil
  | cons key keys ih =>
    obtain ⟨hkey, hkeys⟩ := forall_mem_cons.mp hkeys
    have hrest : ∀ c ∈ (keys.flatMap accessor).head?, isNameChar c = false := by
      intro c hc
      rw [isNameChar, isMark_head_flatMap_accessor keys c hc]
      rfl
    rw [flatMap_cons, hkey.accessors_accessor hrest, ih hkeys]

theorem dropPrefix?_append (front rest : List Char) :
    (front ++ rest).dropPrefix? front = some rest :=
  dropPrefix?_append_of_beq _ (by simp)

theorem placeOf?_eq_some_iff {text : String} {names : List String} :
    placeOf? ("ctx._source" ++ text) = some names ↔
      accessors text.toList = (names.map String.toList, []) := by
  have hdrop : ("ctx._source" ++ text).toList.dropPrefix? "ctx._source".toList =
      some text.toList := by
    rw [String.toList_append]
    exact dropPrefix?_append _ _
  unfold placeOf?
  rw [hdrop, Option.map_some]
  obtain ⟨found, rest⟩ := accessors text.toList
  cases rest with
  | nil =>
    simp only [Option.some.injEq, Prod.mk.injEq, and_true]
    constructor <;> rintro rfl <;> simp
  | cons c rest => simp

end StacCatalog.Patch
