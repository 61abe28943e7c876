import StacCatalog.Proofs.Patch.Checks

/-!
# The position at which a script adds an entry to an array
-/

namespace StacCatalog.Patch

open List

variable {cs : List Char} {k : Nat} {text pointer last : String} {front : List String} {p : Path}

/-! ### Positions in a script -/

theorem accessors_suffix (cs : List Char) : (accessors cs).2 <:+ cs := by
  fun_induction accessors cs with
  | case1 rest hnone => exact suffix_rfl
  | case2 rest hsome names behind hread ih =>
    rw [hread] at ih
    exact (ih.trans (dropWhile_suffix _)).trans (suffix_cons _ _)
  | case3 rest hclosed names behind hread ih =>
    rw [hread] at ih
    exact ((ih.trans (drop_suffix _ _)).trans (dropWhile_suffix _)).trans
      (suffix_append ['[', '\''] rest)
  | case4 rest hopen | case5 cs hpoint hindex => exact suffix_rfl

/-- A position in an array, as written. -/
inductive Position where
  | number (k : Nat)
  /-- The size of what is at a place, less a number. -/
  | fromEnd (place : List String) (k : Nat)
  deriving DecidableEq, Repr

namespace Position

/-- The number that a text of digits is. -/
def digits? (cs : List Char) : Option Nat :=
  if cs ≠ [] ∧ cs.all Char.isDigit = true then some (Nat.ofDigitChars 10 cs 0) else none

def read? (text : String) : Option Position :=
  match digits? text.toList with
  | some k => some (.number k)
  | none =>
    (text.toList.dropPrefix? "ctx._source".toList).bind fun rest =>
      if (accessors rest).1.getLast? = some "size".toList then
        (((accessors rest).2.dropPrefix? "() - ".toList).bind digits?).map fun k =>
          .fromEnd ((accessors rest).1.dropLast.map String.ofList) k
      else none

def entryCount? : Json → Option Nat
  | .arr items => some items.length
  | .obj fields => some fields.length
  | _ => none

/-- The value of a position at a document; `none` if there is nothing that has entries. -/
def eval (document : Json) : Position → Option Int
  | .number k => some k
  | .fromEnd place k =>
    ((valueAt document place).bind entryCount?).map fun count : Nat => (count : Int) - k

def valueOf? (text : String) (document : Json) : Option Int :=
  (read? text).bind (eval document)

/-! ### Reading -/

theorem digits?_toDigits (k : Nat) : digits? (Nat.toDigits 10 k) = some k := by
  have hall : (Nat.toDigits 10 k).all Char.isDigit = true :=
    all_eq_true.mpr fun c hc => Nat.isDigit_of_mem_toDigits (by decide) (by decide) hc
  rw [digits?, if_pos ⟨Nat.toDigits_ne_nil, hall⟩, Nat.ofDigitChars_ten_toDigits]

theorem eq_one_of_digits? {front : List Char} (h : digits? cs = some k)
    (hsuffix : cs <:+ front ++ " - 1".toList) : k = 1 := by
  unfold digits? at h
  split at h
  · rename_i hdigits
    obtain ⟨hne, hall⟩ := hdigits
    have hblank : ' ' ∉ cs := fun hmem => absurd (all_eq_true.mp hall ' ' hmem) (by decide)
    have hend : [' ', '1'] <:+ front ++ " - 1".toList :=
        (show [' ', '1'] <:+ " - 1".toList by decide).trans (suffix_append _ _)
    rcases suffix_or_suffix_of_suffix hsuffix hend with hshort | hlong
    · rcases suffix_cons_iff.mp hshort with rfl | hshort
      · exact absurd mem_cons_self hblank
      · rcases suffix_cons_iff.mp hshort with rfl | hnil
        · exact (Option.some.inj h).symm
        · exact absurd (suffix_nil.mp hnil) hne
    · exact absurd (hlong.mem mem_cons_self) hblank
  · cases h

theorem read?_digits (h : text.toList = Nat.toDigits 10 k) : read? text = some (.number k) := by
  unfold read?
  rw [h, digits?_toDigits]

theorem read?_source {rest : List Char} (h : text.toList = "ctx._source".toList ++ rest) :
    read? text =
      if (accessors rest).1.getLast? = some "size".toList then
          (((accessors rest).2.dropPrefix? "() - ".toList).bind digits?).map
            fun k => .fromEnd ((accessors rest).1.dropLast.map String.ofList) k else none := by
  have hletters : digits? ("ctx._source".toList ++ rest) = none := by
    rw [digits?, if_neg]
    exact fun hdigits => absurd hdigits.2 (by simp)
  unfold read?
  rw [h, hletters]
  dsimp only
  rw [dropPrefix?_append, Option.bind_some]

theorem read?_fromEnd {place : List Char} {names : List String}
    (h : text.toList =
      "ctx._source".toList ++ (place ++ (".size() - ".toList ++ Nat.toDigits 10 k)))
    (hplace : accessors place = (names.map String.toList, [])) :
    read? text = some (.fromEnd names k) := by
  have hcall : ".size() - ".toList ++ Nat.toDigits 10 k =
      '.' :: ("size".toList ++ ("() - ".toList ++ Nat.toDigits 10 k)) := rfl
  have hread : accessors
        (place ++ '.' :: ("size".toList ++ ("() - ".toList ++ Nat.toDigits 10 k))) =
      (names.map String.toList ++ ["size".toList], "() - ".toList ++ Nat.toDigits 10 k) :=
    accessors_call hplace (by decide) (by decide) _
  rw [read?_source h, hcall, hread]
  dsimp only
  rw [getLast?_concat, if_pos rfl, dropPrefix?_append, Option.bind_some, digits?_toDigits,
    Option.map_some, dropLast_concat, map_map]
  simp

/-- A position that ends in a blank and a one is counted from the end by one, if it is a position.
-/
theorem exists_place_of_read? {front : List Char} {position : Position}
    (h : text.toList = "ctx._source".toList ++ (front ++ " - 1".toList))
    (hread : read? text = some position) : ∃ place, position = .fromEnd place 1 := by
  rw [read?_source h] at hread
  split at hread
  · obtain ⟨k, hk, rfl⟩ := Option.map_eq_some_iff.mp hread
    obtain ⟨ds, hdrop, hdigits⟩ := Option.bind_eq_some_iff.mp hk
    obtain ⟨called, hbehind, -⟩ := dropPrefix?_eq_some_iff.mp hdrop
    have hsuffix : ds <:+ front ++ " - 1".toList :=
      ((suffix_append called ds).trans (hbehind ▸ suffix_rfl)).trans (accessors_suffix _)
    rw [eq_one_of_digits? hdigits hsuffix]
    exact ⟨_, rfl⟩
  · cases hread

end Position

/-! ### Documents with a single path -/

/-- The document in which keys lead to a value, and nothing else is. -/
def along : List String → Json → Json
  | [], value => value
  | key :: rest, value => .single key (along rest value)

theorem at?_along (keys : List String) (value : Json) :
    (along keys value).at? keys = some value := by
  induction keys with
  | nil => rfl
  | cons key rest ih => simpa [along, Json.single, Json.at?, Fields.get?] using ih

theorem valueAt_along_cons (key name : String) (rest more : List String) (value : Json) :
    valueAt (along (key :: rest) value) (name :: more) =
      if name = key then valueAt (along rest value) more else valueAt .null more := by
  show valueAt (Fields.getD [(key, along rest value)] name) more = _
  by_cases hname : name = key
  · simp [Fields.getD, Fields.get?, hname]
  · rw [if_neg hname, Fields.getD, Fields.get?, lookup_cons, beq_false_of_ne hname]
    rfl

/-- Where there are entries at all in a document with a single path to an array of one, there is
one. -/
theorem entryCount?_along (keys place : List String) (value : Json) :
    (valueAt (along keys (.arr [value])) place).bind Position.entryCount? = none ∨
      (valueAt (along keys (.arr [value])) place).bind Position.entryCount? = some 1 := by
  induction keys generalizing place with
  | nil =>
    cases place with
    | nil => exact .inr rfl
    | cons name more => exact .inl rfl
  | cons key rest ih =>
    cases place with
    | nil => exact .inr rfl
    | cons name more =>
      rw [valueAt_along_cons]
      split
      · exact ih more
      · cases more <;> exact .inl rfl

/-- The position in an array of a given length that the last key of a pointer stands for: a number,
or with `-` the one behind the last entry. -/
def positionIn? (token : String) (length : Nat) : Option Nat :=
  if token = "-" then some length
  else if token = "" then none
  else numberOf? token.toList

/-! ### Adding an entry -/

theorem toList_location {n : Int} (hkeys : keysOf pointer = front ++ [last])
    (hlast : position? last.toList = .ok (some n)) (hp : Path.ofPointer pointer = .ok p) :
    p.location.toList = joined front := by
  rcases eq_nil_or_concat front with rfl | ⟨outer, array, rfl⟩
  · obtain ⟨hposition, hparts, -⟩ := Path.ofPointer_eq_ok_iff.mp hp
    rw [hkeys, splitLast_keysOf hkeys, hlast] at hposition
    rw [hkeys, ← Except.ok.inj hposition, partsAt, splitLast_keysOf hkeys] at hparts
    have hempty : (p.nest.toList, p.joint.toList, p.key.toList) = ([], [], []) :=
        (Prod.mk.inj hparts).2
    simp only [Prod.mk.injEq] at hempty
    rw [Path.location, String.toList_append, String.toList_append, hempty.1, hempty.2.1, hempty.2.2]
    rfl
  · rw [concat_eq_append] at hkeys ⊢
    obtain ⟨-, hparts, -⟩ := (Path.ofPointer_position_iff hkeys hlast).mp hp
    simp only [Prod.mk.injEq] at hparts
    obtain ⟨-, hnest, hjoint, hkey⟩ := hparts
    rw [Path.location, String.toList_append, String.toList_append, hnest, hjoint, hkey, jointOf]
    by_cases houter : outer = []
    · subst houter
      simp [joined]
    · rw [if_neg houter, joined_concat houter, append_assoc, singleton_append]

theorem render_put_position {n : Int} (hposition : p.position = some n) (supply : Supply) :
    ∃ behind, (Command.put p true supply).render =
      "if (" ++ ("ctx._source" ++ p.scriptLocation) ++ " instanceof ArrayList)\x7b" ++
      ("ctx._source" ++ p.scriptLocation) ++ ".add(" ++ p.index.display ++ ", " ++ behind := by
  have hcall (rest : String) : "." ++ ("add" ++ ("(" ++ rest)) = ".add(" ++ rest := by
    have hname : "." ++ "add" ++ "(" = ".add(" := by decide
    rw [← String.append_assoc, ← String.append_assoc, hname]
  unfold Command.render
  dsimp only
  rw [hposition]
  simp only [String.append_assoc, if_true, hcall]
  exact ⟨_, rfl⟩

theorem toList_display_index_neg (hposition : p.position = some (-1)) :
    p.index.display.toList =
      "ctx._source".toList ++ ('.' :: p.location.toList ++ ".size() - 1".toList) := by
  have hindex : p.index = .str ("ctx._source." ++ p.location ++ ".size() - " ++ "1") := by
    rw [Path.index, hposition]
    exact if_pos (by decide)
  rw [hindex]
  simp [Json.display]

theorem accessors_joined {keys : List String} (hne : keys ≠ [])
    (hkeys : ∀ key ∈ keys, Undivided key.toList) (hcolons : ∀ key ∈ keys, ':' ∉ key.toList) :
    accessors ('.' :: joined keys) = (keys.map String.toList, []) := by
  have haccessor : ∀ key ∈ keys, accessor key.toList = '.' :: key.toList :=
      fun key hkey => if_neg (hcolons key hkey)
  have hchain : ∀ keys : List String,
      keys ≠ [] → '.' :: joined keys = keys.flatMap fun key => '.' :: key.toList := by
    intro keys hne
    induction keys with
    | nil => exact absurd rfl hne
    | cons key rest ih =>
      cases rest with
      | nil => simp [joined]
      | cons next rest => rw [flatMap_cons, ← ih (cons_ne_nil _ _), joined_cons_cons, cons_append]
  have hflat : '.' :: joined keys = (keys.map String.toList).flatMap accessor := by
    rw [hchain keys hne, flatMap_map]
    exact (flatMap_congr fun key hkey => haccessor key hkey).symm
  rw [hflat]
  exact accessors_flatMap (by simpa using hkeys)

theorem commands_add {value : Json} (hp : Path.ofPointer pointer = .ok p) :
    (Operation.add pointer value).commands =
      .ok (p.checks false false ++ [.put p true .param]) := by
  have hread : Path.ofPointer (Operation.add pointer value).path = .ok p := hp
  unfold Operation.commands
  rw [hread]
  rfl

/-- A number in a pointer is the value of the position, at every document. -/
theorem valueOf?_index (hposition : p.position = some (k : Int)) (document : Json) :
    Position.valueOf? p.index.display document = some (k : Int) := by
  rw [Position.valueOf?, Position.read?_digits (display_index hposition), Option.bind_some]
  rfl

section Behind

variable {p : Path} {keys : List String} (hposition : p.position = some (-1))
    (hlocation : p.location.toList = joined keys)

include hposition hlocation

/-- The place behind the last entry comes out as the place of the last entry. -/
theorem valueOf?_index_behind (hne : keys ≠ [])
    (hkeys : ∀ key ∈ keys, Undivided key.toList ∧ ':' ∉ key.toList) {document : Json}
    {items : List Json} (hitems : document.at? keys = some (.arr items)) :
    Position.valueOf? p.index.display document = some ((items.length : Int) - 1) := by
  have htext := toList_display_index_neg hposition
  rw [hlocation] at htext
  have hplace := accessors_joined hne (fun key hkey => (hkeys key hkey).1) fun key hkey =>
      (hkeys key hkey).2
  rw [Position.valueOf?, Position.read?_fromEnd (k := 1) htext hplace, Option.bind_some,
    Position.eval, valueAt_of_at? hitems]
  rfl

/-- Whatever the keys are, it does not come out right at an array of one entry. -/
theorem valueOf?_index_along (value : Json) :
    Position.valueOf? p.index.display (along keys (.arr [value])) ≠ some 1 := by
  have htext := toList_display_index_neg hposition
  rw [hlocation] at htext
  unfold Position.valueOf?
  cases hread : Position.read? p.index.display with
  | none => nofun
  | some position =>
    have hends : '.' :: joined keys ++ ".size() - 1".toList =
        ('.' :: joined keys ++ ".size()".toList) ++ " - 1".toList := by
      rw [append_assoc]
      rfl
    rw [hends] at htext
    obtain ⟨place, rfl⟩ := Position.exists_place_of_read? htext hread
    rw [Option.bind_some, Position.eval]
    rcases entryCount?_along keys place value with hcount | hcount
    · rw [hcount]
      nofun
    · rw [hcount]
      decide

end Behind

/-- **Where an entry is added.** The command that adds an entry to an array is a call of the array
with a position, of which the value is the one that the pointer stands for, at every document with
an array there, exactly if the pointer ends in a number. If it ends in `-`, the entry should come
behind the last one, and the value of the position is one less. -/
theorem add_position_right_iff {pointer : String} {value : Json}
    (hop : (Operation.add pointer value).Readable) {front : List String} {array token : String}
    (hkeys : keysOf pointer = front ++ [array] ++ [token])
    (htoken : (positionIn? token 0).isSome = true) :
    ∃ commands place position behind, (Operation.add pointer value).commands = .ok commands ∧
      commands.getLast?.map Command.render =
        some ("if (" ++ place ++ " instanceof ArrayList)\x7b" ++ place ++ ".add(" ++
          position ++ ", " ++ behind) ∧
      ((∀ (document : Json) (items : List Json),
          document.at? (front ++ [array]) = some (.arr items) →
          Position.valueOf? position document =
            (positionIn? token items.length).map fun k : Nat => (k : Int)) ↔ token ≠ "-") ∧
      (token = "-" → (∀ key ∈ front ++ [array], Undivided key.toList ∧ ':' ∉ key.toList) →
        ∀ (document : Json) (items : List Json),
          document.at? (front ++ [array]) = some (.arr items) →
          Position.valueOf? position document = some ((items.length : Int) - 1)) := by
  obtain ⟨p, hp⟩ := (Operation.add pointer value).exists_path hop (List.mem_singleton.mpr rfl)
  have hread := position?_of_ofPointer hkeys hp
  by_cases hminus : token = "-"
  · subst hminus
    have hlast : p.position = some (-1) := (Except.ok.inj hread).symm
    have hlocation := toList_location hkeys rfl hp
    obtain ⟨behind, hrender⟩ := render_put_position hlast .param
    refine ⟨_, "ctx._source" ++ p.scriptLocation, p.index.display, behind, commands_add hp, ?_,
      ⟨fun hright => ?_, ?_⟩, ?_⟩
    · rw [List.getLast?_concat, Option.map_some, hrender]
    · -- A list of one entry at that path shows that the position is wrong.
      exact absurd (hright _ _ (at?_along _ (.arr [.null])))
        (valueOf?_index_along hlast hlocation .null)
    · exact fun hne => absurd rfl hne
    · exact fun _ hplain document items hitems => valueOf?_index_behind hlast hlocation
        (by simp) hplain hitems
  · have hposition : ∀ length, positionIn? token length = numberOf? token.toList ∧ token ≠ "" := by
      intro length
      rw [positionIn?, if_neg hminus] at htoken ⊢
      split at htoken
      · cases htoken
      · rename_i hne
        exact ⟨if_neg hne, hne⟩
    obtain ⟨k, hk⟩ := Option.isSome_iff_exists.mp htoken
    rw [(hposition 0).1] at hk
    have hnumber : p.position = some (k : Int) :=
      position?_of_numberOf? (by simpa using (hposition 0).2) hk hread
    obtain ⟨behind, hrender⟩ := render_put_position hnumber .param
    refine ⟨_, "ctx._source" ++ p.scriptLocation, p.index.display, behind, commands_add hp, ?_,
      ⟨fun _ => hminus, ?_⟩, ?_⟩
    · rw [List.getLast?_concat, Option.map_some, hrender]
    · intro _ document items _
      rw [valueOf?_index hnumber, (hposition items.length).1, hk, Option.map_some]
    · exact fun hyes => absurd hyes hminus

/-- To an empty list an entry is to be added behind the last, at position 0, and the position in the
script is -1. -/
theorem add_position_right_iff_empty :
    positionIn? "-" 0 = some 0 ∧
    ∃ commands place position behind,
      (Operation.add "/properties/list/-" (.int 1)).commands = .ok commands ∧
      commands.getLast?.map Command.render =
        some ("if (" ++ place ++ " instanceof ArrayList)\x7b" ++ place ++ ".add(" ++ position ++
            ", " ++ behind) ∧
      Position.valueOf? position (.single "properties" (.single "list" (.arr []))) = some (-1) := by
  obtain ⟨commands, place, position, behind, hcommands, hrender, -, hbehind⟩ :=
    @add_position_right_iff "/properties/list/-" (.int 1) (by decide +kernel) ["properties"] "list"
      "-" (by decide +kernel) rfl
  have hplain : ∀ key ∈ ["properties"] ++ ["list"], Undivided key.toList ∧
      ':' ∉ key.toList := by decide +kernel
  exact ⟨rfl, commands, place, position, behind, hcommands, hrender, hbehind rfl hplain _ [] rfl⟩

end StacCatalog.Patch
