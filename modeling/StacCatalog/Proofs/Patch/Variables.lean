import Mathlib.Data.List.Pairwise
import StacCatalog.Proofs.Patch.Positions
import StacCatalog.Proofs.Patch.Statements

/-!
# The variables of a script
-/

namespace StacCatalog.Patch

open List StacCatalog.Patch.Path Operation
open String (toList toList_append toList_inj toList_ofList)

variable {c : Char} {pointer : String} {p : Path} {key : String}

/-! ### Keys that names are made of -/

def isWordChar (c : Char) : Bool :=
  c.isAlphanum || c == '_'

/-- A key that a name can be made of: it has letters, digits, underscores and colons, or is the
place behind the last entry. -/
def nameKey (key : String) : Bool :=
  key == "-" || (key != "" && key.toList.all fun c => isWordChar c || c == ':')

def named (pointer : String) : Bool :=
  (keysOf pointer).all nameKey

def underline (c : Char) : Char :=
  if c = '.' ∨ c = ':' then '_' else c

/-- What becomes of the last key behind a place: a number is written in digits, and the place behind
the last entry as an expression. -/
def lastPart (place : List Char) (last : String) : List Char :=
  if last = "-" then "ctx._source".toList ++ ('.' :: place ++ ".size() - 1".toList)
  else
    match numberOf? last.toList with
    | some k => Nat.toDigits 10 k
    | none => last.toList.map underline

/-- The name of the variable for what is at the end of some keys. -/
def nameOf (keys : List String) : String :=
  String.ofList ((joined keys.dropLast).map underline ++ '_' :: lastPart (joined keys.dropLast)
    (keys.getLastD ""))

def legal (name : String) : Bool :=
  name.toList.all isWordChar && name.toList.head?.any (!·.isDigit)

theorem nameOf_concat (front : List String) (last : String) :
    (nameOf (front ++ [last])).toList =
      (joined front).map underline ++ '_' :: lastPart (joined front) last := by
  rw [nameOf, toList_ofList, dropLast_concat, getLastD_concat]

/-- A key is that place, or it has characters of names and colons. -/
theorem nameKey_eq_true_iff :
    nameKey key = true ↔
      key = "-" ∨ (key ≠ "" ∧ ∀ c ∈ key.toList, isWordChar c = true ∨ c = ':') := by
  simp [nameKey]

theorem isWordChar_underline (h : isWordChar c = true ∨ c = ':') :
    isWordChar (underline c) = true := by
  unfold underline
  split
  · decide
  · rename_i hother
    exact h.resolve_right fun hcolon => hother (.inr hcolon)

theorem plainChar_of_isWordChar (h : isWordChar c = true ∨ c = ':') : plainChar c = true := by
  rcases h with h | rfl
  · rcases Bool.or_eq_true_iff.mp h with halnum | hline
    · rw [plainChar, halnum]
      rfl
    · rw [beq_iff_eq.mp hline]
      decide
  · decide

theorem plainPath_of_named (h : named pointer = true) : plainPath pointer = true := by
  have hkeys : ∀ key ∈ keysOf pointer, key ≠ "" ∧ ∀ c ∈ key.toList, plainChar c = true := by
    intro key hkey
    rcases nameKey_eq_true_iff.mp (all_eq_true.mp h key hkey) with rfl | ⟨hne, hchars⟩
    · exact ⟨by decide, fun c hc => by rw [mem_singleton.mp hc]; decide⟩
    · exact ⟨hne, fun c hc => plainChar_of_isWordChar (hchars c hc)⟩
  rw [plainPath, Bool.and_eq_true, all_eq_true, all_eq_true]
  refine ⟨fun c hc => ?_, fun key hkey => bne_iff_ne.mpr (hkeys key hkey).1⟩
  by_cases hslash : c = '/'
  · rw [hslash]
    decide
  · -- Any other character is that of a key, or a point between two of them.
    have hdrop : c ∈ pointer.toList.dropWhile (· == '/') := by
      rw [← takeWhile_append_dropWhile (p := (· == '/')) (l := pointer.toList), mem_append] at hc
      exact hc.resolve_left fun htake => hslash (by simpa using mem_takeWhile_imp htake)
    have hjoined : c ∈ joined (keysOf pointer) := by
      rw [joined_keysOf]
      exact mem_map.mpr ⟨c, hdrop, if_neg hslash⟩
    rcases mem_joined hjoined with rfl | ⟨key, hkey, hmem⟩
    · decide
    · exact (hkeys key hkey).2 c hmem

theorem toNat_lt_of_isWordChar (h : isWordChar c = true ∨ c = ':') : c.toNat < 128 := by
  have hlast : ∀ {last : UInt32}, c.val ≤ last → last < 128 → c.toNat < 128 := fun hle hlast =>
    Nat.lt_of_le_of_lt (UInt32.le_iff_toNat_le.mp hle) (UInt32.lt_iff_toNat_lt.mp hlast)
  rcases h with h | rfl
  · rcases Bool.or_eq_true_iff.mp h with halnum | hline
    · rcases Bool.or_eq_true_iff.mp halnum with halpha | hdigit
      · rcases Bool.or_eq_true_iff.mp halpha with hupper | hlower
        · exact hlast (of_decide_eq_true hupper).2 (by decide)
        · exact hlast (of_decide_eq_true (Bool.and_eq_true_iff.mp hlower).2) (by decide)
      · exact hlast (of_decide_eq_true (Bool.and_eq_true_iff.mp hdigit).2) (by decide)
    · rw [beq_iff_eq.mp hline]
      decide
  · decide

/-- Below the other alphabets, digits are those that have a value. -/
theorem decimals_of_isWordChar (hword : isWordChar c = true ∨ c = ':')
    (hdigit : Text.isDigit c = true) : Text.decimals.has c = true := by
  refine (Bool.or_eq_true_iff.mp hdigit).resolve_right fun hother => ?_
  have hothers : ∀ range ∈ Text.otherDigits, 128 ≤ range.1 := by decide
  have hsmall := toNat_lt_of_isWordChar hword
  obtain ⟨range, hrange, hin⟩ := any_eq_true.mp hother
  have hfirst := hothers range hrange
  simp only [Bool.and_eq_true, decide_eq_true_eq] at hin
  omega

theorem position?_of_nameKey (hkey : nameKey key = true) (hminus : key ≠ "-")
    (hnumber : numberOf? key.toList = none) : position? key.toList = .ok none := by
  obtain ⟨hne, hchars⟩ := (nameKey_eq_true_iff.mp hkey).resolve_left hminus
  have hdigits : numeric key.toList = false := by
    rw [← Bool.not_eq_true]
    intro hnumeric
    have hsome : (numberOf? key.toList).isSome = true := by
      refine isSome_numberOf?_iff.mpr fun c hc => decimals_of_isWordChar (hchars c hc) ?_
      refine (eq_minus_or_isDigit hnumeric c hc).resolve_left ?_
      rintro rfl
      exact absurd (hchars _ hc) (by decide)
    rw [hnumber] at hsome
    cases hsome
  have hone : key.toList ≠ ['-'] := fun hone => hminus (toList_inj.mp hone)
  rw [position?, if_neg hone, ← numeric, if_neg (by simp [hdigits])]

theorem variableName_eq (hnamed : named pointer = true) (hp : ofPointer pointer = .ok p) :
    p.variableName = nameOf (keysOf pointer) := by
  obtain ⟨front, last, hkeys⟩ := exists_keys pointer
  have hlast : nameKey last = true := all_eq_true.mp hnamed last (by simp [hkeys])
  have hread := position?_of_ofPointer hkeys hp
  have hline : ∀ text : String, (underscored text).toList = text.toList.map underline := fun text =>
    toList_ofList
  have hposition : ∀ n, p.position = some n →
      p.variableName.toList = (joined front).map underline ++ '_' :: p.index.display.toList := by
    intro n hn
    rw [hn] at hread
    unfold variableName
    rw [hn]
    dsimp only
    rw [toList_append, toList_append, hline, toList_location hkeys hread hp,
      append_assoc]
    rfl
  rw [← toList_inj, hkeys, nameOf_concat]
  -- The last key stands behind the last entry, or is a number, or names a member.
  by_cases hminus : last = "-"
  · subst hminus
    have hend : p.position = some (-1) := (Except.ok.inj hread).symm
    rw [hposition _ hend, toList_display_index_neg hend, toList_location hkeys rfl hp]
    rfl
  · unfold lastPart
    rw [if_neg hminus]
    have hne : last.toList ≠ [] := by
      obtain ⟨hne, -⟩ := (nameKey_eq_true_iff.mp hlast).resolve_left hminus
      simpa using hne
    cases hnumber : numberOf? last.toList with
    | some k =>
      have hk := position?_of_numberOf? hne hnumber hread
      rw [hposition _ hk, display_index hk]
    | none =>
      have hnone := position?_of_nameKey hlast hminus hnumber
      obtain ⟨hmember, hparts, -⟩ := (ofPointer_member_iff hkeys hnone).mp hp
      simp only [Prod.mk.injEq] at hparts
      obtain ⟨-, hnest, -, hkey⟩ := hparts
      have hcolons : (withoutColons p.key).toList = last.toList.map underline := by
        rw [withoutColons, toList_ofList, hkey]
        refine map_congr_left fun c hc => ?_
        have hpoint : c ≠ '.' := fun hpoint =>
          point_notMem_of_mem_keysOf (show last ∈ keysOf pointer by simp [hkeys]) (hpoint ▸ hc)
        simp [underline, hpoint]
      unfold variableName
      rw [hmember]
      dsimp only
      rw [toList_append, toList_append, hline, hcolons, hnest, append_assoc]
      rfl

/-! ### Legal names -/

theorem mem_joined_of_mem {keys : List String} (hkey : key ∈ keys) (hc : c ∈ key.toList) :
    c ∈ joined keys := by
  induction keys with
  | nil => cases hkey
  | cons first rest ih =>
    cases rest with
    | nil => rwa [mem_singleton.mp hkey, ← joined_singleton] at hc
    | cons next rest =>
      rw [joined_cons_cons, mem_append, mem_cons]
      rcases mem_cons.mp hkey with rfl | hkey
      · exact .inl hc
      · exact .inr (.inr (ih hkey))

/-- Keys of names make up a text of a name, unless one is the place behind the last entry. -/
theorem all_isWordChar_joined_iff {keys : List String} (hkeys : ∀ key ∈ keys, nameKey key = true) :
    ((joined keys).map underline).all isWordChar = true ↔ "-" ∉ keys := by
  rw [all_map, all_eq_true]
  constructor
  · intro hall hmem
    have hminus : '-' ∈ joined keys := mem_joined_of_mem hmem (by decide)
    exact absurd (hall '-' hminus) (by decide)
  · intro hminus c hc
    show isWordChar (underline c) = true
    rcases mem_joined hc with rfl | ⟨key, hkey, hmem⟩
    · decide
    · have hne : key ≠ "-" := fun heq => hminus (heq ▸ hkey)
      exact isWordChar_underline
        (((nameKey_eq_true_iff.mp (hkeys key hkey)).resolve_left hne).2 c hmem)

theorem all_isWordChar_lastPart_iff {place : List Char} {last : String}
    (hlast : nameKey last = true) : (lastPart place last).all isWordChar = true ↔ last ≠ "-" := by
  unfold lastPart
  constructor
  · rintro hall rfl
    rw [if_pos rfl, all_append] at hall
    exact absurd (Bool.and_eq_true_iff.mp hall).1 (by decide)
  · intro hminus
    rw [if_neg hminus]
    cases numberOf? last.toList with
    | some k =>
      dsimp only
      rw [all_eq_true]
      intro c hc
      have hdigit := Nat.isDigit_of_mem_toDigits (by decide) (by decide) hc
      simp [isWordChar, Char.isAlphanum, hdigit]
    | none =>
      dsimp only
      rw [all_map, all_eq_true]
      intro c hc
      exact isWordChar_underline (((nameKey_eq_true_iff.mp hlast).resolve_left hminus).2 c hc)

theorem head?_joined {first : String} {rest : List String} (h : first ≠ "") :
    (joined (first :: rest)).head? = first.toList.head? := by
  have hne : first.toList ≠ [] := by simpa using h
  cases rest with
  | nil => rw [joined_singleton]
  | cons next rest => rw [joined_cons_cons, head?_append_of_ne_nil _ hne]

theorem isDigit_underline (c : Char) : (underline c).isDigit = c.isDigit := by
  unfold underline
  split
  · rename_i h
    rcases h with rfl | rfl <;> decide
  · rfl

/-- A name can be used unless a position from the end is in it, or a digit begins it: the first of
several keys stands at its beginning. -/
theorem legal_nameOf_iff (hnamed : named pointer = true) :
    legal (nameOf (keysOf pointer)) = true ↔
      "-" ∉ keysOf pointer ∧
      ∀ first second rest,
        keysOf pointer = first :: second :: rest → first.toList.head?.any Char.isDigit = false := by
  obtain ⟨front, last, hkeys⟩ := exists_keys pointer
  have hall : ∀ key ∈ front ++ [last], nameKey key = true := hkeys ▸ all_eq_true.mp hnamed
  have hfront : ∀ key ∈ front, nameKey key = true :=
      fun key hkey => hall key (mem_append_left _ hkey)
  have hlast : nameKey last = true := hall last (by simp)
  have hline : isWordChar '_' = true := by decide
  rw [legal, Bool.and_eq_true, hkeys, nameOf_concat, all_append, all_cons, Bool.and_eq_true,
    Bool.and_eq_true, all_isWordChar_joined_iff hfront, all_isWordChar_lastPart_iff hlast, hline]
  have hminus : "-" ∉ front ++ [last] ↔ "-" ∉ front ∧ last ≠ "-" := by
    rw [mem_append, mem_singleton, not_or, eq_comm]
  rw [hminus]
  refine and_congr (by simp) ?_
  -- The name of a single key begins with an underscore.
  cases front with
  | nil => simp [joined]
  | cons first others =>
    have hne : first ≠ "" := by
      rcases nameKey_eq_true_iff.mp (hfront first mem_cons_self) with rfl | hfirst
      · decide
      · exact hfirst.1
    obtain ⟨c, cs, hcs⟩ := exists_cons_of_ne_nil (show first.toList ≠ [] by simpa using hne)
    have hhead : (joined (first :: others)).head? = some c := by
      rw [head?_joined hne, hcs]
      rfl
    obtain ⟨tail, htail⟩ := head?_eq_some_iff.mp hhead
    have hbegin : (((joined (first :: others)).map underline ++
              '_' :: lastPart (joined (first :: others)) last).head?.any (!·.isDigit)) =
        !c.isDigit := by
      rw [htail, map_cons, cons_append, head?_cons, Option.any_some, isDigit_underline]
    rw [hbegin]
    constructor
    · intro hdigit first' second rest hshape
      rw [cons_append, cons.injEq] at hshape
      rw [← hshape.1, hcs]
      simpa using hdigit
    · intro hdigit
      obtain ⟨second, rest, hrest⟩ := exists_cons_of_ne_nil (show others ++ [last] ≠ [] by simp)
      have hfirst := hdigit first second rest (by rw [cons_append, hrest])
      rw [hcs] at hfirst
      simpa using hfirst

/-! ### Names of letters and digits -/

def simpleKey (key : String) : Bool :=
  key != "" && key.toList.all Char.isAlphanum

theorem simpleKey_eq_true_iff :
    simpleKey key = true ↔ key ≠ "" ∧ ∀ c ∈ key.toList, c.isAlphanum = true := by
  simp [simpleKey]

section SimpleKeys

variable {key last : String} {keys others : List String}

theorem ne_minus_of_simpleKey (h : simpleKey key = true) : key ≠ "-" := by
  rintro rfl
  exact absurd h (by decide)

theorem underscore_notMem_of_simpleKey (h : simpleKey key = true) : '_' ∉ key.toList := fun hmem =>
  absurd ((simpleKey_eq_true_iff.mp h).2 '_' hmem) (by decide)

theorem map_underline_of_simpleKey (h : simpleKey key = true) :
    key.toList.map underline = key.toList := by
  conv_rhs => rw [← map_id key.toList]
  refine map_congr_left fun c hc => if_neg ?_
  have halnum := (simpleKey_eq_true_iff.mp h).2 c hc
  rintro (rfl | rfl) <;> exact absurd halnum (by decide)

theorem map_underline_joined (h : ∀ key ∈ keys, simpleKey key = true) :
    (joined keys).map underline = ['_'].intercalate (keys.map String.toList) := by
  rw [joined, map_intercalate, map_map]
  exact congrArg _ (map_congr_left fun key hkey => map_underline_of_simpleKey (h key hkey))

/-- Such keys are read off their names: they are what underscores divide. -/
theorem eq_of_map_underline_joined (h : ∀ key ∈ keys, simpleKey key = true)
    (hothers : ∀ key ∈ others, simpleKey key = true)
    (hsame : (joined keys).map underline = (joined others).map underline) : keys = others := by
  have hnil : ∀ {keys : List String},
      (∀ key ∈ keys, simpleKey key = true) → (joined keys).map underline = [] → keys = [] := by
    intro keys hkeys hempty
    cases keys with
    | nil => rfl
    | cons first rest =>
      have hne := (simpleKey_eq_true_iff.mp (hkeys first mem_cons_self)).1
      have hhead := @head?_joined first rest hne
      rw [map_eq_nil_iff.mp hempty] at hhead
      exact absurd (head?_eq_none_iff.mp hhead.symm) (by simpa using hne)
  have hread : ∀ {keys : List String}, (∀ key ∈ keys, simpleKey key = true) → keys ≠ [] →
      ((joined keys).map underline).splitOn '_' = keys.map toList := by
    intro keys hkeys hne
    rw [map_underline_joined hkeys]
    refine splitOn_intercalate '_' (fun part hpart => ?_) (by simpa using hne)
    obtain ⟨key, hkey, rfl⟩ := mem_map.mp hpart
    exact underscore_notMem_of_simpleKey (hkeys key hkey)
  by_cases hempty : keys = []
  · subst hempty
    exact (hnil hothers hsame.symm).symm
  · have hempty' : others ≠ [] := by
      rintro rfl
      exact hempty (hnil h hsame)
    have hlists := congrArg (splitOn '_') hsame
    rw [hread h hempty, hread hothers hempty'] at hlists
    exact map_injective_iff.mpr (fun _ _ => toList_inj.mp) hlists

theorem lastPart_of_simpleKey (place : List Char) (h : simpleKey last = true) :
    lastPart place last = ((numberOf? last.toList).map (Nat.toDigits 10)).getD last.toList := by
  rw [lastPart, if_neg (ne_minus_of_simpleKey h), map_underline_of_simpleKey h]
  cases numberOf? last.toList <;> rfl

theorem underscore_notMem_lastPart (place : List Char) (h : simpleKey last = true) :
    '_' ∉ lastPart place last := by
  rw [lastPart_of_simpleKey place h]
  cases numberOf? last.toList with
  | some k =>
    intro hmem
    exact absurd (Nat.isDigit_of_mem_toDigits (by decide) (by decide) hmem) (by decide)
  | none => exact underscore_notMem_of_simpleKey h

theorem append_underscore_inj {xs ys front behind : List Char} (hxs : '_' ∉ xs) (hys : '_' ∉ ys)
    (h : front ++ '_' :: xs = behind ++ '_' :: ys) : front = behind ∧ xs = ys := by
  have hends := congrArg (fun cs => cs.reverse.takeWhile (· != '_')) h
  simp only [takeWhile_reverse hxs, takeWhile_reverse hys, reverse_inj] at hends
  subst hends
  exact ⟨append_cancel_right h, rfl⟩

/-- Numbers and keys that are no numbers do not share what becomes of them. -/
theorem lastPart_injective {place place' : List Char} {other : String}
    (hlast : simpleKey last = true) (hother : simpleKey other = true)
    (h : lastPart place last = lastPart place' other) :
    numberOf? last.toList = numberOf? other.toList ∧
    (numberOf? last.toList = none → last = other) := by
  have hdigits : ∀ {key : String} {k : Nat},
      key.toList = Nat.toDigits 10 k → (numberOf? key.toList).isSome = true := by
    intro key k hkey
    refine isSome_numberOf?_iff.mpr fun c hc => ?_
    rw [hkey] at hc
    exact decimals_of_isDigit (Nat.isDigit_of_mem_toDigits (by decide) (by decide) hc)
  rw [lastPart_of_simpleKey place hlast, lastPart_of_simpleKey place' hother] at h
  cases hnumber : numberOf? last.toList with
  | some k =>
    cases hnumber' : numberOf? other.toList with
    | some k' =>
      rw [hnumber, hnumber'] at h
      have hvalue := congrArg (Nat.ofDigitChars 10 · 0) h
      simp only [Option.map_some, Option.getD_some, Nat.ofDigitChars_ten_toDigits] at hvalue
      exact ⟨congrArg some hvalue, nofun⟩
    | none =>
      rw [hnumber, hnumber'] at h
      have hsome := hdigits h.symm
      rw [hnumber'] at hsome
      cases hsome
  | none =>
    cases hnumber' : numberOf? other.toList with
    | some k' =>
      rw [hnumber, hnumber'] at h
      have hsome := hdigits h
      rw [hnumber] at hsome
      cases hsome
    | none =>
      rw [hnumber, hnumber'] at h
      exact ⟨rfl, fun _ => toList_inj.mp h⟩

end SimpleKeys

theorem path_eq_of_partsAt {a b : String} {q : Path} (hp : ofPointer a = .ok p)
    (hq : ofPointer b = .ok q) (hposition : p.position = q.position)
    (hparts : partsAt (joined (keysOf a)) p.position = partsAt (joined (keysOf b)) q.position) :
    p = q := by
  obtain ⟨-, hp, hpath, hnest, hkey⟩ := ofPointer_eq_ok_iff.mp hp
  obtain ⟨-, hq, hpath', hnest', hkey'⟩ := ofPointer_eq_ok_iff.mp hq
  rw [hparts, ← hq] at hp
  simp only [Prod.mk.injEq, toList_inj] at hp
  obtain ⟨hsame, hsameNest, hsameJoint, hsameKey⟩ := hp
  rw [hsame, hpath', Except.ok.injEq, toList_inj] at hpath
  rw [hsameNest, hnest', Except.ok.injEq, toList_inj] at hnest
  rw [hsameKey, hkey', Except.ok.injEq, toList_inj] at hkey
  cases p
  cases q
  simp_all

/-- Pointers of letters and digits that share a name stand for one path. -/
theorem path_eq_of_nameOf_eq {a b : String} {q : Path} (ha : ∀ key ∈ keysOf a, simpleKey key = true)
    (hb : ∀ key ∈ keysOf b, simpleKey key = true) (hp : ofPointer a = .ok p)
    (hq : ofPointer b = .ok q) (h : nameOf (keysOf a) = nameOf (keysOf b)) : p = q := by
  obtain ⟨front, last, hkeys⟩ := exists_keys a
  obtain ⟨front', last', hkeys'⟩ := exists_keys b
  rw [hkeys] at ha
  rw [hkeys'] at hb
  rw [← toList_inj, hkeys, hkeys', nameOf_concat, nameOf_concat] at h
  have hlast : simpleKey last = true := ha last (by simp)
  have hlast' : simpleKey last' = true := hb last' (by simp)
  obtain ⟨hfront, hends⟩ :=
    append_underscore_inj (underscore_notMem_lastPart _ hlast)
      (underscore_notMem_lastPart _ hlast') h
  obtain rfl := eq_of_map_underline_joined (fun key hkey => ha key (mem_append_left _ hkey))
    (fun key hkey => hb key (mem_append_left _ hkey)) hfront
  obtain ⟨hnumber, hkey⟩ := lastPart_injective hlast hlast' hends
  cases hread : numberOf? last.toList with
  | some k =>
    have hne : ∀ {key : String}, simpleKey key = true → key.toList ≠ [] := fun hkey =>
      by simpa using (simpleKey_eq_true_iff.mp hkey).1
    have hposition : p.position = some (k : Int) :=
      position?_of_numberOf? (hne hlast) hread (position?_of_ofPointer hkeys hp)
    have hposition' : q.position = some (k : Int) :=
      position?_of_numberOf? (hne hlast') (hnumber ▸ hread) (position?_of_ofPointer hkeys' hq)
    refine path_eq_of_partsAt hp hq (hposition.trans hposition'.symm) ?_
    rw [hposition, hposition', hkeys, hkeys', partsAt, partsAt, splitLast_keysOf hkeys,
      splitLast_keysOf hkeys']
  | none =>
    obtain rfl := hkey hread
    rw [ofPointer_eq, hkeys] at hp
    rw [ofPointer_eq, hkeys', hp] at hq
    exact Except.ok.inj hq

/-! ### Declarations -/

def takenBy (ops : List Operation) : List String :=
  ops.filterMap Operation.taken?

/-- The command that takes out what a pointer points to. -/
def removal (pointer : String) : Outcome String :=
  (ofPointer pointer).map fun p => (Command.take p).render

theorem removal_of_ofPointer (hp : ofPointer pointer = .ok p) :
    removal pointer = .ok (Command.take p).render := by
  rw [removal, hp]
  rfl

theorem mem_paths_of_taken? {op : Operation} (h : pointer ∈ op.taken?) : pointer ∈ op.paths := by
  cases op with
  | remove path | move source path =>
    cases h
    simp [Operation.paths, Operation.path]
  | _ => cases h

theorem nodup_flatMap_iff {α β : Type} {l : List α} {f : α → List β} (hl : l.Nodup)
    (hf : ∀ a ∈ l, (f a).Nodup) :
    (l.flatMap f).Nodup ↔ ∀ a ∈ l, ∀ a' ∈ l, ∀ b ∈ f a, b ∈ f a' → a = a' := by
  rw [nodup_flatMap]
  constructor
  · intro h a ha a' ha' b hb hb'
    by_contra hne
    have hsymm : Std.Symm (Function.onFun List.Disjoint f) :=
        ⟨fun _ _ hdisjoint _ hb hb' => hdisjoint hb' hb⟩
    exact h.2.forall ha ha' hne hb hb'
  · intro h
    refine ⟨hf, hl.pairwise_of_forall_ne fun a ha a' ha' hne b hb hb' => ?_⟩
    exact hne (h a ha a' ha' b hb hb')

section Declarations

variable {ops : List Operation} {commands : List (List Command)}
    (hcommands : ops.mapM Operation.commands = .ok commands)

include hcommands

theorem take_mem_flatten_iff :
    Command.take p ∈ commands.flatten ↔ ∃ pointer ∈ takenBy ops, ofPointer pointer = .ok p := by
  have hpairs := Outcome.mapM_eq_ok.mp hcommands
  rw [mem_flatten]
  constructor
  · rintro ⟨own, hown, htake⟩
    obtain ⟨op, hop, hown⟩ := exists_left_of_forall₂ hpairs hown
    obtain ⟨pointer, hpointer, hp⟩ := (take_mem_commands_iff hown).mp htake
    exact ⟨pointer, mem_filterMap.mpr ⟨op, hop, hpointer⟩, hp⟩
  · rintro ⟨pointer, hpointer, hp⟩
    obtain ⟨op, hop, hpointer⟩ := mem_filterMap.mp hpointer
    obtain ⟨own, hmem, hown⟩ := exists_right_of_forall₂ hpairs hop
    exact ⟨own, hmem, (take_mem_commands_iff hown).mpr ⟨pointer, hpointer, hp⟩⟩

variable (hplain : ∀ op ∈ ops, ∀ path ∈ op.paths, plainPath path = true)
  (hshown : ∀ op ∈ ops, ∀ text ∈ op.shown, '\'' ∉ text.toList)

include hplain hshown

theorem exists_take_of_mem_declared {text name : String}
    (htext : text ∈ (commands.flatten.map Command.render).eraseDups)
    (hname : name ∈ declared text.toList) :
    ∃ p, Command.take p ∈ commands.flatten ∧ text = (Command.take p).render ∧
      name = p.variableName := by
  obtain ⟨hdeclares, -⟩ := declared_source hcommands hplain hshown
  obtain ⟨c, hc, rfl⟩ := mem_map.mp (mem_eraseDups.mp htext)
  rw [hdeclares c hc] at hname
  cases c with
  | take p => exact ⟨p, hc, rfl, mem_singleton.mp hname⟩
  | _ => cases hname

theorem mem_declared_iff {name : String} :
    name ∈ declared (String.join (commandSet commands.flatten)).toList ↔
      ∃ p, Command.take p ∈ commands.flatten ∧ name = p.variableName := by
  obtain ⟨hdeclares, hsource⟩ := declared_source hcommands hplain hshown
  rw [hsource, mem_flatMap]
  constructor
  · rintro ⟨text, htext, hname⟩
    obtain ⟨p, hp, -, hname⟩ := exists_take_of_mem_declared hcommands hplain hshown htext hname
    exact ⟨p, hp, hname⟩
  · rintro ⟨p, hp, rfl⟩
    refine ⟨_, mem_eraseDups.mpr (mem_map_of_mem hp), ?_⟩
    rw [hdeclares _ hp]
    exact mem_cons_self

/-- A name is declared twice if two commands with different texts declare it. -/
theorem nodup_declared_iff :
    (declared (String.join (commandSet commands.flatten)).toList).Nodup ↔
      ∀ p q, Command.take p ∈ commands.flatten → Command.take q ∈ commands.flatten →
        p.variableName = q.variableName → (Command.take p).render = (Command.take q).render := by
  obtain ⟨hdeclares, hsource⟩ := declared_source hcommands hplain hshown
  have hmem : ∀ {p : Path}, Command.take p ∈ commands.flatten →
      (Command.take p).render ∈ (commands.flatten.map Command.render).eraseDups ∧
        p.variableName ∈ declared (Command.take p).render.toList := by
    intro p hp
    refine ⟨mem_eraseDups.mpr (mem_map_of_mem hp), ?_⟩
    rw [hdeclares _ hp]
    exact mem_cons_self
  have honce :
      ∀ text ∈ (commands.flatten.map Command.render).eraseDups, (declared text.toList).Nodup := by
    intro text htext
    obtain ⟨c, hc, rfl⟩ := mem_map.mp (mem_eraseDups.mp htext)
    rw [hdeclares c hc]
    cases c <;> simp [Command.declares]
  rw [hsource, nodup_flatMap_iff (nodup_eraseDups _) honce]
  constructor
  · intro h p q hp hq hname
    exact h _ (hmem hp).1 _ (hmem hq).1 _ (hmem hp).2 (hname ▸ (hmem hq).2)
  · intro h text htext text' htext' name hname hname'
    obtain ⟨p, hp, rfl, hpname⟩ := exists_take_of_mem_declared hcommands hplain hshown htext hname
    obtain ⟨q, hq, rfl, hqname⟩ := exists_take_of_mem_declared hcommands hplain hshown htext' hname'
    exact h p q hp hq (hpname.symm.trans hqname)

end Declarations

section Pointers

variable {ops : List Operation} {commands : List (List Command)} (hread : ∀ op ∈ ops, op.Readable)
  (hnamed : ∀ op ∈ ops, ∀ path ∈ op.paths, named path = true)

include hread hnamed

theorem named_of_mem_takenBy {pointer : String} (h : pointer ∈ takenBy ops) :
    named pointer = true ∧ ∃ p, ofPointer pointer = .ok p := by
  obtain ⟨op, hop, htaken⟩ := mem_filterMap.mp h
  have hpath := mem_paths_of_taken? htaken
  exact ⟨hnamed op hop pointer hpath, exists_path (hread op hop) hpath⟩

variable (hcommands : ops.mapM Operation.commands = .ok commands)
    (hshown : ∀ op ∈ ops, ∀ text ∈ op.shown, '\'' ∉ text.toList)

include hcommands hshown

theorem mem_declared_iff_pointer {name : String} :
    name ∈ declared (String.join (commandSet commands.flatten)).toList ↔
      ∃ pointer ∈ takenBy ops, name = nameOf (keysOf pointer) := by
  have hplain := fun op hop path hpath => plainPath_of_named (hnamed op hop path hpath)
  rw [mem_declared_iff hcommands hplain hshown]
  constructor
  · rintro ⟨p, htake, rfl⟩
    obtain ⟨pointer, hpointer, hp⟩ := (take_mem_flatten_iff hcommands).mp htake
    exact ⟨pointer, hpointer, variableName_eq (named_of_mem_takenBy hread hnamed hpointer).1 hp⟩
  · rintro ⟨pointer, hpointer, rfl⟩
    obtain ⟨hkeys, p, hp⟩ := named_of_mem_takenBy hread hnamed hpointer
    exact ⟨p, (take_mem_flatten_iff hcommands).mpr ⟨pointer, hpointer, hp⟩,
      (variableName_eq hkeys hp).symm⟩

theorem nodup_declared_iff_removal :
    (declared (String.join (commandSet commands.flatten)).toList).Nodup ↔
      ∀ a ∈ takenBy ops,
        ∀ b ∈ takenBy ops, nameOf (keysOf a) = nameOf (keysOf b) → removal a = removal b := by
  have hplain := fun op hop path hpath => plainPath_of_named (hnamed op hop path hpath)
  have htaken := fun pointer => @named_of_mem_takenBy ops hread hnamed pointer
  rw [nodup_declared_iff hcommands hplain hshown]
  constructor
  · intro h a ha b hb hname
    obtain ⟨hkeys, p, hp⟩ := htaken a ha
    obtain ⟨hkeys', q, hq⟩ := htaken b hb
    rw [← variableName_eq hkeys hp, ← variableName_eq hkeys' hq] at hname
    rw [removal_of_ofPointer hp, removal_of_ofPointer hq,
      h p q ((take_mem_flatten_iff hcommands).mpr ⟨a, ha, hp⟩)
      ((take_mem_flatten_iff hcommands).mpr ⟨b, hb, hq⟩) hname]
  · intro h p q hp hq hname
    obtain ⟨a, ha, hp⟩ := (take_mem_flatten_iff hcommands).mp hp
    obtain ⟨b, hb, hq⟩ := (take_mem_flatten_iff hcommands).mp hq
    rw [variableName_eq (htaken a ha).1 hp, variableName_eq (htaken b hb).1 hq] at hname
    have hsame := h a ha b hb hname
    rw [removal_of_ofPointer hp, removal_of_ofPointer hq] at hsame
    exact Except.ok.inj hsame

end Pointers

/-- **Variables.** A script declares a variable for each value that it takes out, with a name made
of the keys of its pointer. The names are all different exactly if no name is shared by pointers to
different places, as it cannot be among keys of letters and digits. They all can be used exactly if
no pointer has a position from the end, or a digit at the beginning of several keys. -/
theorem variables_distinct_and_legal_iff {ops : List Operation} (hne : ops ≠ [])
    (hread : ∀ op ∈ ops, op.Readable) (hnamed : ∀ op ∈ ops, ∀ path ∈ op.paths, named path = true)
    (hshown : ∀ op ∈ ops, ∀ text ∈ op.shown, '\'' ∉ text.toList) :
    ∃ s, script ops = .ok s ∧
      (∀ name,
        name ∈ declared s.source.toList ↔ ∃ pointer ∈ takenBy ops, name = nameOf (keysOf pointer)) ∧
      ((declared s.source.toList).Nodup ↔
        ∀ a ∈ takenBy ops,
          ∀ b ∈ takenBy ops, nameOf (keysOf a) = nameOf (keysOf b) → removal a = removal b) ∧
      ((∀ pointer ∈ takenBy ops, ∀ key ∈ keysOf pointer, simpleKey key = true) →
        (declared s.source.toList).Nodup) ∧
      ((∀ name ∈ declared s.source.toList, legal name = true) ↔
        ∀ pointer ∈ takenBy ops, "-" ∉ keysOf pointer ∧
          ∀ first second rest, keysOf pointer = first :: second :: rest →
            first.toList.head?.any Char.isDigit = false) := by
  obtain ⟨commands, hcommands⟩ : ∃ commands, ops.mapM Operation.commands = .ok commands :=
    Outcome.exists_mapM fun op hop => (exists_commands (hread op hop)).imp fun _ => And.left
  obtain ⟨params, hparams⟩ : ∃ params, ops.mapM Operation.param = .ok params :=
    Outcome.exists_mapM fun op hop => exists_param (hread op hop)
  have hnames := fun name => @mem_declared_iff_pointer ops commands hread
      hnamed hcommands hshown name
  have hdistinct := nodup_declared_iff_removal hread hnamed hcommands hshown
  refine ⟨_, script_eq_ok_iff.mpr ⟨hne, commands, params, hcommands, hparams, rfl⟩, hnames,
    hdistinct, fun hsimple => ?_, ?_⟩
  · refine hdistinct.mpr fun a ha b hb hname => ?_
    obtain ⟨-, p, hp⟩ := named_of_mem_takenBy hread hnamed ha
    obtain ⟨-, q, hq⟩ := named_of_mem_takenBy hread hnamed hb
    rw [removal_of_ofPointer hp, removal_of_ofPointer hq, path_eq_of_nameOf_eq (hsimple a ha)
      (hsimple b hb) hp hq hname]
  · constructor
    · intro hlegal pointer hpointer
      have hname := hlegal _ ((hnames _).mpr ⟨pointer, hpointer, rfl⟩)
      exact (legal_nameOf_iff (named_of_mem_takenBy hread hnamed hpointer).1).mp hname
    · intro hpointers name hname
      obtain ⟨pointer, hpointer, rfl⟩ := (hnames name).mp hname
      exact (legal_nameOf_iff (named_of_mem_takenBy hread hnamed hpointer).1).mpr
        (hpointers pointer hpointer)

/-- Two members of different objects share a name, and a key gives one that begins with a digit. -/
theorem variables_distinct_and_legal_iff_clash :
    ∃ s, script [.remove "/a_b/c", .remove "/a/b_c", .move "/1d/e" "/eo:f"] = .ok s ∧
      "a_b_c" ∈ declared s.source.toList ∧ ¬ (declared s.source.toList).Nodup ∧
      "1d_e" ∈ declared s.source.toList ∧
      ¬ ∀ name ∈ declared s.source.toList, legal name = true := by
  obtain ⟨s, hs, hnames, hdistinct, -, hlegal⟩ :=
    @variables_distinct_and_legal_iff [.remove "/a_b/c", .remove "/a/b_c", .move "/1d/e" "/eo:f"]
      (by simp)
      (by decide +kernel) (by decide +kernel) (by decide +kernel)
  refine ⟨s, hs, (hnames _).mpr ⟨"/a_b/c", by decide +kernel, by decide +kernel⟩, fun hnodup => ?_,
    (hnames _).mpr ⟨"/1d/e", by decide +kernel, by decide +kernel⟩, fun hall => ?_⟩
  · have hsame := hdistinct.mp hnodup "/a_b/c" (by decide +kernel) "/a/b_c" (by decide +kernel)
      (by decide +kernel)
    exact absurd hsame (by decide +kernel)
  · have hdigit := (hlegal.mp hall "/1d/e" (by decide +kernel)).2 "1d" "e" [] (by decide +kernel)
    exact absurd hdigit (by decide)

end StacCatalog.Patch
