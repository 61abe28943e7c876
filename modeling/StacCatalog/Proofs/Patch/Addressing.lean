import StacCatalog.Proofs.Patch.Acceptance
import StacCatalog.Proofs.Patch.Runs

/-!
# Which members a script reaches by the path of a pointer
-/

namespace StacCatalog.Patch

open List

variable {c : Char} {keys : List (List Char)}

/-! ### Replacing a key -/

theorem replaceKey_skip (key : List Char) (skip : Nat) (cs : List Char) :
    replaceKey key skip cs = replaceKey key 0 (cs.drop skip) := by
  induction skip generalizing cs with
  | zero => rfl
  | succ skip ih =>
    cases cs with
    | nil => rfl
    | cons c rest => rw [replaceKey, ih, drop_succ_cons]

theorem prefix_of_prefix_append {key front rest : List Char} (hkey : ∀ c ∈ key, isMark c = false)
    (hrest : ∀ c ∈ rest.head?, isMark c = true) (h : key <+: front ++ rest) : key <+: front := by
  rcases prefix_or_prefix_of_prefix h (prefix_append front rest) with hfront | ⟨more, rfl⟩
  · exact hfront
  · cases more with
    | nil => simp
    | cons c more =>
      have hmore : c :: more <+: rest := (prefix_append_right_inj front).mp h
      obtain ⟨tail, rfl⟩ := hmore
      have hmark := hrest c rfl
      rw [hkey c (by simp)] at hmark
      cases hmark

section Replace

variable {key name rest : List Char} (hkey : Undivided key)

include hkey

theorem not_isPrefixOf_mark (hc : isMark c = true) (rest : List Char) :
    ¬ key.isPrefixOf (c :: rest) = true := by
  intro h
  obtain ⟨k, more, rfl⟩ := exists_cons_of_ne_nil hkey.ne_nil
  rw [(cons_prefix_cons.mp ( isPrefixOf_iff_prefix.mp h)).1] at hkey
  exact hkey.notMem hc mem_cons_self

theorem replaceKey_mark (hc : isMark c = true) (hpoint : c ≠ '.') (rest : List Char) :
    replaceKey key 0 (c :: rest) = c :: replaceKey key 0 rest := by
  have hpoint' : ¬ ('.' :: key).isPrefixOf (c :: rest) = true := by
    simp [Ne.symm hpoint]
  rw [replaceKey, if_neg hpoint', if_neg (not_isPrefixOf_mark hkey hc rest)]

theorem replaceKey_append (hname : ¬ key <:+: name) (hpoint : '.' ∉ name)
    (hrest : ∀ c ∈ rest.head?, isMark c = true) :
    replaceKey key 0 (name ++ rest) = name ++ replaceKey key 0 rest := by
  induction name with
  | nil => rfl
  | cons c name ih =>
    rw [infix_cons_iff, not_or] at hname
    rw [mem_cons, not_or] at hpoint
    have hpoint' : ¬ ('.' :: key).isPrefixOf (c :: (name ++ rest)) = true := by
      simp [hpoint.1]
    have hstarts : ¬ key.isPrefixOf (c :: (name ++ rest)) = true := by
      rw [ isPrefixOf_iff_prefix]
      intro h
      rw [← cons_append] at h
      exact hname.1 (prefix_of_prefix_append hkey.no_mark hrest h)
    rw [cons_append, replaceKey, if_neg hpoint', if_neg hstarts, ih hname.2 hpoint.2, cons_append]

theorem replaceKey_point (hname : ¬ key <:+: name) (hpoint : '.' ∉ name)
    (hrest : ∀ c ∈ rest.head?, isMark c = true) :
    replaceKey key 0 ('.' :: (name ++ rest)) = '.' :: (name ++ replaceKey key 0 rest) := by
  have hpoint' : ¬ ('.' :: key).isPrefixOf ('.' :: (name ++ rest)) = true := by
    rw [ isPrefixOf_iff_prefix, cons_prefix_cons]
    exact fun h => hname (prefix_of_prefix_append hkey.no_mark hrest h.2).isInfix
  rw [replaceKey, if_neg hpoint', if_neg (not_isPrefixOf_mark hkey (by decide) _),
    replaceKey_append hkey hname hpoint hrest]

theorem replaceKey_indexed (hname : ¬ key <:+: name) (hpoint : '.' ∉ name) (rest : List Char) :
    replaceKey key 0 (indexed name ++ rest) = indexed name ++ replaceKey key 0 rest := by
  have hshape (rest) : indexed name ++ rest = '[' :: '\'' :: (name ++ '\'' :: ']' :: rest) := by
    simp [indexed]
  have hquote : ∀ c ∈ ('\'' :: ']' :: rest).head?, isMark c = true := by
    intro c hc
    cases hc
    decide
  rw [hshape, hshape, replaceKey_mark hkey (by decide) (by decide), replaceKey_mark hkey
    (by decide) (by decide), replaceKey_append hkey hname hpoint hquote, replaceKey_mark hkey
    (by decide) (by decide), replaceKey_mark hkey (by decide) (by decide)]

theorem replaceKey_self (rest : List Char) :
    replaceKey key 0 (key ++ rest) = indexed key ++ replaceKey key 0 rest ∧
    replaceKey key 0 ('.' :: (key ++ rest)) = indexed key ++ replaceKey key 0 rest := by
  constructor
  · obtain ⟨k, more, rfl⟩ := exists_cons_of_ne_nil hkey.ne_nil
    have hk : k ≠ '.' := by
      rintro rfl
      exact hkey.notMem (by decide) mem_cons_self
    have hpoint : ¬ ('.' :: k :: more).isPrefixOf (k :: (more ++ rest)) = true := by
      simp [Ne.symm hk]
    have hstarts : (k :: more).isPrefixOf (k :: (more ++ rest)) = true := by
      simp
    rw [cons_append, replaceKey, if_neg hpoint, if_pos hstarts, replaceKey_skip]
    simp
  · have hstarts : ('.' :: key).isPrefixOf ('.' :: (key ++ rest)) = true := by
      simp
    rw [replaceKey, if_pos hstarts, replaceKey_skip]
    simp

end Replace

/-! ### Spelling keys -/

/-- A key, behind a point or at the beginning of a path, if the keys of a list are in brackets. -/
def spelled (point : List Char) (done : List (List Char)) (key : List Char) : List Char :=
  if key ∈ done then indexed key else point ++ key

/-- A path, if the keys of a list are in brackets. -/
def spelledPath (done : List (List Char)) : List (List Char) → List Char
  | [] => []
  | key :: rest => spelled [] done key ++ rest.flatMap (spelled ['.'] done)

theorem spelledPath_nil (keys : List (List Char)) :
    spelledPath [] keys = ['.'].intercalate keys := by
  cases keys with
  | nil => rfl
  | cons key rest =>
    induction rest generalizing key with
    | nil => simp [spelledPath, spelled, intercalate]
    | cons next rest ih =>
      rw [intercalate_cons_cons, ← ih]
      simp [spelledPath, spelled]

theorem isMark_head_spelled (done keys : List (List Char)) :
    ∀ c ∈ (keys.flatMap (spelled ['.'] done)).head?, isMark c = true := by
  intro c hc
  cases keys with
  | nil => cases hc
  | cons key keys =>
    rw [flatMap_cons, spelled] at hc
    split at hc
    all_goals
      cases hc
      decide

section Spell

variable {key : List Char} {done : List (List Char)} {keys : List (List Char)}

theorem replaceKey_spelled (hkey : Undivided key) (hdone : key ∉ done) {other : List Char}
    (hother : Undivided other) (hapart : key <:+: other → key = other) {rest : List Char}
    (hrest : ∀ c ∈ rest.head?, isMark c = true) {point : List Char}
    (hpoint : point = [] ∨ point = ['.']) :
    replaceKey key 0 (spelled point done other ++ rest) =
      spelled point (done ++ [key]) other ++ replaceKey key 0 rest := by
  by_cases hsame : key = other
  · subst hsame
    rw [spelled, if_neg hdone, spelled, if_pos (by simp)]
    rcases hpoint with rfl | rfl
    · exact (replaceKey_self hkey rest).1
    · exact (replaceKey_self hkey rest).2
  · have hwithin : ¬ key <:+: other := fun h => hsame (hapart h)
    have hno : '.' ∉ other := hother.notMem (by decide)
    by_cases hmem : other ∈ done
    · rw [spelled, if_pos hmem, spelled, if_pos (by simp [hmem]),
        replaceKey_indexed hkey hwithin hno]
    · rw [spelled, if_neg hmem, spelled, if_neg (by simp [hmem, Ne.symm hsame])]
      rcases hpoint with rfl | rfl
      · exact replaceKey_append hkey hwithin hno hrest
      · exact replaceKey_point hkey hwithin hno hrest

theorem replaceKey_spelledPath (hkey : Undivided key) (hdone : key ∉ done)
    (hkeys : ∀ other ∈ keys, Undivided other)
    (hapart : ∀ other ∈ keys, key <:+: other → key = other) :
    replaceKey key 0 (spelledPath done keys) = spelledPath (done ++ [key]) keys := by
  have hbehind : ∀ keys : List (List Char), (∀ other ∈ keys, Undivided other) →
      (∀ other ∈ keys, key <:+: other → key = other) →
      replaceKey key 0 (keys.flatMap (spelled ['.'] done)) =
        keys.flatMap (spelled ['.'] (done ++ [key])) := by
    intro keys
    induction keys with
    | nil => exact fun _ _ => rfl
    | cons other keys ih =>
      intro hkeys hapart
      obtain ⟨hother, hkeys⟩ := forall_mem_cons.mp hkeys
      obtain ⟨hhere, hapart⟩ := forall_mem_cons.mp hapart
      rw [flatMap_cons, flatMap_cons,
        replaceKey_spelled hkey hdone hother hhere (isMark_head_spelled done keys) (.inr rfl),
          ih hkeys hapart]
  cases keys with
  | nil => rfl
  | cons other keys =>
    obtain ⟨hother, hkeys⟩ := forall_mem_cons.mp hkeys
    obtain ⟨hhere, hapart⟩ := forall_mem_cons.mp hapart
    rw [spelledPath, replaceKey_spelled hkey hdone hother hhere
      (isMark_head_spelled done keys) (.inl rfl), hbehind keys hkeys hapart, spelledPath]

theorem bracketed_spelledPath {order : List (List Char)} (horder : ∀ key ∈ order, Undivided key)
    (hnodup : (done ++ order).Nodup) (hkeys : ∀ other ∈ keys, Undivided other)
    (hapart : ∀ key ∈ order, ∀ other ∈ keys, key <:+: other → key = other) :
    bracketed order (spelledPath done keys) = spelledPath (done ++ order) keys := by
  induction order generalizing done with
  | nil => simp [bracketed]
  | cons key order ih =>
    obtain ⟨hkey, horder⟩ := forall_mem_cons.mp horder
    obtain ⟨hhere, hapart⟩ := forall_mem_cons.mp hapart
    have hdone : key ∉ done := fun hmem =>
        (nodup_append.mp hnodup).2.2 key hmem key mem_cons_self rfl
    have hassoc : done ++ key :: order = done ++ [key] ++ order := by simp
    rw [hassoc] at hnodup
    rw [bracketed, foldl_cons, replaceKey_spelledPath hkey hdone hkeys hhere, ← bracketed,
      ih horder hnodup hapart, hassoc]

end Spell

theorem indexedPart?_of_undivided {key : List Char} (hkey : Undivided key) :
    indexedPart? key = if ':' ∈ key then some key else none := by
  by_cases hcolon : ':' ∈ key
  · obtain ⟨front, after, rfl, hno⟩ := exists_last hcolon
    have hbracket : '[' ∉ after := fun hmem => hkey.notMem (by decide)
        (mem_append_right _ (mem_cons_of_mem _ hmem))
    rw [indexedPart?_append hno, takeWhile_eq_self_iff.mpr (bne_of_notMem hbracket), if_pos hcolon]
  · rw [indexedPart?_of_notMem hcolon, if_neg hcolon]

theorem isMark_of_isKeyBreak (h : isKeyBreak c = true) : isMark c = true := by
  simp only [isKeyBreak, Bool.or_eq_true, beq_iff_eq] at h
  rcases h with (rfl | rfl) | rfl <;> decide

theorem splitOnP_intercalate (hne : keys ≠ []) (hkeys : ∀ key ∈ keys, Undivided key) :
    (['.'].intercalate keys).splitOnP isKeyBreak = keys := by
  have hbreak : ∀ key ∈ keys, ∀ c ∈ key, isKeyBreak c = false := by
    intro key hkey c hc
    rw [Bool.eq_false_iff]
    intro h
    exact (hkeys key hkey).notMem (isMark_of_isKeyBreak h) hc
  clear hkeys
  induction keys with
  | nil => exact absurd rfl hne
  | cons key rest ih =>
    obtain ⟨hkey, hrest⟩ := forall_mem_cons.mp hbreak
    cases rest with
    | nil => simpa [intercalate] using splitOnP_eq_singleton hkey
    | cons next rest =>
      rw [intercalate_cons_cons, append_assoc, singleton_append,
        splitOnP_append_cons_of_forall_mem hkey _ (by decide), ih (cons_ne_nil _ _) hrest]

theorem indexedKeys_intercalate (hkeys : ∀ key ∈ keys, Undivided key) :
    indexedKeys (['.'].intercalate keys) = (keys.filter (':' ∈ ·)).eraseDups := by
  by_cases hne : keys = []
  · subst hne
    rfl
  · rw [indexedKeys, splitOnP_intercalate hne hkeys]
    clear hne
    congr 1
    induction keys with
    | nil => rfl
    | cons key rest ih =>
      obtain ⟨hkey, hrest⟩ := forall_mem_cons.mp hkeys
      rw [filterMap_cons, indexedPart?_of_undivided hkey, ih hrest]
      by_cases hcolon : ':' ∈ key <;> simp [hcolon]

/-! ### Places of members -/

/-- Keys that a path in a script reaches: the first has no colon, and no key with a colon stands in
another. -/
structure Addressable (keys : List (List Char)) : Prop where
  first : ∀ key ∈ keys.head?, ':' ∉ key
  apart : ∀ key ∈ keys, ∀ other ∈ keys, ':' ∈ key → key <:+: other → key = other

instance (keys : List (List Char)) : Decidable (Addressable keys) :=
  decidable_of_iff
    ((∀ key ∈ keys.head?, ':' ∉ key) ∧ ∀ key ∈ keys, ∀ other ∈ keys, ':' ∈ key →
      key <:+: other → key = other)
    ⟨fun h => ⟨h.1, h.2⟩, fun h => ⟨h.first, h.apart⟩⟩

/-- A key that is searched for as it is, where it is put in brackets. -/
def Literal (key : List Char) : Prop :=
  ':' ∈ key → key.any isPatternChar = false

instance (key : List Char) : Decidable (Literal key) :=
  inferInstanceAs (Decidable (_ → _))

section Order

variable {keys order : List (List Char)} (hkeys : ∀ key ∈ keys, Undivided key)
  (horder : order.Perm (indexedKeys (['.'].intercalate keys)))

include hkeys horder

theorem mem_order_iff {key : List Char} : key ∈ order ↔ key ∈ keys ∧ ':' ∈ key := by
  rw [horder.mem_iff, indexedKeys_intercalate hkeys]
  simp [mem_eraseDups]

theorem undivided_of_mem_order : ∀ key ∈ order, Undivided key :=
  fun key hkey => hkeys key ((mem_order_iff hkeys horder).mp hkey).1

theorem bracketed_eq
    (hapart : ∀ key ∈ keys, ∀ other ∈ keys, ':' ∈ key → key <:+: other → key = other) :
    bracketed order (['.'].intercalate keys) = spelledPath order keys := by
  have hnodup : order.Nodup := by
    rw [horder.nodup_iff, indexedKeys_intercalate hkeys]
    exact nodup_eraseDups _
  rw [← spelledPath_nil, bracketed_spelledPath (undivided_of_mem_order hkeys horder)
    (by simpa using hnodup) hkeys, nil_append]
  intro key hkey other hother
  obtain ⟨hmem, hcolon⟩ := (mem_order_iff hkeys horder).mp hkey
  exact hapart key hmem other hother hcolon

/-- If the first key has no colon, the path behind a point is the chain of the accessors. -/
theorem point_spelledPath (hne : keys ≠ []) (hfirst : ∀ key ∈ keys.head?, ':' ∉ key) :
    '.' :: spelledPath order keys = keys.flatMap accessor := by
  have hspelled : ∀ key ∈ keys, spelled ['.'] order key = accessor key := by
    intro key hkey
    have hmem : key ∈ order ↔ ':' ∈ key := by simp [mem_order_iff hkeys horder, hkey]
    simp [spelled, accessor, hmem]
  cases keys with
  | nil => exact absurd rfl hne
  | cons key rest =>
    have hkey : key ∉ order := fun hmem => hfirst key rfl ((mem_order_iff hkeys horder).mp hmem).2
    obtain ⟨hhere, hrest⟩ := forall_mem_cons.mp hspelled
    rw [flatMap_cons, ← hhere, spelledPath, flatMap_congr hrest]
    simp [spelled, hkey]

/-- If the keys are left whole, none with a colon stands in another. -/
theorem apart_of_words (hwords : words (bracketed order (['.'].intercalate keys)) = keys) :
    ∀ key ∈ keys, ∀ other ∈ keys, ':' ∈ key → key <:+: other → key = other := by
  intro key hkey other hother hcolon hwithin
  -- The other key is a run, and in no run but its own the key has been left.
  rw [← hwords] at hother
  have hrun := (mem_filter.mp hother).1
  have horderKey : key ∈ order := (mem_order_iff hkeys horder).mpr ⟨hkey, hcolon⟩
  exact (eq_of_infix_run_bracketed (undivided_of_mem_order hkeys horder) horderKey hrun
    hwithin).symm

/-- The path behind a point, with more accessors behind it, is read as its keys exactly if they are
addressable. -/
theorem accessors_bracketed_iff (hne : keys ≠ []) {more : List (List Char)}
    (hmore : ∀ key ∈ more, Undivided key) :
    accessors ('.' :: bracketed order (['.'].intercalate keys) ++ more.flatMap accessor) =
        (keys ++ more, []) ↔ Addressable keys := by
  have hall : ∀ key ∈ keys ++ more, Undivided key := forall_mem_append.mpr ⟨hkeys, hmore⟩
  constructor
  · intro hread
    have hwords := accessors_eq_words (by rw [hread]) (by rw [hread]; exact hall)
    rw [hread, cons_append, words_point, words_append (isMark_head_flatMap_accessor more),
      words_flatMap_accessor hmore] at hwords
    refine ⟨fun key hkey hcolon => ?_, apart_of_words hkeys horder
      (append_cancel_right hwords).symm⟩
    have hhead : key ∈ (keys ++ more).head? := by
      rwa [head?_append_of_ne_nil _ hne]
    have hname := isNameChar_of_accessors_point (by rw [← cons_append, hread]; exact hhead) _ hcolon
    revert hname
    decide
  · intro h
    rw [bracketed_eq hkeys horder h.apart, point_spelledPath hkeys horder hne
      h.first, ← flatMap_append, accessors_flatMap hall]

end Order

/-! ### Pointers to members -/

def pointerTo (keys : List String) : String :=
  "/" ++ "/".intercalate keys

theorem map_intercalate_slash (h : ∀ key ∈ keys, '/' ∉ key) :
    (['/'].intercalate keys).map (fun c => if c = '/' then '.' else c) =
      ['.'].intercalate keys := by
  have hkey : ∀ key ∈ keys, key.map (fun c => if c = '/' then '.' else c) = key := by
    intro key hkey
    conv_rhs => rw [← map_id key]
    refine map_congr_left fun c hc => if_neg ?_
    rintro rfl
    exact h key hkey hc
  rw [map_intercalate, if_pos rfl, map_congr_left hkey, map_id']

theorem keysOf_pointerTo {keys : List String} (hne : keys ≠ [])
    (hkeys : ∀ key ∈ keys, PlainKey key) : keysOf (pointerTo keys) = keys := by
  have hchars : (pointerTo keys).toList = '/' :: ['/'].intercalate (keys.map String.toList) := by
    simp [pointerTo, String.toList_intercalate]
  have hslash : ∀ key ∈ keys.map String.toList, '/' ∉ key :=
    forall_mem_map.mpr fun key hkey => (hkeys key hkey).2.2
  have hpoint : ∀ key ∈ keys.map String.toList, '.' ∉ key :=
    forall_mem_map.mpr fun key hkey => (hkeys key hkey).2.1
  have hdrop : (['/'].intercalate (keys.map String.toList)).dropWhile (· == '/') =
      ['/'].intercalate (keys.map String.toList) := by
    -- The first key has a first character, which is no slash.
    obtain ⟨key, rest, rfl⟩ := exists_cons_of_ne_nil hne
    obtain ⟨hempty, -, hno⟩ := hkeys key mem_cons_self
    obtain ⟨c, cs, hcs⟩ := exists_cons_of_ne_nil (mt String.toList_eq_nil_iff.mp hempty)
    rw [hcs, mem_cons, not_or] at hno
    cases rest <;> simp [hcs, intercalate_cons_cons, Ne.symm hno.1]
  rw [keysOf, hchars, dropWhile_cons_of_pos (by decide), hdrop, map_intercalate_slash hslash,
    splitOn_intercalate '.' hpoint (by simpa using hne), map_map]
  simp

theorem Undivided.plainKey {key : String} (h : Undivided key.toList) : PlainKey key := by
  refine ⟨?_, h.notMem (by decide), h.notMem (by decide)⟩
  rintro rfl
  exact h.ne_nil rfl

section Members

variable {keys : List String} (hkeys : ∀ key ∈ keys, Undivided key.toList)
    {order : List (List Char)}

include hkeys

theorem undivided_map : ∀ key ∈ keys.map String.toList, Undivided key :=
  forall_mem_map.mpr hkeys

theorem keysOf_pointerTo_of_undivided (hne : keys ≠ []) : keysOf (pointerTo keys) = keys :=
  keysOf_pointerTo hne fun key hkey => (hkeys key hkey).plainKey

/-- In whatever order the keys with a colon are put in brackets, the path is read as its keys
exactly if they are addressable. -/
theorem placeOf?_bracketed_iff (hne : keys ≠ []) (horder : order.Perm (indexedKeys (joined keys))) :
    placeOf? ("ctx._source." ++ String.ofList (bracketed order (joined keys))) = some keys ↔
      Addressable (keys.map String.toList) := by
  have hsource (text : String) : "ctx._source." ++ text = "ctx._source" ++ ("." ++ text) := by
    rw [← String.append_assoc]
    rfl
  have hpoint (path : List Char) : ("." ++ String.ofList path).toList = '.' :: path := by
    simp
  have hiff := accessors_bracketed_iff (undivided_map hkeys) horder (by simpa using hne)
      (forall_mem_nil Undivided)
  rw [flatMap_nil, append_nil, append_nil] at hiff
  rwa [hsource, placeOf?_eq_some_iff, hpoint]

variable (hliteral : ∀ key ∈ keys, Literal key.toList)

include hliteral

theorem foldlM_joined (horder : order.Perm (indexedKeys (joined keys))) :
    order.foldlM writeIndexed (joined keys) = .ok (bracketed order (joined keys)) := by
  refine foldlM_writeIndexed _ fun key hkey => ?_
  obtain ⟨hmem, hcolon⟩ := (mem_order_iff (undivided_map hkeys) horder).mp hkey
  obtain ⟨name, hname, rfl⟩ := mem_map.mp hmem
  exact hliteral name hname hcolon

theorem scriptChars_joined :
    scriptChars (joined keys) = .ok (bracketed (indexedKeys (joined keys)) (joined keys)) :=
  foldlM_joined hkeys hliteral (List.Perm.refl _)

theorem nestChars_joined : nestChars (joined keys) = .ok (if keys = [] then []
      else '.' :: bracketed (indexedKeys (joined keys)) (joined keys)) := by
  unfold nestChars
  cases keys with
  | nil => rfl
  | cons key rest =>
    have hempty : (joined (key :: rest)).isEmpty = false := by
      have hkey := (hkeys key mem_cons_self).ne_nil
      cases rest <;> simp [joined, intercalate_cons_cons, hkey]
    rw [hempty, scriptChars_joined hkeys hliteral]
    rfl

end Members

section Pointers

variable {front : List String} {last : String}
    (hkeys : ∀ key ∈ front ++ [last], Undivided key.toList)
  (hliteral : ∀ key ∈ front ++ [last], Literal key.toList)

include hkeys hliteral

theorem exists_ofPointer_iff (hlast : ∀ n, position? last.toList ≠ .ok (some n)) :
    (∃ p, Path.ofPointer (pointerTo (front ++ [last])) = .ok p) ↔ numeric last.toList = false := by
  have hread := keysOf_pointerTo_of_undivided hkeys (by simp)
  have hwritable : Writable (joined (front ++ [last])) := by
    intro key hkey hpattern
    obtain ⟨hmem, hcolon⟩ := (mem_order_iff (undivided_map hkeys) (List.Perm.refl _)).mp hkey
    obtain ⟨name, hname, rfl⟩ := mem_map.mp hmem
    rw [hliteral name hname hcolon] at hpattern
    cases hpattern
  rw [exists_path_iff, hread, lastKey_eq hread,
    and_iff_right hwritable, ← position?_eq_none_iff hlast]
  constructor
  · rintro ⟨n, hn⟩
    cases n with
    | none => exact hn
    | some n => exact absurd hn (hlast n)
  · exact fun hnone => ⟨none, hnone⟩

end Pointers

/-- **Addressing.** A script reaches a member by the keys of its pointer, unless the first key has a
colon or a key with a colon stands in another key. Such keys are not reached in whatever order they
are put in brackets. And the pointer is accepted, unless the last key is made of dashes and digits
without being a position. -/
theorem scriptPath_reaches_iff {keys : List String} (hne : keys ≠ [])
    (hkeys : ∀ key ∈ keys, Undivided key.toList) (hliteral : ∀ key ∈ keys, Literal key.toList)
    (hlast : ∀ last ∈ keys.getLast?, ∀ n, position? last.toList ≠ .ok (some n)) :
    ((∃ p, Path.ofPointer (pointerTo keys) = .ok p) ↔
      ∀ last ∈ keys.getLast?, Text.allDigits (last.toList.dropWhile (· == '-')) = false) ∧
    (∀ p, Path.ofPointer (pointerTo keys) = .ok p →
      (placeOf? ("ctx._source." ++ p.scriptPath) = some keys ↔
        Addressable (keys.map String.toList))) ∧
    ∀ order : List (List Char), order.Perm (indexedKeys (joined keys)) →
      ∃ path, order.foldlM writeIndexed (joined keys) = .ok path ∧
        (placeOf? ("ctx._source." ++ String.ofList path) = some keys ↔
          Addressable (keys.map String.toList)) := by
  obtain ⟨front, last, rfl⟩ := (List.eq_nil_or_concat keys).resolve_left hne
  simp only [List.concat_eq_append, List.getLast?_concat, Option.mem_some_iff, forall_eq'] at *
  refine ⟨exists_ofPointer_iff hkeys hliteral hlast, ?_, ?_⟩
  · intro p hp
    have hread := keysOf_pointerTo_of_undivided hkeys hne
    have hnone := (position?_eq_none_iff hlast).mpr
        ((exists_ofPointer_iff hkeys hliteral hlast).mp ⟨p, hp⟩)
    obtain ⟨-, hparts, hscript, -⟩ := (Path.ofPointer_member_iff hread hnone).mp hp
    rw [(Prod.mk.inj hparts).1, scriptChars_joined hkeys hliteral] at hscript
    rw [← String.ofList_toList (s := p.scriptPath), ← Except.ok.inj hscript]
    exact placeOf?_bracketed_iff hkeys hne (List.Perm.refl _)
  · intro order horder
    exact ⟨_, foldlM_joined hkeys hliteral horder, placeOf?_bracketed_iff hkeys hne horder⟩

/-- Two keys of an extension are reached below `properties`, and not without it. -/
theorem scriptPath_reaches_iff_extension :
    (∃ p, Path.ofPointer "/properties/eo:bands/eo:gain" = .ok p ∧
      placeOf? ("ctx._source." ++ p.scriptPath) = some ["properties", "eo:bands", "eo:gain"]) ∧
    (∃ p, Path.ofPointer "/eo:bands/eo:gain" = .ok p ∧
      placeOf? ("ctx._source." ++ p.scriptPath) ≠ some ["eo:bands", "eo:gain"]) := by
  constructor
  · obtain ⟨haccepted, hplace, -⟩ := @scriptPath_reaches_iff ["properties", "eo:bands", "eo:gain"]
      (by decide) (by decide +kernel)
      (by decide +kernel) (by rintro _ ⟨⟩ n ⟨⟩)
    obtain ⟨p, hp⟩ := haccepted.mpr (by decide +kernel)
    exact ⟨p, hp, (hplace p hp).mpr (by decide +kernel)⟩
  · obtain ⟨haccepted, hplace, -⟩ := @scriptPath_reaches_iff ["eo:bands", "eo:gain"]
      (by decide) (by decide +kernel)
      (by decide +kernel) (by rintro _ ⟨⟩ n ⟨⟩)
    obtain ⟨p, hp⟩ := haccepted.mpr (by decide +kernel)
    exact ⟨p, hp, mt (hplace p hp).mp (by decide +kernel)⟩

-- A key that is no `Literal` is searched for as a pattern, and what it does not match is left
-- behind the brackets.
example :
    (Path.ofPointer "/properties/a:b+").toOption.map Path.scriptPath =
      some "properties['a:b+']+" := by
  decide +kernel

end StacCatalog.Patch
