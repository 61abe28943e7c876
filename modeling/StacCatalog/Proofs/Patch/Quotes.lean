import StacCatalog.Proofs.Patch.Script
import StacCatalog.Proofs.Placement.Database

/-!
# Quotes in a script, and what stands outside of them
-/

namespace StacCatalog.Patch

open List

variable {skip : Nat} {c : Char} {pointer : String} {cs : List Char}

/-! ### Outside of quotes -/

/-- Whether a text has an odd number of quotes. -/
def opens (cs : List Char) : Bool :=
  cs.count '\'' % 2 == 1

/-- What stands outside of quotes, with the quotes themselves. -/
def outside (quoted : Bool) : List Char → List Char
  | [] => []
  | c :: rest =>
    if c = '\'' then c :: outside (!quoted) rest
    else if quoted then outside quoted rest
    else c :: outside quoted rest

example :
    outside false "if (a)\x7bexplain('no a');\x7d".toList =
      "if (a)\x7bexplain('');\x7d".toList := by
  decide

theorem opens_append (xs ys : List Char) : opens (xs ++ ys) = (opens xs ^^ opens ys) := by
  have hx := Nat.mod_two_eq_zero_or_one (xs.count '\'')
  have hy := Nat.mod_two_eq_zero_or_one (ys.count '\'')
  unfold opens
  rw [count_append, Nat.add_mod]
  rcases hx with hx | hx <;> rcases hy with hy | hy <;> simp [hx, hy]

theorem opens_cons (c : Char) (cs : List Char) :
    opens (c :: cs) = (decide (c = '\'') ^^ opens cs) := by
  rw [← singleton_append, opens_append]
  by_cases hc : c = '\'' <;> simp [opens, hc]

theorem opens_of_notMem (h : '\'' ∉ cs) : opens cs = false := by
  unfold opens
  rw [count_eq_zero.mpr h]
  rfl

theorem outside_append (quoted : Bool) (xs ys : List Char) :
    outside quoted (xs ++ ys) = outside quoted xs ++ outside (quoted ^^ opens xs) ys := by
  induction xs generalizing quoted with
  | nil => simp [outside, opens]
  | cons c xs ih =>
    rw [cons_append, outside, outside, opens_cons, ih, ih]
    by_cases hc : c = '\''
    · simp [hc]
    · cases quoted <;> simp [hc]

theorem outside_quoted_of_notMem (h : '\'' ∉ cs) : outside true cs = [] := by
  induction cs with
  | nil => rfl
  | cons c cs ih =>
    rw [mem_cons, not_or] at h
    rw [outside, if_neg (Ne.symm h.1), if_pos rfl, ih h.2]

theorem count_outside (quoted : Bool) (cs : List Char) :
    (outside quoted cs).count '\'' = cs.count '\'' := by
  induction cs generalizing quoted with
  | nil => rfl
  | cons c cs ih =>
    rw [outside]
    by_cases hc : c = '\''
    · rw [if_pos hc, hc, count_cons_self, count_cons_self, ih]
    · rw [if_neg hc, count_cons_of_ne hc]
      split
      · exact ih quoted
      · rw [count_cons_of_ne hc, ih]

theorem opens_indexed {key : List Char} (h : '\'' ∉ key) : opens (indexed key) = false := by
  unfold indexed
  rw [opens_append, opens_append, opens_of_notMem h]
  rfl

theorem opens_replaceKey {key : List Char} (hkey : key ≠ []) (h : '\'' ∉ key) (skip : Nat)
    (cs : List Char) : opens (replaceKey key skip cs) = opens (cs.drop skip) := by
  fun_induction replaceKey key skip cs with
  | case1 => simp
  | case2 skip c rest ih => rw [drop_succ_cons, ih]
  | case3 c rest hstarts ih =>
    -- A point and the key are taken away, which have no quotes.
    obtain ⟨tail, htail⟩ := isPrefixOf_iff_prefix.mp hstarts
    have hpoint : '\'' ∉ '.' :: key := by simpa using h
    rw [opens_append, opens_indexed h, ih, drop_zero, ← htail, opens_append, opens_of_notMem hpoint,
      ← (cons.inj htail).2]
    exact congrArg (fun text => (false ^^ opens text)) drop_left
  | case4 c rest _ hstarts ih =>
    obtain ⟨tail, htail⟩ := isPrefixOf_iff_prefix.mp hstarts
    rw [opens_append, opens_indexed h, ih, drop_zero, ← htail, opens_append, opens_of_notMem h]
    cases key with
    | nil => exact absurd rfl hkey
    | cons k key =>
      rw [← (cons.inj htail).2]
      exact congrArg (fun text => (false ^^ opens text)) drop_left
  | case5 c rest _ _ ih => rw [opens_cons, ih, drop_zero, drop_zero, opens_cons]

theorem mem_replaceKey {key cs : List Char} (h : c ∈ replaceKey key skip cs) :
    c ∈ cs ∨ c ∈ key ∨ c ∈ "[']".toList := by
  have hindexed : c ∈ indexed key → c ∈ key ∨ c ∈ "[']".toList := by
    intro hc
    unfold indexed at hc
    rw [mem_append, mem_append] at hc
    rcases hc with (hc | hc) | hc
    · have hopening : "['".toList <+: "[']".toList := ⟨[']'], by decide⟩
      exact .inr (hopening.subset hc)
    · exact .inl hc
    · have hclosing : "']".toList <:+ "[']".toList := ⟨['['], by decide⟩
      exact .inr (hclosing.subset hc)
  fun_induction replaceKey key skip cs with
  | case1 => cases h
  | case2 skip d rest ih => exact (ih h).imp_left (mem_cons_of_mem _)
  | case3 d rest _ ih | case4 d rest _ _ ih =>
    rcases mem_append.mp h with hc | hc
    · exact .inr (hindexed hc)
    · exact (ih hc).imp_left (mem_cons_of_mem _)
  | case5 d rest _ _ ih =>
    rcases mem_cons.mp h with rfl | hc
    · exact .inl mem_cons_self
    · exact (ih hc).imp_left (mem_cons_of_mem _)

theorem replaceKey_of_notMem {key cs : List Char} (h : '\'' ∉ replaceKey key skip cs) :
    replaceKey key skip cs = cs.drop skip := by
  have hindexed : '\'' ∈ indexed key := by
    unfold indexed
    simp
  fun_induction replaceKey key skip cs with
  | case1 => simp
  | case2 skip d rest ih => exact ih h
  | case3 d rest _ ih | case4 d rest _ _ ih => exact absurd (mem_append_left _ hindexed) h
  | case5 d rest _ _ ih =>
    rw [mem_cons, not_or] at h
    rw [ih h.2, drop_zero, drop_zero]

/-! ### Keys of a path -/

theorem indexedPart?_append {after : List Char} (h : ':' ∉ after) (front : List Char) :
    indexedPart? (front ++ ':' :: after) = some (front ++ ':' :: after.takeWhile (· != '[')) := by
  have hwhole : front ++ ':' :: after = (front ++ [':']) ++ after := by simp
  have htake := takeWhile_reverse h front
  unfold indexedPart? throughLastColon
  dsimp only
  rw [htake, hwhole, length_append, length_reverse, Nat.add_sub_cancel, take_left, if_neg (by simp),
    reverse_reverse]
  simp

theorem indexedPart?_of_notMem (h : ':' ∉ cs) : indexedPart? cs = none := by
  unfold indexedPart? throughLastColon
  dsimp only
  rw [takeWhile_reverse_of_notMem h, length_reverse, if_pos rfl, Option.map_none]

/-- A key that is written as an index: up to its last colon, and on without a bracket. -/
theorem indexedPart?_eq_some {part key : List Char} (h : indexedPart? part = some key) :
    ∃ front after, key = front ++ ':' :: after ∧ '[' ∉ after ∧ key <+: part := by
  by_cases hcolon : ':' ∈ part
  · obtain ⟨front, after, rfl, hno⟩ := exists_last hcolon
    rw [indexedPart?_append hno] at h
    cases h
    refine ⟨front, _, rfl, fun hmem => ?_, ?_⟩
    · simpa using mem_takeWhile_imp hmem
    · exact (prefix_append_right_inj _).mpr (cons_prefix_cons.mpr ⟨rfl, takeWhile_prefix _⟩)
  · rw [indexedPart?_of_notMem hcolon] at h
    cases h

theorem mem_indexedKeys {cs key : List Char} :
    key ∈ indexedKeys cs ↔ ∃ part ∈ cs.splitOnP isKeyBreak, indexedPart? part = some key := by
  rw [indexedKeys, mem_eraseDups, mem_filterMap]

theorem subset_of_mem_indexedKeys {cs key : List Char} (h : key ∈ indexedKeys cs) :
    ∀ c ∈ key, c ∈ cs := by
  obtain ⟨part, hpart, hindexed⟩ := mem_indexedKeys.mp h
  obtain ⟨-, -, -, -, hstarts⟩ := indexedPart?_eq_some hindexed
  exact fun c hc => (of_mem_splitOnP hpart).1.subset (hstarts.subset hc)

theorem foldlM_writeIndexed {keys : List (List Char)} (path : List Char)
    (h : ∀ key ∈ keys, key.any isPatternChar = false) :
    keys.foldlM writeIndexed path = .ok (bracketed keys path) := by
  induction keys generalizing path with
  | nil => rfl
  | cons key keys ih =>
    obtain ⟨hkey, hrest⟩ := forall_mem_cons.mp h
    rw [foldlM_cons, writeIndexed, hkey, bracketed, foldl_cons]
    exact ih _ hrest

/-- A text whose keys, where they are written as indices, are searched for as they are. A bracket
may stand in it, if no colon comes after it: then no key goes on to the bracket. -/
structure Searchable (cs : List Char) : Prop where
  unquoted : '\'' ∉ cs
  brackets : ¬ ['[', ':'].Sublist cs
  letters : ∀ c ∈ cs, isPatternChar c = true → c = '.' ∨ c = '['

namespace Searchable

variable {cs key out : List Char}

theorem of_mem_indexedKeys (h : Searchable cs) (hkey : key ∈ indexedKeys cs) :
    key ≠ [] ∧ '\'' ∉ key ∧ key.any isPatternChar = false := by
  obtain ⟨part, hpart, hindexed⟩ := mem_indexedKeys.mp hkey
  obtain ⟨hsub, hno⟩ := of_mem_splitOnP hpart
  obtain ⟨front, after, rfl, hafter, hstarts⟩ := indexedPart?_eq_some hindexed
  have hwhole : (front ++ ':' :: after).Sublist cs := hstarts.sublist.trans hsub
  refine ⟨by simp, fun hquote => h.unquoted (hwhole.subset hquote), ?_⟩
  rw [any_eq_false]
  intro c hc hpattern
  rcases h.letters c (hwhole.subset hc) hpattern with rfl | rfl
  · exact absurd (hno _ (hstarts.sublist.subset hc)) (by decide)
  · -- A bracket in the key would stand before its last colon.
    have hfront : '[' ∈ front := by
      rcases mem_append.mp hc with hfront | hrest
      · exact hfront
      · exact absurd ((mem_cons.mp hrest).resolve_left (by decide)) hafter
    have hpair : (['['] ++ [':']).Sublist (front ++ ':' :: after) :=
      (singleton_sublist.mpr hfront).append (singleton_sublist.mpr mem_cons_self)
    exact h.brackets (hpair.trans hwhole)

theorem scriptChars_eq (h : Searchable cs) : scriptChars cs = .ok (bracketed (indexedKeys cs) cs) :=
  foldlM_writeIndexed cs fun _ hkey => (h.of_mem_indexedKeys hkey).2.2

theorem opens_scriptChars (h : Searchable cs) (hout : scriptChars cs = .ok out) :
    opens out = false := by
  rw [h.scriptChars_eq] at hout
  rw [← Except.ok.inj hout]
  refine foldlRecOn (motive := fun out => opens out = false) _ _ (opens_of_notMem h.unquoted)
    fun path hpath key hkey => ?_
  obtain ⟨hne, hquote, -⟩ := h.of_mem_indexedKeys hkey
  rw [opens_replaceKey hne hquote, drop_zero, hpath]

theorem mem_scriptChars (h : Searchable cs) (hout : scriptChars cs = .ok out) (hc : c ∈ out) :
    c ∈ cs ∨ c ∈ "[']".toList := by
  rw [h.scriptChars_eq] at hout
  rw [← Except.ok.inj hout] at hc
  refine foldlRecOn (motive := fun out => ∀ c ∈ out, c ∈ cs ∨ c ∈ "[']".toList) _ _ (fun _ => .inl)
    (fun path hpath key hkey c hc => ?_) c hc
  rcases mem_replaceKey hc with hpathMem | hkeyMem | hindex
  · exact hpath c hpathMem
  · exact .inl (subset_of_mem_indexedKeys hkey c hkeyMem)
  · exact .inr hindex

theorem scriptChars_of_notMem (h : Searchable cs) (hout : scriptChars cs = .ok out)
    (hquote : '\'' ∉ out) : out = cs := by
  rw [h.scriptChars_eq] at hout
  rw [← Except.ok.inj hout] at hquote ⊢
  refine foldlRecOn (motive := fun out => '\'' ∉ out → out = cs) _ _ (fun _ => rfl)
    (fun path hpath key _ hquote => ?_) hquote
  have hsame := replaceKey_of_notMem hquote
  rw [hsame] at hquote ⊢
  exact hpath hquote

end Searchable

/-! ### Plain paths -/

theorem eq_point_of_plainChar (hplain : plainChar c = true) (hpattern : isPatternChar c = true) :
    c = '.' := by
  have hmem : c ∈ ".\\[\x7b()*+?^$|".toList := contains_iff_mem.mp hpattern
  have hall : (".\\[\x7b()*+?^$|".toList.all fun c => !plainChar c || c == '.') = true := by decide
  have hc := all_eq_true.mp hall c hmem
  rw [hplain] at hc
  exact eq_of_beq hc

/-- The characters of a whole number are digits, with a sign before them. -/
theorem mem_toString_int {n : Int} (h : c ∈ (toString n).toList) : c.isDigit = true ∨ c = '-' := by
  have hdigits : ∀ m : Nat, c ∈ m.repr.toList → c.isDigit = true := by
    intro m hm
    rw [Nat.repr_eq_ofList_toDigits, String.toList_ofList] at hm
    exact Nat.isDigit_of_mem_toDigits (by decide) (by decide) hm
  rw [Int.toString_eq_repr, Int.repr_eq_if] at h
  split at h
  · exact .inl (hdigits _ h)
  · rw [String.toList_append, mem_append] at h
    rcases h with h | h
    · exact .inr (mem_singleton.mp h)
    · exact .inl (hdigits _ h)

/-- The path of a pointer: its keys joined by points, of which a position stands in brackets at the
end. -/
theorem path_of_ofPointer {p : Path} (h : Path.ofPointer pointer = .ok p) :
    scriptChars p.path.toList = .ok p.scriptPath.toList ∧
    ∃ whole : List Char,
      whole = (pointer.toList.dropWhile (· == '/')).map (fun c => if c = '/' then '.' else c) ∧
      (p.path.toList = whole ∨ ∃ nest, nest <+: whole ∧ ∃ n : Int,
        p.path.toList = nest ++ '[' :: (toString n).toList ++ [']']) := by
  obtain ⟨-, hparts, hscript, -⟩ := Path.ofPointer_eq_ok_iff.mp h
  refine ⟨hscript, joined (keysOf pointer), joined_keysOf pointer, ?_⟩
  cases hposition : p.position with
  | none =>
    rw [hposition, partsAt] at hparts
    exact .inl (Prod.mk.inj hparts).1
  | some n =>
    rw [hposition, partsAt] at hparts
    exact .inr ⟨_, splitLast_prefix _, n, (Prod.mk.inj hparts).1⟩

theorem plainChar_of_mem_joined (hplain : plainPath pointer = true) :
    ∀ c ∈ joined (keysOf pointer), plainChar c = true := by
  intro c hc
  rw [joined_keysOf] at hc
  obtain ⟨d, hd, rfl⟩ := mem_map.mp hc
  have hd : plainChar d = true :=
    all_eq_true.mp (Bool.and_eq_true_iff.mp hplain).1 d ((dropWhile_sublist _).subset hd)
  split
  · rfl
  · exact hd

theorem searchable_of_plainPath {p : Path} (hplain : plainPath pointer = true)
    (h : Path.ofPointer pointer = .ok p) : Searchable p.path.toList := by
  obtain ⟨-, whole, hwhole, hpath⟩ := path_of_ofPointer h
  have hchars : ∀ c ∈ whole, plainChar c = true := by
    rw [hwhole, ← joined_keysOf]
    exact plainChar_of_mem_joined hplain
  have hquote : plainChar '\'' = false := by decide
  have hbracket : '[' ∉ whole := fun hc => absurd (hchars _ hc) (by decide)
  rcases hpath with hpath | ⟨nest, hnest, n, hpath⟩
  · rw [hpath]
    refine ⟨fun hc => ?_, fun hsub => hbracket (hsub.subset mem_cons_self), fun c hc hpattern => ?_⟩
    · rw [hchars _ hc] at hquote
      cases hquote
    · exact .inl (eq_point_of_plainChar (hchars c hc) hpattern)
  · have hnumber : ∀ c ∈ (toString n).toList, plainChar c = true ∧ c ≠ ':' := by
      intro c hc
      rcases mem_toString_int hc with hdigit | rfl
      · refine ⟨by simp [plainChar, Char.isAlphanum, hdigit], ?_⟩
        rintro rfl
        cases hdigit
      · decide
    have hcases : ∀ c ∈ p.path.toList, plainChar c = true ∨ c = '[' ∨ c = ']' := by
      intro c hc
      rw [hpath, mem_append, mem_append, mem_cons, mem_singleton] at hc
      rcases hc with (hc | rfl | hc) | rfl
      · exact .inl (hchars c (hnest.subset hc))
      · exact .inr (.inl rfl)
      · exact .inl (hnumber c hc).1
      · exact .inr (.inr rfl)
    refine ⟨fun hc => ?_, fun hsub => ?_, fun c hc hpattern => ?_⟩
    · exact absurd (hcases _ hc) (by decide)
    · -- The first bracket stands after the nest, and only the position comes after it.
      rw [hpath, append_assoc, sublist_append_iff] at hsub
      obtain ⟨first, second, hpair, hfirst, hsecond⟩ := hsub
      cases first with
      | nil =>
        rw [nil_append] at hpair
        subst hpair
        have hcolon := hsecond.subset (mem_cons_of_mem _ mem_cons_self)
        rw [cons_append, mem_cons, mem_append, mem_singleton] at hcolon
        rcases hcolon with hcolon | hcolon | hcolon
        · cases hcolon
        · exact (hnumber _ hcolon).2 rfl
        · cases hcolon
      | cons c first =>
        rw [cons_append, cons.injEq] at hpair
        exact hbracket (hnest.subset (hpair.1 ▸ hfirst.subset mem_cons_self))
    · rcases hcases c hc with hplain | rfl | rfl
      · exact .inl (eq_point_of_plainChar hplain hpattern)
      · exact .inr rfl
      · exact absurd hpattern (by decide)

end StacCatalog.Patch
