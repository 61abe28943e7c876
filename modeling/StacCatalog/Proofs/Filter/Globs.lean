import Mathlib.Data.List.Infix
import StacCatalog.Proofs.Filter.Escapes

/-!
# What LIKE patterns and wildcard patterns mean, and when translating them keeps it
-/

namespace StacCatalog.Filter

open List Piece

/-! ### Globs -/

/-- A sign of a pattern: any text, any character, or this one. -/
inductive Glob
  | any
  | one
  | char (c : Char)
  deriving DecidableEq, Repr

/-- Whether a text fits a pattern. Which characters are alike, case aside, is a parameter. -/
def fits (alike : Char → Char → Bool) : List Glob → List Char → Bool
  | [], text => text.isEmpty
  | .any :: globs, text => text.tails.any (fits alike globs)
  | .one :: globs, _ :: text => fits alike globs text
  | .char c :: globs, d :: text => alike c d && fits alike globs text
  | _ :: _, [] => false

/-- What a piece means, in a language with a sign for any text and one for any one character. A
backslash makes the character behind it literal, and stands for itself if there is none. -/
def Piece.glob (any one : Char) : Piece → Glob
  | plain c => if c = any then .any else if c = one then .one else .char c
  | escape c => .char c
  | bare => .char '\\'

/-- Whether a text matches a LIKE pattern. No text matches an ill-formed one. -/
def likeMatches (alike : Char → Char → Bool) (pattern text : String) : Bool :=
  (pieces pattern.toList).all (fun piece => !decide piece.IllFormed) &&
    fits alike ((pieces pattern.toList).map (glob '%' '_')) text.toList

def wildcardMatches (alike : Char → Char → Bool) (pattern text : String) : Bool :=
  fits alike ((pieces pattern.toList).map (glob '*' '?')) text.toList

/-! ### Texts that fit -/

section

variable {alike : Char → Char → Bool} {globs : List Glob} {text : List Char}

theorem fits_any :
    fits alike (.any :: globs) text = true ↔
      ∃ rest, rest <:+ text ∧ fits alike globs rest = true := by
  rw [fits, any_eq_true]
  simp only [mem_tails]

theorem fits_one :
    fits alike (.one :: globs) text = true ↔
      ∃ d rest, text = d :: rest ∧ fits alike globs rest = true := by
  cases text <;> simp [fits]

theorem fits_char {c : Char} : fits alike (.char c :: globs) text = true ↔
      ∃ d rest, text = d :: rest ∧ alike c d = true ∧ fits alike globs rest = true := by
  cases text <;> simp [fits]

/-- A text has the literal backslashes of every pattern that it fits, if nothing else is like a
backslash. -/
theorem count_backslash_le_of_fits (hback : ∀ c, alike '\\' c = true → c = '\\')
    (h : fits alike globs text = true) : globs.count (.char '\\') ≤ text.count '\\' := by
  induction globs generalizing text with
  | nil => exact Nat.zero_le _
  | cons glob globs ih =>
    cases glob with
    | any =>
      obtain ⟨rest, hrest, hfits⟩ := fits_any.mp h
      rw [count_cons_of_ne (by decide)]
      exact (ih hfits).trans (hrest.sublist.count_le _)
    | one =>
      obtain ⟨d, rest, rfl, hfits⟩ := fits_one.mp h
      rw [count_cons_of_ne (by decide)]
      exact (ih hfits).trans ((sublist_cons_self d rest).count_le _)
    | char c =>
      obtain ⟨d, rest, rfl, halike, hfits⟩ := fits_char.mp h
      by_cases hc : c = '\\'
      · subst hc
        rw [hback d halike, count_cons_self, count_cons_self]
        exact Nat.succ_le_succ (ih hfits)
      · rw [count_cons_of_ne (by simpa using hc)]
        exact (ih hfits).trans ((sublist_cons_self d rest).count_le _)

def shortest : List Glob → List Char
  | [] => []
  | .any :: globs => shortest globs
  | .one :: globs => 'a' :: shortest globs
  | .char c :: globs => c :: shortest globs

theorem fits_shortest (hrefl : ∀ c, alike c c = true) (globs : List Glob) :
    fits alike globs (shortest globs) = true := by
  fun_induction shortest globs with
  | case1 => rfl
  | case2 globs ih => exact fits_any.mpr ⟨_, suffix_rfl, ih⟩
  | case3 globs ih => exact fits_one.mpr ⟨_, _, rfl, ih⟩
  | case4 c globs ih => exact fits_char.mpr ⟨_, _, rfl, hrefl c, ih⟩

theorem count_backslash_shortest (globs : List Glob) :
    (shortest globs).count '\\' = globs.count (.char '\\') := by
  fun_induction shortest globs with
  | case1 => rfl
  | case2 globs ih => rw [count_cons_of_ne (by decide), ih]
  | case3 globs ih => rw [count_cons_of_ne (by decide), count_cons_of_ne (by decide), ih]
  | case4 c globs ih => simp [count_cons, ih]

end

/-! ### Backslashes -/

/-- A wildcard pattern has no more literal backslashes than characters that are backslashes, and
fewer if one of these is not the last character, since it takes the next character along. -/
theorem count_backslash_pieces (cs : List Char) :
    ((pieces cs).map (glob '*' '?')).count (.char '\\') ≤ cs.count '\\' ∧
    ('\\' ∈ cs.dropLast → ((pieces cs).map (glob '*' '?')).count (.char '\\') < cs.count '\\') := by
  fun_induction pieces cs with
  | case1 => simp
  | case2 => simp [glob]
  | case3 c rest ih =>
    have hfewer : ((escape c :: pieces rest).map (glob '*' '?')).count (.char '\\') <
        ('\\' :: c :: rest).count '\\' := by
      rw [map_cons, glob, count_cons, count_cons_self, count_cons]
      have hrest := ih.1
      grind
    exact ⟨hfewer.le, fun _ => hfewer⟩
  | case4 c rest hend hmore ih =>
    have hc : c ≠ '\\' := ne_backslash_of_unmatched hend hmore
    have hglob : glob '*' '?' (.plain c) ≠ .char '\\' := by
      unfold glob
      grind
    rw [map_cons, count_cons_of_ne hglob, count_cons_of_ne hc]
    refine ⟨ih.1, fun h => ih.2 ?_⟩
    cases rest with
    | nil => cases h
    | cons d rest =>
      rw [dropLast_cons_cons, mem_cons] at h
      exact h.resolve_left (Ne.symm hc)

section

variable {ps : List Piece}

/-- A well-formed pattern has as many literal backslashes as its translation has characters that are
backslashes. -/
theorem count_backslash_image (hplain : .plain '\\' ∉ ps)
    (hwell : ∀ piece ∈ ps, ¬ piece.IllFormed) :
    (ps.map (glob '%' '_')).count (.char '\\') = (ps.flatMap image).count '\\' := by
  induction ps with
  | nil => rfl
  | cons piece ps ih =>
    rw [mem_cons, not_or] at hplain
    have hpiece : [piece.glob '%' '_'].count (.char '\\') = piece.image.count '\\' := by
      have hfine := hwell piece mem_cons_self
      cases piece with
      | plain c =>
        have hc : c ≠ '\\' := fun hc => hplain.1 (by rw [hc])
        simp only [glob, image]
        grind
      | escape c =>
        simp only [Piece.IllFormed] at hfine
        simp only [glob, image]
        grind
      | bare => exact absurd trivial hfine
    rw [map_cons, flatMap_cons, count_append, ← singleton_append, count_append, hpiece,
      ih hplain.2 fun piece h => hwell piece (mem_cons_of_mem _ h)]

theorem image_ne_nil (piece : Piece) : piece.image ≠ [] := by
  fun_cases image piece <;> simp

theorem backslash_mem_dropLast (h : .escape '\\' ∈ ps.dropLast) :
    '\\' ∈ (ps.flatMap image).dropLast := by
  have hne : ps ≠ [] := by
    rintro rfl
    cases h
  rw [← dropLast_append_getLast hne, flatMap_append, flatMap_singleton,
    dropLast_append_of_ne_nil (image_ne_nil _), mem_append]
  exact .inl (mem_flatMap.mpr ⟨_, h, by decide⟩)

/-- A piece that is no literal backslash becomes one character, which means what the piece meant. -/
theorem exists_image_eq_singleton {piece : Piece}
    (hplain : ∀ c, piece = .plain c → c ≠ '\\' ∧ c ≠ '*' ∧ c ≠ '?') (hwell : ¬ piece.IllFormed)
    (hback : piece ≠ .escape '\\') :
    ∃ c, piece.image = [c] ∧ c ≠ '\\' ∧ (plain c).glob '*' '?' = piece.glob '%' '_' := by
  cases piece with
  | plain c =>
    have hc := hplain c rfl
    refine ⟨_, rfl, ?_, ?_⟩
    · grind
    · simp only [glob]
      grind
  | escape c =>
    have hc : c = '%' ∨ c = '_' := by
      simp only [Piece.IllFormed] at hwell
      grind
    rcases hc with rfl | rfl
    · exact ⟨'%', by decide⟩
    · exact ⟨'_', by decide⟩
  | bare => exact absurd trivial hwell

/-- The translation of a well-formed pattern is read as the pattern is, if nothing stands behind a
literal backslash. -/
theorem map_glob_flatMap_image (hplain : ∀ c, .plain c ∈ ps → c ≠ '\\' ∧ c ≠ '*' ∧ c ≠ '?')
    (hwell : ∀ piece ∈ ps, ¬ piece.IllFormed) (hlast : .escape '\\' ∉ ps.dropLast) :
    (pieces (ps.flatMap image)).map (glob '*' '?') = ps.map (glob '%' '_') := by
  induction ps with
  | nil => rfl
  | cons piece ps ih =>
    by_cases hback : piece = .escape '\\'
    · cases ps with
      | nil =>
        subst hback
        rfl
      | cons next ps =>
        rw [dropLast_cons_cons, hback] at hlast
        exact absurd mem_cons_self hlast
    · have hrest : .escape '\\' ∉ ps.dropLast := by
        cases ps with
        | nil => exact not_mem_nil
        | cons next ps =>
          rw [dropLast_cons_cons] at hlast
          exact fun h => hlast (mem_cons_of_mem _ h)
      obtain ⟨c, himage, hc, hglob⟩ :=
          exists_image_eq_singleton (fun c h => hplain c (h ▸ mem_cons_self))
        (hwell piece mem_cons_self) hback
      rw [flatMap_cons, himage, singleton_append, pieces_cons_of_ne hc, map_cons, hglob, map_cons,
        ih (fun c h => hplain c (mem_cons_of_mem _ h))
          (fun p h => hwell p (mem_cons_of_mem _ h)) hrest]

end

/-! ### The meaning of a translation -/

section

variable {alike : Char → Char → Bool} {ps : List Piece}

/-- A shortest text that fits the translation has too few backslashes for the pattern, if something
stands behind a literal backslash. -/
theorem not_fits_shortest (hback : ∀ c, alike '\\' c = true → c = '\\') (hplain : .plain '\\' ∉ ps)
    (hwell : ∀ piece ∈ ps, ¬ piece.IllFormed) (hmem : .escape '\\' ∈ ps.dropLast) :
    ¬ fits alike (ps.map (glob '%' '_'))
        (shortest ((pieces (ps.flatMap image)).map (glob '*' '?'))) = true := by
  intro hfits
  have hneeds := count_backslash_le_of_fits hback hfits
  rw [count_backslash_shortest, count_backslash_image hplain hwell] at hneeds
  have hfewer := (count_backslash_pieces (ps.flatMap image)).2 (backslash_mem_dropLast hmem)
  exact absurd hneeds hfewer.not_ge

/-- Of the ill-formed pieces, a pattern that is translated has none but backslashes that end a line.
-/
theorem not_illFormed_of_accepted (haccepted : ¬ RefusedAmong ps) (hbreak : .escape '\n' ∉ ps) :
    ∀ piece ∈ ps, ¬ piece.IllFormed := by
  intro piece hpiece hill
  refine haccepted (.inl ⟨piece, hpiece, hill, ?_⟩)
  rintro rfl
  exact hbreak hpiece

/-- Whether no backslash ends a line, and a literal backslash is the last piece if there is one. -/
def BackslashAtMostLast (ps : List Piece) : Prop :=
  .escape '\n' ∉ ps ∧ .escape '\\' ∉ ps.dropLast

instance : DecidablePred BackslashAtMostLast := fun ps =>
  inferInstanceAs (Decidable (.escape '\n' ∉ ps ∧ .escape '\\' ∉ ps.dropLast))

/-- **A translation keeps the meaning** of a pattern in which no backslash ends a line and a literal
backslash comes last or not at all. Of every other pattern it does not: some text matches the
translation and not the pattern. -/
theorem wildcard_keeps_meaning_iff (hrefl : ∀ c, alike c c = true)
    (hback : ∀ c, alike '\\' c = true → c = '\\') {pattern translated : String}
    (hstar : '*' ∉ pattern.toList) (hmark : '?' ∉ pattern.toList)
    (h : wildcard pattern = .ok translated) :
    (BackslashAtMostLast (pieces pattern.toList) →
      ∀ text, wildcardMatches alike translated text = likeMatches alike pattern text) ∧
    (¬ BackslashAtMostLast (pieces pattern.toList) →
      ∃ text,
        wildcardMatches alike translated text = true ∧ likeMatches alike pattern text = false) := by
  obtain ⟨haccepted, htranslated⟩ := of_wildcard_eq_ok h
  have hplain : ∀ c, .plain c ∈ pieces pattern.toList → c ≠ '\\' ∧ c ≠ '*' ∧ c ≠ '?' := by
    intro c hc
    obtain ⟨hmem, hne⟩ := of_plain_mem_pieces hc
    exact ⟨hne, fun heq => hstar (heq ▸ hmem), fun heq => hmark (heq ▸ hmem)⟩
  unfold wildcardMatches likeMatches
  rw [htranslated]
  constructor
  · rintro ⟨hbreak, hlast⟩ text
    have hwell := not_illFormed_of_accepted haccepted hbreak
    have hall : (pieces pattern.toList).all (fun piece => !decide piece.IllFormed) = true := by
      simpa using hwell
    rw [hall, Bool.true_and, map_glob_flatMap_image hplain hwell hlast]
  · intro hnot
    let globs := (pieces ((pieces pattern.toList).flatMap Piece.image)).map (Piece.glob '*' '?')
    refine ⟨String.ofList (shortest globs), ?_, ?_⟩
    · rw [String.toList_ofList]
      exact fits_shortest hrefl globs
    · rw [String.toList_ofList, Bool.eq_false_iff]
      intro hlike
      obtain ⟨hall, hfits⟩ := Bool.and_eq_true_iff.mp hlike
      have hwell : ∀ piece ∈ pieces pattern.toList, ¬ piece.IllFormed := by simpa using hall
      have hmem : .escape '\\' ∈ (pieces pattern.toList).dropLast := by
        by_contra hlast
        exact hnot ⟨fun hbreak => hwell _ hbreak (by decide), hlast⟩
      exact not_fits_shortest hback (fun hc => (hplain _ hc).1 rfl) hwell hmem hfits

end

/-- Whether two characters differ at most in the case of a letter of the English alphabet. -/
def sameLetter (c d : Char) : Bool :=
  c.toLower == d.toLower

theorem eq_backslash_of_sameLetter {c : Char} (h : sameLetter '\\' c = true) : c = '\\' := by
  have hlower : c.toLower = '\\' := (beq_iff_eq.mp h).symm
  unfold Char.toLower at hlower
  split at hlower
  · rename_i hletter
    have hfirst : 65 ≤ c.val.toNat := UInt32.le_iff_toNat_le.mp hletter.1
    have hlast : c.val.toNat ≤ 90 := UInt32.le_iff_toNat_le.mp hletter.2
    have hshift : (c.val + 32).toNat = 92 := congrArg (fun d => d.val.toNat) hlower
    rw [UInt32.toNat_add] at hshift
    have hcase : (32 : UInt32).toNat = 32 := rfl
    omega
  · exact hlower

/-- The pattern `a\%_\\` keeps its meaning, and `\\%`, which asks for a backslash in front of any
text, becomes `\*`, which asks for a star. -/
theorem wildcard_keeps_meaning_iff_backslashes :
    (wildcard "a\\%_\\\\" = .ok "a%?\\" ∧ BackslashAtMostLast (pieces "a\\%_\\\\".toList) ∧
      ∀ text, wildcardMatches sameLetter "a%?\\" text = likeMatches sameLetter "a\\%_\\\\" text) ∧
    (wildcard "\\\\%" = .ok "\\*" ∧ ¬ BackslashAtMostLast (pieces "\\\\%".toList) ∧
      ∃ text, wildcardMatches sameLetter "\\*" text = true ∧
        likeMatches sameLetter "\\\\%" text = false) := by
  have hrefl : ∀ c, sameLetter c c = true := fun c => beq_self_eq_true c.toLower
  have hback : ∀ c, sameLetter '\\' c = true → c = '\\' := fun _ => eq_backslash_of_sameLetter
  have hlast : wildcard "a\\%_\\\\" = .ok "a%?\\" := by decide
  have hfirst : wildcard "\\\\%" = .ok "\\*" := by decide
  refine ⟨⟨hlast, by decide, ?_⟩, hfirst, by decide, ?_⟩
  · exact (wildcard_keeps_meaning_iff hrefl hback (by decide) (by decide) hlast).1 (by decide)
  · exact (wildcard_keeps_meaning_iff hrefl hback (by decide) (by decide) hfirst).2 (by decide)

example :
    wildcardMatches sameLetter "\\*" "*" = true ∧ likeMatches sameLetter "\\\\%" "*" = false ∧
    wildcardMatches sameLetter "\\*" "\\B" = false ∧
    likeMatches sameLetter "\\\\%" "\\B" = true := by
  decide

end StacCatalog.Filter
