import StacCatalog.Filter.Like
import StacCatalog.Proofs.Json.Access

/-!
# The escapes of a LIKE pattern, and which of them are refused
-/

namespace StacCatalog.Filter

open List

variable {c : Char}

/-! ### Pieces -/

/-- A piece of a pattern. -/
inductive Piece
  /-- A character that no backslash stands before. -/
  | plain (c : Char)
  /-- A backslash and the character behind it. -/
  | escape (c : Char)
  /-- A backslash with nothing behind it. -/
  | bare
  deriving DecidableEq, Repr

def pieces : List Char → List Piece
  | [] => []
  | ['\\'] => [.bare]
  | '\\' :: c :: rest => .escape c :: pieces rest
  | c :: rest => .plain c :: pieces rest

namespace Piece

def chars : Piece → List Char
  | plain c => [c]
  | escape c => ['\\', c]
  | bare => ['\\']

/-- Whether a piece is a backslash before a character that it does not make literal, or before
nothing. -/
def IllFormed : Piece → Prop
  | plain _ => False
  | escape c => c ≠ '\\' ∧ c ≠ '%' ∧ c ≠ '_'
  | bare => True

instance : DecidablePred IllFormed
  | plain _ => inferInstanceAs (Decidable False)
  | escape c => inferInstanceAs (Decidable (c ≠ '\\' ∧ c ≠ '%' ∧ c ≠ '_'))
  | bare => inferInstanceAs (Decidable True)

/-- Whether a piece is refused, by whether it is the last one. -/
def Refused (last : Bool) (piece : Piece) : Prop :=
  piece.IllFormed ∧ (piece = .escape '\n' → last = true)

/-- What a piece that is not refused becomes in a wildcard pattern. -/
def image : Piece → List Char
  | plain c => [if c = '%' then '*' else if c = '_' then '?' else c]
  | escape c => if c = '\n' then ['\\', '\n'] else [c]
  | bare => ['\\']

end Piece

/-- The last equation of a reader that looks for backslashes first is for characters that are none.
-/
theorem ne_backslash_of_unmatched {rest : List Char} (hend : c = '\\' → rest = [] → False)
    (hmore : ∀ d tail, c = '\\' → rest = d :: tail → False) : c ≠ '\\' := by
  intro hc
  cases rest with
  | nil => exact hend hc rfl
  | cons d tail => exact hmore d tail hc rfl

theorem pieces_cons_of_ne (h : c ≠ '\\') (rest : List Char) :
    pieces (c :: rest) = .plain c :: pieces rest := by
  rw [pieces]
  · rintro rfl
    exact absurd rfl h
  · rintro _ _ rfl
    exact absurd rfl h

theorem flatMap_chars_pieces (cs : List Char) : (pieces cs).flatMap Piece.chars = cs := by
  fun_induction pieces cs with
  | case1 => rfl
  | case2 => rfl
  | case3 c rest ih | case4 c rest _ _ ih =>
    rw [flatMap_cons, ih]
    rfl

theorem pieces_isEmpty (cs : List Char) : (pieces cs).isEmpty = cs.isEmpty := by
  fun_cases pieces cs <;> rfl

theorem of_plain_mem_pieces {cs : List Char} (h : .plain c ∈ pieces cs) : c ∈ cs ∧ c ≠ '\\' := by
  constructor
  · rw [← flatMap_chars_pieces cs]
    exact mem_flatMap.mpr ⟨.plain c, h, mem_singleton_self c⟩
  · fun_induction pieces cs with
    | case1 => cases h
    | case2 => simp at h
    | case3 d rest ih => exact ih (by simpa using h)
    | case4 d rest hend hmore ih =>
      rcases mem_cons.mp h with heq | hrest
      · rw [Piece.plain.inj heq]
        exact ne_backslash_of_unmatched hend hmore
      · exact ih hrest

/-! ### Refusals -/

def RefusedAmong (ps : List Piece) : Prop :=
  (∃ piece ∈ ps, piece.IllFormed ∧ piece ≠ .escape '\n') ∨ ps.getLast? = some (.escape '\n')

theorem refusedAmong_cons (piece : Piece) (rest : List Piece) :
    RefusedAmong (piece :: rest) ↔ piece.Refused rest.isEmpty ∨ RefusedAmong rest := by
  unfold RefusedAmong Piece.Refused
  cases rest with
  | nil => by_cases hbreak : piece = .escape '\n' <;> simp [hbreak, Piece.IllFormed]
  | cons next rest =>
    rw [getLast?_cons_cons, exists_mem_cons_iff]
    have hmore : (next :: rest).isEmpty = false := rfl
    grind

theorem wildcardChars_cons_of_ne (h : c ≠ '\\') (rest : List Char) :
    wildcardChars (c :: rest) = do return (Piece.plain c).image ++ (← wildcardChars rest) := by
  rw [Piece.image]
  by_cases hpercent : c = '%'
  · subst hpercent
    rfl
  · by_cases hline : c = '_'
    · subst hline
      rfl
    · rw [if_neg hpercent, if_neg hline, wildcardChars]
      · rfl
      all_goals grind

/-- A backslash with the character behind it is refused on its own, or translated on its own. -/
theorem wildcardChars_escape (c : Char) (rest : List Char) :
    ((Piece.escape c).Refused rest.isEmpty ∧
        ∃ sequence, wildcardChars ('\\' :: c :: rest) = .error (.badEscape sequence)) ∨
      (¬ (Piece.escape c).Refused rest.isEmpty ∧
        wildcardChars ('\\' :: c :: rest) =
          do return (Piece.escape c).image ++ (← wildcardChars rest)) := by
  rw [wildcardChars, Piece.Refused, Piece.IllFormed, Piece.image]
  by_cases hwell : c = '\\' ∨ c = '%' ∨ c = '_'
  · have hbreak : c ≠ '\n' := by
      rintro rfl
      simp at hwell
    rw [if_pos hwell, if_neg hbreak]
    exact .inr ⟨fun h => by grind, rfl⟩
  · have hill : c ≠ '\\' ∧ c ≠ '%' ∧ c ≠ '_' := by simpa using hwell
    rw [if_neg hwell]
    by_cases hbreak : c = '\n'
    · rw [if_pos hbreak, if_pos hbreak]
      by_cases hlast : rest.isEmpty = true
      · rw [if_pos hlast]
        exact .inl ⟨⟨hill, fun _ => hlast⟩, _, rfl⟩
      · rw [if_neg hlast]
        exact .inr ⟨fun h => hlast (h.2 (congrArg _ hbreak)), rfl⟩
    · rw [if_neg hbreak]
      exact .inl ⟨⟨hill, fun h => absurd (Piece.escape.inj h) hbreak⟩, _, rfl⟩

/-- Whether an outcome is the translation of some pieces: a refusal if one of them is refused, and
otherwise their images. -/
def Translates (ps : List Piece) (outcome : Outcome (List Char)) : Prop :=
  (RefusedAmong ps ∧ ∃ sequence, outcome = .error (.badEscape sequence)) ∨
    (¬ RefusedAmong ps ∧ outcome = .ok (ps.flatMap Piece.image))

theorem Translates.cons {piece : Piece} {ps : List Piece} {outcome : Outcome (List Char)}
    (hfine : ¬ piece.Refused ps.isEmpty) (h : Translates ps outcome) :
    Translates (piece :: ps) (do return piece.image ++ (← outcome)) := by
  unfold Translates
  rw [refusedAmong_cons]
  rcases h with ⟨hrefused, sequence, rfl⟩ | ⟨haccepted, rfl⟩
  · exact .inl ⟨.inr hrefused, sequence, rfl⟩
  · exact .inr ⟨not_or.mpr ⟨hfine, haccepted⟩, rfl⟩

/-- **Piece by piece.** A pattern is refused for one of its pieces, or every piece is translated on
its own. -/
theorem translates_wildcardChars (cs : List Char) : Translates (pieces cs) (wildcardChars cs) := by
  fun_induction pieces cs with
  | case1 => exact .inr ⟨by simp [RefusedAmong], rfl⟩
  | case2 => exact .inl ⟨.inl ⟨.bare, mem_singleton_self _, trivial, nofun⟩, _, rfl⟩
  | case3 c rest ih =>
    rcases wildcardChars_escape c rest with ⟨hrefused, hfault⟩ | ⟨hfine, hstep⟩
    · rw [← pieces_isEmpty] at hrefused
      exact .inl ⟨(refusedAmong_cons _ _).mpr (.inl hrefused), hfault⟩
    · rw [← pieces_isEmpty] at hfine
      rw [hstep]
      exact ih.cons hfine
  | case4 c rest hend hmore ih =>
    rw [wildcardChars_cons_of_ne (ne_backslash_of_unmatched hend hmore)]
    exact ih.cons fun hrefused => hrefused.1

theorem of_wildcard_eq_ok {pattern translated : String} (h : wildcard pattern = .ok translated) :
    ¬ RefusedAmong (pieces pattern.toList) ∧
    translated.toList = (pieces pattern.toList).flatMap Piece.image := by
  unfold wildcard at h
  rcases translates_wildcardChars pattern.toList with ⟨-, sequence, hfault⟩ |
    ⟨haccepted, htranslated⟩
  · rw [hfault] at h
    cases h
  · rw [htranslated] at h
    exact ⟨haccepted, by rw [← Except.ok.inj h, String.toList_ofList]⟩

/-- **A pattern is refused** for an ill-formed piece that is no backslash at the end of a line, or
because it ends in such a backslash and its line break. In all other cases it is translated, so a
backslash that ends a line in the middle of a pattern passes, ill-formed as it is. -/
theorem wildcard_refused_iff (pattern : String) :
    ((∃ sequence, wildcard pattern = .error (.badEscape sequence)) ↔
      (∃ piece ∈ pieces pattern.toList, piece.IllFormed ∧ piece ≠ .escape '\n') ∨
        (pieces pattern.toList).getLast? = some (.escape '\n')) ∧
    ((∃ translated, wildcard pattern = .ok translated) ↔
      (∀ piece ∈ pieces pattern.toList, piece.IllFormed → piece = .escape '\n') ∧
        (pieces pattern.toList).getLast? ≠ some (.escape '\n')) := by
  have htranslates := translates_wildcardChars pattern.toList
  unfold Translates RefusedAmong at htranslates
  unfold wildcard
  rcases htranslates with ⟨hrefused, sequence, hfault⟩ | ⟨haccepted, htranslated⟩
  · rw [hfault]
    refine ⟨iff_of_true ⟨sequence, rfl⟩ hrefused, iff_of_false nofun ?_⟩
    grind
  · rw [htranslated]
    refine ⟨iff_of_false nofun haccepted, iff_of_true ⟨_, rfl⟩ ?_⟩
    grind

example :
    Piece.IllFormed (.escape '\n') ∧
    pieces "a\\\nb".toList = [.plain 'a', .escape '\n', .plain 'b'] ∧
    (wildcard "a\\\nb" = .ok "a\\\nb") ∧ wildcard "a\\\n" = .error (.badEscape "\\") := by
  decide

/-! ### Patterns one after the other -/

/-- A pattern that is accepted ends with a whole piece, so what is put behind it is read on its own.
-/
theorem wildcardChars_append {cs out : List Char} (h : wildcardChars cs = .ok out)
    (more : List Char) : wildcardChars (cs ++ more) = do return out ++ (← wildcardChars more) := by
  have hjoin (head tail : List Char) :
      (do return head ++ (← (do return tail ++ (← wildcardChars more)))) =
      (do return (head ++ tail) ++ (← wildcardChars more) : Outcome (List Char)) := by
    cases wildcardChars more <;> simp
  fun_induction pieces cs generalizing out with
  | case1 =>
    cases h
    cases hmore : wildcardChars more <;> simp [hmore]
  | case2 => cases h
  | case3 c rest ih =>
    rcases wildcardChars_escape c rest with ⟨-, sequence, hfault⟩ | ⟨hfine, hstep⟩
    · rw [hfault] at h
      cases h
    obtain ⟨tail, htail, hout⟩ := Outcome.bind_eq_ok.mp (hstep.symm.trans h)
    cases hout
    rcases wildcardChars_escape c (rest ++ more) with ⟨hrefused, -⟩ | ⟨-, hstep'⟩
    · have hempty : (rest ++ more).isEmpty = true → rest.isEmpty = true := by simp_all
      exact absurd ⟨hrefused.1, fun hbreak => hempty (hrefused.2 hbreak)⟩ hfine
    · rw [cons_append, cons_append, hstep', ih htail, hjoin]
  | case4 c rest hend hmore ih =>
    have hc := ne_backslash_of_unmatched hend hmore
    obtain ⟨tail, htail, hout⟩ :=
        Outcome.bind_eq_ok.mp ((wildcardChars_cons_of_ne hc rest).symm.trans h)
    cases hout
    rw [cons_append, wildcardChars_cons_of_ne hc, ih htail, hjoin]

/-- A text as a pattern: a backslash stands before every character that means something else on its
own. -/
def quoted (text : List Char) : List Char :=
  text.flatMap fun c => if c = '\\' ∨ c = '%' ∨ c = '_' then ['\\', c] else [c]

theorem wildcardChars_quoted (text : List Char) : wildcardChars (quoted text) = .ok text := by
  induction text with
  | nil => rfl
  | cons c rest ih =>
    have hfirst : wildcardChars (if c = '\\' ∨ c = '%' ∨ c = '_' then ['\\', c] else [c]) =
        .ok [c] := by
      split
      · rename_i hc
        rcases hc with rfl | rfl | rfl <;> rfl
      · rename_i hc
        rw [wildcardChars_cons_of_ne (by simp_all), Piece.image, if_neg (by simp_all),
          if_neg (by simp_all)]
        rfl
    rw [quoted, flatMap_cons, wildcardChars_append hfirst, ← quoted, ih]
    rfl

/-- **A quoted text is read as the text**, and a pattern that is accepted is translated by itself,
whatever follows it: the whole is refused if what follows is, and for the same sequence. -/
theorem wildcard_quoted_and_append :
    (∀ text : String, wildcard (String.ofList (quoted text.toList)) = .ok text) ∧
    ∀ first out : String, wildcard first = .ok out →
      ∀ second, wildcard (first ++ second) = (wildcard second).map (out ++ ·) := by
  constructor
  · intro text
    rw [wildcard, String.toList_ofList, wildcardChars_quoted]
    exact congrArg Except.ok String.ofList_toList
  · intro first out h second
    obtain ⟨chars, hchars, hout⟩ := Outcome.bind_eq_ok.mp h
    cases hout
    rw [wildcard, String.toList_append, wildcardChars_append hchars, wildcard]
    cases wildcardChars second.toList with
    | error fault => rfl
    | ok more => exact congrArg Except.ok (String.ofList_append ..)

theorem wildcard_quoted_and_append_line : wildcard "\\%a\\\nb" = .ok "%a\\\nb" ∧
    ∀ second, wildcard ("\\%a\\\nb" ++ second) = (wildcard second).map ("%a\\\nb" ++ ·) :=
  have h : wildcard "\\%a\\\nb" = .ok "%a\\\nb" := by decide
  ⟨h, wildcard_quoted_and_append.2 _ _ h⟩

end StacCatalog.Filter
