import StacCatalog.Proofs.Json.Access
import StacCatalog.Search.Clause

/-!
# Free text in the language of the database
-/

namespace StacCatalog.Search

open List

/-! ### Phrases -/

/-- A phrase up to the next quote that is not after a backslash, and what follows the quote. -/
def phrase? (escaped : Bool) : List Char → Option (List Char × List Char)
  | [] => none
  | c :: rest => if c = '"' ∧ escaped = false then some ([], rest)
    else (phrase? (c == '\\') rest).map fun read => (c :: read.1, read.2)

def denoted : List Char → List Char
  | '\\' :: c :: rest => c :: denoted rest
  | c :: rest => c :: denoted rest
  | [] => []

variable {escaped : Bool} {text phrase after word tail : List Char}

/-- Neither a quote nor a backslash. -/
def Bare (word : List Char) : Prop :=
  '"' ∉ word ∧ '\\' ∉ word

theorem phrase?_of_bare (h : Bare word) (tail : List Char) :
    phrase? false (word ++ '"' :: tail) = some (word, tail) := by
  induction word with
  | nil => rfl
  | cons c rest ih =>
    simp only [Bare, mem_cons, not_or] at h ih
    have hc : (c == '\\') = false := beq_false_of_ne (Ne.symm h.2.1)
    rw [cons_append, phrase?, if_neg (fun hquote => h.1.1 hquote.1.symm), hc, ih ⟨h.1.2, h.2.2⟩]
    rfl

theorem denoted_of_bare (h : Bare word) : denoted word = word := by
  induction word with
  | nil => rfl
  | cons c rest ih =>
    simp only [Bare, mem_cons, not_or] at h ih
    rw [denoted]
    · rw [ih ⟨h.1.2, h.2.2⟩]
    · rintro d others rfl
      exact absurd rfl h.2.1

theorem length_denoted_le (phrase : List Char) : (denoted phrase).length ≤ phrase.length := by
  fun_induction denoted phrase <;> simp_all
  omega

theorem length_denoted_lt (h : '\\' ∈ phrase) (hlast : phrase.getLast? ≠ some '\\') :
    (denoted phrase).length < phrase.length := by
  fun_induction denoted phrase with
  | case1 c rest ih =>
    have := length_denoted_le rest
    simp only [length_cons]
    omega
  | case2 c rest hc ih =>
    cases rest with
    | nil => simp_all [eq_comm]
    | cons d others =>
      have hrest : '\\' ∈ d :: others := (mem_cons.mp h).resolve_left fun heq =>
          hc d others heq.symm rfl
      simpa using ih hrest (by simpa [getLast?_cons_cons] using hlast)
  | case3 => cases h

theorem count_denoted (phrase : List Char) : (denoted phrase).count '"' = phrase.count '"' := by
  fun_induction denoted phrase <;> simp_all [count_cons]

/-- A phrase ends where its text has a quote, not after a backslash, and its own quotes are after
backslashes. -/
theorem phrase?_eq_some (h : phrase? escaped text = some (phrase, after)) :
    text = phrase ++ '"' :: after ∧ (phrase = [] → escaped = false) ∧ phrase.getLast? ≠ some '\\' ∧
      ('"' ∈ phrase → escaped = true ∨ '\\' ∈ phrase) := by
  induction text generalizing escaped phrase with
  | nil => cases h
  | cons c rest ih =>
    rw [phrase?] at h
    split at h
    · cases h
      simp_all
    · obtain ⟨⟨p, r⟩, hread, heq⟩ := Option.map_eq_some_iff.mp h
      cases heq
      obtain ⟨rfl, hnil, hlast, hquote⟩ := ih hread
      refine ⟨rfl, nofun, ?_, ?_⟩
      · cases p with
        | nil => simpa using hnil rfl
        | cons d others => rwa [getLast?_cons_cons]
      · intro hmem
        rcases mem_cons.mp hmem with rfl | hmem
        · simp_all
        · exact .inr ((hquote hmem).elim (fun hc => by simp_all) (mem_cons_of_mem _))

/-- **A phrase denotes the word between the quotes** only if the word is bare. -/
theorem bare_of_denoted (h : phrase? false (word ++ '"' :: tail) = some (phrase, after))
    (hdenoted : denoted phrase = word) : Bare word := by
  obtain ⟨htext, -, hlast, hquote⟩ := phrase?_eq_some h
  have hlength := length_denoted_le phrase
  have hsame : phrase = word := by
    rcases append_eq_append_iff.mp htext with ⟨more, hphrase, htail⟩ | ⟨more, hword, hafter⟩
    · cases more with
      | nil => simpa using hphrase
      | cons d others =>
        -- The quote behind the word would be one more quote in the phrase.
        have hcount := count_denoted phrase
        rw [hdenoted, hphrase, (cons_eq_cons.mp htail).1.symm] at hcount
        simp at hcount
    · rw [hdenoted, hword, length_append] at hlength
      have : more = [] := eq_nil_of_length_eq_zero (by omega)
      simpa [this] using hword.symm
  rw [hsame] at hdenoted hlast hquote
  have hback : '\\' ∉ word := fun hmem => absurd (length_denoted_lt hmem hlast)
      (by rw [hdenoted]; exact Nat.lt_irrefl _)
  exact ⟨fun hmem => (hquote hmem).elim nofun hback, hback⟩

/-! ### Clauses -/

def opening : List Char :=
  "properties.\\*:\"".toList

/-- The phrases of the clauses that a text is read as. -/
inductive Reads : List Char → List (List Char) → Prop
  | last {text phrase : List Char} (h : phrase? false text = some (phrase, [])) :
      Reads (opening ++ text) [phrase]
  | more {text phrase rest : List Char} {phrases : List (List Char)}
      (h : phrase? false text = some (phrase, " OR ".toList ++ rest))
    (hrest : Reads rest phrases) : Reads (opening ++ text) (phrase :: phrases)

variable {phrases words : List (List Char)}

theorem Reads.exists_phrase (h : Reads (opening ++ text) phrases) : ∃ phrase after others,
    phrase? false text = some (phrase, after) ∧ phrases = phrase :: others ∧
      (after = [] ∧ others = [] ∨ ∃ rest, after = " OR ".toList ++ rest ∧ Reads rest others) := by
  generalize hwhole : opening ++ text = whole at h
  cases h with
  | last h =>
    cases append_cancel_left hwhole
    exact ⟨_, _, _, h, rfl, .inl ⟨rfl, rfl⟩⟩
  | more h hrest =>
    cases append_cancel_left hwhole
    exact ⟨_, _, _, h, rfl, .inr ⟨_, rfl, hrest⟩⟩

theorem Reads.unique (h : Reads text phrases) :
    ∀ {others}, Reads text others → phrases = others := by
  induction h with
  | last h =>
    intro others hothers
    obtain ⟨phrase, after, rest, hphrase, rfl, ⟨-, rfl⟩ | ⟨more, rfl, -⟩⟩ :=
        hothers.exists_phrase <;> cases h.symm.trans hphrase
    rfl
  | more h hrest ih =>
    intro others hothers
    obtain ⟨phrase, after, rest, hphrase, rfl, ⟨rfl, rfl⟩ | ⟨more, rfl, hmore⟩⟩ :=
        hothers.exists_phrase <;> cases h.symm.trans hphrase
    rw [ih hmore]

def between : List Char :=
  "\" OR properties.\\*:\"".toList

def joined (words : List (List Char)) : List Char :=
  opening ++ intercalate between words ++ ['"']

theorem joined_singleton (word : List Char) : joined [word] = opening ++ (word ++ ['"']) := by
  simp [joined]

theorem joined_cons (word next : List Char) (rest : List (List Char)) :
    joined (word :: next :: rest) =
      opening ++ (word ++ '"' :: (" OR ".toList ++ joined (next :: rest))) := by
  have hbetween : between = '"' :: (" OR ".toList ++ opening) := by decide
  simp [joined, intercalate_cons_cons, hbetween]

theorem reads_joined (hne : words ≠ []) (h : ∀ word ∈ words, Bare word) :
    Reads (joined words) words := by
  induction words with
  | nil => exact absurd rfl hne
  | cons word rest ih =>
    have hword := phrase?_of_bare (h word mem_cons_self)
    cases rest with
    | nil => exact joined_singleton word ▸ .last (hword [])
    | cons next others =>
      rw [joined_cons]
      exact .more (hword _) (ih nofun fun word hword => h word (mem_cons_of_mem _ hword))

theorem bare_of_reads (hreads : Reads (joined words) phrases)
    (hdenoted : phrases.map denoted = words) : ∀ word ∈ words, Bare word := by
  induction words generalizing phrases with
  | nil => nofun
  | cons word rest ih =>
    cases rest with
    | nil =>
      rw [joined_singleton] at hreads
      obtain ⟨phrase, after, others, hphrase, rfl, -⟩ := hreads.exists_phrase
      exact forall_mem_singleton.mpr (bare_of_denoted hphrase (cons_eq_cons.mp hdenoted).1)
    | cons next others =>
      rw [joined_cons] at hreads
      obtain ⟨phrase, after, more, hphrase, rfl, hrest⟩ := hreads.exists_phrase
      obtain ⟨hfirst, hmore⟩ := cons_eq_cons.mp hdenoted
      have hword := bare_of_denoted hphrase hfirst
      cases (phrase?_of_bare hword _).symm.trans hphrase
      obtain ⟨hnil, -⟩ | ⟨tail, htail, hreads⟩ := hrest
      · cases hnil
      · cases append_cancel_left htail
        exact forall_mem_cons.mpr ⟨hword, ih hreads hmore⟩

theorem toList_enclosed (first sep last : String) (texts : List String) :
    (first ++ sep.intercalate texts ++ last).toList =
      first.toList ++ intercalate sep.toList (texts.map String.toList) ++ last.toList := by
  simp

theorem exists_withWords (search : Search) (terms : List String) :
    ∃ text, search.withWords (Json.ofStrings terms) = .ok (search.query (.words text)) ∧
      text.toList = joined (terms.map String.toList) := by
  have hwords : ∀ position, joinWords position (terms.map Json.str) = .ok terms := by
    induction terms with
    | nil => exact fun _ => rfl
    | cons term rest ih =>
      intro position
      rw [map_cons, joinWords, ih]
      rfl
  refine ⟨_, Outcome.bind_eq_ok.mpr ⟨_, Outcome.bind_eq_ok.mpr ⟨_, hwords 0, rfl⟩, rfl⟩,
    toList_enclosed _ _ _ _⟩

/-- **Words are looked for as they are** exactly if they have no quotes and no backslashes: then the
text is read as one clause for each word, whose phrase denotes the word. Different words of this
kind make different texts. -/
theorem words_read_iff (search : Search) (terms : List String) (hne : terms ≠ []) :
    ∃ text, search.withWords (Json.ofStrings terms) = .ok (search.query (.words text)) ∧
      ((∃ phrases, Reads text.toList phrases ∧ phrases.map denoted = terms.map String.toList) ↔
        ∀ term ∈ terms, Bare term.toList) ∧
      ∀ others, others ≠ [] → (∀ term ∈ terms ++ others, Bare term.toList) →
        search.withWords (Json.ofStrings others) = .ok (search.query (.words text)) →
        terms = others := by
  obtain ⟨text, htext, hjoined⟩ := exists_withWords search terms
  refine ⟨text, htext, ?_, fun others hothers hbare hsame => ?_⟩
  · rw [hjoined, ← forall_mem_map (P := Bare)]
    constructor
    · rintro ⟨phrases, hreads, hdenoted⟩
      exact bare_of_reads hreads hdenoted
    · intro h
      refine ⟨_, reads_joined (by simpa using hne) h, ?_⟩
      rw [map_congr_left fun word hword => denoted_of_bare (h word hword), map_id']
  · obtain ⟨text', htext', hjoined'⟩ := exists_withWords search others
    obtain rfl : text' = text := by simpa [query] using htext'.symm.trans hsame
    obtain ⟨hterms, hrest⟩ := forall_mem_append.mp hbare
    have hreads := reads_joined (by simpa using hne) (forall_mem_map.mpr hterms)
    have hreads' := reads_joined (by simpa using hothers) (forall_mem_map.mpr hrest)
    rw [← hjoined] at hreads
    rw [← hjoined'] at hreads'
    exact (map_inj_right fun _ _ => String.toList_injective).mp (hreads.unique hreads')

/-- A word with quotes may be read as two words. -/
theorem words_read_iff_two :
    ∃ text,
      empty.withWords (Json.ofStrings ["a\" OR properties.\\*:\"b"]) =
        .ok (empty.query (.words text)) ∧
      empty.withWords (Json.ofStrings ["a", "b"]) = .ok (empty.query (.words text)) ∧
      (∃ phrases, Reads text.toList phrases ∧ phrases.map denoted = ["a".toList, "b".toList]) ∧
      ¬
        ∃ phrases, Reads text.toList phrases ∧
          phrases.map denoted = ["a\" OR properties.\\*:\"b".toList] := by
  obtain ⟨text, htext, hread, -⟩ := words_read_iff empty ["a\" OR properties.\\*:\"b"] nofun
  obtain ⟨text', htext', hread', -⟩ := words_read_iff empty ["a", "b"] nofun
  have hwords : wordsText (Json.ofStrings ["a\" OR properties.\\*:\"b"]) =
      wordsText (Json.ofStrings ["a", "b"]) := by decide +kernel
  have hsame : empty.withWords (Json.ofStrings ["a\" OR properties.\\*:\"b"]) =
      empty.withWords (Json.ofStrings ["a", "b"]) :=
    congrArg (· >>= fun text => pure (empty.query (.words text))) hwords
  obtain rfl : text' = text := by simpa [query] using (htext'.symm.trans hsame.symm).trans htext
  refine ⟨text', htext, htext', hread'.mpr ?_, fun h => ?_⟩
  · simp [Bare]
  · exact (hread.mp h _ mem_cons_self).1 (by decide +kernel)

end StacCatalog.Search
