import Mathlib.Tactic.SplitIfs
import StacCatalog.Proofs.Text.Utf8
import StacCatalog.Url.Percent

/-!
# A text is read back from its escapes, whatever characters it has (`unescape_escape`)
-/

namespace StacCatalog.Text

variable {s : String}

theorem utf8_ne_nil (h : s ≠ "") : utf8 s ≠ [] := by
  intro hnil
  have hchars : s.toList ≠ [] := fun hs => h (String.toList_eq_nil_iff.mp hs)
  obtain ⟨c, rest, hs⟩ := List.exists_cons_of_ne_nil hchars
  have hc := List.flatMap_eq_nil_iff.mp hnil c (hs ▸ List.mem_cons_self)
  unfold utf8Char at hc
  dsimp only at hc
  split_ifs at hc

/-- Where there are bytes, or a sequence is open, something is read. -/
theorem utf8Pieces_ne_nil (state : Option Pending) (bytes : List Nat)
    (h : state.isSome = true ∨ bytes ≠ []) : utf8Pieces state bytes ≠ [] := by
  induction bytes generalizing state with
  | nil =>
    have hopen : state.isSome = true := h.resolve_right fun hne => hne rfl
    simp [utf8Pieces, hopen]
  | cons b rest ih =>
    cases state with
    | none =>
      rw [utf8Pieces, startByte]
      cases lead? b with
      | none => simp
      | some l =>
        by_cases hmore : l.more = 0
        · simp [hmore]
        · simpa [hmore] using ih _ (.inl rfl)
    | some p =>
      rw [utf8Pieces]
      dsimp only
      split
      · split
        · exact List.cons_ne_nil _ _
        · exact ih _ (.inl rfl)
      · exact List.cons_ne_nil _ _

theorem decodeLossy_utf8 (s : String) : decodeLossy (utf8 s) = s.toList := by
  rw [decodeLossy, utf8, utf8Pieces_flatMap_utf8Char, List.map_map]
  exact List.map_id _

theorem decodeLossy_ne_nil {bytes : List Nat} (h : bytes ≠ []) : decodeLossy bytes ≠ [] := by
  rw [decodeLossy, Ne, List.map_eq_nil_iff]
  exact utf8Pieces_ne_nil none bytes (.inr h)

end StacCatalog.Text

namespace StacCatalog.Url

variable {n : Nat} {c : Char} {s : String} {cs : List Char}

/-! ### One byte -/

/-- How a character of a query is taken before percent signs are looked at. -/
def blankOf (c : Char) : Char :=
  if c = '+' then ' ' else c

theorem hexValue?_upperHex (h : n < 16) : Text.hexValue? (upperHex n) = some n := by
  interval_cases n <;> decide

theorem isPlain_upperHex (h : n < 16) : isPlain (upperHex n).toNat = true := by
  interval_cases n <;> decide

theorem lt_of_isPlain (h : isPlain n = true) : n < 127 := by
  simp only [isPlain, Bool.or_eq_true, Bool.and_eq_true, decide_eq_true_eq, beq_iff_eq] at h
  omega

theorem toNat_ofNat_of_isPlain (h : isPlain n = true) : (Char.ofNat n).toNat = n := by
  have hlt := lt_of_isPlain h
  have hvalid : n.isValidChar := .inl (by omega)
  exact congrArg Char.toNat (dif_pos hvalid)

theorem ne_of_isPlain {d : Char} (h : isPlain c.toNat = true) (hd : isPlain d.toNat = false) :
    c ≠ d := by
  rintro rfl
  rw [hd] at h
  cases h

theorem blankOf_of_isPlain (h : isPlain c.toNat = true) : blankOf c = c :=
  if_neg (ne_of_isPlain h (by decide))

theorem unescapeBytes_of_ne (h : c ≠ '%') (rest : List Char) :
    unescapeBytes 0 (c :: rest) = c.toNat :: unescapeBytes 0 rest := by
  rw [unescapeBytes]
  exact fun _ _ _ hc => absurd hc h

theorem unescapeBytes_escapeByte {b : Nat} (h : b < 256) (rest : List Char) :
    unescapeBytes 0 ((escapeByte b).map blankOf ++ rest) = b :: unescapeBytes 0 rest := by
  unfold escapeByte
  split_ifs with hplain hblank
  · have hback := toNat_ofNat_of_isPlain hplain
    have hc : isPlain (Char.ofNat b).toNat = true := by rw [hback]; exact hplain
    rw [List.map_singleton, blankOf_of_isPlain hc, List.singleton_append,
      unescapeBytes_of_ne (ne_of_isPlain hc (by decide)), hback]
  · rw [eq_of_beq hblank]
    exact unescapeBytes_of_ne (by decide) rest
  · have hhigh : b / 16 < 16 := by omega
    have hlow : b % 16 < 16 := by omega
    have hvalue : b / 16 * 16 + b % 16 = b := by omega
    have hpercent : blankOf '%' = '%' := by decide
    simp only [List.map_cons, List.map_nil, List.cons_append, List.nil_append, hpercent,
      blankOf_of_isPlain (isPlain_upperHex hhigh), blankOf_of_isPlain (isPlain_upperHex hlow),
        unescapeBytes,
      hexValue?_upperHex hhigh, hexValue?_upperHex hlow, hvalue]

/-! ### A text -/

theorem unescapeBytes_escape (s : String) :
    unescapeBytes 0 ((escape s).map blankOf) = Text.utf8 s := by
  have hread : ∀ bytes : List Nat, (∀ b ∈ bytes, b < 256) →
      unescapeBytes 0 ((bytes.flatMap escapeByte).map blankOf) = bytes := by
    intro bytes hbytes
    induction bytes with
    | nil => rfl
    | cons b rest ih =>
      obtain ⟨hb, hrest⟩ := List.forall_mem_cons.mp hbytes
      rw [List.flatMap_cons, List.map_append, unescapeBytes_escapeByte hb, ih hrest]
  exact hread _ fun b => Text.lt_of_mem_utf8

def isWritten (c : Char) : Bool :=
  isPlain c.toNat || c == '+' || c == '%'

theorem isWritten_of_mem_escape (h : c ∈ escape s) : isWritten c = true := by
  obtain ⟨b, hb, hc⟩ := List.mem_flatMap.mp h
  have hlt := Text.lt_of_mem_utf8 hb
  have hwritten : isPlain c.toNat = true ∨ c = '+' ∨ c = '%' := by
    unfold escapeByte at hc
    split_ifs at hc with hplain
    · rw [List.mem_singleton.mp hc, toNat_ofNat_of_isPlain hplain]
      exact .inl hplain
    · exact .inr (.inl (List.mem_singleton.mp hc))
    · simp only [List.mem_cons, List.not_mem_nil, or_false] at hc
      rcases hc with rfl | rfl | rfl
      · exact .inr (.inr rfl)
      all_goals exact .inl (isPlain_upperHex (by omega))
  simp only [isWritten, Bool.or_eq_true, beq_iff_eq]
  tauto

theorem notMem_escape {mark : Char} (h : isWritten mark = false) (s : String) :
    mark ∉ escape s := by
  intro hmem
  rw [isWritten_of_mem_escape hmem] at h
  cases h

theorem lt_of_mem_escape (h : c ∈ escape s) : c.toNat < 128 := by
  have hwritten := isWritten_of_mem_escape h
  simp only [isWritten, Bool.or_eq_true, beq_iff_eq] at hwritten
  rcases hwritten with (hplain | rfl) | rfl
  · exact Nat.lt_succ_of_lt (lt_of_isPlain hplain)
  · decide
  · decide

theorem escape_ne_nil (h : s ≠ "") : escape s ≠ [] := by
  obtain ⟨b, rest, hbytes⟩ := List.exists_cons_of_ne_nil (Text.utf8_ne_nil h)
  rw [escape, hbytes, List.flatMap_cons]
  unfold escapeByte
  split_ifs <;> exact List.cons_ne_nil _ _

theorem unescapeFrom_of_ascii (run cs : List Char) (h : ∀ c ∈ cs, c.toNat < 128) :
    unescapeFrom run cs = unescapeRun (run.reverse ++ cs) := by
  induction cs generalizing run with
  | nil => rw [unescapeFrom, List.append_nil]
  | cons c rest ih =>
    obtain ⟨hc, hrest⟩ := List.forall_mem_cons.mp h
    rw [unescapeFrom, if_pos hc, ih _ hrest, List.reverse_cons, List.append_assoc,
      List.singleton_append]

/-- **A text is read back from its escapes.** -/
theorem unescape_escape (s : String) : unescape (escape s) = s := by
  have hascii : ∀ c ∈ (escape s).map blankOf, c.toNat < 128 := by
    intro c hc
    obtain ⟨d, hd, rfl⟩ := List.mem_map.mp hc
    unfold blankOf
    split
    · decide
    · exact lt_of_mem_escape hd
  have hread : unescapeFrom [] ((escape s).map blankOf) = s.toList := by
    rw [unescapeFrom_of_ascii _ _ hascii, List.reverse_nil, List.nil_append,
      unescapeRun, unescapeBytes_escape, Text.decodeLossy_utf8]
  exact (congrArg String.ofList hread).trans String.ofList_toList

theorem unescapeBytes_ne_nil (h : cs ≠ []) : unescapeBytes 0 cs ≠ [] := by
  obtain ⟨c, rest, rfl⟩ := List.exists_cons_of_ne_nil h
  unfold unescapeBytes
  split
  · split <;> exact List.cons_ne_nil _ _
  · exact List.cons_ne_nil _ _

theorem unescapeFrom_ne_nil (run cs : List Char) (h : run ≠ [] ∨ cs ≠ []) :
    unescapeFrom run cs ≠ [] := by
  induction cs generalizing run with
  | nil =>
    have hrun : run ≠ [] := h.resolve_right fun hne => hne rfl
    rw [unescapeFrom, unescapeRun]
    exact Text.decodeLossy_ne_nil (unescapeBytes_ne_nil (by simpa using hrun))
  | cons c rest ih =>
    rw [unescapeFrom]
    split
    · exact ih _ (.inl (List.cons_ne_nil _ _))
    · exact List.append_ne_nil_of_right_ne_nil _ (List.cons_ne_nil _ _)

/-- Something is read of every text that is not empty, however malformed its escapes are. -/
theorem unescape_ne_empty (h : cs ≠ []) : unescape cs ≠ "" := by
  rw [unescape, Ne, String.ofList_eq_empty_iff]
  exact unescapeFrom_ne_nil _ _ (.inr (by simpa using h))

end StacCatalog.Url
