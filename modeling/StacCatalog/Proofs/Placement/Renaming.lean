import StacCatalog.Proofs.Placement.Runs
import StacCatalog.Proofs.Program.Operations

/-!
# Moves from one collection to another, and the names that documents have afterwards
-/

namespace StacCatalog

open List Naming Nat

variable {text : List Char} {bar : Char}

/-! ### Replacing a text -/

section Replacing

variable {part new : List Char}

theorem replaceFrom_skip (part new : List Char) (skip : Nat) (text : List Char) :
    replaceFrom part new skip text = replaceFrom part new 0 (text.drop skip) := by
  induction skip generalizing text with
  | zero => rfl
  | succ skip ih =>
    cases text with
    | nil => rfl
    | cons c rest => exact ih rest

theorem replaceFrom_append (hpart : part ≠ []) (rest : List Char) :
    replaceFrom part new 0 (part ++ rest) = new ++ replaceFrom part new 0 rest := by
  obtain ⟨c, part, rfl⟩ := exists_cons_of_ne_nil hpart
  have hfront : (c :: part).isPrefixOf (c :: (part ++ rest)) = true :=
    isPrefixOf_iff_prefix.mpr ⟨rest, rfl⟩
  rw [cons_append, replaceFrom, if_pos hfront, replaceFrom_skip]
  simp

theorem replaceFrom_cons {c : Char} {rest : List Char} (h : ¬ part <+: c :: rest) :
    replaceFrom part new 0 (c :: rest) = c :: replaceFrom part new 0 rest := by
  rw [replaceFrom, if_neg (mt isPrefixOf_iff_prefix.mp h)]

theorem replaceFrom_first {before rest : List Char} (hpart : part ≠ [])
    (h : ∀ i < before.length, ¬ part <+: (before ++ part ++ rest).drop i) :
    replaceFrom part new 0 (before ++ part ++ rest) =
      before ++ new ++ replaceFrom part new 0 rest := by
  induction before with
  | nil => exact replaceFrom_append hpart rest
  | cons c before ih =>
    have hc : ¬ part <+: c :: (before ++ part ++ rest) := h 0 (zero_lt_succ _)
    have hbefore := ih fun i hi => h (i + 1) (succ_lt_succ hi)
    rw [cons_append, cons_append, replaceFrom_cons hc, hbefore]
    rfl

theorem exists_first (h : part <:+: text) :
    ∃ before rest, text = before ++ part ++ rest ∧ ∀ i < before.length, ¬ part <+: text.drop i := by
  induction text with
  | nil =>
    obtain rfl := infix_nil.mp h
    exact ⟨[], [], rfl, nofun⟩
  | cons c text ih =>
    by_cases hfront : part <+: c :: text
    · obtain ⟨rest, hrest⟩ := hfront
      exact ⟨[], rest, hrest.symm, nofun⟩
    · obtain ⟨before, rest, rfl, hfirst⟩ := ih ((infix_cons_iff.mp h).resolve_left hfront)
      refine ⟨c :: before, rest, rfl, fun i hi => ?_⟩
      cases i with
      | zero => exact hfront
      | succ i => exact hfirst i (lt_of_succ_lt_succ hi)

theorem replaceFrom_of_absent (h : ¬ part <:+: text) : replaceFrom part new 0 text = text := by
  induction text with
  | nil => rfl
  | cons c text ih =>
    rw [infix_cons_iff, not_or] at h
    rw [replaceFrom_cons h.1, ih h.2]

theorem length_replaceFrom (hpart : part ≠ []) (text : List Char) :
    (part.length ≤ new.length → text.length ≤ (replaceFrom part new 0 text).length) ∧
      (new.length ≤ part.length → (replaceFrom part new 0 text).length ≤ text.length) := by
  by_cases h : part <:+: text
  · obtain ⟨before, rest, rfl, hfirst⟩ := exists_first h
    have hrest := length_replaceFrom hpart rest
    rw [replaceFrom_first hpart hfirst]
    simp only [length_append]
    omega
  · rw [replaceFrom_of_absent h]
    exact ⟨fun _ => le_refl _, fun _ => le_refl _⟩
termination_by text.length
decreasing_by
  subst_vars
  have hlength := length_pos_of_ne_nil hpart
  simp only [length_append]
  omega

theorem length_eq_of_replaceFrom (hpart : part ≠ []) (h : part <:+: text)
    (hsame : (replaceFrom part new 0 text).length = text.length) : new.length = part.length := by
  obtain ⟨before, rest, rfl, hfirst⟩ := exists_first h
  have hrest := @length_replaceFrom part new hpart rest
  rw [replaceFrom_first hpart hfirst] at hsame
  simp only [length_append] at hsame
  omega

/-- Replacing a text by another one changes every text in which it occurs. -/
theorem replaceFrom_eq_self_iff (hpart : part ≠ []) (hnew : part ≠ new) :
    replaceFrom part new 0 text = text ↔ ¬ part <:+: text := by
  refine ⟨fun hsame h => ?_, replaceFrom_of_absent⟩
  have hlength := length_eq_of_replaceFrom hpart h (congrArg length hsame)
  obtain ⟨before, rest, rfl, hfirst⟩ := exists_first h
  rw [replaceFrom_first hpart hfirst, append_assoc, append_assoc, append_cancel_left_eq] at hsame
  exact hnew (append_inj_left hsame hlength).symm

/-- An occurrence that begins before a character which the text does not have ends before it. -/
theorem prefix_of_prefix_bar (hbar : bar ∉ part) {before after : List Char}
    (h : part <+: before ++ bar :: after) : part <+: before := by
  rcases lt_or_ge before.length part.length with hlt | hge
  · have hbefore : before ++ [bar] <+: before ++ bar :: after := ⟨after, by simp⟩
    have hinside : before ++ [bar] <+: part :=
      prefix_of_prefix_length_le hbefore h (by rw [length_append]; exact hlt)
    exact absurd (hinside.subset (by simp)) hbar
  · exact prefix_of_prefix_length_le h (prefix_append before _) hge

/-- A character that the text does not have parts what is replaced before it from what is replaced
after it. -/
theorem replaceFrom_bar (hpart : part ≠ []) (hbar : bar ∉ part) (before after : List Char) :
    replaceFrom part new 0 (before ++ bar :: after) =
      replaceFrom part new 0 before ++ bar :: replaceFrom part new 0 after := by
  by_cases hfront : part <+: before
  · obtain ⟨rest, rfl⟩ := hfront
    rw [append_assoc, replaceFrom_append hpart, replaceFrom_append hpart,
      replaceFrom_bar hpart hbar, append_assoc]
  · have hnot : ¬ part <+: before ++ bar :: after := mt (prefix_of_prefix_bar hbar) hfront
    cases before with
    | nil => exact replaceFrom_cons hnot
    | cons c before =>
      rw [cons_append] at hnot ⊢
      rw [replaceFrom_cons hnot, replaceFrom_cons hfront, replaceFrom_bar hpart hbar, cons_append]
termination_by before.length
decreasing_by
  · subst_vars
    have hlength := length_pos_of_ne_nil hpart
    simp only [length_append]
    omega
  · subst_vars
    simp

end Replacing

/-! ### The names of moved documents -/

namespace Naming

theorem clean_eq_self_iff (id : String) : clean id = id ↔ ∀ c ∈ id.toList, c ∉ unsupported := by
  have hclean :
      clean id = id ↔ (id.toList.filter fun c => !unsupported.contains c) = id.toList := by
    rw [clean, ← String.toList_inj, String.toList_ofList]
  rw [hclean, filter_eq_self]
  simp

/-- The prefix of all indices before a collection is its alias exactly if the alias leaves nothing
out. -/
theorem items_append_eq_aliasOf_iff (n : Naming) (id : String) :
    n.items ++ id = n.aliasOf id ↔ ∀ c ∈ id.toList, c ∉ unsupported := by
  rw [← clean_eq_self_iff, aliasOf, String.append_right_inj, eq_comm]

theorem toList_documentId (item : Json) (collection : String) :
    (documentId item (.str collection)).toList =
      item.display.toList ++ '|' :: collection.toList := by
  simp [documentId, Json.display]

end Naming

namespace Move

variable {n : Naming} {m : Move} {source target : String}

def sourceIndex (n : Naming) (m : Move) : Json :=
  ((m.toJson n).field "source").field "index"

def targetIndex (n : Naming) (m : Move) : Json :=
  ((m.toJson n).field "dest").field "index"

theorem indices_eq (n : Naming) (m : Move) :
    m.sourceIndex n = .str (n.items ++ m.source.display) ∧
    m.targetIndex n = .str (n.items ++ m.target.display) := by
  obtain ⟨source, target, item, refresh⟩ := m
  cases item <;> exact ⟨rfl, rfl⟩

variable (hsource : m.source = .str source) (htarget : m.target = .str target)

include hsource htarget

theorem toList_renamed (key : String) :
    (m.renamed key).toList = replaceFrom source.toList target.toList 0 key.toList := by
  rw [renamed, hsource, htarget, replaceAll, String.toList_ofList, Json.display, Json.display]

/-- If the old collection comes first at its own place, the new name is right. -/
theorem renamed_of_last (hsome : source ≠ "") {item : Json}
    (h : ∀ i ≤ item.display.toList.length,
      ¬ source.toList <+: (documentId item (.str source)).toList.drop i) :
    m.renamed (documentId item (.str source)) = documentId item (.str target) := by
  have hpart : source.toList ≠ [] := by simpa using hsome
  have hsplit : ∀ collection : List Char, item.display.toList ++ '|' :: collection =
      item.display.toList ++ ['|'] ++ collection ++ [] := by
    simp
  rw [← String.toList_inj, toList_renamed hsource htarget]
  rw [toList_documentId, hsplit] at h ⊢
  rw [replaceFrom_first hpart fun i hi => h i (le_of_lt_succ (by simpa using hi)),
    toList_documentId]
  simp [replaceFrom]

/-- **Names without a second bar.** The new name is right exactly if the old collection does not
occur in the id of the item. -/
theorem renamed_eq_iff (hsome : source ≠ "") (hne : source ≠ target) (hbar : '|' ∉ source.toList)
    (item : Json) :
    m.renamed (documentId item (.str source)) = documentId item (.str target) ↔
      ¬ source.toList <:+: item.display.toList := by
  have hpart : source.toList ≠ [] := by simpa using hsome
  have hnew : source.toList ≠ target.toList := mt String.toList_inj.mp hne
  have hlast : replaceFrom source.toList target.toList 0 source.toList = target.toList := by
    simpa [replaceFrom] using @replaceFrom_append _ target.toList hpart []
  rw [← replaceFrom_eq_self_iff hpart hnew, ← String.toList_inj, toList_renamed hsource htarget,
    toList_documentId, toList_documentId, replaceFrom_bar hpart hbar, hlast,
    append_left_inj]

/-- An item with the id of its collection gets a name that is not its own. -/
theorem renamed_self_ne (hsome : source ≠ "") (hne : source ≠ target) :
    m.renamed (documentId (.str source) (.str source)) ≠
      documentId (.str source) (.str target) := by
  intro h
  have hpart : source.toList ≠ [] := by simpa using hsome
  rw [← String.toList_inj, toList_renamed hsource htarget, toList_documentId, toList_documentId,
    Json.display, replaceFrom_append hpart] at h
  -- The second occurrence is replaced too, so that the lengths differ unless those of the
  -- collections agree.
  have hsecond : source.toList <:+: '|' :: source.toList := ⟨['|'], [], by simp⟩
  have hlength : target.toList.length = source.toList.length := by
    refine length_eq_of_replaceFrom hpart hsecond ?_
    have hboth := congrArg length h
    simp only [length_append, length_cons] at hboth ⊢
    omega
  have heq : target.toList = source.toList := append_inj_left h hlength
  exact hne (String.toList_inj.mp heq.symm)

end Move

/-- If a call is a move, it is as said. -/
def Call.Moves (Q : Move → Prop) (c : Call) : Prop :=
  ∀ m, c = .reindex m → Q m

theorem Call.moves_of_ordinary {Q : Move → Prop} {c : Call} (h : c.Ordinary Q) : c.Moves Q := by
  rintro m rfl
  exact h

/-! ### Items within reach -/

/-- How far a move from one collection to another leaves items within reach. -/
structure Move.Reaches (n : Naming) (source target : String) (m : Move) : Prop where
  /-- Its script puts the new collection in the place of the old one. -/
  script : ("ctx._id = ctx._id.replace('" ++ source ++ "', '" ++ target ++ "');").toList <+:
    m.script.toList
  /-- It reads from the alias of the old collection exactly if the alias leaves no character out. -/
  reads : m.sourceIndex n = .str (n.aliasOf source) ↔ ∀ c ∈ source.toList, c ∉ unsupported
  /-- It writes to the alias of the new collection exactly if the alias leaves no character out. -/
  writes : m.targetIndex n = .str (n.aliasOf target) ↔ ∀ c ∈ target.toList, c ∉ unsupported
  /-- A document in whose name the old collection comes first at its own place gets its new name. -/
  named : ∀ item : Json,
    (∀ i ≤ item.display.toList.length, ¬ source.toList <+:
      (documentId item (.str source)).toList.drop i) → m.renamed (documentId item (.str source)) =
      documentId item (.str target)
  /-- If the old collection has no bar, these are all documents that do. -/
  namedIff : '|' ∉ source.toList → ∀ item : Json,
    (m.renamed (documentId item (.str source)) = documentId item (.str target) ↔
      ¬ source.toList <:+: item.display.toList)
  /-- An item with the id of its collection goes astray. -/
  astray : m.renamed (documentId (.str source) (.str source)) ≠
    documentId (.str source) (.str target)

theorem Move.reaches {n : Naming} {m : Move} {source target : String}
    (hsource : m.source = .str source) (htarget : m.target = .str target) (hsome : source ≠ "")
    (hne : source ≠ target) : m.Reaches n source target where
  script := by
    unfold Move.script
    rw [hsource, htarget]
    cases m.item <;> simp [Json.display]
  reads := by
    rw [(indices_eq n m).1, hsource, Json.str.injEq]
    exact items_append_eq_aliasOf_iff n source
  writes := by
    rw [(indices_eq n m).2, htarget, Json.str.injEq]
    exact items_append_eq_aliasOf_iff n target
  named item := renamed_of_last hsource htarget hsome
  namedIff := renamed_eq_iff hsource htarget hsome hne
  astray := renamed_self_ne hsource htarget hsome hne

/-- **Moves and names.** Whatever the database replies, every move that is sent when a collection is
given a new id, or when a patch moves an item to another collection, reads from and writes to the
aliases exactly if these leave no character of the collections out; and the documents that keep
their item within reach are those in whose names the old collection occurs in no other place. An
item with the id of its collection is never among them. -/
theorem moves_reach (ctx : Context) {source target : String} (hsome : source ≠ "")
    (hne : source ≠ target) :
    (∀ collection refresh, collection.item "id" = .ok (.str target) →
      Program.Sends (Call.Moves (Move.Reaches ctx.naming source target))
        (Collections.update ctx (.str source) collection refresh)) ∧
    ∀ item ops refresh,
      Program.Sends (Call.Moves fun m =>
          m.target = .str target → m.Reaches ctx.naming source target)
        (Items.patch ctx (.str source) item ops refresh) := by
  constructor
  · intro collection refresh hid
    refine Program.Sends.imp ?_ fun _ => Call.moves_of_ordinary
    exact sends_updateCollection hid refresh fun refresh => Move.reaches rfl rfl hsome hne
  · intro item ops refresh
    refine Program.Sends.imp ?_ fun _ => Call.moves_of_ordinary
    exact sends_patchItem ops refresh fun given htarget => Move.reaches rfl htarget hsome hne

/-- The calls by which a collection `a` with nothing else stored is given the id `b`. -/
def renamingCalls : List Call :=
  ((Collections.update noon (.str "a") (.single "id" (.str "b")) none).trace (Store.answer [])
    ⟨[("collections", [(.str "a", .single "id" (.str "a"))])], []⟩).1.2

/-- The move is sent, and is right about an item `x` and wrong about an item `ana`. -/
theorem moves_reach_letters :
    ∃ m, .reindex m ∈ renamingCalls ∧ m.sourceIndex .standard = .str "items_a" ∧
      m.targetIndex .standard = .str "items_b" ∧ m.renamed "x|a" = "x|b" ∧
      m.renamed "ana|a" ≠ "ana|b" := by
  have hsent : Call.reindex ⟨.str "a", .str "b", none, .str "false"⟩ ∈ renamingCalls := by
    refine List.mem_of_getElem? (i := 6) ?_
    rfl
  have hmoves := (@moves_reach noon "a" "b" (by decide) (by decide)).1
    (.single "id" (.str "b")) none rfl
  have hreaches := hmoves.of_mem_trace _ hsent _ rfl
  refine ⟨_, hsent, ?_, ?_, ?_, ?_⟩
  · exact hreaches.reads.mpr (List.forall_mem_singleton.mpr (by decide))
  · exact hreaches.writes.mpr (List.forall_mem_singleton.mpr (by decide))
  · exact (hreaches.namedIff (by decide) (.str "x")).mpr (by decide)
  · exact mt (hreaches.namedIff (by decide) (.str "ana")).mp (by decide)

end StacCatalog
