import StacCatalog.Proofs.Json.Fields
import StacCatalog.Proofs.Url.Escapes
import StacCatalog.Proofs.Url.Parts
import StacCatalog.Url.Query

/-!
# The parameters of a query, written and read back
-/

namespace StacCatalog

open List Fields

variable {params : Fields} {text name : String} {pair : String × String}

namespace Fields

theorem map_insertAll (f : Json → Json) (fields more : Fields) :
    (fields.insertAll more).map (Prod.map id f) =
      insertAll (fields.map (Prod.map id f)) (more.map (Prod.map id f)) := by
  have hset : ∀ (fields : Fields) (name : String) (value : Json),
      (fields.insert name value).map (Prod.map id f) =
        insert (fields.map (Prod.map id f)) name (f value) := by
    intro fields name value
    induction fields with
    | nil => rfl
    | cons entry rest ih =>
      obtain ⟨key, old⟩ := entry
      simp only [insert, Keyed.set, map_cons, Prod.map_apply, id] at ih ⊢
      split
      · rfl
      · rw [map_cons, ih]
        rfl
  induction more generalizing fields with
  | nil => rfl
  | cons entry rest ih =>
    show (insertAll (fields.insert entry.1 entry.2) rest).map (Prod.map id f) = _
    rw [ih, hset]
    rfl

end Fields

namespace Url

/-! ### Values that leave a mark -/

/-- A value that leaves a mark in a query: it has texts, none of them empty. -/
def Marked (value : Json) : Prop :=
  valueTexts value ≠ [] ∧ ∀ text ∈ valueTexts value, text ≠ ""

/-- Parameters that can be written: each name stands once, and its value leaves a mark. -/
structure Writable (params : Fields) : Prop where
  nodup : params.names.Nodup
  marked : ∀ entry ∈ params, Marked entry.2

theorem Writable.tail {entry : String × Json} {rest : Fields} (h : Writable (entry :: rest)) :
    Writable rest where
  nodup := (nodup_cons.mp h.nodup).2
  marked other hother := h.marked other (mem_cons_of_mem _ hother)

theorem Writable.insert (h : Writable params) {value : Json} (hvalue : Marked value)
    (name : String) : Writable (insert params name value) where
  nodup := nodup_insert h.nodup name value
  marked entry hentry := by
    rcases mem_of_mem_insert hentry with rfl | hold
    · exact hvalue
    · exact h.marked entry hold

theorem Writable.insertAll {more : Fields} (h : Writable params)
    (hmore : ∀ entry ∈ more, Marked entry.2) : Writable (insertAll params more) :=
  foldlRecOn (motive := Writable) _ _ h fun _ hparams entry hentry => hparams.insert
    (hmore entry hentry) entry.1

theorem marked_text (h : text ≠ "") : Marked (.str text) :=
  ⟨cons_ne_nil _ _, fun _ hother => mem_singleton.mp hother ▸ h⟩

/-! ### Pairs, there and back -/

def pairsOf (params : Fields) : List (String × String) :=
  params.flatMap fun entry => (valueTexts entry.2).map fun text => (entry.1, text)

def writePair (pair : String × String) : List Char :=
  escape pair.1 ++ '=' :: escape pair.2

theorem writeQuery_eq (params : Fields) :
    writeQuery params = ['&'].intercalate ((pairsOf params).map writePair) := by
  rw [pairsOf, map_flatMap]
  simp only [map_map]
  rfl

theorem readPair?_writePair (h : pair.2 ≠ "") : readPair? (writePair pair) = some pair := by
  have hname : '=' ∉ escape pair.1 := notMem_escape (by decide) pair.1
  have hvalue : (escape pair.2).isEmpty = false := isEmpty_eq_false_iff.mpr (escape_ne_nil h)
  simp only [readPair?, writePair, cut_append hname, hvalue, unescape_escape,
    Bool.false_eq_true, if_false]

/-- What is in a query that was written: what escapes are made of, and the marks between them. -/
theorem isWritten_of_mem_writeQuery {c : Char} (h : c ∈ writeQuery params) :
    isWritten c = true ∨ c = '=' ∨ c = '&' := by
  have hparts : ∀ parts : List (List Char),
      (∀ part ∈ parts, ∀ c ∈ part, isWritten c = true ∨ c = '=' ∨ c = '&') →
      ∀ c ∈ ['&'].intercalate parts, isWritten c = true ∨ c = '=' ∨ c = '&' := by
    intro parts hall
    induction parts with
    | nil => simp
    | cons part rest ih =>
      obtain ⟨hpart, hrest⟩ := forall_mem_cons.mp hall
      intro c hc
      by_cases hnil : rest = []
      · rw [hnil, intercalate_singleton] at hc
        exact hpart c hc
      · rw [intercalate_cons_of_ne_nil hnil, append_assoc, mem_append, singleton_append,
          mem_cons] at hc
        rcases hc with hc | rfl | hc
        · exact hpart c hc
        · exact .inr (.inr rfl)
        · exact ih hrest c hc
  rw [writeQuery_eq] at h
  refine hparts _ (fun part hpart c hc => ?_) c h
  obtain ⟨pair, -, rfl⟩ := mem_map.mp hpart
  rw [writePair, mem_append, mem_cons] at hc
  rcases hc with hc | rfl | hc
  · exact .inl (isWritten_of_mem_escape hc)
  · exact .inr (.inl rfl)
  · exact .inl (isWritten_of_mem_escape hc)

theorem notMem_writePair (pair : String × String) : '&' ∉ writePair pair := by
  rw [writePair, mem_append, mem_cons]
  rintro (hname | heq | hvalue)
  · exact notMem_escape (by decide) _ hname
  · cases heq
  · exact notMem_escape (by decide) _ hvalue

theorem filterMap_readPair? (h : Writable params) :
    ((writeQuery params).splitOn '&').filterMap readPair? = pairsOf params := by
  have hback : ∀ pair ∈ pairsOf params, (readPair? ∘ writePair) pair = some pair := by
    intro pair hpair
    obtain ⟨entry, hentry, hmem⟩ := mem_flatMap.mp hpair
    obtain ⟨text, htext, rfl⟩ := mem_map.mp hmem
    exact readPair?_writePair ((h.marked entry hentry).2 text htext)
  rw [writeQuery_eq]
  by_cases hnone : pairsOf params = []
  · rw [hnone]
    rfl
  · have hparts : ∀ part ∈ (pairsOf params).map writePair, '&' ∉ part := by
      intro part hpart
      obtain ⟨pair, -, rfl⟩ := mem_map.mp hpart
      exact notMem_writePair pair
    rw [splitOn_intercalate '&' hparts (by simpa using hnone), filterMap_map, filterMap_congr hback]
    exact filterMap_some

/-! ### Gathering -/

/-- A value as it is read: the array of its texts. -/
def gathered (value : Json) : Json :=
  .arr ((valueTexts value).map .str)

theorem addValue_new (h : name ∉ params.names) (text : String) :
    addValue params name text = params ++ [(name, .arr [.str text])] := by
  rw [addValue, get?_eq_none_iff.mpr h]
  exact insert_of_notMem h _

theorem addValue_last (h : name ∉ params.names) (values : List Json) (text : String) :
    addValue (params ++ [(name, .arr values)]) name text =
      params ++ [(name, .arr (values ++ [.str text]))] := by
  have hget : get? (params ++ [(name, .arr values)]) name = some (.arr values) := by
    rw [← insert_of_notMem h, get?_insert, if_pos rfl]
  simp only [addValue, hget]
  rw [← insert_of_notMem h, ← insert_of_notMem h, insert_insert]

theorem foldl_addValue_texts (h : name ∉ params.names) (values : List Json) (texts : List String) :
    (texts.map fun text => (name, text)).foldl (fun acc pair => addValue acc pair.1 pair.2)
      (params ++ [(name, .arr values)]) = params ++ [(name, .arr (values ++ texts.map .str))] := by
  induction texts generalizing values with
  | nil => simp
  | cons text rest ih =>
    rw [map_cons, foldl_cons, addValue_last h, ih, append_assoc]
    rfl

theorem foldl_addValue_pairsOf {before : Fields} (h : Writable params)
    (hnew : ∀ name ∈ params.names, name ∉ before.names) :
    (pairsOf params).foldl (fun acc pair => addValue acc pair.1 pair.2) before =
      before ++ params.map (Prod.map id gathered) := by
  induction params generalizing before with
  | nil => exact (append_nil before).symm
  | cons entry rest ih =>
    obtain ⟨name, value⟩ := entry
    have hname : name ∉ before.names := hnew name mem_cons_self
    obtain ⟨text, texts, htexts⟩ := exists_cons_of_ne_nil (h.marked _ mem_cons_self).1
    have hpairs : pairsOf ((name, value) :: rest) =
        (name, text) :: (texts.map fun text => (name, text)) ++ pairsOf rest := by
      rw [pairsOf, flatMap_cons, htexts]
      rfl
    have hgathered : gathered value = .arr (.str text :: texts.map .str) := by
      rw [gathered, htexts]
      rfl
    have hrest : ∀ other ∈ names rest, other ∉ names (before ++ [(name, gathered value)]) := by
      intro other hother hmem
      rw [names, map_append, mem_append, map_singleton, mem_singleton] at hmem
      rcases hmem with hmem | rfl
      · exact hnew other (mem_cons_of_mem _ hother) hmem
      · exact (nodup_cons.mp h.nodup).1 hother
    rw [hgathered] at hrest
    rw [hpairs, cons_append, foldl_cons, foldl_append, addValue_new hname,
      foldl_addValue_texts hname, singleton_append, ih h.tail hrest, append_assoc, map_cons,
      Prod.map_apply, hgathered]
    rfl

/-- **Parameters are read back**, each with the array of its texts. -/
theorem readQuery_writeQuery (h : Writable params) :
    readQuery (writeQuery params) = params.map (Prod.map id gathered) := by
  rw [readQuery, filterMap_readPair? h]
  exact foldl_addValue_pairsOf h fun _ _ => not_mem_nil

/-! ### What is read -/

/-- Parameters as they are read: they can be written, and their values are arrays of texts. -/
structure Gathered (params : Fields) : Prop extends Writable params where
  texts : ∀ entry ∈ params, ∃ texts : List String, entry.2 = .arr (texts.map .str)

theorem valueTexts_arr (texts : List String) : valueTexts (.arr (texts.map .str)) = texts := by
  rw [valueTexts, map_map]
  exact map_id texts

theorem Gathered.map_gathered (h : Gathered params) :
    params.map (Prod.map id gathered) = params := by
  refine (map_congr_left fun entry hentry => ?_).trans (map_id params)
  obtain ⟨name, value⟩ := entry
  obtain ⟨texts, rfl⟩ := h.texts _ hentry
  rw [Prod.map_apply, gathered, valueTexts_arr]
  rfl

theorem Gathered.addValue (h : Gathered params) (name : String) (htext : text ≠ "") :
    Gathered (addValue params name text) := by
  have hinsert : ∀ texts : List String, (∀ other ∈ texts, other ≠ "") →
      Gathered (insert params name (.arr ((texts ++ [text]).map .str))) := by
    intro texts htexts
    have hmarked : Marked (.arr ((texts ++ [text]).map .str)) := by
      rw [Marked, valueTexts_arr]
      refine ⟨by simp, fun other hother => ?_⟩
      rcases mem_append.mp hother with hother | hother
      · exact htexts other hother
      · exact mem_singleton.mp hother ▸ htext
    refine ⟨h.toWritable.insert hmarked name, fun entry hentry => ?_⟩
    rcases mem_of_mem_insert hentry with rfl | hold
    · exact ⟨_, rfl⟩
    · exact h.texts entry hold
  cases hget : get? params name with
  | none =>
    simp only [Url.addValue, hget]
    exact hinsert [] (by simp)
  | some value =>
    obtain ⟨texts, rfl⟩ := h.texts _ (Keyed.mem_of_lookup hget)
    have hold := (h.marked _ (Keyed.mem_of_lookup hget)).2
    rw [valueTexts_arr] at hold
    simp only [Url.addValue, hget]
    simpa using hinsert texts hold

theorem readPair?_ne_empty {cs : List Char} (h : readPair? cs = some pair) : pair.2 ≠ "" := by
  unfold readPair? at h
  split at h
  · split at h
    · cases h
    · rename_i hvalue
      cases h
      exact unescape_ne_empty (by simpa using hvalue)
  · cases h

/-- Whatever a query is, its parameters are read as arrays of texts that are not empty. -/
theorem gathered_readQuery (query : List Char) : Gathered (readQuery query) := by
  refine foldlRecOn (motive := Gathered) _ _ ⟨⟨nodup_nil, nofun⟩, nofun⟩
    fun before hbefore pair hpair => ?_
  obtain ⟨cs, -, hread⟩ := mem_filterMap.mp hpair
  exact hbefore.addValue pair.1 (readPair?_ne_empty hread)

end Url

end StacCatalog
