import StacCatalog.Proofs.Url.Parts

/-!
# Where a reference leads
-/

namespace StacCatalog.Url

open List Outcome

variable {p : Parts} {segments rest : List (List Char)} {first file : List Char}

/-! ### Paths -/

def pathOf (segments : List (List Char)) : List Char :=
  segments.flatMap ('/' :: ·)

theorem intercalate_cons (first : List Char) (segments : List (List Char)) :
    ['/'].intercalate (first :: segments) = first ++ pathOf segments := by
  induction segments generalizing first with
  | nil => simp [pathOf]
  | cons segment rest ih =>
    rw [intercalate_cons_cons, ih, pathOf, pathOf, flatMap_cons]
    simp

theorem splitOn_pathOf (h : ∀ segment ∈ segments, '/' ∉ segment) :
    (pathOf segments).splitOn '/' = [] :: segments := by
  have hsplit : (['/'].intercalate ([] :: segments)).splitOn '/' = [] :: segments :=
    splitOn_intercalate '/' (forall_mem_cons.mpr ⟨not_mem_nil, h⟩) (cons_ne_nil _ _)
  rwa [intercalate_cons, nil_append] at hsplit

/-- What ends a segment of a path, or is dropped from it. -/
def marks : List Char :=
  ['/', '?', '#', ';', ':'] ++ breaks

/-- A segment of a path that stands for itself. -/
structure Plain (segment : List Char) : Prop where
  ne_nil : segment ≠ []
  ne_dot : segment ≠ ['.']
  ne_dots : segment ≠ ['.', '.']
  chars : ∀ c ∈ segment, c ∉ marks

theorem plain_iff {segment : List Char} :
    Plain segment ↔
      segment ≠ [] ∧ segment ≠ ['.'] ∧ segment ≠ ['.', '.'] ∧
      (segment.all fun c => ! marks.contains c) = true :=
  ⟨fun h => ⟨h.ne_nil, h.ne_dot, h.ne_dots, by simpa using h.chars⟩, fun h =>
    ⟨h.1, h.2.1, h.2.2.1, by simpa using h.2.2.2⟩⟩

instance (segment : List Char) : Decidable (Plain segment) :=
  decidable_of_iff' _ plain_iff

theorem Plain.notMem {segment : List Char} (h : Plain segment) {mark : Char}
    (hmark : mark ∈ marks) : mark ∉ segment :=
  fun hmem => h.chars mark hmem hmark

theorem walk_plain (h : ∀ segment ∈ segments, Plain segment) (done : List (List Char)) :
    walk done segments = done.reverse ++ segments := by
  induction segments generalizing done with
  | nil => simp [walk]
  | cons segment rest ih =>
    have hplain := h segment mem_cons_self
    rw [walk, if_neg (by simpa using hplain.ne_dots), if_neg (by simpa using hplain.ne_dot),
      ih fun other hother => h other (mem_cons_of_mem _ hother)]
    simp

theorem filter_plain (h : ∀ segment ∈ segments, Plain segment) :
    segments.filter (!·.isEmpty) = segments := by
  rw [filter_eq_self]
  intro segment hsegment
  simpa using (h segment hsegment).ne_nil

/-- A reference takes the place of what stands behind the last slash. -/
theorem mergeSegments_plain {segments reference : List (List Char)}
    (hsegments : ∀ segment ∈ segments, Plain segment)
    (hreference : ∀ segment ∈ reference, Plain segment) (hne : reference ≠ []) (file : List Char) :
    mergeSegments ([] :: (segments ++ [file])) reference = [] :: (segments ++ reference) := by
  obtain ⟨inner, last, rfl⟩ := (eq_nil_or_concat' reference).resolve_left hne
  have hinner := filter_plain fun segment h => hreference segment (mem_append_left _ h)
  have hrest (front : List (List Char)) (hfront : front.filter (!·.isEmpty) = segments) : [] ::
          (front ++ (inner ++ [last])).dropLast.filter (!·.isEmpty) ++
        (front ++ (inner ++ [last])).getLast?.toList = [] :: (segments ++ (inner ++ [last])) := by
    rw [← append_assoc, dropLast_concat, getLast?_concat, filter_append, hfront,
      hinner, ← append_assoc]
    rfl
  have hlast : ([] :: (segments ++ [file])).getLast?.getD [] = file := by
    rw [← cons_append, getLast?_concat, Option.getD_some]
  unfold mergeSegments
  rw [hlast]
  by_cases hempty : file.isEmpty = true
  · obtain rfl := isEmpty_iff.mp hempty
    exact hrest (segments ++ [[]]) (by simp [filter_plain hsegments])
  · rw [if_neg hempty, ← cons_append, dropLast_concat]
    exact hrest segments (filter_plain hsegments)

theorem resolvePath_plain (hsegments : ∀ segment ∈ segments, Plain segment) (hfile : '/' ∉ file)
    (hreference : ∀ segment ∈ first :: rest, Plain segment) :
    resolvePath (pathOf (segments ++ [file])) (first ++ pathOf rest) =
      pathOf (segments ++ first :: rest) := by
  have hslash : ∀ segment, Plain segment → '/' ∉ segment := fun segment h => h.notMem (by decide)
  have hbase : (pathOf (segments ++ [file])).splitOn '/' = [] :: (segments ++ [file]) := by
    refine splitOn_pathOf (forall_mem_append.mpr ⟨fun segment h => hslash _ (hsegments _ h), ?_⟩)
    simpa using hfile
  have hsplit : (first ++ pathOf rest).splitOn '/' = first :: rest := by
    rw [← intercalate_cons]
    exact splitOn_intercalate '/' (fun segment h => hslash _ (hreference _ h)) (cons_ne_nil _ _)
  have hhead : ((first ++ pathOf rest).head? == some '/') = false := by
    have hfirst := hreference first mem_cons_self
    cases first with
    | nil => exact absurd rfl hfirst.ne_nil
    | cons c cs =>
      have hc : c ≠ '/' := fun heq => hslash _ hfirst (heq ▸ mem_cons_self)
      simpa using hc
  have hall : ∀ segment ∈ segments ++ first :: rest, Plain segment :=
      forall_mem_append.mpr ⟨hsegments, hreference⟩
  obtain ⟨front, last, hlast⟩ :=
      (eq_nil_or_concat' (segments ++ first :: rest)).resolve_left (by simp)
  rw [hlast] at hall ⊢
  have hplain := hall last (mem_append_right _ mem_cons_self)
  have hend : ([] :: (front ++ [last])).getLast?.getD [] = last := by
    rw [← cons_append, getLast?_concat, Option.getD_some]
  have hwalk : walk [] ([] :: (front ++ [last])) = [] :: (front ++ [last]) := walk_plain hall [[]]
  have hjoined : ['/'].intercalate ([] :: (front ++ [last])) = pathOf (front ++ [last]) :=
      intercalate_cons [] _
  have hne : (pathOf (front ++ [last])).isEmpty = false := by simp [pathOf]
  unfold resolvePath
  simp only [hbase, hsplit, hhead, mergeSegments_plain hsegments hreference (cons_ne_nil _ _),
    hlast, hwalk, hend, hjoined, hne, hplain.ne_dot, hplain.ne_dots, beq_iff_eq, if_false,
    Bool.false_eq_true, or_self, Bool.or_eq_true]

/-! ### Addresses -/

/-- The address of a path on the host of another address. -/
def Parts.at (p : Parts) (segments : List (List Char)) : Parts :=
  ⟨p.scheme, p.host, pathOf segments, [], [], []⟩

theorem slash_or_notMem_marks (h : ∀ segment ∈ segments, ∀ c ∈ segment, c ∉ marks) :
    ∀ c ∈ pathOf segments, c = '/' ∨ c ∉ marks := by
  intro c hc
  obtain ⟨segment, hsegment, hc⟩ := mem_flatMap.mp hc
  exact (mem_cons.mp hc).imp_right (h segment hsegment c)

theorem mem_of_mem_lastSegment {cs : List Char} {c : Char} (h : c ∈ lastSegment cs) : c ∈ cs := by
  obtain ⟨front, hfront⟩ := exists_append_lastSegment cs
  rw [hfront]
  exact mem_append_right _ h

theorem Hosted.at (h : Hosted p) (hchars : ∀ segment ∈ segments, ∀ c ∈ segment, c ∉ marks) :
    Hosted (p.at segments) where
  scheme := h.scheme
  host_ne_nil := h.host_ne_nil
  host_ok := h.host_ok
  host_chars := h.host_chars
  path_head := by
    intro c hc
    cases segments with
    | nil => cases hc
    | cons segment rest => exact (Option.some.inj hc).symm
  path_chars := by
    intro c hc
    rcases slash_or_notMem_marks hchars c hc with rfl | hmark
    · decide
    · exact ⟨fun heq => hmark (heq ▸ by decide), fun heq => hmark (heq ▸ by decide)⟩
  path_last := by
    intro hmem
    rcases slash_or_notMem_marks hchars _ (mem_of_mem_lastSegment hmem) with heq | hmark
    · exact absurd heq (by decide)
    · exact hmark (by decide)
  params_chars := nofun
  params_behind := fun _ => rfl
  query_chars := not_mem_nil
  unbroken := by
    have hhost := h.unbroken
    simp only [forall_mem_append] at hhost
    simp only [Parts.at, append_nil, forall_mem_append]
    refine ⟨hhost.1.1.1.1, fun c hc => ?_⟩
    rcases slash_or_notMem_marks hchars c hc with rfl | hmark
    · decide
    · exact fun hbreak => hmark (mem_append_right _ hbreak)

theorem Hosted.at_plain (h : Hosted p) (hsegments : ∀ segment ∈ segments, Plain segment)
    (hfile : ∀ c ∈ file, c ∉ marks) : Hosted (p.at (segments ++ [file])) :=
  h.at (forall_mem_append.mpr ⟨fun segment hsegment => (hsegments segment hsegment).chars,
    forall_mem_singleton.mpr hfile⟩)

theorem Hosted.write_at (h : Hosted p) (hchars : ∀ segment ∈ segments, ∀ c ∈ segment, c ∉ marks) :
    (p.at segments).write = p.scheme ++ ':' :: '/' :: '/' :: (p.host ++ pathOf segments) := by
  rw [(h.at hchars).write_eq]
  simp [writeTail, withParams, behind, Parts.at]

theorem read_plain {scheme first : List Char}
    (hscheme : scheme = ['h', 't', 't', 'p'] ∨ scheme = ['h', 't', 't', 'p', 's'])
    (hplain : ∀ segment ∈ first :: rest, Plain segment)
    (hfirst : first.head?.all (32 < ·.toNat) = true) :
    Parts.read scheme (first ++ pathOf rest) =
      .ok ⟨scheme, [], first ++ pathOf rest, [], [], []⟩ := by
  obtain ⟨c, cs, rfl⟩ := exists_cons_of_ne_nil (hplain first mem_cons_self).ne_nil
  have hslash : c ≠ '/' := by
    rintro rfl
    exact (hplain _ mem_cons_self).notMem (by decide) mem_cons_self
  have hchars : ∀ d ∈ (c :: cs) ++ pathOf rest, d = '/' ∨ d ∉ marks :=
    forall_mem_append.mpr ⟨fun d hd => .inr ((hplain _ mem_cons_self).chars d hd),
      slash_or_notMem_marks fun segment hsegment =>
        (hplain segment (mem_cons_of_mem _ hsegment)).chars⟩
  generalize hreference : (c :: cs) ++ pathOf rest = reference at hchars ⊢
  have hnone (mark : Char) (hslash : mark ≠ '/') (hmark : mark ∈ marks) : mark ∉ reference :=
    fun hmem => (hchars mark hmem).elim hslash (· hmark)
  have htidy : tidy reference = reference := by
    have hkeep : ∀ c ∈ reference, c ∉ breaks := fun c hc hbreak =>
      hnone c (fun heq => absurd (heq ▸ hbreak) (by decide)) (mem_append_right _ hbreak) hc
    have hdrop : reference.dropWhile (fun c => c.toNat ≤ 32) = reference := by
      rw [← hreference]
      exact dropWhile_cons_of_neg (by simpa using hfirst)
    rw [tidy, hdrop, filter_of_unbroken hkeep]
  have hhost : splitHost reference = ([], reference) := by
    rw [← hreference]
    unfold splitHost
    split
    · rename_i heq
      exact absurd (cons.inj heq).1 hslash
    · rfl
  have hparams : splitParams reference = (reference, []) :=
    splitParams_of_notMem fun hmem => hnone ';' (by decide) (by decide)
      (mem_of_mem_lastSegment hmem)
  have hread : readScheme reference = none := by
    unfold readScheme
    rw [cut_of_notMem (hnone ':' (by decide) (by decide))]
    cases reference <;> rfl
  -- So there is no scheme, no host, and nothing behind the path.
  rw [Parts.read, htidy, hread]
  simp only [Option.getD_none, hhost, partsBehind, cut_of_notMem
    (hnone '#' (by decide) (by decide)), cut_of_notMem (hnone '?' (by decide) (by decide)), hparams,
    paramSchemes_contains hscheme, if_true]
  rfl

/-- A reference without a scheme and a host of its own is resolved on the host of the base. -/
theorem Hosted.joinChars_eq {b : Parts} (h : Hosted b) {url : List Char}
    {u : Parts} (hne : url ≠ []) (hread : Parts.read b.scheme url = .ok u)
    (hscheme : u.scheme = b.scheme) (hhost : u.host = []) :
    joinChars b.write url = .ok (if u.path.isEmpty && u.params.isEmpty then
      { u with
        host := b.host, path := b.path, params := b.params,
        query := if u.query.isEmpty then b.query else u.query }.write
      else { u with host := b.host, path := resolvePath b.path u.path }.write) := by
  have hschemes : relativeSchemes.contains (String.ofList b.scheme) = true ∧
      hostSchemes.contains (String.ofList b.scheme) = true := by
    rcases h.scheme with hscheme | hscheme <;> rw [hscheme] <;> decide
  have hbase : b.write.isEmpty = false := by
    rw [h.write_eq]
    simp
  have hurl : url.isEmpty = false := by simpa using hne
  unfold joinChars
  rw [hbase, hurl, h.read_write]
  simp only [ok_bind, hread, hscheme, hhost, hschemes, bne_self_eq_false, Bool.not_true,
    Bool.or_self, Bool.false_eq_true, if_false, if_true, isEmpty_nil, Bool.and_false]
  split <;> rfl

/-- **A reference** leads to the directory of the address that it is resolved against. -/
theorem Hosted.join_at (h : Hosted p) (hsegments : ∀ segment ∈ segments, Plain segment)
    (file : List Char) (hfile : ∀ c ∈ file, c ∉ marks)
    (hreference : ∀ segment ∈ first :: rest, Plain segment)
    (hfirst : first.head?.all (32 < ·.toNat) = true) :
    joinChars (p.at (segments ++ [file])).write (first ++ pathOf rest) =
      .ok (p.at (segments ++ first :: rest)).write := by
  have hplain := hreference first mem_cons_self
  have hne : first ++ pathOf rest ≠ [] := append_ne_nil_of_left_ne_nil hplain.ne_nil _
  have hpath : ((first ++ pathOf rest).isEmpty && ([] : List Char).isEmpty) =
      false := by simpa using hne
  rw [(h.at_plain hsegments hfile).joinChars_eq hne (read_plain h.scheme hreference hfirst) rfl rfl,
    hpath]
  simp only [Parts.at, resolvePath_plain hsegments (fun hmem => hfile _ hmem (by decide))
    hreference, Bool.false_eq_true, if_false]

/-- An address on a host can be taken apart, whatever stands behind the host. -/
theorem Hosted.exists_read (h : Hosted p) {tail : List Char}
    (htail : ∀ c ∈ tail.head?, c ∈ ['/', '?', '#']) :
    ∃ b, Parts.read [] (p.scheme ++ ':' :: '/' :: '/' :: (p.host ++ tail)) = .ok b ∧
      b.scheme = p.scheme := by
  have htidy : tidy (p.scheme ++ ':' :: '/' :: '/' :: (p.host ++ tail)) =
      p.scheme ++
      ':' :: '/' :: '/' ::
      (p.host ++ tail.filter fun c => c != '\t' && c != '\r' && c != '\n') := by
    have hhost := filter_of_unbroken fun c (hc : c ∈ p.host) => h.unbroken c (by simp [hc])
    rcases h.scheme with hscheme | hscheme <;> simp [tidy, hscheme, hhost]
  have hhead : ∀ c ∈ (tail.filter fun c => c != '\t' && c != '\r' && c != '\n').head?,
      c ∈ ['/', '?', '#'] := by
    cases tail with
    | nil => simp
    | cons c rest =>
      obtain rfl | rfl | rfl : c = '/' ∨ c = '?' ∨ c = '#' := by simpa using htail c rfl
      all_goals simp
  rw [Parts.read, htidy, h.readScheme_write]
  have hsplit := splitAtAny_append h.host_chars hhead
  simp only [Option.getD_some, splitHost, hsplit, h.host_ok, Bool.not_true,
    Bool.false_eq_true, if_false]
  exact ⟨_, rfl, rfl⟩

theorem Hosted.exists_write {p q : Parts} (h : Hosted p) (hscheme : q.scheme = p.scheme)
    (hhost : q.host = p.host) :
    ∃ tail, q.write = p.scheme ++ ':' :: '/' :: '/' :: (p.host ++ tail) ∧
      ∀ c ∈ tail.head?, c ∈ ['/', '?', '#'] := by
  have hschemeless : p.scheme.isEmpty = false := by
    rcases h.scheme with hscheme | hscheme <;> rw [hscheme] <;> rfl
  have hhostless : p.host.isEmpty = false := isEmpty_eq_false_iff.mpr h.host_ne_nil
  unfold Parts.write
  set path := withParams q.path q.params
  rw [hscheme, hhost, hschemeless, hhostless]
  refine ⟨(if path.isEmpty || path.head? == some '/' then path else '/' :: path) ++
    behind '?' q.query ++ behind '#' q.fragment, by simp, ?_⟩
  intro c hc
  grind [behind]

/-! ### Bases -/

theorem Hosted.write_behind (h : Hosted p) (hsegments : ∀ segment ∈ segments, Plain segment)
    (hrest : ∀ segment ∈ first :: rest, Plain segment) :
    (p.at (segments ++ first :: rest)).write =
      (p.at (segments ++ [[]])).write ++ (first ++ pathOf rest) := by
  have hchars : ∀ segment ∈ segments, ∀ c ∈ segment, c ∉ marks := fun segment hsegment =>
      (hsegments segment hsegment).chars
  rw [h.write_at (forall_mem_append.mpr ⟨hchars, fun segment hsegment =>
    (hrest segment hsegment).chars⟩), h.write_at (forall_mem_append.mpr ⟨hchars, by simp⟩)]
  simp [pathOf]

/-- A base: a web address that ends with a slash. -/
def Base (base : String) : Prop :=
  ∃ (p : Parts) (segments : List (List Char)), Hosted p ∧ (∀ segment ∈ segments, Plain segment) ∧
    base.toList = (p.at (segments ++ [[]])).write

theorem join_of_joinChars {base url target : String}
    (h : joinChars base.toList url.toList = .ok target.toList) : join base url = .ok target := by
  rw [join, h, ok_bind, String.ofList_toList]
  rfl

/-- A segment that can be resolved as it stands. -/
def Word (word : String) : Prop :=
  Plain word.toList ∧ word.toList.head?.all (32 < ·.toNat) = true

instance (word : String) : Decidable (Word word) :=
  inferInstanceAs (Decidable (_ ∧ _))

namespace Base

variable {base front file word : String}

theorem exists_read (h : Base base) : ∃ p, Parts.read [] base.toList = .ok p := by
  obtain ⟨p, segments, hp, hsegments, hbase⟩ := h
  rw [hbase]
  exact ⟨_, (hp.at_plain hsegments (by simp)).read_write⟩

/-- **Behind a base** stands what is resolved against it. -/
theorem join_eq (h : Base base) {url : String} (hurl : url.toList = first ++ pathOf rest)
    (hplain : ∀ segment ∈ first :: rest, Plain segment)
    (hfirst : first.head?.all (32 < ·.toNat) = true) : join base url = .ok (base ++ url) := by
  obtain ⟨p, segments, hp, hsegments, hbase⟩ := h
  have hjoin := hp.join_at hsegments [] (by simp) hplain hfirst
  rw [hp.write_behind hsegments hplain, ← hbase, ← hurl, ← String.toList_append] at hjoin
  exact join_of_joinChars hjoin

theorem join_word (h : Base base) (word : String) (hword : Word word) :
    join base word = .ok (base ++ word) :=
  h.join_eq (append_nil _).symm (forall_mem_singleton.mpr hword.1) hword.2

theorem join_collection (h : Base base) {id : String} (hid : Plain id.toList) :
    join base ("collections/" ++ id) = .ok (base ++ ("collections/" ++ id)) := by
  have htext : ("collections/" ++ id).toList = "collections".toList ++
      pathOf [id.toList] := by simp [pathOf]
  exact h.join_eq htext (forall_mem_cons.mpr ⟨by decide, forall_mem_singleton.mpr hid⟩) (by decide)

/-- **The last segment** of an address that does not end with a slash makes way for what is resolved
against it. -/
theorem join_sibling (h : Base base) {folder : List Char} (hfront : front.toList = folder ++ ['/'])
    (hfolder : Plain folder) (hfile : Plain file.toList) (hword : Word word) :
    join (base ++ front ++ file) word = .ok (base ++ front ++ word) := by
  obtain ⟨p, segments, hp, hsegments, hbase⟩ := h
  have hbehind (last : String) (hlast : Plain last.toList) :
      (p.at (segments ++ [folder] ++ [last.toList])).write = (base ++ front ++ last).toList := by
    have hplain : ∀ segment ∈ [folder, last.toList],
        Plain segment := by simpa using ⟨hfolder, hlast⟩
    rw [append_assoc, singleton_append, hp.write_behind hsegments hplain, ← hbase]
    simp [pathOf, hfront]
  have hfolders : ∀ segment ∈ segments ++ [folder], Plain segment :=
    forall_mem_append.mpr ⟨hsegments, by simpa using hfolder⟩
  have hjoin := hp.join_at hfolders file.toList hfile.chars
      (forall_mem_singleton.mpr hword.1) hword.2
  rw [hbehind file hfile, hbehind word hword.1] at hjoin
  exact join_of_joinChars (by simpa only [pathOf, flatMap_nil, append_nil] using hjoin)

/-- An address inside the catalogue can be resolved against a base, and a word against it. -/
theorem exists_join_inside (h : Base base) (rest word : String) (hword : Word word) :
    ∃ url target,
      join base ("collections/" ++ rest) = .ok url ∧ join (url ++ "/") word = .ok target := by
  obtain ⟨p, segments, hp, hsegments, hbase⟩ := h
  have hhosted : Hosted (p.at (segments ++ [[]])) := hp.at_plain hsegments (by simp)
  obtain ⟨u, hread, hscheme, hhost⟩ := read_inside p.scheme rest
  have hjoin : ∃ q : Parts, join base ("collections/" ++ rest) = .ok (String.ofList q.write) ∧
      q.scheme = p.scheme ∧ q.host = p.host := by
    have hchars := hhosted.joinChars_eq (by simp) hread hscheme hhost
    rw [← hbase] at hchars
    rw [join, hchars]
    split <;> exact ⟨_, rfl, hscheme, rfl⟩
  obtain ⟨q, hurl, hqscheme, hqhost⟩ := hjoin
  obtain ⟨tail, hwrite, htail⟩ := hp.exists_write hqscheme hqhost
  have hslash : ∀ c ∈ (tail ++ ['/']).head?, c ∈ ['/', '?', '#'] := by
    cases tail with
    | nil => simp
    | cons c rest => exact htail
  obtain ⟨b, hb, hbscheme⟩ := hp.exists_read hslash
  have htarget : ∃ target, join (String.ofList q.write ++ "/") word = .ok target := by
    have hbase : (String.ofList q.write ++ "/").toList =
        p.scheme ++ ':' :: '/' :: '/' :: (p.host ++ (tail ++ ['/'])) := by
      simp [hwrite]
    have hreference := read_plain hp.scheme (forall_mem_singleton.mpr hword.1) hword.2
    rw [pathOf, flatMap_nil, append_nil, ← hbscheme] at hreference
    simp only [join, joinChars, hbase, hb, hreference, ok_bind, pure_eq_ok]
    split_ifs <;> exact ⟨_, rfl⟩
  obtain ⟨target, htarget⟩ := htarget
  exact ⟨_, target, hurl, htarget⟩

end Base

theorem base_host : Base "http://host/" := by
  refine ⟨⟨['h', 't', 't', 'p'], ['h', 'o', 's', 't'], [], [], [], []⟩,
    [], ?_, nofun, by decide +kernel⟩
  exact ⟨.inl rfl, nofun, by decide, by simp, nofun, nofun, by decide, nofun, fun _ => rfl, nofun,
    by simp [breaks]⟩

end StacCatalog.Url
