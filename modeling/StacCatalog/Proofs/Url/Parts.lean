import StacCatalog.Proofs.Json.Access
import StacCatalog.Proofs.Text.Spans
import StacCatalog.Url.Join

/-!
# The parts of a URL, written and read back
-/

namespace StacCatalog.Url

open List

variable {stop mark c : Char} {cs front url scheme : List Char} {p : Parts}

/-! ### Dividing at marks -/

theorem cut_of_notMem (h : stop ∉ cs) : cut stop cs = (cs, none) := by
  have hdrop : cs.dropWhile (· != stop) = [] := dropWhile_eq_nil_iff.mpr (bne_of_notMem h)
  simp only [cut, hdrop]

theorem cut_append (h : stop ∉ cs) (rest : List Char) :
    cut stop (cs ++ stop :: rest) = (cs, some rest) := by
  obtain ⟨htake, hdrop⟩ :=
      takeWhile_append_char h (show ∀ c ∈ (stop :: rest).head?, c = stop by simp)
  simp only [cut, hdrop, htake]

theorem cut_cases (stop : Char) (cs : List Char) :
    (stop ∉ cs ∧ cut stop cs = (cs, none)) ∨
    ∃ front rest, cs = front ++ stop :: rest ∧ stop ∉ front ∧ cut stop cs = (front, some rest) := by
  by_cases h : stop ∈ cs
  · obtain ⟨front, rest, rfl, hfront⟩ := eq_append_cons_of_mem h
    exact .inr ⟨front, rest, rfl, hfront, cut_append hfront rest⟩
  · exact .inl ⟨h, cut_of_notMem h⟩

theorem cut_fst (stop : Char) (cs : List Char) : (cut stop cs).1 = cs.takeWhile (· != stop) := by
  unfold cut
  split
  · rename_i hdrop
    exact (takeWhile_eq_self_iff.mpr (dropWhile_eq_nil_iff.mp hdrop)).symm
  · rfl

theorem cut_behind (h : mark ∉ front) (part : List Char) :
    (cut mark (front ++ behind mark part)).1 = front ∧
    (cut mark (front ++ behind mark part)).2.getD [] = part := by
  cases part with
  | nil =>
    rw [behind, isEmpty_nil, if_pos rfl, append_nil, cut_of_notMem h]
    exact ⟨rfl, rfl⟩
  | cons c rest =>
    rw [behind, isEmpty_cons, if_neg Bool.false_ne_true, cut_append h]
    exact ⟨rfl, rfl⟩

theorem cut_isPrefix (stop : Char) (cs : List Char) : (cut stop cs).1 <+: cs := by
  rw [cut_fst]
  exact takeWhile_prefix _

theorem mem_head?_of_isPrefix (h : front <+: cs) (hc : c ∈ front.head?) : c ∈ cs.head? := by
  obtain ⟨rest, rfl⟩ := h
  cases front with
  | nil => cases hc
  | cons first others => exact hc

theorem mem_of_mem_cut :
    (c ∈ (cut stop cs).1 → c ∈ cs) ∧ (c ∈ (cut stop cs).2.getD [] → c ∈ cs) := by
  rcases cut_cases stop cs with ⟨-, hcut⟩ | ⟨front, rest, rfl, -, hcut⟩
  · rw [hcut]
    exact ⟨id, fun h => absurd h not_mem_nil⟩
  · rw [hcut]
    exact ⟨mem_append_left _, fun h => mem_append_right _ (mem_cons_of_mem _ h)⟩

theorem notMem_cut (stop : Char) (cs : List Char) : stop ∉ (cut stop cs).1 := by
  rw [cut_fst]
  exact notMem_takeWhile stop cs

theorem splitAtAny_append {stops rest : List Char} (hfront : ∀ c ∈ front, c ∉ stops)
    (hrest : ∀ c ∈ rest.head?, c ∈ stops) : splitAtAny stops (front ++ rest) = (front, rest) := by
  refine Prod.ext_iff.mpr (takeWhile_append_stop (fun c hc => ?_) fun c hc => ?_)
  · simpa using hfront c hc
  · simpa using hrest c hc

/-! ### Parameters of the last segment -/

theorem lastSegment_append (cs : List Char) {tail : List Char} (h : '/' ∉ tail) :
    lastSegment (cs ++ tail) = lastSegment cs ++ tail := by
  have hpass : ∀ c ∈ tail.reverse, (c != '/') = true := bne_of_notMem (mem_reverse.not.mpr h)
  rw [lastSegment, reverse_append, takeWhile_append_of_pos hpass, reverse_append, reverse_reverse]
  rfl

theorem notMem_lastSegment (cs : List Char) : '/' ∉ lastSegment cs :=
  fun h => notMem_takeWhile _ _ (mem_reverse.mp h)

theorem exists_append_lastSegment (cs : List Char) : ∃ front, cs = front ++ lastSegment cs := by
  refine ⟨(cs.reverse.dropWhile (· != '/')).reverse, ?_⟩
  rw [lastSegment, ← reverse_append, takeWhile_append_dropWhile, reverse_reverse]

theorem splitParams_of_notMem {path : List Char} (h : ';' ∉ lastSegment path) :
    splitParams path = (path, []) := by
  simp only [splitParams, cut_of_notMem h]

theorem splitParams_append {path params : List Char} (hpath : ';' ∉ lastSegment path)
    (hparams : '/' ∉ params) : splitParams (path ++ ';' :: params) = (path, params) := by
  have htail : '/' ∉ ';' :: params := by simpa using hparams
  have hlength : (path ++ ';' :: params).length - params.length - 1 = path.length := by
    rw [length_append, length_cons]
    omega
  simp only [splitParams, lastSegment_append path htail, cut_append hpath, hlength, take_left]

theorem splitParams_withParams {path params : List Char} (hpath : ';' ∉ lastSegment path)
    (hparams : '/' ∉ params) : splitParams (withParams path params) = (path, params) := by
  cases params with
  | nil =>
    rw [withParams, behind, isEmpty_nil, if_pos rfl, append_nil]
    exact splitParams_of_notMem hpath
  | cons c rest =>
    rw [withParams, behind, isEmpty_cons, if_neg Bool.false_ne_true]
    exact splitParams_append hpath hparams

/-- Parameters begin at the first semicolon of the last segment. -/
theorem splitParams_cases (cs : List Char) :
    (';' ∉ lastSegment cs ∧ splitParams cs = (cs, [])) ∨
    ∃ path params, cs = path ++ ';' :: params ∧ ';' ∉ lastSegment path ∧ '/' ∉ params ∧
      splitParams cs = (path, params) := by
  obtain ⟨front, hfront⟩ := exists_append_lastSegment cs
  rcases cut_cases ';' (lastSegment cs) with ⟨hnone, -⟩ | ⟨name, params, hlast, hname, -⟩
  · exact .inl ⟨hnone, splitParams_of_notMem hnone⟩
  · have hslash := notMem_lastSegment cs
    rw [hlast, mem_append, mem_cons, not_or, not_or] at hslash
    have htail : '/' ∉ ';' :: params := by simpa using hslash.2.2
    have hcs : cs = (front ++ name) ++ ';' :: params := by
      rwa [append_assoc, ← hlast]
    have hpath : lastSegment (front ++ name) = name := by
      have hsame := lastSegment_append (front ++ name) htail
      rw [← hcs, hlast] at hsame
      exact (append_cancel_right hsame).symm
    have hsemicolon : ';' ∉ lastSegment (front ++ name) := by rwa [hpath]
    refine .inr ⟨front ++ name, params, hcs, hsemicolon, hslash.2.2, ?_⟩
    rw [hcs, splitParams_append hsemicolon hslash.2.2]

theorem exists_of_read (h : Parts.read [] url = .ok p) (hscheme : p.scheme ≠ [])
    (hhost : p.host ≠ []) :
    ∃ rest, readScheme (tidy url) = some (p.scheme, '/' :: '/' :: rest) ∧ hostOk p.host = true ∧
      p.host = (splitAtAny ['/', '?', '#'] rest).1 ∧
      p = partsBehind p.scheme p.host (splitAtAny ['/', '?', '#'] rest).2 := by
  unfold Parts.read at h
  dsimp only at h
  split at h
  · cases h
  · rename_i hok
    cases h
    rw [Bool.not_eq_true, Bool.not_eq_false'] at hok
    cases hread : readScheme (tidy url) with
    | none =>
      rw [hread] at hscheme
      exact absurd rfl hscheme
    | some read =>
      obtain ⟨scheme, cs⟩ := read
      rw [hread, Option.getD_some] at hhost hok
      have hslashes : ∃ rest, cs = '/' :: '/' :: rest := by
        unfold splitHost at hhost
        split at hhost
        · rename_i rest heq
          exact ⟨rest, heq⟩
        · exact absurd rfl hhost
      obtain ⟨rest, rfl⟩ := hslashes
      exact ⟨rest, rfl, hok, rfl, rfl⟩

/-! ### URLs with a host -/

def breaks : List Char :=
  ['\t', '\r', '\n']

/-- The parts of a web address: no part has a mark in it at which it would be divided. -/
structure Hosted (p : Parts) : Prop where
  scheme : p.scheme = ['h', 't', 't', 'p'] ∨ p.scheme = ['h', 't', 't', 'p', 's']
  host_ne_nil : p.host ≠ []
  host_ok : hostOk p.host = true
  host_chars : ∀ c ∈ p.host, c ∉ ['/', '?', '#']
  path_head : ∀ c ∈ p.path.head?, c = '/'
  path_chars : ∀ c ∈ p.path, c ≠ '?' ∧ c ≠ '#'
  path_last : ';' ∉ lastSegment p.path
  params_chars : ∀ c ∈ p.params, c ≠ '/' ∧ c ≠ '?' ∧ c ≠ '#'
  params_behind : p.path = [] → p.params = []
  query_chars : '#' ∉ p.query
  unbroken : ∀ c ∈ p.host ++ p.path ++ p.params ++ p.query ++ p.fragment, c ∉ breaks

theorem notMem_breaks_of_mem_tidy (h : c ∈ tidy url) : c ∉ breaks := by
  have hpass := (mem_filter.mp h).2
  simp only [Bool.and_eq_true, bne_iff_ne] at hpass
  simp only [breaks, mem_cons, not_mem_nil, or_false]
  tauto

theorem filter_of_unbroken (h : ∀ c ∈ cs, c ∉ breaks) :
    cs.filter (fun c => c != '\t' && c != '\r' && c != '\n') = cs := by
  rw [filter_eq_self]
  intro c hc
  simpa [breaks, and_assoc] using h c hc

/-- A path and the parameters of its last segment, as they are told apart. -/
structure Divided (cs path params : List Char) : Prop where
  front : path <+: cs
  last : ';' ∉ lastSegment path
  params_mem : ∀ c ∈ params, c ∈ cs
  slash : '/' ∉ params
  behind : path = [] → params ≠ [] → cs.head? = some ';'

theorem divided_splitParams (cs : List Char) :
    Divided cs (splitParams cs).1 (splitParams cs).2 := by
  rcases splitParams_cases cs with ⟨hlast, hsplit⟩ | ⟨path, params, rfl, hlast, hslash, hsplit⟩
  · rw [hsplit]
    exact {
      front := prefix_rfl
      last := hlast
      params_mem := nofun
      slash := not_mem_nil
      behind := fun _ hne => absurd rfl hne }
  · rw [hsplit]
    exact {
      front := prefix_append path _
      last := hlast
      params_mem := fun c hc => mem_append_right _ (mem_cons_of_mem _ hc)
      slash := hslash
      behind := by
        rintro rfl -
        rfl }

theorem paramSchemes_contains
    (h : scheme = ['h', 't', 't', 'p'] ∨ scheme = ['h', 't', 't', 'p', 's']) :
    paramSchemes.contains (String.ofList scheme) = true := by
  rcases h with rfl | rfl <;> decide

theorem hosted_partsBehind {host tail : List Char}
    (hscheme : scheme = ['h', 't', 't', 'p'] ∨ scheme = ['h', 't', 't', 'p', 's']) (hne : host ≠ [])
    (hok : hostOk host = true) (hchars : ∀ c ∈ host, c ∉ ['/', '?', '#'])
    (hhead : ∀ c ∈ tail.head?, c ∈ ['/', '?', '#']) (hunbroken : ∀ c ∈ host ++ tail, c ∉ breaks) :
    Hosted (partsBehind scheme host tail) := by
  set outer := cut '#' tail with houter
  set inner := cut '?' outer.1 with hinner
  have hparts : partsBehind scheme host tail =
      ⟨scheme, host, (splitParams inner.1).1, (splitParams inner.1).2, inner.2.getD [],
        outer.2.getD []⟩ := by
    simp only [partsBehind, ← houter, ← hinner, paramSchemes_contains hscheme, if_true]
  have houterMem : ∀ c, (c ∈ outer.1 → c ∈ tail) ∧ (c ∈ outer.2.getD [] → c ∈ tail) :=
      fun c => mem_of_mem_cut
  have hinnerMem : ∀ c, (c ∈ inner.1 → c ∈ outer.1) ∧ (c ∈ inner.2.getD [] → c ∈ outer.1) :=
      fun c => mem_of_mem_cut
  have hsharp : '#' ∉ outer.1 := notMem_cut '#' tail
  have hquestion : '?' ∉ inner.1 := notMem_cut '?' outer.1
  -- The path ends at the first question mark or sharp, and begins with a slash if at all.
  have hbody : ∀ c ∈ inner.1, c ≠ '?' ∧ c ≠ '#' := by
    intro c hc
    refine ⟨?_, ?_⟩
    · rintro rfl
      exact hquestion hc
    · rintro rfl
      exact hsharp ((hinnerMem '#').1 hc)
  have hslash : ∀ c ∈ inner.1.head?, c = '/' := by
    intro c hc
    have hmem : c ∈ inner.1 := mem_of_mem_head? hc
    have hfront : inner.1 <+: tail := (cut_isPrefix '?' outer.1).trans (cut_isPrefix '#' tail)
    have hstop := hhead c (mem_head?_of_isPrefix hfront hc)
    simp only [mem_cons, not_mem_nil, or_false] at hstop
    exact hstop.resolve_right fun hor => hor.elim (hbody c hmem).1 (hbody c hmem).2
  have hdivided := divided_splitParams inner.1
  rw [hparts]
  generalize (splitParams inner.1).1 = path at hdivided
  generalize (splitParams inner.1).2 = params at hdivided
  have hpath : ∀ c ∈ path, c ∈ inner.1 := fun c hc => hdivided.front.subset hc
  exact {
    scheme := hscheme
    host_ne_nil := hne
    host_ok := hok
    host_chars := hchars
    path_head := fun c hc => hslash c (mem_head?_of_isPrefix hdivided.front hc)
    path_chars := fun c hc => hbody c (hpath c hc)
    path_last := hdivided.last
    params_chars := fun c hc =>
      ⟨fun heq => hdivided.slash (heq ▸ hc), hbody c (hdivided.params_mem c hc)⟩
    params_behind := fun hnil => by
      by_contra hne
      exact absurd (hslash ';' (hdivided.behind hnil hne)) (by decide)
    query_chars := fun hc => hsharp ((hinnerMem '#').2 hc)
    unbroken := fun c hc => by
      refine hunbroken c (mem_append.mpr ?_)
      simp only [mem_append] at hc
      rcases hc with (((hc | hc) | hc) | hc) | hc
      · exact .inl hc
      · exact .inr ((houterMem c).1 ((hinnerMem c).1 (hpath c hc)))
      · exact .inr ((houterMem c).1 ((hinnerMem c).1 (hdivided.params_mem c hc)))
      · exact .inr ((houterMem c).1 ((hinnerMem c).2 hc))
      · exact .inr ((houterMem c).2 hc) }

theorem mem_of_mem_readScheme {rest : List Char} (h : readScheme cs = some (scheme, rest))
    (hc : c ∈ rest) : c ∈ cs := by
  unfold readScheme at h
  split at h
  · rename_i first name tail hcut
    split at h
    · cases h
      exact mem_of_mem_cut.2 (by rw [hcut]; exact hc)
    · cases h
  · cases h

/-- The parts that are read of a web address are such parts. -/
theorem hosted_of_read (h : Parts.read [] url = .ok p)
    (hscheme : p.scheme = ['h', 't', 't', 'p'] ∨ p.scheme = ['h', 't', 't', 'p', 's'])
    (hhost : p.host ≠ []) : Hosted p := by
  have hne : p.scheme ≠ [] := by
    rcases hscheme with hscheme | hscheme <;> rw [hscheme] <;> exact cons_ne_nil _ _
  obtain ⟨rest, hread, hok, hfront, hp⟩ := exists_of_read h hne hhost
  have hwhole : p.host ++ (splitAtAny ['/', '?', '#'] rest).2 = rest := by
    rw [hfront]
    exact takeWhile_append_dropWhile
  rw [hp]
  refine hosted_partsBehind hscheme hhost hok ?_ ?_ ?_
  · intro c hc
    rw [hfront] at hc
    simpa using mem_takeWhile_imp hc
  · intro c hc
    have hstop := head?_dropWhile_not (! ['/', '?', '#'].contains ·) rest
    rw [show (rest.dropWhile (! ['/', '?', '#'].contains ·)).head? = some c from hc] at hstop
    exact contains_iff_mem.mp (by simpa only [Bool.not_eq_false'] using hstop)
  · intro c hc
    rw [hwhole] at hc
    exact notMem_breaks_of_mem_tidy
      (mem_of_mem_readScheme hread (mem_cons_of_mem _ (mem_cons_of_mem _ hc)))

/-! ### Writing, and reading what is written -/

def writeTail (p : Parts) : List Char :=
  withParams p.path p.params ++ behind '?' p.query ++ behind '#' p.fragment

theorem Hosted.withParams_head (h : Hosted p) :
    ∀ c ∈ (withParams p.path p.params).head?, c = '/' := by
  intro c hc
  cases hpath : p.path with
  | nil =>
    rw [hpath, h.params_behind hpath] at hc
    cases hc
  | cons first rest =>
    rw [hpath] at hc
    refine h.path_head c ?_
    rwa [hpath]

theorem Hosted.write_eq (h : Hosted p) :
    p.write = p.scheme ++ ':' :: '/' :: '/' :: (p.host ++ writeTail p) := by
  have hscheme : p.scheme.isEmpty = false := by
    rcases h.scheme with hscheme | hscheme <;> rw [hscheme] <;> rfl
  have hhost : p.host.isEmpty = false := isEmpty_eq_false_iff.mpr h.host_ne_nil
  have hpath :
        ((withParams p.path p.params).isEmpty || (withParams p.path p.params).head? == some '/') =
      true := by
    cases hfirst : withParams p.path p.params with
    | nil => rfl
    | cons c rest =>
      rw [h.withParams_head c (by rw [hfirst]; rfl)]
      rfl
  simp only [Parts.write, hpath, hscheme, hhost, Bool.not_false, Bool.true_or,
    if_true, Bool.false_eq_true, if_false, writeTail, append_assoc, cons_append]

theorem forall_mem_behind {P : Char → Prop} {part : List Char} (hmark : P mark)
    (hpart : ∀ c ∈ part, P c) : ∀ c ∈ behind mark part, P c := by
  rw [behind]
  split
  · exact fun c hc => absurd hc not_mem_nil
  · exact forall_mem_cons.mpr ⟨hmark, hpart⟩

theorem Hosted.tidy_write (h : Hosted p) : tidy p.write = p.write := by
  have hdrop : p.write.dropWhile (fun c => c.toNat ≤ 32) = p.write := by
    rw [h.write_eq]
    rcases h.scheme with hscheme | hscheme <;> rw [hscheme] <;> rfl
  have hscheme : ∀ c ∈ p.scheme, c ∉ breaks := by
    rcases h.scheme with hscheme | hscheme <;> rw [hscheme] <;> simp [breaks]
  have hkeep : ∀ c ∈ p.write, c ∉ breaks := by
    have hparts := h.unbroken
    simp only [forall_mem_append] at hparts
    obtain ⟨⟨⟨⟨hhost, hpath⟩, hparams⟩, hquery⟩, hfragment⟩ := hparts
    rw [h.write_eq, writeTail, withParams]
    simp only [forall_mem_append, forall_mem_cons]
    exact ⟨hscheme, by decide, by decide, by decide, hhost,
      ⟨⟨hpath, forall_mem_behind (by decide) hparams⟩, forall_mem_behind (by decide) hquery⟩,
      forall_mem_behind (by decide) hfragment⟩
  rw [tidy, hdrop, filter_of_unbroken hkeep]

theorem Hosted.readScheme_write (h : Hosted p) (rest : List Char) :
    readScheme (p.scheme ++ ':' :: rest) = some (p.scheme, rest) := by
  have hcolon : ':' ∉ p.scheme := by
    rcases h.scheme with hscheme | hscheme <;> rw [hscheme] <;> decide
  unfold readScheme
  rw [cut_append hcolon]
  rcases h.scheme with hscheme | hscheme <;> rw [hscheme] <;> rfl

theorem Hosted.splitHost_write (h : Hosted p) :
    splitHost ('/' :: '/' :: (p.host ++ writeTail p)) = (p.host, writeTail p) := by
  refine splitAtAny_append h.host_chars fun c hc => ?_
  cases hpath : withParams p.path p.params with
  | nil =>
    rw [writeTail, hpath, nil_append, behind, behind] at hc
    grind
  | cons first rest =>
    rw [writeTail, hpath] at hc
    have hslash := h.withParams_head c (by rw [hpath]; exact hc)
    rw [hslash]
    decide

theorem Hosted.partsBehind_write (h : Hosted p) :
    partsBehind p.scheme p.host (writeTail p) = p := by
  have hchars : ∀ c ∈ withParams p.path p.params, c ≠ '?' ∧ c ≠ '#' :=
    forall_mem_append.mpr ⟨h.path_chars, forall_mem_behind (by decide) fun c hc =>
      (h.params_chars c hc).2⟩
  have hquestion : '?' ∉ withParams p.path p.params := fun hc => (hchars '?' hc).1 rfl
  have hsharp : ∀ c ∈ withParams p.path p.params ++ behind '?' p.query, c ≠ '#' := by
    refine forall_mem_append.mpr ⟨fun c hc => (hchars c hc).2, forall_mem_behind (by decide) ?_⟩
    rintro c hc rfl
    exact h.query_chars hc
  have hslash : '/' ∉ p.params := fun hc => (h.params_chars _ hc).1 rfl
  simp only [partsBehind, writeTail, cut_behind fun hc => hsharp '#' hc rfl, cut_behind hquestion,
    paramSchemes_contains h.scheme, splitParams_withParams h.path_last hslash, if_true]

/-- **The parts of a web address are read back** from what is written of them. -/
theorem Hosted.read_write (h : Hosted p) : Parts.read [] p.write = .ok p := by
  rw [Parts.read, h.tidy_write, h.write_eq, h.readScheme_write]
  simp only [Option.getD_some, h.splitHost_write, h.host_ok, h.partsBehind_write, Bool.not_true,
    Bool.false_eq_true, if_false]

theorem readScheme_of_slash (h : ':' ∉ front) (rest : List Char) :
    readScheme (front ++ '/' :: rest) = none := by
  have hslash : '/' ∈ (cut ':' (front ++ '/' :: rest)).1 := by
    rw [cut_fst, takeWhile_append_of_pos (bne_of_notMem h)]
    exact mem_append_right _ mem_cons_self
  unfold readScheme
  split
  · rename_i c name tail hcut
    rw [hcut] at hslash
    refine if_neg fun hall => ?_
    have hpass := all_eq_true.mp (Bool.and_eq_true_iff.mp hall).2 '/' hslash
    exact absurd hpass (by decide)
  · rfl

theorem read_inside (scheme : List Char) (rest : String) :
    ∃ u, Parts.read scheme ("collections/" ++ rest).toList = .ok u ∧ u.scheme = scheme ∧
      u.host = [] := by
  have htidy :
      ∃ tail, tidy ("collections/" ++ rest).toList = "collections".toList ++ '/' :: tail := by
    rw [String.toList_append]
    exact ⟨_, rfl⟩
  obtain ⟨tail, htidy⟩ := htidy
  rw [Parts.read, htidy, readScheme_of_slash (by decide)]
  exact ⟨_, rfl, rfl, rfl⟩

/-- **An address inside the catalogue** can be resolved against every base that can be taken apart.
-/
theorem exists_join {base : String} {b : Parts} (hbase : Parts.read [] base.toList = .ok b)
    (rest : String) : ∃ url, join base ("collections/" ++ rest) = .ok url := by
  obtain ⟨u, hread, -⟩ := read_inside b.scheme rest
  simp only [join, joinChars, hbase, hread, Outcome.ok_bind, Outcome.pure_eq_ok]
  split_ifs <;> exact ⟨_, rfl⟩

end StacCatalog.Url
