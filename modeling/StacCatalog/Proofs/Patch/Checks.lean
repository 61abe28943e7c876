import StacCatalog.Proofs.Patch.Addressing
import StacCatalog.Proofs.Patch.Guards

/-!
# Where the checks of a script stop it
-/

namespace StacCatalog.Patch

open List Outcome

variable {p : Path} {place keys : List String} {op : Operation} {commands : List Command}

/-! ### Guards of commands -/

theorem quote_notMem_message {name : String} (h : '\'' ∉ name.toList) :
    '\'' ∉ (name ++ " does not exist").toList := by
  rw [String.toList_append, mem_append, not_or]
  exact ⟨h, by decide⟩

theorem read?_needNest (hquote : '\'' ∉ p.nest.toList) : Guard.read? (Command.needNest p).render =
      some { condition := .not (.holdsKey [] p.nest), message := p.nest ++ " does not exist" } := by
  have hopen : "if (!ctx._source.containsKey('".toList =
      "if (".toList ++ '!' :: ("ctx._source".toList ++ ".containsKey('".toList) := by decide
  have hclose : "'))".toList = "')".toList ++ ")".toList := by decide
  have hroot : accessors [] = (([] : List String).map String.toList, []) := accessors_nil
  have hread : ∀ depth behind,
      either (depth + 12)
          ('!' ::
              ("ctx._source".toList ++
                (".containsKey('".toList ++ (p.nest.toList ++ "')".toList))) ++ ')' :: behind) =
        some (.not (.holdsKey [] p.nest), ')' :: behind) := by
    intro depth behind
    have hatom := atom_holdsKey hroot hquote (')' :: behind)
    rw [nil_append, ← single_source (depth + 8)] at hatom
    rw [cons_append, append_assoc, append_assoc, append_assoc]
    exact either_one (both_one (single_not hatom) rfl) rfl
  refine Guard.read?_eq_some (quote_notMem_message hquote) ?_ hread
  unfold Command.render
  simp only [String.toList_append]
  rw [hopen, hclose]
  simp only [append_assoc, cons_append]
  rfl

/-- The condition of the check on a position, from the texts of its atoms. -/
def boundsChars (here less has : List Char) : List Char :=
  '(' :: here ++ " && ".toList ++ less ++ ")".toList ++ " || ".toList ++ "(!(".toList ++ here ++
    ")".toList ++ " && ".toList ++ '!' :: has ++ ")".toList

section Bounds

variable {here less has : List Char} {a b c : Condition}
  (hhere : ∀ depth rest, single (depth + 1) (here ++ rest) = some (a, rest))
  (hless : ∀ depth rest, single (depth + 1) (less ++ ')' :: rest) = some (b, ')' :: rest))
  (hhas : ∀ depth rest, single (depth + 1) (has ++ rest) = some (c, rest))

include hhere

include hless in
theorem single_shorter (depth : Nat) (rest : List Char) :
    single (depth + 10) ('(' :: (here ++ (" && ".toList ++ (less ++ ')' :: rest)))) =
      some (.and a b, rest) :=
  single_parens (either_one (both_two (hhere _ _) (both_one (hless _ _) rfl)) rfl)

include hhas in
theorem single_absent (depth : Nat) (rest : List Char) :
    single (depth + 9)
        ('(' :: '!' :: '(' :: (here ++ ')' :: (" && ".toList ++ '!' :: (has ++ ')' :: rest)))) =
      some (.and (.not a) (.not c), rest) := by
  have hnot : single (depth + 6)
        ('!' :: '(' :: (here ++ ')' :: (" && ".toList ++ '!' :: (has ++ ')' :: rest)))) =
      some (.not a, " && ".toList ++ '!' :: (has ++ ')' :: rest)) :=
    single_not (single_parens (either_one (both_one (hhere _ _) rfl) rfl))
  exact single_parens (either_one (both_two hnot (both_one (single_not (hhas _ _)) rfl)) rfl)

include hless hhas in
theorem either_boundsChars (depth : Nat) (behind : List Char) :
    either (depth + 12) (boundsChars here less has ++ ')' :: behind) =
      some (.or (.and a b) (.and (.not a) (.not c)), ')' :: behind) := by
  have htext : boundsChars here less has ++ ')' :: behind =
      '(' :: (here ++ (" && ".toList ++ (less ++ ')' :: (" || ".toList ++
        '(' :: '!' :: '(' ::
          (here ++ ')' :: (" && ".toList ++ '!' :: (has ++ ')' :: ')' :: behind))))))) := by
    simp only [boundsChars, append_assoc, cons_append]
    rfl
  rw [htext]
  exact either_two (both_one (single_shorter hhere hless depth _) rfl)
    (either_one (both_one (single_absent hhere hhas depth _) rfl) rfl)

end Bounds

theorem display_index {k : Nat} (h : p.position = some (k : Int)) :
    p.index.display.toList = Nat.toDigits 10 k := by
  have hindex : p.index = .int k := by
    rw [Path.index, h]
    exact if_neg (by omega)
  have hrepr : p.index.display = k.repr := by
    rw [hindex]
    rfl
  rw [hrepr, Nat.repr_eq_ofList_toDigits, String.toList_ofList]

theorem toList_render_needPosition (p : Path) :
    (Command.needPosition p).render.toList =
      "if (".toList ++
      (boundsChars
          ("ctx._source".toList ++ (p.scriptLocation.toList ++ " instanceof ArrayList".toList))
          ("ctx._source".toList ++
            (p.scriptLocation.toList ++ (".size() < ".toList ++ p.index.display.toList)))
          ("ctx._source".toList ++
            (p.scriptLocation.toList ++
              (".containsKey('".toList ++ (p.index.display.toList ++ "')".toList)))) ++
        ')' :: (Command.explain (p.path ++ " does not exist")).toList) := by
  have hif : "if ((".toList = "if (".toList ++ "(".toList := by decide
  have hand : " instanceof ArrayList && ".toList = " instanceof ArrayList".toList ++
      " && ".toList := by decide
  have hor : ") || (!(".toList = ")".toList ++ (" || ".toList ++ "(!(".toList) := by decide
  have hnot : " instanceof ArrayList) && !".toList =
      " instanceof ArrayList".toList ++ (")".toList ++ (" && ".toList ++ "!".toList)) := by decide
  have hclose : "')))".toList = "')".toList ++ (")".toList ++ ")".toList) := by decide
  unfold Command.render
  simp only [String.toList_append]
  rw [hif, hand, hor, hnot, hclose]
  simp only [boundsChars, append_assoc, cons_append]
  rfl

/-- The check on a position asks whether there is a shorter array at the place, or no array and no
such key. -/
theorem read?_needPosition {k : Nat} (hposition : p.position = some (k : Int))
    (hplace : placeOf? ("ctx._source" ++ p.scriptLocation) = some place)
    (hquote : '\'' ∉ p.path.toList) : Guard.read? (Command.needPosition p).render = some {
        condition := .or (.and (.isArray place) (.smaller place k))
          (.and (.not (.isArray place)) (.not (.holdsKey place p.index.display)))
        message := p.path ++ " does not exist" } := by
  have hkey : '\'' ∉ p.index.display.toList := by
    intro hmem
    rw [display_index hposition] at hmem
    exact absurd (Nat.isDigit_of_mem_toDigits (by decide) (by decide) hmem) (by decide)
  rw [placeOf?_eq_some_iff] at hplace
  refine Guard.read?_eq_some (quote_notMem_message hquote) (toList_render_needPosition p)
    (either_boundsChars ?_ ?_ ?_)
  · intro depth rest
    rw [append_assoc, append_assoc, single_source, atom_isArray hplace]
  · intro depth rest
    rw [append_assoc, append_assoc, append_assoc, single_source, display_index hposition,
      atom_smaller hplace]
  · intro depth rest
    rw [append_assoc, append_assoc, append_assoc, append_assoc, single_source,
      atom_holdsKey hplace hkey]

theorem valueAt_of_at? {document value : Json} (h : document.at? keys = some value) :
    valueAt document keys = some value := by
  induction keys generalizing document with
  | nil => simpa [Json.at?, valueAt] using h
  | cons key rest ih =>
    cases document with
    | obj fields =>
      obtain ⟨inner, hinner, hrest⟩ := Option.bind_eq_some_iff.mp h
      rw [valueAt, Fields.getD, hinner, Option.getD_some]
      exact ih hrest
    | _ => cases h

theorem stops_not_holdsKey {name message : String} (fields : Fields) :
    Guard.Stops { condition := .not (.holdsKey [] name), message } (.obj fields) ↔
      Fields.has fields name = false := by
  simp [Guard.Stops, Condition.eval, valueAt]

theorem stops_bounds {document : Json} {items : List Json}
    (h : document.at? place = some (.arr items)) (k : Nat) (key message : String) : Guard.Stops {
        condition := .or (.and (.isArray place) (.smaller place k))
          (.and (.not (.isArray place)) (.not (.holdsKey place key)))
        message } document ↔ items.length < k := by
  simp [Guard.Stops, Condition.eval, valueAt_of_at? h]

theorem needNest_mem_checks {q : Path} {present fromPath : Bool} :
    .needNest q ∈ p.checks present fromPath ↔ q = p ∧ q.nest ≠ "" := by
  unfold Path.checks
  by_cases hnest : p.nest = "" <;> grind

theorem needNest_mem_iff (h : op.commands = .ok commands) {q : Path} :
    .needNest q ∈ commands ↔ q.nest ≠ "" ∧ ∃ path ∈ op.paths, Path.ofPointer path = .ok q := by
  unfold Operation.commands at h
  obtain ⟨p, hp, h⟩ := bind_eq_ok.mp h
  cases op with
  | move source path | copy source path =>
    obtain ⟨s, hs, h⟩ := bind_eq_ok.mp h
    cases h
    have hpath : Path.ofPointer path = .ok p := hp
    simp only [mem_append, needNest_mem_checks, Operation.paths, mem_cons,
      exists_eq_or_imp, hpath, hs]
    grind
  | _ =>
    cases h
    have hpath := hp
    simp only [Operation.path] at hpath
    simp only [mem_append, needNest_mem_checks, Operation.paths, Operation.path, mem_cons,
      exists_eq_or_imp, hpath]
    grind

theorem needPosition_mem {source path : String}
    (hop : op = .move source path ∨ op = .copy source path) (h : op.commands = .ok commands)
    {s : Path} (hs : Path.ofPointer source = .ok s) (hposition : s.position.isSome = true) :
    .needPosition s ∈ commands := by
  have hchecks : .needPosition s ∈ s.checks false true := by
    simp [Path.checks, hposition]
  unfold Operation.commands at h
  obtain ⟨p, -, h⟩ := bind_eq_ok.mp h
  rcases hop with rfl | rfl
  all_goals
    obtain ⟨s', hs', h⟩ := bind_eq_ok.mp h
    obtain rfl := Except.ok.inj (hs.symm.trans hs')
    cases h
    simp [hchecks]

theorem toList_intercalate_point (keys : List String) :
    (".".intercalate keys).toList = joined keys := by
  rw [String.toList_intercalate]
  rfl

theorem intercalate_point_eq_empty_iff (hne : keys ≠ []) :
    ".".intercalate keys = "" ↔ keys = [""] := by
  rw [← String.toList_inj, toList_intercalate_point]
  obtain ⟨key, rest, rfl⟩ := exists_cons_of_ne_nil hne
  cases rest with
  | nil => simp [joined_singleton]
  | cons next rest => simp [joined, intercalate_cons_cons]

/-- **Checks on nests.** The check on the object that is to hold the last key looks for a member of
the document that is named by all keys before it, joined by points. So if the object is there, the
script stops exactly if there are two such keys or more and no member happens to have that name. -/
theorem needNest_stops_iff {op : Operation} (hop : op.Readable) {path : String}
    (hpath : path ∈ op.paths) {front : List String} {last : String}
    (hkeys : keysOf path = front ++ [last]) (hfront : front ≠ [])
    (hlast : position? last.toList = .ok none) (hquote : ∀ key ∈ front, '\'' ∉ key.toList) :
    ∃ commands p guard, op.commands = .ok commands ∧ Path.ofPointer path = .ok p ∧
      (.needNest p ∈ commands ↔ front ≠ [""]) ∧
      Guard.read? (Command.needNest p).render = some guard ∧
      ∀ fields : Fields,
        (guard.Stops (.obj fields) ↔ Fields.has fields (".".intercalate front) = false) ∧
        ∀ inner, (Json.obj fields).at? front = some (.obj inner) →
          (guard.Stops (.obj fields) ↔
            2 ≤ front.length ∧ Fields.has fields (".".intercalate front) = false) := by
  obtain ⟨commands, hcommands, -⟩ := op.exists_commands hop
  obtain ⟨p, hp⟩ := op.exists_path hop hpath
  obtain ⟨-, hparts, -⟩ := (Path.ofPointer_member_iff hkeys hlast).mp hp
  have hnest : p.nest = ".".intercalate front := by
    rw [← String.toList_inj, toList_intercalate_point]
    exact (Prod.mk.inj (Prod.mk.inj hparts).2).1
  have hnestQuote : '\'' ∉ p.nest.toList := by
    intro hmem
    rw [hnest, toList_intercalate_point] at hmem
    rcases mem_joined hmem with hpoint | ⟨key, hkey, hmem⟩
    · cases hpoint
    · exact hquote key hkey hmem
  refine ⟨commands, p, _, hcommands, hp, ?_, read?_needNest hnestQuote, fun fields => ?_⟩
  · rw [needNest_mem_iff hcommands, hnest, Ne, intercalate_point_eq_empty_iff hfront]
    exact and_iff_left ⟨path, hpath, hp⟩
  · rw [stops_not_holdsKey, hnest]
    refine ⟨Iff.rfl, fun inner hinner => ?_⟩
    -- With one key before the last, the object itself is the member that is looked for.
    have hmember : front.length = 1 → Fields.has fields (".".intercalate front) = true := by
      intro hone
      obtain ⟨key, rfl⟩ := List.length_eq_one_iff.mp hone
      obtain ⟨value, hvalue, -⟩ := Option.bind_eq_some_iff.mp hinner
      simp [Fields.has, hvalue]
    have hlength : front.length ≠ 0 := by simpa using hfront
    constructor
    · intro hhas
      refine ⟨?_, hhas⟩
      by_contra hshort
      rw [hmember (by omega)] at hhas
      cases hhas
    · exact fun h => h.2

/-- The object `a.b` is there, and adding a member to it is stopped all the same. -/
theorem needNest_stops_iff_deep :
    (Json.obj [("a", .obj [("b", .obj [])])]).at? ["a", "b"] = some (.obj []) ∧
    ∃ commands p guard, (Operation.add "/a/b/c" (.int 1)).commands = .ok commands ∧
      Path.ofPointer "/a/b/c" = .ok p ∧ .needNest p ∈ commands ∧
      Guard.read? (Command.needNest p).render = some guard ∧
      guard.Stops (.obj [("a", .obj [("b", .obj [])])]) := by
  have hinner : (Json.obj [("a", .obj [("b", .obj [])])]).at? ["a", "b"] = some (.obj []) := rfl
  obtain ⟨commands, p, guard, hcommands, hp, hmem, hread, hstops⟩ :=
    @needNest_stops_iff (.add "/a/b/c" (.int 1)) (by decide +kernel) "/a/b/c" (by decide)
      ["a", "b"] "c" (by decide +kernel)
      (by decide) rfl (by decide)
  have hstop := ((hstops _).2 [] hinner).mpr (by decide +kernel)
  exact ⟨hinner, commands, p, guard, hcommands, hp, hmem.mpr (by decide), hread, hstop⟩

/-! ### Positions -/

theorem scriptChars_key {key : String} (hkey : Undivided key.toList)
    (hliteral : Literal key.toList) :
    scriptChars key.toList = .ok (if ':' ∈ key.toList then indexed key.toList else key.toList) := by
  have hindexed : indexedKeys key.toList = ([key.toList].filter (':' ∈ ·)).eraseDups := by
    have hkeys : ∀ other ∈ [key.toList], Undivided other := by simpa using hkey
    rw [← indexedKeys_intercalate hkeys, intercalate_singleton]
  unfold scriptChars
  rw [hindexed]
  by_cases hcolon : ':' ∈ key.toList
  · have hself : replaceKey key.toList 0 key.toList = indexed key.toList := by
      simpa [replaceKey] using (replaceKey_self hkey []).1
    have hone : ([key.toList].filter (':' ∈ ·)).eraseDups = [key.toList] := by
      simp [hcolon, eraseDups_cons]
    rw [hone, foldlM_cons, writeIndexed, hliteral hcolon, hself, if_pos hcolon]
    rfl
  · rw [filter_singleton, decide_eq_false hcolon, if_neg hcolon]
    rfl

/-- Whether a script reaches an array by the keys before it and its own. Without keys before it, it
does if the array's key has a colon: otherwise there is no point between `ctx._source` and the key.
-/
def Reached (front : List String) (array : String) : Prop :=
  if front = [] then ':' ∈ array.toList else Addressable (front.map String.toList)

instance (front : List String) (array : String) : Decidable (Reached front array) :=
  inferInstanceAs (Decidable (ite _ _ _))

section Arrays

variable {source : String} {front : List String} {array last : String} {n : Int} {s : Path}
  (hsplit : keysOf source = front ++ [array] ++ [last])
    (hlast : position? last.toList = .ok (some n))
  (hkeys : ∀ key ∈ front ++ [array], Undivided key.toList)
    (hliteral : ∀ key ∈ front ++ [array], Literal key.toList)
  (hs : Path.ofPointer source = .ok s)

include hsplit hlast hkeys hliteral hs

/-- The place of an array: its accessor behind the path of the keys before it, or its key alone. -/
theorem scriptLocation_eq : s.scriptLocation.toList =
      if front = [] then if ':' ∈ array.toList then indexed array.toList else array.toList
      else '.' :: bracketed (indexedKeys (joined front)) (joined front) ++
        accessor array.toList := by
  obtain ⟨-, hparts, -, hnest, hkey⟩ := (Path.ofPointer_position_iff hsplit hlast).mp hs
  simp only [Prod.mk.injEq] at hparts
  obtain ⟨-, hnestChars, hjoint, hkeyChars⟩ := hparts
  have harray : array ∈ front ++ [array] := by simp
  rw [hkeyChars, scriptChars_key (hkeys array harray) (hliteral array harray)] at hkey
  have hkey := (Except.ok.inj hkey).symm
  have hcolon : s.scriptKey.toList.contains ':' = true ↔ ':' ∈ array.toList := by
    rw [contains_iff_mem, hkey]
    split <;> simp_all [indexed]
  have hfront : ∀ key ∈ front, key ∈ front ++ [array] := fun key hmem => mem_append_left _ hmem
  rw [hnestChars, nestChars_joined (fun key hmem => hkeys key (hfront key hmem)) fun key hmem =>
    hliteral key (hfront key hmem)] at hnest
  have hnest := (Except.ok.inj hnest).symm
  have hlocation : s.scriptLocation.toList =
      s.scriptNest.toList ++ (if ':' ∈ array.toList then [] else s.joint.toList) ++
      s.scriptKey.toList := by
    unfold Path.scriptLocation
    by_cases hmem : ':' ∈ array.toList
    · rw [if_pos (hcolon.mpr hmem), if_pos hmem, String.toList_append, append_nil]
    · rw [if_neg (mt hcolon.mp hmem), if_neg hmem, String.toList_append, String.toList_append]
  rw [hlocation, hnest, hjoint, hkey, jointOf, accessor]
  by_cases hempty : front = [] <;> by_cases hmem : ':' ∈ array.toList <;> simp [hempty, hmem]

/-- The place is read as the keys of the array exactly if it is reached. -/
theorem placeOf?_scriptLocation_iff :
    placeOf? ("ctx._source" ++ s.scriptLocation) = some (front ++ [array]) ↔
      Reached front array := by
  have harray := hkeys array (by simp)
  rw [placeOf?_eq_some_iff, scriptLocation_eq hsplit hlast hkeys hliteral hs, map_append,
    map_singleton, Reached]
  by_cases hempty : front = []
  · rw [if_pos hempty, if_pos hempty, hempty, map_nil, nil_append]
    by_cases hmem : ':' ∈ array.toList
    · have hread := accessors_indexed (harray.notMem (c := '\'') (by decide)) []
      rw [append_nil, accessors_nil] at hread
      simp [hmem, hread]
    · have hread : accessors array.toList = ([], array.toList) := by
        refine accessors_of_head fun c hc => ⟨?_, ?_⟩ <;> rintro rfl <;>
          exact harray.notMem (by decide) (mem_of_mem_head? hc)
      simp [hmem, hread]
  · have hfront : ∀ key ∈ front, Undivided key.toList :=
      fun key hmem => hkeys key (mem_append_left _ hmem)
    have hiff := accessors_bracketed_iff (undivided_map hfront) (List.Perm.refl _)
        (by simpa using hempty)
      (show ∀ key ∈ [array.toList], Undivided key by simpa using harray)
    rw [flatMap_singleton] at hiff
    rwa [if_neg hempty, if_neg hempty]

omit hliteral in
theorem quote_notMem_path : '\'' ∉ s.path.toList := by
  obtain ⟨-, hparts, -⟩ := (Path.ofPointer_position_iff hsplit hlast).mp hs
  rw [(Prod.mk.inj hparts).1, mem_append, mem_append, mem_cons, mem_singleton]
  rintro ((hjoined | hopen | hnumber) | hclose)
  · rcases mem_joined hjoined with hpoint | ⟨key, hkey, hmem⟩
    · cases hpoint
    · exact (hkeys key hkey).notMem (by decide) hmem
  · cases hopen
  · exact absurd (mem_toString_int hnumber) (by decide)
  · cases hclose

end Arrays

/-- **Checks on positions.** A move or copy from a position of an array checks the position, and
where the place of the array is reached, the script stops there exactly if the array has fewer
entries than the position says. So the position right behind the last entry passes, as if there were
an entry. -/
theorem needPosition_stops_iff {op : Operation} (hop : op.Readable) {source path : String}
    (hsource : op = .move source path ∨ op = .copy source path) {front : List String}
    {array last : String} {k : Nat} (hsplit : keysOf source = front ++ [array] ++ [last])
    (hkeys : ∀ key ∈ front ++ [array], Undivided key.toList)
    (hliteral : ∀ key ∈ front ++ [array], Literal key.toList)
    (hlast : position? last.toList = .ok (some (k : Int))) :
    ∃ commands s, op.commands = .ok commands ∧ Path.ofPointer source = .ok s ∧
      .needPosition s ∈ commands ∧
      (placeOf? ("ctx._source" ++ s.scriptLocation) = some (front ++ [array]) ↔
        Reached front array) ∧
      (Reached front array →
        ∃ guard, Guard.read? (Command.needPosition s).render = some guard ∧
          ∀ (document : Json) (items : List Json),
            document.at? (front ++ [array]) = some (.arr items) →
            (guard.Stops document ↔ items.length < k)) := by
  have hmem : source ∈ op.paths := by
    rcases hsource with rfl | rfl <;> simp [Operation.paths]
  obtain ⟨commands, hcommands, -⟩ := op.exists_commands hop
  obtain ⟨s, hs⟩ := op.exists_path hop hmem
  have hposition : s.position = some (k : Int) :=
      ((Path.ofPointer_position_iff hsplit hlast).mp hs).1
  have hplace := placeOf?_scriptLocation_iff hsplit hlast hkeys hliteral hs
  refine ⟨commands, s, hcommands, hs, needPosition_mem hsource hcommands hs
    (by rw [hposition]; rfl), hplace, fun hreached => ?_⟩
  refine ⟨_, read?_needPosition hposition (hplace.mpr hreached)
    (quote_notMem_path hsplit hlast hkeys hs), ?_⟩
  intro document items hitems
  exact stops_bounds hitems k _ _

/-- The list has one entry, at position 0, and moving the one at position 1 is not stopped. -/
theorem needPosition_stops_iff_behind :
    (Json.obj [("properties", .obj [("list", .arr [.int 7])])]).at? ["properties", "list"] =
      some (.arr [.int 7]) ∧
    ∃ commands s guard,
      (Operation.move "/properties/list/1" "/properties/first").commands = .ok commands ∧
      Path.ofPointer "/properties/list/1" = .ok s ∧ .needPosition s ∈ commands ∧
      Guard.read? (Command.needPosition s).render = some guard ∧
      ¬ guard.Stops (.obj [("properties", .obj [("list", .arr [.int 7])])]) := by
  have hitems : (Json.obj [("properties", .obj [("list", .arr [.int 7])])]).at?
      (["properties"] ++ ["list"]) = some (.arr [.int 7]) := rfl
  obtain ⟨commands, s, hcommands, hs, hmem, -, hguard⟩ :=
    @needPosition_stops_iff (.move "/properties/list/1" "/properties/first")
      (by decide +kernel) "/properties/list/1"
      "/properties/first" (Or.inl rfl) ["properties"] "list" "1" 1 (by decide +kernel)
        (by decide +kernel) (by decide +kernel) rfl
  obtain ⟨guard, hread, hstops⟩ := hguard (by decide +kernel)
  exact ⟨hitems, commands, s, guard, hcommands, hs, hmem, hread,
    mt (hstops _ _ hitems).mp (by decide)⟩

end StacCatalog.Patch
