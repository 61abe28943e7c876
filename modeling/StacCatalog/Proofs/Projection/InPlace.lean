import StacCatalog.Proofs.Projection.Sharing

/-!
# A projection leaves the item as it was, unless a path inside of it is excluded
-/

namespace StacCatalog.Heap

open List Selection Projection Set
open Fields (get? has)

variable {m m' : Heap} {n : Nat} {r origin : Ref} {name : String} {slot whole : Slot}
    {s : Selection}
  {entries : List (String × Selection)} {fields : Fields} {F G : Set Ref} {parts : String → Set Ref}
    {value : Json}
  {depth : Nat} {item : Fields} {p : Projection} {library : Library}

/-! ### Including -/

/-- From nothing, a path collects the part that it names. -/
theorem selection_includePath_nil (fields : Fields) (name : String) (rest : List String) :
    Selection.includePath fields [] (name :: rest) = Selection.along fields (name :: rest) := by
  rw [Selection.includePath, Selection.along_cons]
  cases fields.get? name with
  | none => rfl
  | some value =>
    dsimp only
    split <;> simp_all [Selection.addEntries, Keyed.set]

theorem part_of_isObj (h : value.isObj = false) (path : List String) :
    part value path = .shared value := by
  cases value <;> first | rfl | cases h

theorem depth_part_le (value : Json) (path : List String) :
    Token.depth (part value path).toJson ≤ Token.depth value := by
  induction path generalizing value with
  | nil =>
    have hpart : part value [] = .shared value := by cases value <;> rfl
    rw [hpart, toJson]
  | cons name rest ih =>
    cases value with
    | obj fields =>
      rw [part, toJson, along_cons, Token.depth, Token.depth]
      refine Nat.succ_le_succ ?_
      cases hvalue : get? fields name with
      | none => exact Nat.zero_le _
      | some value =>
        rw [entriesJson, Token.depthFields]
        exact max_le ((ih value).trans (depth_le_depthFields hvalue)) (Nat.zero_le _)
    | _ => rw [part_of_isObj rfl, toJson]

theorem Built.alloc (hn : n ≤ m.size) (horigin : origin < n) :
    Built (m.alloc []).1 n [] m.size origin fun _ => ∅ := by
  refine ⟨⟨hn, Nat.lt_succ_self _⟩, horigin, ?_, nodup_nil, nofun, nofun, fun _ => empty_subset _,
    fun _ => notMem_empty _, fun _ _ _ => disjoint_empty _⟩
  rw [members_alloc_self]
  rfl

/-- **A step that collects**: it ends with these entries in the collection, to which only new
objects were added, and it changes no object that does not belong to the collection. -/
def Collects (m : Heap) (n : Nat) (clean source : Ref) (parts : String → Set Ref)
    (run : Option Heap) (entries : List (String × Selection)) : Prop :=
  ∃ m₂ parts₂, run = some m₂ ∧ Built m₂ n entries clean source parts₂ ∧ m.size ≤ m₂.size ∧
    (∀ name x, x ∈ parts₂ name → x ∈ parts name ∨ m.size ≤ x) ∧
      ∀ x, x < m.size → x ≠ clean → (∀ name, x ∉ parts name) → m₂.members x = m.members x

namespace Built

variable {clean source place : Ref}

theorem collects_set (h : Built m n entries clean source parts)
    (hslot : m.member source name = some slot) (hshows : Shows m n (.shared value) slot slot ∅) :
    Collects m n clean source parts (some (m.set clean name slot))
      (Keyed.set entries name (.shared value)) := by
  refine ⟨_, _, rfl, h.set hslot hshows (notMem_empty _) fun _ _ => empty_disjoint _,
    le_rfl, ?_, ?_⟩
  · exact (Function.forall_update_iff parts fun other part => ∀ x ∈ part, x ∈ parts other ∨
      m.size ≤ x).mpr
      ⟨fun _ hx => hx.elim, fun _ _ _ hx => .inl hx⟩
  · exact fun x _ hx _ => members_set_of_ne _ _ _ hx

/-- A part of an object of the item is collected in a new object, which is put into the collection.
-/
theorem collects_part {part : List (String × Selection)} {run : Option Heap}
    (h : Built m n entries clean source parts) (hslot : m.member source name = some (.object place))
    (hdepth : Token.depth (fresh part).toJson ≤ depth)
    (hpart : Collects (m.alloc []).1 n m.size place (fun _ => ∅) run part) :
    Collects m n clean source parts
      (run.bind fun m' => m'.put (merge depth) clean name (.object m.size))
      (addEntries entries [(name, .fresh part)]) := by
  obtain ⟨m₁, parts₁, hrun, hbuilt, hsize, hparts, hframe⟩ := hpart
  have hn : n ≤ m.size := h.new.1.trans h.new.2.le
  have hsize' : m.size ≤ m₁.size := (Nat.le_succ _).trans hsize
  have hkept (x : Ref) (hx : x < m.size) : m₁.members x = m.members x :=
    (hframe x (hx.trans (Nat.lt_succ_self _)) hx.ne fun _ => notMem_empty x).trans
      (members_alloc_of_lt _ _ hx)
  -- The objects of the new part are behind all that were there.
  have hlate (x : Ref) (hx : x ∈ insert m.size (⋃ name, parts₁ name)) : m.size ≤ x := by
    rcases hx with rfl | hx
    · exact le_rfl
    · obtain ⟨other, hx⟩ := mem_iUnion.mp hx
      exact (hparts other x hx).elim False.elim fun hx => (Nat.le_succ _).trans hx
  have hcollection : Built m₁ n entries clean source parts := by
    refine h.transport hsize' fun x hx => hkept x ?_
    rcases hx with hx | rfl | ⟨other, hx⟩
    · exact hx.trans_le hn
    · exact h.new.2
    · exact (h.within other hx).2
  have hwhole : m₁.member source name = some (.object place) := by
    rwa [member, hkept source (h.old.trans_le hn)]
  obtain ⟨m₂, G, hput, hbuilt₂, hG, hsize₂, hframe₂⟩ :=
      hcollection.put le_rfl (fun _ _ => rfl) hwhole hbuilt.shows
    (fun b o hb ho => adds_of_shows hbuilt.shows depth b o hdepth hb ho)
    (fun hmem => absurd h.new.2 (Nat.not_lt_of_le (hlate _ hmem)))
    (fun other => disjoint_left.mpr fun x hx hmem => absurd (h.within other hx).2
      (Nat.not_lt_of_le (hlate x hmem)))
  refine ⟨m₂, _, ?_, hbuilt₂, hsize'.trans hsize₂.ge, ?_, ?_⟩
  · rwa [hrun]
  · exact (Function.forall_update_iff parts fun other part => ∀ x ∈ part, x ∈ parts other ∨
      m.size ≤ x).mpr
      ⟨fun x hx => (hG hx).imp_right (hlate x), fun _ _ _ hx => .inl hx⟩
  · intro x hx hclean hparts
    rw [hframe₂ x hclean (hparts name), hkept x hx]

end Built

/-- **Including a path in place** collects the part that the path names. -/
theorem Built.includePath {clean source : Ref} {path : List String}
    (h : Built m n entries clean source parts)
    (hsource : Shows m n (.shared (.obj fields)) (.object source) (.object source) ∅)
    (hdepth : Token.depth (.obj fields) ≤ depth) (hpath : path ≠ []) :
    Collects m n clean source parts (m.includePath depth source clean path)
      (Selection.includePath fields entries path) := by
  induction path generalizing m entries clean source parts fields with
  | nil => exact absurd rfl hpath
  | cons name rest ih =>
    rw [Heap.includePath, Selection.includePath, Selection.along_cons]
    cases hsource with
    | shared _ names _ inside =>
      obtain ⟨hslot, hvalue⟩ | ⟨slot, value, hslot, hvalue⟩ := lookup_cases names name
      · rw [member, hslot, get?, hvalue]
        exact ⟨m, parts, rfl, h, le_rfl, fun _ _ hx => .inl hx, fun _ _ _ _ => rfl⟩
      · have hshows := inside name value slot hvalue hslot
        have hset := h.collects_set hslot hshows
        rw [member, hslot, get?, hvalue]
        cases hshows with
        | value plain =>
          dsimp only
          rwa [part_of_isObj plain]
        | @shared inner place old names distinct inside =>
          cases rest with
          | nil => exact hset
          | cons next rest =>
            have hn : n ≤ m.size := h.new.1.trans h.new.2.le
            have hinner :
                Shows (m.alloc []).1 n (.shared (.obj inner)) (.object place) (.object place) ∅ :=
              (Shows.shared old names distinct inside).transport (Nat.le_succ _) fun x hx =>
                members_alloc_of_lt _ _ ((hx.elim id False.elim).trans_le hn)
            have hlower : Token.depth (.obj inner) ≤ depth :=
                (depth_lt_of_get? hvalue).le.trans hdepth
            have hpart := ih (Built.alloc hn old) hinner hlower (cons_ne_nil _ _)
            rw [selection_includePath_nil] at hpart
            exact h.collects_part hslot ((depth_part_le _ (next :: rest)).trans hlower) hpart

theorem Built.includePaths {clean source : Ref} {paths : List (List String)}
    (h : Built m n entries clean source parts)
    (hsource : Shows m n (.shared (.obj fields)) (.object source) (.object source) ∅)
    (hdepth : Token.depth (.obj fields) ≤ depth) (hpaths : ∀ path ∈ paths, path ≠ []) :
    ∃ m₂ parts₂, paths.foldlM (fun m path => m.includePath depth source clean path) m = some m₂ ∧
      Built m₂ n (paths.foldl (Selection.includePath fields) entries) clean source parts₂ ∧
      ∀ x < n, m₂.members x = m.members x := by
  induction paths generalizing m entries parts with
  | nil => exact ⟨m, parts, rfl, h, fun _ _ => rfl⟩
  | cons path paths ih =>
    obtain ⟨m₁, parts₁, hrun, hbuilt, hsize, -, hframe⟩ := h.includePath hsource hdepth
        (hpaths path mem_cons_self)
    have hkept (x : Ref) (hx : x < n) : m₁.members x = m.members x := by
      exact hframe x (hx.trans_le (h.new.1.trans h.new.2.le)) (h.ne_of_lt hx) fun name =>
        h.notMem_of_lt hx
    obtain ⟨m₂, parts₂, hrest, hbuilt₂, hkept₂⟩ := ih hbuilt
      (hsource.transport hsize fun x hx => hkept x (hx.elim id False.elim)) fun path hpath =>
        hpaths path (mem_cons_of_mem _ hpath)
    refine ⟨m₂, parts₂, ?_, hbuilt₂, fun x hx => (hkept₂ x hx).trans (hkept x hx)⟩
    rwa [foldlM_cons, hrun]

theorem Holds.shows {v : Json} (h : Holds m slot v) (hv : v.WellFormed) (hn : m.size ≤ n)
    (hkept : ∀ x < m.size, m'.members x = m.members x) : Shows m' n (.shared v) slot slot ∅ := by
  induction h with
  | value plain => exact .value plain
  | @object r fields there names inside ih =>
    have hr := hkept r there
    refine .shared (there.trans_le hn) (by rw [hr, names]) hv.1 fun name value slot hvalue hslot =>
      ?_
    rw [member, hr] at hslot
    exact ih name slot value hslot hvalue (Json.wellFormed_of_get? hv hvalue)

theorem names_entriesJson (entries : List (String × Selection)) :
    (entriesJson entries).map Prod.fst = entries.map Prod.fst := by
  induction entries with
  | nil => rfl
  | cons entry rest ih => rw [entriesJson, map_cons, map_cons, ih]

/-- A selection in memory is the value that was collected. -/
theorem Shows.holds (h : Shows m n s slot whole F) (hn : n ≤ m.size) : Holds m slot s.toJson := by
  induction h with
  | value plain =>
    rw [toJson]
    exact .value plain
  | @shared fields r old names distinct inside ih =>
    rw [toJson]
    refine .object (old.trans_le hn) names fun name slot value hslot hvalue => ?_
    have hmember := ih name value slot hvalue hslot
    rwa [toJson] at hmember
  | @fresh entries r origin parts new old names distinct known inside within apart disjoint ih =>
    rw [toJson]
    refine .object new.2 ?_ fun name slot value hslot hvalue => ?_
    · rw [names, names_entriesJson]
    · rw [get?_entriesJson, Option.map_eq_some_iff] at hvalue
      obtain ⟨s, hs, rfl⟩ := hvalue
      obtain ⟨whole, hwhole⟩ := Option.isSome_iff_exists.mp (known name s hs)
      exact ih name s slot whole hs hslot hwhole

/-! ### Excluding members -/

theorem names_erase {α : Type} (as : List (String × α)) (name : String) :
    (Keyed.erase as name).map Prod.fst = (as.map Prod.fst).filter (· ≠ name) := by
  rw [filter_map]
  rfl

/-- A path of one name takes a member out of the object, and does nothing to other objects. -/
theorem excludePath_singleton (m : Heap) (r : Ref) (name : String) :
    m.excludePath r [name] = m.erase r name := by
  rw [excludePath]
  cases hslot : m.member r name with
  | none => rw [erase, Keyed.erase_of_lookup hslot, write, Function.update_eq_self]
  | some slot => cases slot <;> rfl

theorem selection_excludePath_singleton (entries : List (String × Selection)) (item : Fields)
    (name : String) :
    Selection.excludePath entries item [name] = (Keyed.erase entries name, item) := by
  rw [Selection.excludePath]
  split
  · rename_i hnone
    rw [Keyed.erase_of_lookup hnone]
  all_goals rfl

theorem Built.erase (h : Built m n entries r origin parts) (name : String) :
    Built (m.erase r name) n (Keyed.erase entries name) r origin parts := by
  have hkept {x : Ref} (hx : x ≠ r) : (m.erase r name).members x = m.members x :=
      members_erase_of_ne _ _ hx
  have horigin := hkept (h.ne_of_lt h.old)
  refine ⟨h.new, h.old, ?_, ?_, ?_, ?_, h.within, h.apart, h.disjoint⟩
  · rw [members_erase_self, names_erase, names_erase, h.names]
  · rw [names_erase]
    exact h.distinct.filter _
  · intro other s hs
    rw [Keyed.lookup_erase] at hs
    rw [member, horigin]
    exact h.known other s (Option.ite_none_left_eq_some.mp hs).2
  · intro other s slot whole hs hslot hwhole
    rw [Keyed.lookup_erase] at hs
    rw [member, members_erase_self, Keyed.lookup_erase] at hslot
    rw [member, horigin] at hwhole
    obtain ⟨hother, hs⟩ := Option.ite_none_left_eq_some.mp hs
    refine (h.inside other s slot whole hs (Option.ite_none_left_eq_some.mp hslot).2
      hwhole).transport le_rfl fun x hx => hkept ?_
    rintro rfl
    exact hx.elim (fun hx => h.ne_of_lt hx rfl) (h.apart other)

theorem Built.excludePaths (h : Built m n entries r origin parts) (names : List String)
    (item : Fields) :
    ∃ m₂ entries₂,
      (names.map fun name => [name]).foldl (fun m path => m.excludePath r path) m = m₂ ∧
      exclude entries item (names.map fun name => [name]) = (entries₂, item) ∧
      Built m₂ n entries₂ r origin parts ∧ m₂.size = m.size ∧
      ∀ x, x ≠ r → m₂.members x = m.members x := by
  induction names generalizing m entries with
  | nil => exact ⟨m, entries, rfl, rfl, h, rfl, fun _ _ => rfl⟩
  | cons name names ih =>
    obtain ⟨m₂, entries₂, hrun, hexclude, hbuilt, hsize, hframe⟩ := ih (h.erase name)
    refine ⟨m₂, entries₂, ?_, ?_, hbuilt, hsize, fun x hx =>
      (hframe x hx).trans (members_erase_of_ne _ _ hx)⟩
    · rwa [map_cons, foldl_cons, excludePath_singleton]
    · unfold exclude at hexclude ⊢
      rw [map_cons, foldl_cons]
      dsimp only
      rwa [selection_excludePath_singleton]

/-! ### Projections -/

/-- What memory shows when a projection has ended: the answer and the item, or a fault. -/
def Ends (m : Heap) (item : Ref) : Outcome Ref → Outcome (Fields × Fields) → Prop
  | .ok answer, .ok (result, after) =>
    m.Holds (.object answer) (.obj result) ∧ m.Holds (.object item) (.obj after)
  | .error fault, .error fault' => fault = fault'
  | _, _ => False

/-- What is included is collected behind the item, in which nothing changes. -/
theorem exists_gather (included : List String) (hitem : (Json.obj item).WellFormed)
    (hdepth : Token.depth (.obj item) ≤ depth) (hheld : m.Holds (.object r) (.obj item)) :
    ∃ m₂ clean origin parts n,
      (m.alloc (m.members r)).1.gather depth m.size (included.eraseDups.map Projection.names) =
        some (m₂, clean) ∧
      Built m₂ n (Projection.collect included item) clean origin parts ∧ m.size ≤ n ∧
      (m.alloc (m.members r)).1.Extends m₂ := by
  obtain ⟨there, names, inside⟩ := hheld.object_inv
  set m₁ := (m.alloc (m.members r)).1 with hm₁
  have hkept (x : Ref) (hx : x < m.size) : m₁.members x = m.members x := members_alloc_of_lt _ _ hx
  have hcopy : m₁.members m.size = m.members r := members_alloc_self ..
  have hshared {n : Nat} (hn : m.size ≤ n) (name : String) (value : Json) (slot : Slot)
      (hvalue : item.get? name = some value)
      (hslot : m.member r name = some slot) : Shows m₁ n (.shared value) slot slot ∅ :=
    (inside name slot value hslot hvalue).shows (Json.wellFormed_of_get? hitem hvalue) hn hkept
  unfold gather Projection.collect Selection.gather
  by_cases hnone : (included.eraseDups.map Projection.names).isEmpty = true
  · -- Nothing is included: the copy of the item is what is collected.
    rw [if_pos hnone, if_pos hnone]
    refine ⟨m₁, m.size, r, fun _ => ∅, m.size, rfl, ?_, le_rfl, .refl _⟩
    have hlookup := Keyed.lookup_map item fun (_ : String) value => Selection.shared value
    refine ⟨⟨le_rfl, Nat.lt_succ_self _⟩, there, ?_, ?_, ?_, ?_, fun _ => empty_subset _,
      fun _ => notMem_empty _, fun _ _ _ => disjoint_empty _⟩
    · rw [hcopy, names, map_map]
      rfl
    · rw [map_map]
      exact hitem.1
    · intro name s hs
      rw [hlookup, Option.map_eq_some_iff] at hs
      obtain ⟨value, hvalue, -⟩ := hs
      rw [member, hkept r there, isSome_lookup_eq names, hvalue, Option.isSome_some]
    · intro name s slot whole hs hslot hwhole
      rw [hlookup, Option.map_eq_some_iff] at hs
      obtain ⟨value, hvalue, rfl⟩ := hs
      rw [member, hcopy] at hslot
      rw [member, hkept r there, hslot] at hwhole
      cases hwhole
      exact hshared le_rfl name value slot hvalue hslot
  · -- A new object is filled from the copy, path by path.
    rw [if_neg hnone, if_neg hnone]
    have hlater (x : Ref) (hx : x < m₁.size) : (m₁.alloc []).1.members x = m₁.members x :=
        members_alloc_of_lt _ _ hx
    have hsource : Shows m₁ m₁.size (.shared (.obj item)) (.object m.size) (.object m.size) ∅ := by
      refine .shared (Nat.lt_succ_self _) (hcopy ▸ names) hitem.1
        fun name value slot hvalue hslot => ?_
      rw [member, hcopy] at hslot
      exact hshared (Nat.le_succ _) name value slot hvalue hslot
    obtain ⟨m₂, parts, hrun, hbuilt, hframe⟩ :=
        (Built.alloc (le_refl m₁.size) (Nat.lt_succ_self _)).includePaths
      (hsource.transport (Nat.le_succ _) fun x hx => hlater x (hx.elim id False.elim)) hdepth
        Projection.ne_nil_of_mem_paths
    refine ⟨m₂, m₁.size, m.size, parts, m₁.size, ?_, hbuilt, Nat.le_succ _, hbuilt.new.2.le,
      fun x hx => ?_⟩
    · exact congrArg (Option.bind · fun m => some (m, m₁.size)) hrun
    · rw [hframe x hx, hlater x hx]

theorem ends_bare {copy : Ref} (hitem : m.Holds (.object r) (.obj item))
    (hcopy : m.Holds (.object copy) (.obj item)) :
    ∃ m₂ outcome, m.bare copy = (m₂, outcome) ∧ m.Extends m₂ ∧
      m₂.Ends r outcome ((Projection.bare item).map (·, item)) := by
  obtain ⟨-, hnames, hinside⟩ := hcopy.object_inv
  unfold bare Projection.bare Json.item
  dsimp only
  obtain ⟨hid, hid'⟩ | ⟨id, idValue, hid, hid'⟩ := lookup_cases hnames "id"
  · rw [member, hid, get?, hid']
    exact ⟨m, _, rfl, .refl m, rfl⟩
  · obtain ⟨hcollection, hcollection'⟩ | ⟨collection, value, hcollection, hcollection'⟩ :=
      lookup_cases hnames "collection"
    · rw [member, hid, member, hcollection, get?, hid', get?, hcollection']
      exact ⟨m, _, rfl, .refl m, rfl⟩
    · rw [member, hid, member, hcollection, get?, hid', get?, hcollection']
      refine ⟨_, _, rfl, extends_alloc .., holds_alloc rfl ?_, hitem.of_extends (extends_alloc ..)⟩
      intro name slot value' hslot hvalue
      rw [Keyed.lookup_cons, Keyed.lookup_cons] at hslot
      rw [get?, Keyed.lookup_cons, Keyed.lookup_cons] at hvalue
      split_ifs at hslot hvalue
      · cases hslot
        cases hvalue
        exact hinside _ _ _ hid hid'
      · cases hslot
        cases hvalue
        exact hinside _ _ _ hcollection hcollection'
      · cases hslot

theorem Built.ends_document {place : Ref} (h : Built m n entries r origin parts) (hn : n ≤ m.size)
    (hitem : m.Holds (.object place) (.obj item)) :
    ∃ m₂ outcome, m.document library r = (m₂, outcome) ∧ m.Extends m₂ ∧
      m₂.Ends place outcome ((library.document (entriesJson entries)).map (·, item)) := by
  have hheld := h.shows.holds hn
  rw [toJson] at hheld
  obtain ⟨-, hnames, hinside⟩ := hheld.object_inv
  have hhas : (fun name => (m.member r name).isSome) = has (entriesJson entries) :=
    funext fun name => isSome_lookup_eq hnames name
  unfold document Library.document Library.builds
  rw [hhas]
  cases library.reserved.any (has (entriesJson entries)) with
  | true => exact ⟨m, _, rfl, .refl m, rfl⟩
  | false =>
    exact ⟨_, _, rfl, extends_alloc .., holds_alloc hnames hinside,
      hitem.of_extends (extends_alloc ..)⟩

theorem names_of_notMem {path : String} (h : '.' ∉ path.toList) : names path = [path] := by
  rw [names, splitOn_eq_singleton h, map_singleton, String.ofList_toList]

/-- What a projection does once something was to be collected. -/
theorem project_of_gather {m₁ : Heap} {clean : Ref} (hgiven : p.included ≠ [] ∨ p.excluded ≠ [])
    (hgather : (m.alloc (m.members r)).1.gather depth m.size (p.included.eraseDups.map names) =
    some (m₁, clean)) : m.project library depth p r =
    some (if (m₁.members clean).isEmpty then m₁.bare m.size
      else
        let m₂ := (p.excluded.eraseDups.map names).foldl (fun m path => m.excludePath clean path) m₁
        m₂.document library clean) := by
  rw [project, if_neg (given_of_or hgiven)]
  refine (congrArg (Option.bind · _) hgather).trans ?_
  rw [Option.bind_some]
  dsimp only
  split <;> rfl

/-- **The item is left as it was.** A projection in place that excludes whole members only comes to
an end, with calls nested no deeper than the item is. It gives the answer that it should give, and
all objects that were there before are as they were: the item, of which the answer has parts, and
every object in it. -/
theorem project_leaves_item (library : Library) (p : Projection) {item : Fields}
    (hitem : (Json.obj item).WellFormed) (hexcluded : ∀ path ∈ p.excluded, '.' ∉ path.toList)
    (hheld : m.Holds (.object r) (.obj item)) {depth : Nat}
    (hdepth : Token.depth (.obj item) ≤ depth) :
    ∃ m₂ outcome, m.project library depth p r = some (m₂, outcome) ∧ m.Extends m₂ ∧
      m₂.Holds (.object r) (.obj item) ∧
      m₂.Ends r outcome
        (Projection.answer library (Json.ofStrings p.included) (Json.ofStrings p.excluded) item) ∧
      ∀ result after,
        Projection.answer library (Json.ofStrings p.included) (Json.ofStrings p.excluded) item =
          .ok (result, after) →
        after = item := by
  by_cases hnone : p.included = [] ∧ p.excluded = []
  · rw [project, hnone.1, hnone.2, Projection.answer_nil]
    refine ⟨m, .ok r, rfl, .refl m, hheld, ⟨hheld, hheld⟩, ?_⟩
    rintro _ _ ⟨⟩
    rfl
  · have hgiven : p.included ≠ [] ∨ p.excluded ≠ [] := not_and_or.mp hnone
    obtain ⟨m₁, clean, origin, parts, n, hgather, hbuilt, hn, hcopied⟩ :=
        exists_gather p.included hitem hdepth hheld
    have hgathered : m.Extends m₁ := (extends_alloc ..).trans hcopied
    have hempty : (m₁.members clean).isEmpty = (Projection.collect p.included item).isEmpty := by
      rw [← List.isEmpty_map, hbuilt.names, List.isEmpty_map]
    rw [project_of_gather hgiven hgather, hempty]
    cases hcollected : (Projection.collect p.included item).isEmpty with
    | true =>
      obtain ⟨-, hnames, hinside⟩ := hheld.object_inv
      obtain ⟨m₂, outcome, hbare, hdone, hends⟩ := ends_bare (hheld.of_extends hgathered)
        ((holds_alloc hnames hinside).of_extends hcopied)
      rw [answer_ofStrings library p item hgiven, if_pos hcollected]
      have hall : m.Extends m₂ := hgathered.trans hdone
      refine ⟨m₂, outcome, congrArg some hbare, hall, hheld.of_extends hall, hends,
        fun result after h => ?_⟩
      cases hanswer : Projection.bare item <;> rw [hanswer] at h <;> cases h
      rfl
    | false =>
      have hpaths : p.excluded.eraseDups.map Projection.names =
          p.excluded.eraseDups.map fun name => [name] :=
        List.map_congr_left fun path hpath => names_of_notMem
          (hexcluded path (List.mem_eraseDups.mp hpath))
      obtain ⟨m₂, entries, hrun, hexclude, hbuilt₂, hsize, hframe⟩ :=
          hbuilt.excludePaths p.excluded.eraseDups item
      -- What is excluded is taken out of the collected object itself, which is a new one.
      have hexcluded : m.Extends m₂ := by
        refine ⟨hgathered.size.trans hsize.ge, fun x hx => ?_⟩
        rw [hframe x (hbuilt.ne_of_lt (hx.trans_le hn)), hgathered.kept x hx]
      obtain ⟨m₃, outcome, hdocument, hdone, hends⟩ :=
          hbuilt₂.ends_document (hbuilt₂.new.1.trans hbuilt₂.new.2.le)
        (hheld.of_extends hexcluded)
      rw [answer_ofStrings library p item hgiven, if_neg (ne_true_of_eq_false hcollected),
        Projection.finish, hpaths, hexclude, hrun]
      have hall : m.Extends m₃ := hexcluded.trans hdone
      refine ⟨m₃, outcome, congrArg some hdocument, hall, hheld.of_extends hall, hends,
        fun result after h => ?_⟩
      unfold Library.document at h
      dsimp only at h
      split at h <;> cases h
      rfl

/-- A member is included whole, and then in part: the part is put into an object of the item. -/
def sharing : Projection := ⟨["properties.b", "properties.b.c", "properties.a"], ["id"]⟩

theorem project_leaves_item_sharing :
    ∃ (m m₂ : Heap) (r : Ref) (outcome : Outcome Ref),
      m.Holds (.object r) (.obj Projection.nested) ∧
      m.project .plain 3 sharing r = some (m₂, outcome) ∧
      m₂.Holds (.object r) (.obj Projection.nested) := by
  obtain ⟨m, slot, -, hheld⟩ := exists_holds ⟨0, fun _ => []⟩ (.obj Projection.nested)
  obtain ⟨r, rfl⟩ : ∃ r, slot = .object r := by
    cases hheld with
    | value plain => cases plain
    | object there names inside => exact ⟨_, rfl⟩
  have hdepth : Token.depth (.obj Projection.nested) ≤ 3 := by decide +kernel
  obtain ⟨m₂, outcome, hproject, -, hafter, -⟩ :=
      project_leaves_item .plain sharing Projection.wellFormed_nested
    (by simp [sharing]) hheld hdepth
  exact ⟨m, m₂, r, outcome, hheld, hproject, hafter⟩

end StacCatalog.Heap
