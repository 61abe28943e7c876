import Mathlib.Data.List.Nodup
import Mathlib.Data.Set.Lattice
import Mathlib.Order.CompletePartialOrder
import Mathlib.Order.Interval.Set.Defs
import StacCatalog.Proofs.Projection.Answer
import StacCatalog.Proofs.Projection.Objects
import StacCatalog.Search.Token

/-!
# What a projection shares with the item
-/

namespace StacCatalog.Heap

open List Selection Set Function

variable {m m' : Heap} {n : Nat} {r origin : Ref} {name : String} {slot whole : Slot}
    {s : Selection}
  {entries : List (String × Selection)} {fields : Fields} {F G : Set Ref} {parts : String → Set Ref}
    {value : Json}
  {depth : Nat} {source : Ref} {more : List (String × Selection)}

/-! ### Selections in memory -/

/-- **A selection in memory**, where the objects below `n` belong to the item: what it is, what it
is a part of, and the places that belong to it. -/
inductive Shows (m : Heap) (n : Nat) : Selection → Slot → Slot → Set Ref → Prop
  | value {v : Json} (plain : v.isObj = false) : Shows m n (.shared v) (.value v) (.value v) ∅
  | shared {fields : Fields} {r : Ref} (old : r < n)
      (names : (m.members r).map Prod.fst = fields.map Prod.fst)
      (distinct : (fields.map Prod.fst).Nodup)
      (inside : ∀ name value slot, fields.get? name = some value → m.member r name = some slot →
        Shows m n (.shared value) slot slot ∅) :
      Shows m n (.shared (.obj fields)) (.object r) (.object r) ∅
  | fresh {entries : List (String × Selection)} {r origin : Ref} {parts : String → Set Ref}
      (new : r ∈ Set.Ico n m.size) (old : origin < n)
        (names : (m.members r).map Prod.fst = entries.map Prod.fst)
      (distinct : (entries.map Prod.fst).Nodup)
      (known : ∀ name s, entries.lookup name = some s → (m.member origin name).isSome = true)
      (inside : ∀ name s slot whole, entries.lookup name = some s → m.member r name = some slot →
        m.member origin name = some whole → Shows m n s slot whole (parts name))
      (within : ∀ name, parts name ⊆ Set.Ico n m.size) (apart : ∀ name, r ∉ parts name)
      (disjoint : ∀ name other, name ≠ other → Disjoint (parts name) (parts other)) :
      Shows m n (.fresh entries) (.object r) (.object origin) (insert r (⋃ name, parts name))

/-- The members of an object that was put together, each with the objects that belong to it. -/
structure Built (m : Heap) (n : Nat) (entries : List (String × Selection)) (r origin : Ref)
    (parts : String → Set Ref) : Prop where
  new : r ∈ Set.Ico n m.size
  old : origin < n
  names : (m.members r).map Prod.fst = entries.map Prod.fst
  distinct : (entries.map Prod.fst).Nodup
  known : ∀ name s, entries.lookup name = some s → (m.member origin name).isSome = true
  inside : ∀ name s slot whole, entries.lookup name = some s → m.member r name = some slot →
    m.member origin name = some whole → Shows m n s slot whole (parts name)
  within : ∀ name, parts name ⊆ Set.Ico n m.size
  apart : ∀ name, r ∉ parts name
  disjoint : ∀ name other, name ≠ other → Disjoint (parts name) (parts other)

theorem Built.shows (h : Built m n entries r origin parts) :
    Shows m n (.fresh entries) (.object r) (.object origin) (insert r (⋃ name, parts name)) :=
  .fresh h.new h.old h.names h.distinct h.known h.inside h.within h.apart h.disjoint

theorem isSome_lookup_eq {α β : Type} {as : List (String × α)} {bs : List (String × β)}
    (h : as.map Prod.fst = bs.map Prod.fst) (name : String) :
    (as.lookup name).isSome = (bs.lookup name).isSome := by
  rw [Bool.eq_iff_iff, Keyed.isSome_lookup, Keyed.isSome_lookup, h]

theorem lookup_cases {α β : Type} {as : List (String × α)} {bs : List (String × β)}
    (h : as.map Prod.fst = bs.map Prod.fst) (name : String) :
    (as.lookup name = none ∧ bs.lookup name = none) ∨
    ∃ a b, as.lookup name = some a ∧ bs.lookup name = some b := by
  have hboth := isSome_lookup_eq h name
  cases has : as.lookup name <;> cases hbs : bs.lookup name <;> simp_all

namespace Shows

theorem within (h : Shows m n s slot whole F) : F ⊆ Set.Ico n m.size := by
  cases h with
  | value plain | shared old names distinct inside => exact empty_subset _
  | fresh new old names distinct known inside within apart disjoint =>
    exact insert_subset new (iUnion_subset within)

/-- A selection depends on its own objects and on the item only. -/
theorem transport (h : Shows m n s slot whole F) (hsize : m.size ≤ m'.size)
    (hkept : ∀ r, r < n ∨ r ∈ F → m'.members r = m.members r) : Shows m' n s slot whole F := by
  induction h with
  | value plain => exact .value plain
  | @shared fields r old names distinct inside ih =>
    have hr := hkept r (.inl old)
    refine .shared old (by rw [hr, names]) distinct fun name value slot hvalue hslot => ?_
    rw [member, hr] at hslot
    exact ih name value slot hvalue hslot fun r hold => hkept r (hold.imp_right False.elim)
  | @fresh entries r origin parts new old names distinct known inside within apart disjoint ih =>
    have hr := hkept r (.inr (mem_insert r _))
    have horigin := hkept origin (.inl old)
    have hlarger : Set.Ico n m.size ⊆ Set.Ico n m'.size := Set.Ico_subset_Ico_right hsize
    refine .fresh (hlarger new) old (by rw [hr, names]) distinct ?_ ?_ (fun name =>
      (within name).trans hlarger) apart disjoint
    · intro name s hs
      rw [member, horigin]
      exact known name s hs
    · intro name s slot whole hs hslot hwhole
      rw [member, hr] at hslot
      rw [member, horigin] at hwhole
      refine ih name s slot whole hs hslot hwhole fun r hr => hkept r (hr.imp_right fun hr => ?_)
      exact mem_insert_of_mem _ (mem_iUnion_of_mem name hr)

/-- A selection is an object where the item has one; any other value is the one of the item. -/
theorem kinds (h : Shows m n s slot whole F) :
    (∃ v, v.isObj = false ∧ s = .shared v ∧ slot = .value v ∧ whole = .value v) ∨
    ∃ r origin, slot = .object r ∧ whole = .object origin ∧ origin < n := by
  cases h with
  | value plain => exact .inl ⟨_, plain, rfl, rfl, rfl⟩
  | shared old | fresh new old => exact .inr ⟨_, _, rfl, rfl, old⟩

end Shows

/-! ### Updating an object of the item -/

section Put

variable {update : Heap → Ref → Ref → Option Heap} {a b : Ref} {v : Json}

theorem put_object (h : m.member r name = some (.object a)) :
    m.put update r name (.object b) = update m a b := by
  unfold put
  rw [h]

theorem put_value : m.put update r name (.value v) = some (m.set r name (.value v)) := by
  unfold put
  split <;> grind

end Put

theorem depth_le_depthFields (h : fields.get? name = some value) :
    Token.depth value ≤ Token.depthFields fields := by
  induction fields with
  | nil => cases h
  | cons entry fields ih =>
    rw [Fields.get?, Keyed.lookup_cons] at h
    rw [Token.depthFields]
    split at h
    · cases h
      exact le_max_left ..
    · exact (ih h).trans (le_max_right ..)

theorem depth_lt_of_get? (h : fields.get? name = some value) :
    Token.depth value < Token.depth (.obj fields) := by
  rw [Token.depth]
  exact Nat.lt_succ_of_le (depth_le_depthFields h)

theorem exists_inner (h : Token.depth (.obj fields) ≤ depth) :
    ∃ inner, depth = inner + 1 ∧
      ∀ name value, fields.get? name = some value → Token.depth value ≤ inner := by
  have hpos : 0 < depth := by
    rw [Token.depth] at h
    exact Nat.zero_lt_of_lt h
  obtain ⟨inner, rfl⟩ := Nat.exists_eq_succ_of_ne_zero hpos.ne'
  exact ⟨inner, rfl, fun name value hvalue => Nat.le_of_lt_succ
    ((depth_lt_of_get? hvalue).trans_le h)⟩

theorem exists_inner_shared (h : Token.depth (shared (.obj fields)).toJson ≤ depth) :
    ∃ inner, depth = inner + 1 ∧
      ∀ name value, fields.get? name = some value → Token.depth (shared value).toJson ≤ inner := by
  rw [toJson] at h
  obtain ⟨inner, rfl, hinner⟩ := exists_inner h
  refine ⟨inner, rfl, fun name value hvalue => ?_⟩
  rw [toJson]
  exact hinner name value hvalue

theorem exists_inner_fresh (h : Token.depth (fresh entries).toJson ≤ depth) :
    ∃ inner, depth = inner + 1 ∧
      ∀ name s, entries.lookup name = some s → Token.depth s.toJson ≤ inner := by
  rw [toJson] at h
  obtain ⟨inner, rfl, hinner⟩ := exists_inner h
  refine ⟨inner, rfl, fun name s hs => hinner name _ ?_⟩
  rw [get?_entriesJson, hs]
  rfl

theorem foldlM_of_fixed {α β : Type} {f : α → β → Option α} {a : α} {bs : List β}
    (h : ∀ b ∈ bs, f a b = some a) : bs.foldlM f a = some a := by
  induction bs with
  | nil => rfl
  | cons b bs ih =>
    rw [foldlM_cons, h b mem_cons_self]
    exact ih fun b hb => h b (mem_cons_of_mem _ hb)

/-- **An object of the item is not changed by its own parts**: a deep update writes only what stands
there already. -/
theorem merge_of_shows (h : Shows m n s slot whole F) :
    ∀ depth r origin, Token.depth s.toJson ≤ depth → slot = .object r → whole = .object origin →
      merge depth m origin r = some m := by
  -- One member, whatever it is a part of.
  have hmember {s slot whole F} {depth : Nat} {source origin : Ref} {name : String}
      (hs : Shows m n s slot whole F)
      (hslot : m.member source name = some slot) (hwhole : m.member origin name = some whole)
      (ih : ∀ r origin, slot = .object r → whole = .object origin →
        merge depth m origin r = some m) :
      putMember (merge depth) origin source m name = some m := by
    rw [putMember, hslot]
    dsimp only
    obtain ⟨v, -, -, rfl, rfl⟩ | ⟨a, o, rfl, rfl, -⟩ := hs.kinds
    · rw [put_value, set_of_member hwhole]
    · rw [put_object hwhole]
      exact ih a o rfl rfl
  induction h with
  | value plain => nofun
  | @shared fields r old names distinct inside ih =>
    rintro depth _ _ hdepth ⟨⟩ ⟨⟩
    obtain ⟨inner, rfl, hinner⟩ := exists_inner_shared hdepth
    rw [merge]
    refine foldlM_of_fixed fun name hname => ?_
    obtain ⟨slot, hslot⟩ := Keyed.exists_lookup hname
    obtain ⟨value, hvalue⟩ := Keyed.exists_lookup (names ▸ hname)
    exact hmember (inside name value slot hvalue hslot) hslot hslot fun a o =>
      ih name value slot hvalue hslot inner a o (hinner name value hvalue)
  | @fresh entries r origin parts new old names distinct known inside within apart disjoint ih =>
    rintro depth _ _ hdepth ⟨⟩ ⟨⟩
    obtain ⟨inner, rfl, hinner⟩ := exists_inner_fresh hdepth
    rw [merge]
    refine foldlM_of_fixed fun name hname => ?_
    obtain ⟨slot, hslot⟩ := Keyed.exists_lookup hname
    obtain ⟨s, hs⟩ := Keyed.exists_lookup (names ▸ hname)
    obtain ⟨whole, hwhole⟩ := Option.isSome_iff_exists.mp (known name s hs)
    exact hmember (inside name s slot whole hs hslot hwhole) hslot hwhole fun a o =>
      ih name s slot whole hs hslot hwhole inner a o (hinner name s hs)

/-! ### Updating a new object -/

namespace Built

variable (h : Built m n entries r origin parts)

include h

/-- What has been collected stays as it is while other new objects change. -/
theorem transport (hsize : m.size ≤ m'.size)
    (hkept : ∀ x, x < n ∨ x = r ∨ (∃ name, x ∈ parts name) → m'.members x = m.members x) :
    Built m' n entries r origin parts := by
  have hlarger : Set.Ico n m.size ⊆ Set.Ico n m'.size := Set.Ico_subset_Ico_right hsize
  have hr := hkept r (.inr (.inl rfl))
  have horigin := hkept origin (.inl h.old)
  refine ⟨hlarger h.new, h.old, by rw [hr, h.names], h.distinct, ?_, ?_,
    fun name => (h.within name).trans hlarger, h.apart, h.disjoint⟩
  · intro name s hs
    rw [member, horigin]
    exact h.known name s hs
  · intro name s slot whole hs hslot hwhole
    rw [member, hr] at hslot
    rw [member, horigin] at hwhole
    refine (h.inside name s slot whole hs hslot hwhole).transport hsize fun x hx => hkept x ?_
    exact hx.imp_right fun hx => .inr ⟨name, hx⟩

theorem exists_of_entry (hs : entries.lookup name = some s) :
    ∃ slot whole, m.member r name = some slot ∧ m.member origin name = some whole ∧
      Shows m n s slot whole (parts name) := by
  have hsome := isSome_lookup_eq h.names name
  rw [hs, Option.isSome_some] at hsome
  obtain ⟨slot, hslot⟩ := Option.isSome_iff_exists.mp hsome
  obtain ⟨whole, hwhole⟩ := Option.isSome_iff_exists.mp (h.known name s hs)
  exact ⟨slot, whole, hslot, hwhole, h.inside name s slot whole hs hslot hwhole⟩

theorem member_eq_none (hs : entries.lookup name = none) : m.member r name = none :=
  Keyed.lookup_eq_none.mpr (h.names ▸ Keyed.lookup_eq_none.mp hs)

/-- **One member of a collection changes**: by what is put in its place, or by what is done to the
object in it. -/
theorem update (hsize : m.size ≤ m'.size)
    (hmembers : m'.members r = Keyed.set (m.members r) name slot)
    (hkept : ∀ x, x < n ∨ (∃ other, other ≠ name ∧ x ∈ parts other) → m'.members x = m.members x)
    (hwhole : m.member origin name = some whole) (hs : Shows m' n s slot whole G) (hr : r ∉ G)
    (hG : ∀ other, other ≠ name → Disjoint G (parts other)) :
    Built m' n (Keyed.set entries name s) r origin (Function.update parts name G) := by
  have hlarger : Set.Ico n m.size ⊆ Set.Ico n m'.size := Set.Ico_subset_Ico_right hsize
  have horigin := hkept origin (.inl h.old)
  -- Only the member of that name, with the objects that belong to it, has changed.
  refine ⟨hlarger h.new, h.old, ?_, ?_, ?_, ?_, ?_, ?_, ?_⟩
  · rw [hmembers, Keyed.keys_set, Keyed.keys_set, h.names]
  · rw [Keyed.keys_set]
    split
    · exact h.distinct
    · rename_i hnew
      rw [← concat_eq_append]
      exact List.Nodup.concat hnew h.distinct
  · intro other s' hs'
    rw [member, horigin]
    rw [Keyed.lookup_set] at hs'
    split at hs'
    · rename_i hother
      rw [hother]
      exact Option.isSome_of_eq_some hwhole
    · exact h.known other s' hs'
  · intro other s' slot' whole' hs' hslot' hwhole'
    rw [member, hmembers, Keyed.lookup_set] at hslot'
    rw [member, horigin, ← member] at hwhole'
    rw [Keyed.lookup_set] at hs'
    by_cases hother : other = name
    · rw [if_pos hother] at hs' hslot'
      cases hs'
      cases hslot'
      rw [hother, hwhole] at hwhole'
      cases hwhole'
      rwa [hother, update_self]
    · rw [if_neg hother] at hs' hslot'
      rw [update_of_ne hother]
      refine (h.inside other s' slot' whole' hs' hslot' hwhole').transport hsize fun x hx =>
        hkept x ?_
      exact hx.imp_right fun hx => ⟨other, hother, hx⟩
  · exact (forall_update_iff parts fun _ part => part ⊆ Set.Ico n m'.size).mpr
      ⟨hs.within, fun other _ => (h.within other).trans hlarger⟩
  · exact (forall_update_iff parts fun _ part => r ∉ part).mpr ⟨hr, fun other _ => h.apart other⟩
  · intro other another hdistinct
    by_cases hother : other = name
    · rw [hother, update_self, update_of_ne (hother ▸ hdistinct.symm)]
      exact hG another (hother ▸ hdistinct.symm)
    · by_cases hanother : another = name
      · rw [hanother, update_self, update_of_ne hother]
        exact (hG other hother).symm
      · rw [update_of_ne hother, update_of_ne hanother]
        exact h.disjoint other another hdistinct

theorem ne_of_lt {x : Ref} (hx : x < n) : x ≠ r :=
  fun heq => absurd (heq ▸ h.new.1) (Nat.not_le_of_lt hx)

theorem notMem_of_lt {x : Ref} (hx : x < n) : x ∉ parts name :=
  fun hmem => absurd (h.within name hmem).1 (Nat.not_le_of_lt hx)

theorem set (hwhole : m.member origin name = some whole) (hs : Shows m n s slot whole G)
    (hr : r ∉ G) (hG : ∀ other, other ≠ name → Disjoint G (parts other)) :
    Built (m.set r name slot) n (Keyed.set entries name s) r origin
      (Function.update parts name G) := by
  refine h.update le_rfl (members_set_self ..) ?_ hwhole (hs.transport le_rfl ?_) hr hG
  · rintro x (hx | ⟨other, -, hx⟩)
    · exact members_set_of_ne _ _ _ (h.ne_of_lt hx)
    · exact members_set_of_ne _ _ _ fun heq => h.apart other (heq ▸ hx)
  · rintro x (hx | hx)
    · exact members_set_of_ne _ _ _ (h.ne_of_lt hx)
    · exact members_set_of_ne _ _ _ fun heq => hr (heq ▸ hx)

end Built

/-- **A deep update by a selection** of an object: from any memory that has the selection, it adds
the selection to what has been collected of the object, and changes nothing but what has been
collected. -/
def Adds (depth : Nat) (m : Heap) (n : Nat) (new : Selection) (source origin : Ref) (G : Set Ref) :
    Prop :=
  ∀ m₁ old r F, m.size ≤ m₁.size → (∀ x, x < n ∨ x ∈ G → m₁.members x = m.members x) →
    Shows m₁ n old (.object r) (.object origin) F → Disjoint F G →
      ∃ m₂ F₂, merge depth m₁ r source = some m₂ ∧ Shows m₂ n (old.add new) (.object r)
        (.object origin) F₂ ∧ F₂ ⊆ F ∪ G ∧ m₂.size = m₁.size ∧ ∀ x, x ∉ F →
        m₂.members x = m₁.members x

theorem Built.put (h : Built m' n entries r origin parts) (hsize : m.size ≤ m'.size)
    (hkept : ∀ x, x < n ∨ x ∈ G → m'.members x = m.members x)
    (hwhole : m'.member origin name = some whole) (hs : Shows m n s slot whole G)
    (hadds : ∀ b o, slot = .object b → whole = .object o → Adds depth m n s b o G) (hr : r ∉ G)
    (hG : ∀ other, Disjoint (parts other) G) :
    ∃ m₂ G₂, m'.put (merge depth) r name slot = some m₂ ∧
      Built m₂ n (addEntries entries [(name, s)]) r origin (Function.update parts name G₂) ∧
      G₂ ⊆ parts name ∪ G ∧ m₂.size = m'.size ∧
      ∀ x, x ≠ r → x ∉ parts name → m₂.members x = m'.members x := by
  have hs' := hs.transport hsize hkept
  have hothers (other : String) (_ : other ≠ name) : Disjoint G (parts other) := (hG other).symm
  -- What is set as it is.
  have hset : ∃ m₂ G₂, some (m'.set r name slot) = some m₂ ∧
      Built m₂ n (Keyed.set entries name s) r origin (Function.update parts name G₂) ∧
      G₂ ⊆ parts name ∪ G ∧ m₂.size = m'.size ∧
      ∀ x, x ≠ r → x ∉ parts name → m₂.members x = m'.members x :=
    ⟨_, G, rfl, h.set hwhole hs' hr hothers, subset_union_right, rfl, fun x hx _ =>
      members_set_of_ne _ _ _ hx⟩
  rw [addEntries, addEntries]
  cases hentry : entries.lookup name with
  | none =>
    simp only [Heap.put, h.member_eq_none hentry]
    exact hset
  | some old =>
    obtain ⟨slot', whole', hslot', hwhole', hold⟩ := h.exists_of_entry hentry
    obtain rfl : whole = whole' := Option.some.inj (hwhole.symm.trans hwhole')
    obtain ⟨v, hv, rfl, rfl, rfl⟩ | ⟨b, o, rfl, rfl, -⟩ := hs'.kinds
    · have hsame : old.add (.shared v) = .shared v := by
        rw [add]
        cases v <;> first | rfl | cases hv
      rw [put_value]
      dsimp only
      rwa [hsame]
    · obtain ⟨a, rfl⟩ : ∃ a, slot' = .object a := by
        obtain ⟨v, -, -, -, hvalue⟩ | ⟨a, -, heq, -⟩ := hold.kinds
        · cases hvalue
        · exact ⟨a, heq⟩
      obtain ⟨m₂, G₂, hmerge, hshows, hG₂, hsize₂, hframe⟩ :=
          hadds b o rfl rfl m' old a (parts name) hsize hkept hold (hG name)
      refine ⟨m₂, G₂, (put_object hslot').trans hmerge, ?_, hG₂, hsize₂, fun x _ hx => hframe x hx⟩
      refine h.update hsize₂.ge ?_ ?_ hwhole hshows ?_ ?_
      · rw [hframe r (h.apart name), Keyed.set_of_lookup hslot']
      · rintro x (hx | ⟨other, hother, hx⟩)
        · exact hframe x (h.notMem_of_lt hx)
        · exact hframe x fun hmem => disjoint_left.mp (h.disjoint other name hother) hx hmem
      · exact fun hmem => (hG₂ hmem).elim (h.apart name) hr
      · intro other hother
        exact (disjoint_union_left.mpr ⟨h.disjoint name other hother.symm,
          hothers other hother⟩).mono_left hG₂

/-- The members of an object are these selections, each with the objects that belong to it, and can
be added in place. -/
def Supplies (depth : Nat) (m : Heap) (n : Nat) (more : List (String × Selection))
    (source origin : Ref) (parts : String → Set Ref) : Prop :=
  ∀ name s, (name, s) ∈ more → ∃ slot whole, m.member source name = some slot ∧
    m.member origin name = some whole ∧ Shows m n s slot whole (parts name) ∧ ∀ b o, slot =
    .object b → whole = .object o → Adds depth m n s b o (parts name)

theorem Built.putMembers {m₁ : Heap} {parts' : String → Set Ref}
    (h : Built m₁ n entries r origin parts) (hdistinct : (more.map Prod.fst).Nodup)
    (hsize : m.size ≤ m₁.size) (hmore : Supplies depth m n more source origin parts')
    (hapart : ∀ name other, name ≠ other → Disjoint (parts' name) (parts' other))
    (hr : ∀ name, r ∉ parts' name)
    (hsource : source ≠ r ∧ ∀ name, source ∉ parts name ∧ source ∉ parts' name)
    (hkept : ∀ x, x < n ∨ x = source ∨ (∃ name ∈ more.map Prod.fst, x ∈ parts' name) →
      m₁.members x = m.members x)
    (hdisjoint : ∀ name ∈ more.map Prod.fst, ∀ other, Disjoint (parts other) (parts' name)) :
    ∃ m₂ parts₂, (more.map Prod.fst).foldlM (putMember (merge depth) r source) m₁ = some m₂ ∧
      Built m₂ n (addEntries entries more) r origin parts₂ ∧
      (∀ name, parts₂ name ⊆ parts name ∪ parts' name) ∧ m₂.size = m₁.size ∧
      ∀ x, x ≠ r → (∀ name ∈ more.map Prod.fst, x ∉ parts name) → m₂.members x = m₁.members x := by
  induction more generalizing m₁ entries parts with
  | nil => exact ⟨m₁, parts, rfl, h, fun name => subset_union_left, rfl, fun _ _ _ => rfl⟩
  | cons entry more ih =>
    obtain ⟨name, s⟩ := entry
    obtain ⟨hnew, hdistinct⟩ := nodup_cons.mp hdistinct
    obtain ⟨slot, whole, hslot, hwhole, hs, hadds⟩ := hmore name s mem_cons_self
    have hslot' : m₁.member source name = some slot := by
      rwa [member, hkept source (.inr (.inl rfl))]
    have hwhole' : m₁.member origin name = some whole := by
      rwa [member, hkept origin (.inl h.old)]
    obtain ⟨m₂, G, hstep, hbuilt, hG, hsize₂, hframe⟩ := h.put hsize
      (fun x hx => hkept x (hx.imp_right fun hx => .inr ⟨name, mem_cons_self, hx⟩))
        hwhole' hs hadds (hr name)
      (hdisjoint name mem_cons_self)
    -- The parts of the other names are as before.
    have hne {other : String} (hother : other ∈ more.map Prod.fst) : other ≠ name := by
      rintro rfl
      exact hnew hother
    have hupdate : ∀ other, Function.update parts name G other ⊆ parts other ∪ parts' other :=
      (forall_update_iff parts fun other part => part ⊆ parts other ∪ parts' other).mpr
        ⟨hG, fun _ _ => subset_union_left⟩
    have hsource₂ (other : String) : source ∉ Function.update parts name G other :=
      fun hmem => (hupdate other hmem).elim (hsource.2 other).1 (hsource.2 other).2
    have hkept₂ : ∀ x, x < n ∨ x = source ∨ (∃ other ∈ more.map Prod.fst, x ∈ parts' other) →
        m₂.members x = m.members x := by
      intro x hx
      rcases hx with hx | rfl | ⟨other, hother, hx⟩
      · rw [hframe x (h.ne_of_lt hx) (h.notMem_of_lt hx)]
        exact hkept x (.inl hx)
      · rw [hframe x hsource.1 (hsource.2 name).1]
        exact hkept x (.inr (.inl rfl))
      · have hother' := mem_cons_of_mem name hother
        rw [hframe x (fun heq => hr other (heq ▸ hx)) fun hmem => disjoint_left.mp
          (hdisjoint other hother' name) hmem hx]
        exact hkept x (.inr (.inr ⟨other, hother', hx⟩))
    have hdisjoint₂ : ∀ other ∈ more.map Prod.fst,
        ∀ another, Disjoint (Function.update parts name G another) (parts' other) := by
      intro other hother
      have hold := hdisjoint other (mem_cons_of_mem _ hother)
      refine (forall_update_iff parts fun _ part => Disjoint part (parts' other)).mpr
        ⟨?_, fun another _ => hold another⟩
      exact (disjoint_union_left.mpr ⟨hold name, hapart name other (hne hother).symm⟩).mono_left hG
    obtain ⟨m₃, parts₃, hrun, hbuilt₃, hparts₃, hsize₃, hframe₃⟩ :=
        ih hbuilt hdistinct (hsize₂ ▸ hsize)
      (fun other s hother => hmore other s (mem_cons_of_mem _ hother))
      ⟨hsource.1, fun other => ⟨hsource₂ other, (hsource.2 other).2⟩⟩ hkept₂ hdisjoint₂
    refine ⟨m₃, parts₃, ?_, hbuilt₃, ?_, hsize₃.trans hsize₂, ?_⟩
    · rw [map_cons, foldlM_cons, putMember, hslot']
      dsimp only
      rwa [hstep]
    · intro other
      exact (hparts₃ other).trans (union_subset (hupdate other) subset_union_right)
    · intro x hx hnot
      rw [hframe₃ x hx, hframe x hx (hnot name mem_cons_self)]
      intro other hother
      rw [update_of_ne (hne hother)]
      exact hnot other (mem_cons_of_mem _ hother)

theorem addFields_eq_addEntries (entries : List (String × Selection)) (fields : Fields) :
    addFields entries fields =
      addEntries entries (fields.map fun entry => (entry.1, .shared entry.2)) := by
  induction fields generalizing entries with
  | nil => rfl
  | cons entry fields ih =>
    rw [addFields, map_cons, addEntries, ih]
    rfl

/-- A deep update adds a selection if its steps add the members of the selection. -/
theorem adds_of_members (parts' : String → Set Ref) {new : Selection}
    (h : Shows m n new (.object source) (.object origin) G)
    (hdepth : Token.depth new.toJson ≤ depth + 1)
    (hnames : (m.members source).map Prod.fst = more.map Prod.fst)
    (hdistinct : (more.map Prod.fst).Nodup) (hmore : Supplies depth m n more source origin parts')
    (hapart : ∀ name other, name ≠ other → Disjoint (parts' name) (parts' other))
    (hplace : source < n ∨ source ∈ G) (hparts : ∀ name, parts' name ⊆ G ∧ source ∉ parts' name)
    (hshared : ∀ inner, (shared (.obj inner)).add new = .shared (.obj inner))
    (hfresh : ∀ entries, (fresh entries).add new = .fresh (addEntries entries more)) :
    Adds (depth + 1) m n new source origin G := by
  intro m₁ old r F hsize hkept hold hdisjoint
  have hsame : m₁.members source = m.members source := hkept source hplace
  cases hold with
  -- What is shared with the item has all members already.
  | shared hr names distinct inside =>
    refine ⟨m₁, ∅, merge_of_shows (h.transport hsize hkept) _ _ _ hdepth rfl rfl, ?_,
      empty_subset _, rfl, fun _ _ => rfl⟩
    rw [hshared]
    exact .shared hr names distinct inside
  | @fresh entries _ _ parts new hr names distinct known inside within apart disjoint =>
    have hbuilt : Built m₁ n entries r origin parts :=
        ⟨new, hr, names, distinct, known, inside, within, apart, disjoint⟩
    have hout {x : Ref} (hx : x ∈ insert r (⋃ name, parts name)) : x ≠ source := by
      rintro rfl
      rcases hplace with hlt | hmem
      · exact absurd (hbuilt.shows.within hx).1 (Nat.not_le_of_lt hlt)
      · exact disjoint_left.mp hdisjoint hx hmem
    have hpart {name : String} {x : Ref} (hx : x ∈ parts name) : x ∈
        insert r (⋃ name, parts name) :=
      mem_insert_of_mem _ (mem_iUnion_of_mem name hx)
    have hread (x : Ref) (hx : x < n ∨ x = source ∨ ∃ name ∈ more.map Prod.fst, x ∈ parts' name) :
        m₁.members x = m.members x := by
      rcases hx with hx | rfl | ⟨name, -, hx⟩
      · exact hkept x (.inl hx)
      · exact hsame
      · exact hkept x (.inr ((hparts name).1 hx))
    obtain ⟨m₂, parts₂, hrun, hbuilt₂, hparts₂, hsize₂, hframe⟩ :=
        hbuilt.putMembers hdistinct hsize hmore hapart
      (fun name hmem => disjoint_left.mp hdisjoint (mem_insert r _) ((hparts name).1 hmem))
      ⟨(hout (mem_insert r _)).symm, fun name =>
        ⟨fun hmem => hout (hpart hmem) rfl, (hparts name).2⟩⟩ hread
      (fun name _ other => hdisjoint.mono (fun x hx => hpart hx) (hparts name).1)
    refine ⟨m₂, insert r (⋃ name, parts₂ name), ?_, ?_, ?_, hsize₂, ?_⟩
    · rwa [merge, hsame, hnames]
    · rw [hfresh]
      exact hbuilt₂.shows
    · refine insert_subset (.inl (mem_insert r _)) (iUnion_subset fun name x hx => ?_)
      exact (hparts₂ name hx).imp hpart fun hx => (hparts name).1 hx
    · intro x hx
      refine hframe x ?_ fun name _ hmem => hx (hpart hmem)
      rintro rfl
      exact hx (mem_insert x _)

/-- **A selection is added in place** by a deep update. -/
theorem adds_of_shows (h : Shows m n s slot whole G) :
    ∀ depth source origin, Token.depth s.toJson ≤ depth → slot = .object source →
      whole = .object origin → Adds depth m n s source origin G := by
  induction h with
  | value plain => nofun
  | @shared fields source old names distinct inside ih =>
    rintro depth _ _ hdepth ⟨⟩ ⟨⟩
    obtain ⟨inner, rfl, hinner⟩ := exists_inner_shared hdepth
    have hkeys : (fields.map fun entry => (entry.1, shared entry.2)).map Prod.fst =
        fields.map Prod.fst := by
      rw [map_map]
      rfl
    -- No object belongs to a part of the item.
    refine adds_of_members (fun _ => ∅) (.shared old names distinct inside) hdepth
      (names.trans hkeys.symm)
      (hkeys ▸ distinct) ?_ (fun _ _ _ => disjoint_empty _) (.inl old)
        (fun _ => ⟨empty_subset _, notMem_empty _⟩)
      (fun _ => rfl) (fun entries => ?_)
    · intro name s hmem
      obtain ⟨⟨key, value⟩, hentry, heq⟩ := mem_map.mp hmem
      obtain ⟨rfl, rfl⟩ := Prod.mk.inj heq
      have hvalue : fields.get? key = some value := Keyed.lookup_of_mem distinct hentry
      obtain ⟨slot, hslot⟩ := Keyed.exists_lookup (names ▸ mem_map_of_mem (f := Prod.fst) hentry)
      exact ⟨slot, slot, hslot, hslot, inside key value slot hvalue hslot, fun b o =>
        ih key value slot hvalue hslot inner b o (hinner key value hvalue)⟩
    · rw [add, addValue, addFields_eq_addEntries]
  | @fresh others source origin parts' new old names distinct known inside
      within apart disjoint ih =>
    rintro depth _ _ hdepth ⟨⟩ ⟨⟩
    obtain ⟨inner, rfl, hinner⟩ := exists_inner_fresh hdepth
    have hbuilt : Built m n others source origin parts' :=
        ⟨new, old, names, distinct, known, inside, within, apart, disjoint⟩
    refine adds_of_members parts' hbuilt.shows hdepth names distinct ?_ disjoint
      (.inr (mem_insert _ _))
      (fun name => ⟨fun x hx => mem_insert_of_mem _ (mem_iUnion_of_mem name hx), apart name⟩)
        (fun _ => rfl) (fun _ => rfl)
    intro name s hmem
    have hs := Keyed.lookup_of_mem distinct hmem
    obtain ⟨slot, whole, hslot, hwhole, hshows⟩ := hbuilt.exists_of_entry hs
    exact ⟨slot, whole, hslot, hwhole, hshows, fun b o => ih name s slot whole hs hslot hwhole inner
      b o (hinner name s hs)⟩

end StacCatalog.Heap
