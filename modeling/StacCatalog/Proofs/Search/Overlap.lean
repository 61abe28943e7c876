import Mathlib.Order.Interval.Set.Defs
import StacCatalog.Projection
import StacCatalog.Proofs.Json.Paths
import StacCatalog.Proofs.Query.Meaning
import StacCatalog.Proofs.Time.Interval
import StacCatalog.Search.Clause

/-!
# The items of an interval of time
-/

namespace StacCatalog

open Time Rfc3339 List

variable {time : Option ℚ}

namespace Condition

/-! ### What the database accepts -/

section Meaning

variable {δ : Type} (db : Reading δ) (doc : δ)

/-- In the names of fields two underscores stand for a point. -/
def pointed : List Char → List Char
  | '_' :: '_' :: rest => '.' :: pointed rest
  | c :: rest => c :: pointed rest
  | [] => []

/-- Whether a value lies on a side. A side that is `null` is open. -/
def meetsSide (value : Json) : String × Json → Bool
  | (_, .null) => true
  | side => Query.meetsBound db value side

/-- Whether a document meets the condition of a kind. A field that is `null` lies in no range. -/
def meets (kind : String) (condition : Json) : Bool :=
  match kind, condition with
  | "range", .obj [(name, .obj sides)] =>
    (db.value? doc (String.ofList (pointed name.toList))).any fun v => !v.isNull &&
      sides.all (meetsSide db v)
  | _, _ => Query.meets db doc kind condition

/-- How many of the optional parts of a combination have to accept a document: as many as are asked
for, or one if there are no required parts. -/
def least (combination : Fields) : Nat :=
  match combination.get? "minimum_should_match" with
  | some (.int n) => n.toNat
  | _ => if combination.has "must" || combination.has "filter" then 0 else 1

/-- Whether so many parts of a kind are enough. -/
def enough (least : Nat) (kind : String) (size accepted : Nat) : Bool :=
  match kind with
  | "must" | "filter" => accepted == size
  | "must_not" => accepted == 0
  | "should" => least ≤ accepted
  | _ => false

mutual

/-- Whether the database accepts a document. -/
def accepts : Json → Bool
  | .obj [("bool", .obj combination)] => acceptsParts (least combination) combination
  | .obj [(kind, condition)] => meets db doc kind condition
  | _ => false

def acceptsParts (least : Nat) : List (String × Json) → Bool
  | [] => true
  | (kind, .arr parts) :: rest =>
    enough least kind parts.length (count parts) && acceptsParts least rest
  | ("minimum_should_match", .int _) :: rest => acceptsParts least rest
  | _ => false

/-- How many queries of a list accept a document. -/
def count : List Json → Nat
  | [] => 0
  | q :: rest => (accepts q).toNat + count rest

end

theorem count_eq_countP (parts : List Json) :
    count db doc parts = parts.countP (accepts db doc) := by
  induction parts with
  | nil => rfl
  | cons q rest ih =>
    rw [count, ih, countP_cons, Nat.add_comm]
    cases accepts db doc q <;> rfl

theorem enough_filter (n : Nat) (parts : List Json) :
    enough n "filter" parts.length (count db doc parts) = parts.all (accepts db doc) := by
  rw [enough, count_eq_countP, Bool.eq_iff_iff, beq_iff_eq, countP_eq_length, all_eq_true]

theorem enough_must_not (n : Nat) (parts : List Json) :
    enough n "must_not" parts.length (count db doc parts) = !parts.any (accepts db doc) := by
  rw [enough, count_eq_countP, Bool.eq_iff_iff, beq_iff_eq, countP_eq_zero, Bool.not_eq_true',
    any_eq_false]

theorem enough_should (parts : List Json) :
    enough 1 "should" parts.length (count db doc parts) = parts.any (accepts db doc) := by
  rw [enough, count_eq_countP, Bool.eq_iff_iff, decide_eq_true_eq,
    Nat.one_le_iff_ne_zero, ← Nat.pos_iff_ne_zero, countP_pos_iff, any_eq_true]

theorem accepts_bool (combination : Fields) :
    accepts db doc (.single "bool" (.obj combination)) = acceptsParts db doc
      (least combination) combination := rfl

@[simp] theorem accepts_present (field : String) :
    accepts db doc (present field) = (db.value? doc field).any fun v => !v.isNull := rfl

@[simp] theorem accepts_within (name : String) (sides : Fields) :
    accepts db doc (within name sides) =
      (db.value? doc (String.ofList (pointed name.toList))).any fun v => !v.isNull &&
      sides.all (meetsSide db v) := rfl

/-- **What the clause says**: the time of the item lies between both ends, or it has no time and
begins before the one end and ends after the other. -/
theorem accepts_overlapJson (ends : Bounds) :
    accepts db doc (overlapJson ends) =
      ((accepts db doc (present "properties.datetime") &&
            accepts db doc
              (within "properties__datetime"
                [("gte", endJson ends.gte), ("lte", endJson ends.lte)])) ||
        (!accepts db doc (present "properties.datetime") &&
          (accepts db doc (present "properties.start_datetime") &&
            (accepts db doc (present "properties.end_datetime") &&
              (accepts db doc (within "properties__start_datetime" [("lte", endJson ends.lte)]) &&
                accepts db doc
                  (within "properties__end_datetime" [("gte", endJson ends.gte)])))))) := by
  have hinstant (p q : Json) : accepts db doc (.single "bool" (.single "filter" (.arr [p, q]))) =
      (accepts db doc p && accepts db doc q) := by
    refine (accepts_bool db doc [("filter", .arr [p, q])]).trans ?_
    rw [acceptsParts, acceptsParts, enough_filter, Bool.and_true]
    simp only [all_cons, all_nil, Bool.and_true]
  have hspan (p q r u v : Json) : accepts db doc
        (.single "bool" (.obj [("must_not", .arr [p]), ("filter", .arr [q, r, u, v])])) =
      (!accepts db doc p &&
        (accepts db doc q && (accepts db doc r && (accepts db doc u && accepts db doc v)))) := by
    rw [accepts_bool, acceptsParts, acceptsParts, acceptsParts, enough_must_not, enough_filter,
      Bool.and_true]
    simp only [any_cons, any_nil, Bool.or_false, all_cons, all_nil, Bool.and_true]
  have heither (p q : Json) : accepts db doc
        (.single "bool" (.obj [("should", .arr [p, q]), ("minimum_should_match", .int 1)])) =
      (accepts db doc p || accepts db doc q) := by
    rw [accepts_bool, acceptsParts, acceptsParts, acceptsParts, Bool.and_true]
    refine (enough_should db doc [p, q]).trans ?_
    simp only [any_cons, any_nil, Bool.or_false]
  rw [overlapJson, heither, hinstant, hspan]

end Meaning

end Condition

/-! ### Times -/

namespace Reading

variable {δ : Type} {db : Reading δ} {doc : δ}

/-- The database compares two date-times by their instants. -/
def ComparesInstants (db : Reading δ) : Prop :=
  ∀ {a b : String} {p q : ℚ}, instant? a.toList = some p → instant? b.toList = some q →
    db.compare? (.str a) (.str b) = some (compare p q)

/-- The time in a field of a document; none if the field is missing or `null`. -/
inductive TimeIn (db : Reading δ) (doc : δ) (field : String) : Option ℚ → Prop
  | missing (h : db.value? doc field = none) : TimeIn db doc field none
  | null (h : db.value? doc field = some .null) : TimeIn db doc field none
  | instant {text : String} {q : ℚ} (h : db.value? doc field = some (.str text))
      (hq : instant? text.toList = some q) :
      TimeIn db doc field (some q)

end Reading

namespace Condition

variable {δ : Type} {db : Reading δ} {doc : δ}

theorem accepts_present_iff {field : String} (h : db.TimeIn doc field time) :
    accepts db doc (present field) = time.isSome := by
  rw [accepts_present]
  cases h with
  | missing h | null h | instant h hq => rw [h]; rfl

theorem meetsSide_iff {text : String} {e : Option String} {q : ℚ} {side : Option ℚ}
    (hdb : db.ComparesInstants) (hq : instant? text.toList = some q)
    (hside : bound? e = some side) :
    (meetsSide db (.str text) ("gte", endJson e) = true ↔ ∀ a ∈ side, a ≤ q) ∧
    (meetsSide db (.str text) ("lte", endJson e) = true ↔ ∀ b ∈ side, q ≤ b) := by
  cases e with
  | none =>
    cases hside
    simp [endJson, meetsSide]
  | some e =>
    obtain ⟨a, ha, rfl⟩ := Option.map_eq_some_iff.mp hside
    have hcompare := hdb hq ha
    simp [endJson, meetsSide, Query.meetsBound, hcompare, compare_gt_iff_gt, compare_lt_iff_lt,
      le_iff_lt_or_eq (a := a), le_iff_lt_or_eq (a := q), eq_comm (a := a)]

/-- A range is met by the time in its field, if there is one and it lies on all sides. -/
theorem accepts_within_iff {name field : String}
    (hname : String.ofList (pointed name.toList) = field) (h : db.TimeIn doc field time)
    {sides : Fields} {P : ℚ → Prop}
    (hsides : ∀ text q, instant? text.toList = some q →
      ((∀ side ∈ sides, meetsSide db (.str text) side = true) ↔ P q)) :
    accepts db doc (within name sides) = true ↔ ∃ q, time = some q ∧ P q := by
  rw [accepts_within, hname]
  cases h with
  | missing h => simp [h]
  | null h => simp [h, Json.isNull]
  | @instant text q h hq =>
    have hmeets : sides.all (meetsSide db (.str text)) = true ↔
        P q := by rw [all_eq_true, hsides text q hq]
    rw [h]
    simpa [Json.isNull] using hmeets

end Condition

/-! ### Intervals -/

/-- The instants of an interval. -/
def Time.interval (span : Option ℚ × Option ℚ) : Set ℚ :=
  {q | (∀ a ∈ span.1, a ≤ q) ∧ ∀ b ∈ span.2, q ≤ b}

/-- **Two intervals meet** if each begins before the other one ends. -/
theorem icc_inter_interval_nonempty {span : Option ℚ × Option ℚ}
    (hspan : ∀ a ∈ span.1, ∀ b ∈ span.2, a ≤ b) {start stop : ℚ} (h : start ≤ stop) :
    (Set.Icc start stop ∩ interval span).Nonempty ↔
      (∀ b ∈ span.2, start ≤ b) ∧ ∀ a ∈ span.1, a ≤ stop := by
  constructor
  · rintro ⟨q, ⟨hstart, hstop⟩, hfirst, hlast⟩
    exact ⟨fun b hb => hstart.trans (hlast b hb), fun a ha => (hfirst a ha).trans hstop⟩
  · rintro ⟨hlast, hfirst⟩
    obtain ⟨first, last⟩ := span
    cases first with
    | none => exact ⟨start, ⟨le_rfl, h⟩, nofun, hlast⟩
    | some a =>
      -- The later one of the two beginnings is in both.
      refine ⟨max start a, ⟨le_max_left _ _, max_le h (hfirst a rfl)⟩, ?_, fun b hb =>
        max_le (hlast b hb) (hspan a rfl b hb)⟩
      rintro _ ⟨⟩
      exact le_max_right _ _

variable {δ : Type} {db : Reading δ} {span : Option ℚ × Option ℚ} {item : δ}
    {datetime start stop : Option ℚ}

/-- The clause of two ends that denote an interval. -/
theorem Condition.accepts_overlapJson_iff (hdb : db.ComparesInstants) {ends : Bounds}
    (hgte : bound? ends.gte = some span.1) (hlte : bound? ends.lte = some span.2)
    (hspan : ∀ a ∈ span.1, ∀ b ∈ span.2, a ≤ b)
    (hdatetime : db.TimeIn item "properties.datetime" datetime)
    (hstart : db.TimeIn item "properties.start_datetime" start)
    (hstop : db.TimeIn item "properties.end_datetime" stop)
    (hordered : ∀ a ∈ start, ∀ b ∈ stop, a ≤ b) :
    accepts db item (overlapJson ends) = true ↔
      (∃ t, datetime = some t ∧ t ∈ interval span) ∨
      datetime = none ∧
      ∃ a b, start = some a ∧ stop = some b ∧ (Set.Icc a b ∩ interval span).Nonempty := by
  have hbetween : accepts db item
          (within "properties__datetime" [("gte", endJson ends.gte), ("lte", endJson ends.lte)]) =
        true ↔ ∃ t, datetime = some t ∧ t ∈ interval span := by
    refine accepts_within_iff (by decide +kernel) hdatetime fun text q hq => ?_
    rw [forall_mem_cons, forall_mem_singleton, (meetsSide_iff hdb hq hgte).1,
      (meetsSide_iff hdb hq hlte).2]
    rfl
  have hbegins : accepts db item (within "properties__start_datetime" [("lte", endJson ends.lte)]) =
        true ↔ ∃ a, start = some a ∧ ∀ b ∈ span.2, a ≤ b := by
    refine accepts_within_iff (by decide +kernel) hstart fun text q hq => ?_
    rw [forall_mem_singleton, (meetsSide_iff hdb hq hlte).2]
  have hends : accepts db item (within "properties__end_datetime" [("gte", endJson ends.gte)]) =
        true ↔ ∃ b, stop = some b ∧ ∀ a ∈ span.1, a ≤ b := by
    refine accepts_within_iff (by decide +kernel) hstop fun text q hq => ?_
    rw [forall_mem_singleton, (meetsSide_iff hdb hq hgte).1]
  rw [accepts_overlapJson, accepts_present_iff hdatetime, accepts_present_iff hstart,
    accepts_present_iff hstop, Bool.or_eq_true, Bool.and_eq_true, hbetween]
  simp only [Bool.and_eq_true, hbegins, hends]
  -- Two intervals meet if each begins before the other ends.
  refine or_congr ?_ ?_
  · rw [and_iff_right_iff_imp]
    rintro ⟨t, rfl, -⟩
    rfl
  · cases datetime with
    | some t => simp
    | none =>
      constructor
      · rintro ⟨-, -, -, ⟨a, rfl, hbefore⟩, b, rfl, hafter⟩
        exact ⟨rfl, a, b, rfl, rfl, (icc_inter_interval_nonempty hspan (hordered a rfl b rfl)).mpr
          ⟨hbefore, hafter⟩⟩
      · rintro ⟨-, a, b, rfl, rfl, hmeets⟩
        obtain ⟨hbefore, hafter⟩ :=
            (icc_inter_interval_nonempty hspan (hordered a rfl b rfl)).mp hmeets
        exact ⟨rfl, rfl, rfl, ⟨a, rfl, hbefore⟩, b, rfl, hafter⟩

/-- **The items of an interval.** The clause that a search gets for an interval accepts an item
exactly if its time lies in the interval, or if it has no time and the span between its start and
its end meets the interval. -/
theorem Search.withInterval_accepts_iff (hdb : db.ComparesInstants) (search : Search) {s : String}
    (hs : span? s = some span) (hwritten : hasEmptyEnd s = false)
    (hspan : ∀ a ∈ span.1, ∀ b ∈ span.2, a ≤ b)
    (hdatetime : db.TimeIn item "properties.datetime" datetime)
    (hstart : db.TimeIn item "properties.start_datetime" start)
    (hstop : db.TimeIn item "properties.end_datetime" stop)
    (hordered : ∀ a ∈ start, ∀ b ∈ stop, a ≤ b) :
    ∃ clause, search.withInterval (.value (.str s)) = .ok ⟨search.clauses ++ [clause]⟩ ∧
      (Condition.accepts db item clause.condition.toJson = true ↔
        (∃ t, datetime = some t ∧ t ∈ interval span) ∨
        datetime = none ∧
        ∃ a b, start = some a ∧ stop = some b ∧ (Set.Icc a b ∩ interval span).Nonempty) := by
  obtain ⟨first, last, hfirst, hlast, hempty, hbounds, -⟩ := exists_parts hs
  obtain ⟨hsome, hsome'⟩ : first ≠ [] ∧ last ≠ [] := by
    rw [ne_eq, ne_eq, ← not_or, ← hempty, hwritten]
    exact Bool.false_ne_true
  have hgiven : Search.intervalGiven (.value (.str s)) = true := by
    refine bne_iff_ne.mpr ?_
    rintro rfl
    exact absurd hwritten (by decide +kernel)
  refine ⟨⟨.query, .overlaps ⟨openEnd (String.ofList first), openEnd (String.ofList last)⟩⟩, ?_, ?_⟩
  · rw [Search.withInterval, if_pos hgiven, hbounds]
    rfl
  · refine Condition.accepts_overlapJson_iff hdb ?_ ?_ hspan hdatetime hstart hstop hordered
    · rw [bound?_openEnd hfirst, if_neg hsome]
    · rw [bound?_openEnd hlast, if_neg hsome']

/-- Items as they are written, where the database compares date-times by their instants. -/
def Reading.ofItems : Reading Fields where
  value? item field := (Json.obj item).at? (Projection.names field)
  compare?
    | .str a, .str b => do return compare (← instant? a.toList) (← instant? b.toList)
    | _, _ => none
  relates _ _ _ := false

theorem Reading.comparesInstants_ofItems : Reading.ofItems.ComparesInstants := by
  intro a b p q hp hq
  simp [Reading.ofItems, hp, hq]

def Reading.spanning : Fields :=
  [("id", .str "x"), ("properties",
    .obj [("datetime", .null), ("start_datetime", .str "2020-01-01T00:00:00Z"),
    ("end_datetime", .str "2020-02-12T12:30:22+02:00")])]

/-- An interval that begins at the instant when a span ends meets it. -/
theorem Search.withInterval_accepts_iff_spanning :
    ∃ clause, Search.empty.withInterval (.value (.str "2020-02-12T10:30:22Z/..")) = .ok ⟨[clause]⟩ ∧
      Condition.accepts Reading.ofItems Reading.spanning clause.condition.toJson = true := by
  have hstart : Reading.ofItems.value? Reading.spanning "properties.start_datetime" =
      some (.str "2020-01-01T00:00:00Z") := by
    decide +kernel
  have hstop : Reading.ofItems.value? Reading.spanning "properties.end_datetime" =
      some (.str "2020-02-12T12:30:22+02:00") := by
    decide +kernel
  have hs : span? "2020-02-12T10:30:22Z/.." = some (some 63717100222, none) := by decide +kernel
  have hfirst : instant? "2020-01-01T00:00:00Z".toList = some 63713433600 := by decide +kernel
  have hlast : instant? "2020-02-12T12:30:22+02:00".toList = some 63717100222 := by decide +kernel
  obtain ⟨clause, hclause, haccepts⟩ :=
      Search.withInterval_accepts_iff Reading.comparesInstants_ofItems Search.empty hs
    (by decide +kernel) nofun
      (.null (by decide +kernel)) (.instant hstart hfirst) (.instant hstop hlast)
      (by decide +kernel)
  refine ⟨clause, hclause, haccepts.mpr
    (.inr ⟨rfl, _, _, rfl, rfl, 63717100222, ⟨by decide +kernel, le_rfl⟩, ?_, nofun⟩)⟩
  rintro _ ⟨⟩
  exact le_rfl

end StacCatalog
