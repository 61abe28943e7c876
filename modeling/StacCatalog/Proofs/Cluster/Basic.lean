import Mathlib.Logic.Function.Basic
import StacCatalog.Proofs.Placement.Database
import StacCatalog.Proofs.Program.Run

/-!
# Clusters: databases whose indices are addressed by aliases
-/

namespace StacCatalog

/-- What a cluster holds. -/
structure Contents where
  /-- The aliases of each index; `none` if there is no such index. -/
  aliases : String → Option (List String)
  held : Shelf

namespace Contents

variable {name index : String}

/-! ### Names -/

def Carries (v : Contents) (index name : String) : Prop :=
  name ∈ (v.aliases index).getD []

instance (v : Contents) (index name : String) : Decidable (v.Carries index name) :=
  inferInstanceAs (Decidable (name ∈ _))

/-- Whether an index is the only one that has an alias. -/
def Sole (v : Contents) (name index : String) : Prop :=
  ∀ other, v.Carries other name ↔ other = index

def Unused (v : Contents) (name : String) : Prop :=
  ∀ index, ¬ v.Carries index name

/-- Whether entries list all indices that have an alias, as one entry. -/
def Lists (v : Contents) (name : String) (entries : List Json) : Prop :=
  v.Unused name ∧ entries = [] ∨
  ∃ entry owners, entries = [entry] ∧ entry.item "indices" = .ok (Json.ofStrings owners) ∧
    entry.item "name" = .ok (.str name) ∧ owners ≠ [] ∧ ∀ index, index ∈ owners ↔
      v.Carries index name

/-! ### Changes -/

/-- Puts a document at a place, or takes it away. -/
def set (v : Contents) (index key : String) (document : Option Json) : Contents :=
  { v with held := v.held.set index key document }

/-- Makes an index that has one alias and no documents. -/
def make (v : Contents) (index name : String) : Contents where
  aliases := Function.update v.aliases index (some [name])
  held := Function.update v.held index fun _ => none

def dropAlias (v : Contents) (owners : List String) (name : String) : Contents :=
  { v with aliases := fun index =>
      if index ∈ owners then (v.aliases index).map (·.filter (· ≠ name)) else v.aliases index }

def drop (v : Contents) (owners : List String) : Contents where
  aliases index := if index ∈ owners then none else v.aliases index
  held index := if index ∈ owners then fun _ => none else v.held index

def dropCarriers (v : Contents) (name : String) : Contents where
  aliases index := if v.Carries index name then none else v.aliases index
  held index := if v.Carries index name then fun _ => none else v.held index

theorem drop_dropAlias {v : Contents} {owners : List String}
    (h : ∀ index, index ∈ owners ↔ v.Carries index name) :
    (v.dropAlias owners name).drop owners = v.dropCarriers name := by
  simp only [drop, dropAlias, dropCarriers, h, Contents.mk.injEq]
  refine ⟨funext fun index => ?_, trivial⟩
  split <;> rfl

/-! ### What changes and what stays -/

@[simp] theorem aliases_set (v : Contents) (place key : String) (document : Option Json) :
    (v.set place key document).aliases = v.aliases := rfl

@[simp] theorem aliases_make_self (v : Contents) (index name : String) :
    (v.make index name).aliases index = some [name] :=
  Function.update_self ..

theorem aliases_make_of_ne (v : Contents) {other : String} (h : other ≠ index) (name : String) :
    (v.make index name).aliases other = v.aliases other :=
  Function.update_of_ne h ..

@[simp] theorem held_make_self (v : Contents) (index name key : String) :
    (v.make index name).held index key = none := by
  simp only [make, Function.update_self]

theorem held_make_of_ne (v : Contents) {other : String} (h : other ≠ index) (name key : String) :
    (v.make index name).held other key = v.held other key := by
  simp only [make, Function.update_of_ne h]

theorem carries_make (v : Contents) (index name other text : String) :
    (v.make index name).Carries other text ↔
      if other = index then text = name else v.Carries other text := by
  unfold Carries
  by_cases h : other = index
  · rw [h, aliases_make_self, if_pos rfl, Option.getD_some, List.mem_singleton]
  · rw [aliases_make_of_ne v h, if_neg h]

theorem held_set_of_ne (v : Contents) {place : String} (h : place ≠ index) (key : String)
    (document : Option Json) (name : String) :
    (v.set index key document).held place name = v.held place name :=
  if_neg fun hplace => h hplace.1

theorem aliases_dropCarriers (v : Contents) (h : ¬ v.Carries index name) :
    (v.dropCarriers name).aliases index = v.aliases index :=
  if_neg h

theorem held_dropCarriers (v : Contents) (h : ¬ v.Carries index name) :
    (v.dropCarriers name).held index = v.held index :=
  if_neg h

theorem dropCarriers_of_carries (v : Contents) (h : v.Carries index name) :
    (v.dropCarriers name).aliases index = none ∧
    ∀ key, (v.dropCarriers name).held index key = none :=
  ⟨if_pos h, fun key => congrFun (if_pos h : (v.dropCarriers name).held index = fun _ => none) key⟩

@[simp] theorem carries_set (v : Contents) (place key : String) (document : Option Json)
    (index name : String) : (v.set place key document).Carries index name ↔ v.Carries index name :=
  Iff.rfl

/-! ### Answers -/

/-- What may be replied to a call, and what is held afterwards. Of the calls that are left out
nothing is said, nor of a document under a name that several indices have. -/
def Allows (v : Contents) (c : Call) (reply : Reply) (after : Contents) : Prop :=
  match c with
  | .exists name id => ∀ index key, v.Sole name index → id = .str key →
      after = v ∧ ∃ found, reply = .value found ∧ found.truthy = (v.held index key).isSome
  | .get name id =>
    (v.Unused name → after = v ∧ reply = .fault .absent) ∧
    ∀ index key, v.Sole name index → id = .str key → after = v ∧ match v.held index key with
      | some document => ∃ found, reply = .value found ∧ found.item "_source" = .ok document
      | none => reply = .fault .absent
  | .index name id document _ => ∀ index key, v.Sole name index → id = .str key →
      after = v.set index key (some document) ∧ ∃ answer, reply = .value answer
  | .delete name id _ =>
    (v.Unused name → after = v ∧ reply = .fault .absent) ∧
    ∀ index key, v.Sole name index → id = .str key → match v.held index key with
      | some _ => after = v.set index key none ∧ ∃ answer, reply = .value answer
      | none => after = v ∧ reply = .fault .absent
  | .createIndex index name _ => v.aliases index = none →
      after = v.make index name ∧ ∃ answer, reply = .value answer
  | .indexExists index =>
    after = v ∧ ∃ found, reply = .value found ∧ found.truthy = (v.aliases index).isSome
  | .resolveAlias name =>
    after = v ∧ ∃ found entries, reply = .value found ∧ found.contains "aliases" = .ok true ∧
      found.item "aliases" = .ok (.arr entries) ∧ v.Lists name entries
  | .deleteAlias indices name => ∀ owners text, indices = Json.ofStrings owners → name = .str text →
      (∀ index ∈ owners, v.Carries index text) → after = v.dropAlias owners text ∧
        ∃ answer, reply = .value answer
  | .deleteIndex indices => ∀ owners, indices = Json.ofStrings owners →
      (∀ index ∈ owners, (v.aliases index).isSome = true) → after = v.drop owners ∧
        ∃ answer, reply = .value answer
  | .tolerate | .close => after = v ∧ ∃ answer, reply = .value answer
  | _ => True

end Contents

/-- A database whose indices are addressed by aliases. -/
structure Cluster (σ : Type) where
  answer : Answering σ
  contents : σ → Contents
  allowed : ∀ s c, (contents s).Allows c (answer s c).1 (contents (answer s c).2)

namespace Cluster

open Program

variable {σ α β : Type} {cl : Cluster σ}

/-- How a program ends, and what is held afterwards. -/
def Runs (cl : Cluster σ) (p : Program α) (v : Contents) (o : Outcome α) (w : Contents) : Prop :=
  ∀ s, cl.contents s = v → ∃ t, p.run cl.answer s = (o, t) ∧ cl.contents t = w

namespace Runs

variable {p : Program α} {f : α → Program β} {v u w : Contents} {a : α} {o : Outcome β}
    {fault : Fault} {c : Call}

theorem pure (a : α) : cl.Runs (pure a) v (.ok a) v :=
  fun s hs => ⟨s, rfl, hs⟩

theorem fail (fault : Fault) : cl.Runs (.fail fault : Program α) v (.error fault) v :=
  fun s hs => ⟨s, rfl, hs⟩

theorem bind (hp : cl.Runs p v (.ok a) u) (hf : cl.Runs (f a) u o w) : cl.Runs (p >>= f) v o w := by
  intro s hs
  obtain ⟨t, ht, hu⟩ := hp s hs
  rw [run_bind_ok ht]
  exact hf t hu

theorem bind_error (hp : cl.Runs p v (.error fault) u) : cl.Runs (p >>= f) v (.error fault) u := by
  intro s hs
  obtain ⟨t, ht, hu⟩ := hp s hs
  refine ⟨t, ?_, hu⟩
  rw [run_bind_eq, ht]

theorem liftM_bind {x : Outcome α} (hx : x = .ok a) (hf : cl.Runs (f a) v o w) :
    cl.Runs (liftM x >>= f) v o w := by
  rwa [hx]

theorem orMissing (hp : cl.Runs p v (.ok a) u) (what : Missing) :
    cl.Runs (p.orMissing what) v (.ok a) u := by
  intro s hs
  obtain ⟨t, ht, hu⟩ := hp s hs
  exact ⟨t, run_orMissing_eq_ok.mpr ht, hu⟩

theorem liftM (x : Outcome α) : cl.Runs (liftM x : Program α) v x v :=
  fun s hs => ⟨s, run_liftM x, hs⟩

theorem perform_bind {f : Json → Program β}
    (h : ∀ reply u, v.Allows c reply u → ∃ x, reply = .value x ∧ cl.Runs (f x) u o w) :
    cl.Runs (perform c >>= f) v o w := by
  intro s hs
  obtain ⟨x, hx, hf⟩ := h _ _ (hs ▸ cl.allowed s c)
  obtain ⟨t, ht, hw⟩ := hf _ rfl
  refine ⟨t, ?_, hw⟩
  rwa [run_bind_ok (run_perform_eq_ok.mpr ⟨hx, rfl⟩)]

theorem tell (h : ∀ reply u, v.Allows c reply u → u = w ∧ ∃ x, reply = .value x) :
    cl.Runs (tell c) v (.ok ()) w := by
  intro s hs
  obtain ⟨hu, x, hx⟩ := h _ _ (hs ▸ cl.allowed s c)
  exact ⟨_, run_tell_eq_ok.mpr ⟨x, hx, rfl⟩, hu⟩

theorem perform_absent (h : ∀ reply u, v.Allows c reply u → u = v ∧ reply = .fault .absent)
    (what : Missing) : cl.Runs ((perform c).orMissing what) v (.error (.notFound what)) v := by
  intro s hs
  obtain ⟨hu, hreply⟩ := h _ _ (hs ▸ cl.allowed s c)
  refine ⟨_, ?_, hu⟩
  rw [Program.orMissing, run_recover, run_perform_eq_error.mpr ⟨.inl hreply, rfl⟩]
  rfl

theorem tell_absent (h : ∀ reply u, v.Allows c reply u → u = v ∧ reply = .fault .absent)
    (what : Missing) : cl.Runs ((Program.tell c).orMissing what) v (.error (.notFound what)) v := by
  intro s hs
  obtain ⟨hu, hreply⟩ := h _ _ (hs ▸ cl.allowed s c)
  refine ⟨_, ?_, hu⟩
  rw [Program.orMissing, run_recover, run_tell_eq_error.mpr ⟨.inl hreply, rfl⟩]
  rfl

variable {name index key : String} {what : Missing} {refresh : Refresh}

theorem exists_bind {f : Json → Program β} (hsole : v.Sole name index)
    (h : ∀ found : Json, found.truthy = (v.held index key).isSome → cl.Runs (f found) v o w) :
    cl.Runs (perform (.exists name (.str key)) >>= f) v o w := by
  refine perform_bind fun reply u hallows => ?_
  obtain ⟨rfl, found, hreply, htruthy⟩ := hallows index key hsole rfl
  exact ⟨found, hreply, h found htruthy⟩

theorem read (hsole : v.Sole name index) (key : String) (what : Missing) :
    cl.Runs (do (← (perform (.get name (.str key))).orMissing what).item "_source") v
      (match v.held index key with
        | some document => .ok document
        | none => .error (.notFound what)) v := by
  cases hheld : v.held index key with
  | some document =>
    intro s hs
    obtain ⟨hafter, hreply⟩ := (cl.allowed s (.get name (.str key))).2 index key (hs ▸ hsole) rfl
    rw [hs, hheld] at hreply
    obtain ⟨found, hfound, hsource⟩ := hreply
    refine ⟨_, ?_, hafter.trans hs⟩
    rw [run_bind_ok (run_orMissing_eq_ok.mpr (run_perform_eq_ok.mpr ⟨hfound, rfl⟩)),
      run_liftM, hsource]
  | none =>
    refine bind_error (perform_absent (fun reply u hallows => ?_) what)
    obtain ⟨hafter, hreply⟩ := hallows.2 index key hsole rfl
    rw [hheld] at hreply
    exact ⟨hafter, hreply⟩

theorem store (hsole : v.Sole name index) (document : Json) :
    cl.Runs (Program.tell (.index name (.str key) document refresh)) v (.ok ())
      (v.set index key (some document)) :=
  tell fun _ _ hallows => hallows index key hsole rfl

theorem remove (hsole : v.Sole name index) (hheld : (v.held index key).isSome = true) :
    cl.Runs (Program.tell (.delete name (.str key) refresh)) v (.ok ()) (v.set index key none) := by
  obtain ⟨document, hdocument⟩ := Option.isSome_iff_exists.mp hheld
  refine tell fun reply u hallows => ?_
  have hremoved := hallows.2 index key hsole rfl
  rw [hdocument] at hremoved
  exact hremoved

end Runs

end Cluster

end StacCatalog
