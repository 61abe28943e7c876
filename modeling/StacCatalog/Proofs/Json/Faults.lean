import StacCatalog.Catalog.Collection
import StacCatalog.Library.Plain
import StacCatalog.Proofs.Json.Access

/-!
# Which faults mean what
-/

namespace StacCatalog

/-- Whether a fault says that something is not stored, or already stored. -/
def Fault.isReport : Fault → Bool
  | .notFound _ | .conflict _ => true
  | _ => false

/-- A computation whose faults are no reports about what is stored. -/
def Silent {α : Type} (o : Outcome α) : Prop :=
  ∀ fault, o = .error fault → fault.isReport = false

namespace Silent

variable {α β : Type}

theorem ok (a : α) : Silent (.ok a : Outcome α) :=
  fun _ h => nomatch h

theorem error {fault : Fault} (h : fault.isReport = false) : Silent (.error fault : Outcome α) := by
  rintro _ ⟨⟩
  exact h

theorem bind {o : Outcome α} {f : α → Outcome β} (ho : Silent o) (hf : ∀ a, Silent (f a)) :
    Silent (o >>= f) := by
  intro fault h
  cases o with
  | ok a => exact hf a fault h
  | error first =>
    cases h
    exact ho _ rfl

theorem mapM {f : α → Outcome β} (hf : ∀ a, Silent (f a)) (as : List α) : Silent (as.mapM f) := by
  induction as with
  | nil => exact ok []
  | cons a as ih =>
    rw [List.mapM_cons]
    exact (hf a).bind fun b => ih.bind fun bs => ok (b :: bs)

theorem item (value : Json) (name : String) : Silent (value.item name) := by
  unfold Json.item
  split
  · split
    · exact ok _
    · exact error rfl
  all_goals exact error rfl

theorem lookupD (value : Json) (name : String) (default : Json) :
    Silent (value.lookupD name default) := by
  unfold Json.lookupD
  split
  · exact ok _
  · exact error rfl

theorem elements (value : Json) : Silent value.elements := by
  unfold Json.elements
  split <;> first | exact ok _ | exact error rfl

theorem hashable (value : Json) : Silent value.hashable := by
  unfold Json.hashable
  split
  · exact error rfl
  · exact error rfl
  · exact ok _

/-! ### Links -/

theorem entryOf (position : Nat) (pair : Json) : Silent (Library.entryOf position pair) := by
  unfold Library.entryOf
  cases pair.elements with
  | error fault => exact error rfl
  | ok parts =>
    simp only [Outcome.ok_bind]
    split
    · exact (hashable _).bind fun _ => ok _
    · exact error rfl

theorem entriesOf (position : Nat) (pairs : List Json) :
    Silent (Library.entriesOf position pairs) := by
  induction pairs generalizing position with
  | nil => exact ok []
  | cons pair rest ih =>
    exact (entryOf position pair).bind fun entry => (ih _).bind fun others => ok _

theorem copyLinks (links : Json) : Silent (Library.copyLinks links) := by
  refine (elements links).bind fun parts => mapM (fun link => ?_) parts
  unfold Library.copyLink
  split
  · exact ok _
  · exact (elements _).bind fun pairs => (entriesOf 0 pairs).bind fun entries => ok _

end Silent

/-- A library that gives no reports about what is stored when it resolves links. -/
def Library.Silent (library : Library) : Prop :=
  ∀ links, StacCatalog.Silent (library.resolveLinks links)

theorem Library.silent_plain : Library.plain.Silent :=
  Silent.copyLinks

namespace Silent

variable {library : Library}

theorem join (base url : String) : Silent (Url.join base url) := by
  have hread (scheme url) : Silent (Url.Parts.read scheme url) := by
    unfold Url.Parts.read
    dsimp only
    split
    · exact error rfl
    · exact ok _
  refine bind ?_ fun chars => ok _
  unfold Url.joinChars
  split
  · exact ok _
  split
  · exact ok _
  refine (hread _ _).bind fun b => (hread _ _).bind fun u => ?_
  dsimp only
  split
  · exact ok _
  split
  · exact ok _
  split
  · exact ok _
  · exact ok _

theorem links (r : Request) (id : String) (extensions : List String) :
    Silent (Links.collection r id extensions) := by
  unfold Links.collection
  dsimp only
  -- With or without the links of each extension, all that can fail is resolving an address.
  split <;> repeat refine (join _ _).bind fun _ => ?_
  all_goals
    split <;> repeat refine (join _ _).bind fun _ => ?_
    all_goals exact ok _

theorem itemAnswer (hlibrary : library.Silent) (baseUrl : String) (document : Json) :
    Silent (Item.ofStored library baseUrl document) := by
  refine (item _ _).bind fun id => (item _ _).bind fun collection =>
    (lookupD _ _ _).bind fun stored => ?_
  dsimp only
  split
  · refine (hlibrary stored).bind fun extra => ?_
    repeat refine (lookupD _ _ _).bind fun _ => ?_
    exact ok _
  · refine (ok []).bind fun extra => ?_
    repeat refine (lookupD _ _ _).bind fun _ => ?_
    exact ok _

theorem collectionAnswer (hlibrary : library.Silent) (r : Request) (extensions : List String)
    (document : Json) : Silent (Collection.ofStored library r extensions document) := by
  have hmembers (fields) : Silent (library.document fields) := by
    unfold Library.document
    split
    · exact ok _
    · exact error rfl
  unfold Collection.ofStored
  split
  · refine (links _ _ _).bind fun made => ?_
    dsimp only
    split
    · exact (hlibrary _).bind fun extra => (hmembers _).bind fun fields => ok _
    · exact (ok []).bind fun extra => (hmembers _).bind fun fields => ok _
  · exact error rfl

end Silent

end StacCatalog
