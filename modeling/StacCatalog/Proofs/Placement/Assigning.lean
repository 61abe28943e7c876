import StacCatalog.Proofs.Patch.Values
import StacCatalog.Proofs.Placement.Memory

/-!
# A store that runs assignments
-/

namespace StacCatalog

open List

variable {ops : List Patch.Operation}

namespace Patch

variable {s : Script}

/-! ### Scripts that assign -/

/-- The source of a script that sets a member to the parameter of its name. -/
def assignment (member : String) : String :=
  "ctx._source." ++ member ++ " = params." ++ member ++ ";"

/-- A name of which every character can stand in a name of a script. -/
def isWord (member : String) : Bool :=
  member.toList.all Char.isAlphanum

theorem exists_command_starts (h : script ops = .ok s) (hsource : s.source ≠ "") :
    ∃ op ∈ ops, ∃ own, op.commands = .ok own ∧ ∃ c ∈ own, c.render.toList <+: s.source.toList := by
  obtain ⟨-, commands, params, hcommands, -, rfl⟩ := script_eq_ok_iff.mp h
  dsimp only at hsource ⊢
  rw [commandSet_eq_eraseDups] at hsource ⊢
  cases hall : commands.flatten with
  | nil =>
    rw [hall] at hsource
    exact absurd rfl hsource
  | cons c rest =>
    obtain ⟨own, hown, hc⟩ := mem_flatten.mp (hall ▸ mem_cons_self : c ∈ commands.flatten)
    obtain ⟨op, hop, hopOwn⟩ := exists_left_of_forall₂ (Outcome.mapM_eq_ok.mp hcommands) hown
    refine ⟨op, hop, own, hopOwn, c, hc, ?_⟩
    rw [map_cons, eraseDups_cons, String.toList_join, flatMap_cons]
    exact prefix_append _ _

theorem exists_put_of_starts {c : Command} {rest : List Char}
    (h : c.render.toList <+: 'c' :: rest) :
    ∃ p inserted supply, c = .put p inserted supply ∧ p.position = none := by
  have hother : ∀ (text more : String) (first : Char),
      text.toList.head? = some first → first ≠ 'c' → ¬ (text ++ more).toList <+: 'c' :: rest := by
    intro text more first hfirst hne hstarts
    rw [String.toList_append] at hstarts
    cases htext : text.toList with
    | nil => rw [htext] at hfirst; cases hfirst
    | cons d text =>
      rw [htext] at hfirst hstarts
      cases hfirst
      exact hne (cons_prefix_cons.mp hstarts).1
  cases c with
  | needNest p | needKey p | needPosition p | expect p value =>
    unfold Command.render at h
    simp only [String.append_assoc] at h
    exact absurd h (hother _ _ 'i' (by decide) (by decide))
  | take p =>
    unfold Command.render at h
    dsimp only at h
    split at h
    all_goals
      simp only [String.append_assoc] at h
      exact absurd h (hother _ _ 'd' (by decide) (by decide))
  | put p inserted supply =>
    refine ⟨p, inserted, supply, rfl, ?_⟩
    unfold Command.render at h
    dsimp only at h
    split at h
    · simp only [String.append_assoc] at h
      exact absurd h (hother _ _ 'i' (by decide) (by decide))
    · assumption

theorem touches_of_put_mem {op : Operation} {own : List Command} {p : Path} {inserted : Bool}
    {supply : Supply} (hown : op.commands = .ok own) (h : Command.put p inserted supply ∈ own) :
    Path.ofPointer op.path = .ok p ∧
    ∀ name, (keysOf op.path).head? = some name → op.Touches name := by
  have hchecks (q : Path) (a b) : Command.put p inserted supply ∉ q.checks a b :=
      fun h => by simpa using eq_of_mem_checks h
  unfold Operation.commands at hown
  obtain ⟨q, hq, hown⟩ := Outcome.bind_eq_ok.mp hown
  rw [hq]
  cases op with
  | add path value | replace path value =>
    cases hown
    simp only [mem_append, hchecks, mem_singleton, Command.put.injEq, false_or] at h
    exact ⟨by rw [h.1], fun name hname => ⟨path, mem_cons_self, hname⟩⟩
  | move source path | copy source path =>
    obtain ⟨s, -, hown⟩ := Outcome.bind_eq_ok.mp hown
    cases hown
    simp only [mem_append, hchecks, mem_cons, Command.put.injEq, false_or, reduceCtorEq,
      not_mem_nil, or_false] at h
    exact ⟨by rw [h.1], fun name hname => ⟨path, mem_cons_self, hname⟩⟩
  | test path value | remove path | other name path value =>
    cases hown
    simp [hchecks] at h

theorem keysOf_of_scriptPath {pointer member : String} {p : Path}
    (hplain : plainPath pointer = true) (hp : Path.ofPointer pointer = .ok p)
    (hposition : p.position = none) (hword : isWord member = true)
    (hscript : p.scriptPath = member) : keysOf pointer = [member] := by
  have hchars : ∀ c ∈ member.toList, c.isAlphanum = true := all_eq_true.mp hword
  have hquote : '\'' ∉ p.scriptPath.toList := by
    rw [hscript]
    exact fun hc => absurd (hchars _ hc) (by decide)
  have hpath : p.scriptPath.toList = p.path.toList :=
    (searchable_of_plainPath hplain hp).scriptChars_of_notMem (path_of_ofPointer hp).1 hquote
  rw [hscript, path_of_member hp hposition] at hpath
  have hpoint : '.' ∉ member.toList := fun hc => absurd (hchars _ hc) (by decide)
  unfold keysOf
  rw [← hpath, splitOn_eq_singleton hpoint]
  simp

theorem touches_of_assignment {member : String} (hword : isWord member = true)
    (h : script ops = .ok s) (hplain : ∀ op ∈ ops, op.plain = true)
    (hsource : s.source = assignment member) : ∃ op ∈ ops, op.Touches member := by
  have hhead : s.source.toList =
      "ctx._source.".toList ++ (member.toList ++ ' ' :: ("= params." ++ member ++ ";").toList) := by
    rw [hsource]
    unfold assignment
    simp [String.toList_append]
  have hne : s.source ≠ "" := by
    rw [hsource]
    unfold assignment
    simp [← String.toList_inj]
  obtain ⟨op, hop, own, hown, c, hc, hstarts⟩ := exists_command_starts h hne
  obtain ⟨p, inserted, supply, rfl, hposition⟩ : ∃ p inserted supply, c = .put p inserted supply ∧
      p.position = none := by
    rw [hhead] at hstarts
    exact exists_put_of_starts hstarts
  obtain ⟨hp, htouches⟩ := touches_of_put_mem hown hc
  have hpath : plainPath op.path = true :=
    all_eq_true.mp (Bool.and_eq_true_iff.mp (hplain op hop)).1 _ op.path_mem_paths
  -- Both texts name the member up to the first blank.
  have hrender : ∃ after : List Char, (Command.put p inserted supply).render.toList =
      "ctx._source.".toList ++ (p.scriptPath.toList ++ ' ' :: after) := by
    unfold Command.render
    dsimp only
    rw [hposition]
    dsimp only
    refine ⟨("= " ++ Command.supplied p supply ++ ";").toList, ?_⟩
    simp [String.toList_append]
  obtain ⟨after, hafter⟩ := hrender
  obtain ⟨tail, htail⟩ := hstarts
  rw [hafter, hhead] at htail
  simp only [append_assoc, append_cancel_left_eq, cons_append] at htail
  have hblank : ' ' ∉ p.scriptPath.toList := by
    intro hmem
    rcases (searchable_of_plainPath hpath hp).mem_scriptChars (path_of_ofPointer hp).1
      hmem with hown | hindex
    · rw [path_of_member hp hposition, ← joined_keysOf] at hown
      exact absurd (plainChar_of_mem_joined hpath _ hown) (by decide)
    · exact absurd hindex (by decide)
  have hblank' : ' ' ∉ member.toList := fun hmem => absurd (all_eq_true.mp hword _ hmem) (by decide)
  have hscript : p.scriptPath = member :=
      String.toList_inj.mp (front_eq_of_notMem hblank hblank' htail)
  refine ⟨op, hop, htouches member ?_⟩
  rw [keysOf_of_scriptPath hpath hp hposition hword hscript]
  rfl

end Patch

/-! ### The store -/

namespace Store

/-- What a script makes of a document, if only assignments to one member are run. -/
def assign (member : String) (script : Patch.Script) (document : Json) : Option Json :=
  if script.source = Patch.assignment member then
    (document.setItem member (Fields.getD script.params member)).toOption
  else some document

/-- Answers a call, and runs the scripts that assign to a member. -/
def answerAssigning (member : String) (s : Store) : Call → Reply × Store
  | .update index id script =>
    match (s.find? index id).bind (assign member script) with
    | some document => (.value (.single "result" (.str "updated")), s.put index id document)
    | none => (.fault .absent, s)
  | c => s.answer [] c

variable {member index key : String} {s : Store} {document : Json}

theorem item_assign {script : Patch.Script} {old : Json}
    (h : assign member script old = some document) {name : String}
    (hname : name ≠ member ∨ script.source ≠ Patch.assignment member) :
    document.item name = old.item name := by
  unfold assign at h
  split at h
  · rename_i hsource
    have hset : old.setItem member (Fields.getD script.params member) = .ok document := by
      cases hset : old.setItem member (Fields.getD script.params member) with
      | error fault => rw [hset] at h; cases h
      | ok new =>
        rw [hset] at h
        rw [Option.some.inj h]
    rw [Json.item_setItem hset, if_neg (hname.resolve_right fun hother => hother hsource)]
  · rw [Option.some.inj h]

theorem answerAssigning_cases (n : Naming) {c : Call}
    (h : (s.answerAssigning member c).2.find? index (.str key) = some document) :
    s.find? index (.str key) = some document ∨
    c.Writes n (assign member) (fun index key => s.find? index (.str key)) index key document := by
  cases c with
  | update place id script =>
    rw [answerAssigning] at h
    split at h
    · rename_i new hnew
      rcases find?_put_cases h with hold | ⟨rfl, rfl, rfl⟩
      · exact .inl hold
      · obtain ⟨old, hold, hrun⟩ := Option.bind_eq_some_iff.mp hnew
        exact .inr ⟨rfl, rfl, old, hold, hrun⟩
    · exact .inl h
  | _ => exact answer_cases n h

def assigning (n : Naming) (member : String) (hword : Patch.isWord member = true) :
    Database n Store where
  answer := answerAssigning member
  shelf s index key := s.find? index (.str key)
  run := assign member
  found h := answerAssigning_cases n h
  readable h := (database n []).readable h
  read hreply hdocument := (database n []).read hreply hdocument
  untouched {ops script old document name value} hscript hplain htouches hrun hold := by
    rw [← hold]
    refine item_assign hrun ?_
    by_cases hname : name = member
    · refine .inr fun hsource => ?_
      obtain ⟨op, hop, htouch⟩ := Patch.touches_of_assignment hword hscript hplain hsource
      exact htouches op hop (hname ▸ htouch)
    · exact .inl hname

theorem obeys_assigning (n : Naming) (hword : Patch.isWord member = true) :
    (assigning n member hword).Obeys where
  batch hplaces action haction := find?_putAll_of_mem hplaces haction
  update {s index key script old document reply} hold hrun _ := by
    have hbind : (s.find? index (.str key)).bind (assign member script) = some document := by
      have hfind : s.find? index (.str key) = some old := hold
      rwa [hfind]
    have hanswer : s.answerAssigning member (.update index (.str key) script) =
        (.value (.single "result" (.str "updated")), s.put index (.str key) document) := by
      rw [answerAssigning, hbind]
    show (s.answerAssigning member (.update index (.str key) script)).2.find? index
      (.str key) = some document
    rw [hanswer, find?_put, if_pos ⟨rfl, Json.sameKey_str.mpr rfl⟩]
  get s index id := (obeys_database n).get s index id

end Store

end StacCatalog
