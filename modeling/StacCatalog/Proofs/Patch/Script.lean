import Mathlib.Data.List.Induction
import StacCatalog.Patch.Script
import StacCatalog.Proofs.Patch.Parts

/-!
# What becomes of an operation in a script
-/

namespace StacCatalog.Patch

open List Outcome Operation

variable {op : Operation} {ops : List Operation} {s : Script} {key pointer : String} {value : Json}

/-! ### Lists with each element once -/

section Firsts

variable {α : Type} [BEq α] [LawfulBEq α]

theorem eraseDups_concat (l : List α) (a : α) :
    (l ++ [a]).eraseDups = if a ∈ l then l.eraseDups else l.eraseDups ++ [a] := by
  rw [eraseDups_append, removeAll]
  by_cases h : a ∈ l <;> simp [h, eraseDups_cons]

theorem eraseDups_filter (p : α → Bool) (l : List α) :
    (l.filter p).eraseDups = l.eraseDups.filter p := by
  induction l using reverseRecOn with
  | nil => rfl
  | append_singleton l a ih =>
    rw [filter_append, eraseDups_concat]
    by_cases hp : p a = true
    · rw [filter_cons_of_pos hp, filter_nil, eraseDups_concat, ih]
      by_cases ha : a ∈ l <;> simp [ha, hp]
    · rw [filter_cons_of_neg hp, filter_nil, append_nil, ih]
      by_cases ha : a ∈ l <;> simp [ha, hp]

theorem nodup_eraseDups (l : List α) : l.eraseDups.Nodup := by
  induction l using reverseRecOn with
  | nil => exact nodup_nil
  | append_singleton l a ih =>
    rw [eraseDups_concat]
    split
    · exact ih
    · rename_i ha
      exact nodup_append.mpr ⟨ih, nodup_singleton a, by grind [mem_eraseDups]⟩

theorem eraseDups_eq_self_iff {l : List α} : l.eraseDups = l ↔ l.Nodup := by
  constructor
  · intro h
    rw [← h]
    exact nodup_eraseDups l
  · intro h
    induction l using reverseRecOn with
    | nil => rfl
    | append_singleton l a ih =>
      obtain ⟨hl, -, hdisjoint⟩ := nodup_append.mp h
      have ha : a ∉ l := fun ha => hdisjoint a ha a mem_cons_self rfl
      rw [eraseDups_concat, if_neg ha, ih hl]

end Firsts

theorem commandSet_eq_eraseDups (commands : List Command) :
    commandSet commands = (commands.map Command.render).eraseDups := by
  induction commands using reverseRecOn with
  | nil => rfl
  | append_singleton commands c ih =>
    rw [map_append, map_singleton, eraseDups_concat, ← ih, commandSet, foldl_concat, ← commandSet,
      ih, CommandSet.add]
    by_cases h : c.render ∈ commands.map Command.render <;> simp [h, -mem_map, mem_eraseDups]

/-! ### Effects -/

/-- Whether a text is that of a command that does something. Checks, and nothing else, begin with a
condition that something is not so. -/
def effective (text : String) : Bool :=
  !(["if (!".toList, "if ((".toList].contains (text.toList.take 5))

theorem effective_append {text : String} (h : 5 ≤ text.toList.length) (rest : String) :
    effective (text ++ rest) = effective text := by
  unfold effective
  rw [String.toList_append, take_append_of_le_length h]

theorem effective_definition (rest : String) : effective ("def " ++ rest) = true := by
  have hchars : "def ".toList = ['d', 'e', 'f', ' '] := by decide
  unfold effective
  rw [String.toList_append]
  simp [hchars]

/-- The text of a command tells whether it is a check, so no check is written in the place of an
effect. -/
theorem effective_render (c : Command) : effective c.render = !c.isCheck := by
  cases c with
  | needNest p | needKey p | needPosition p | expect p value =>
    unfold Command.render
    simp only [String.append_assoc]
    exact effective_append (by decide) _
  | take p =>
    unfold Command.render
    dsimp only
    split
    all_goals
      simp only [String.append_assoc]
      exact effective_definition _
  | put p inserted supply =>
    unfold Command.render
    dsimp only
    split
    · -- The condition itself begins after the fourth character.
      simp only [String.append_assoc]
      rw [← String.append_assoc]
      exact effective_append (by decide) _
    · simp only [String.append_assoc]
      exact effective_append (by decide) _

def effects (commands : List Command) : List String :=
  (commands.filter fun c => !c.isCheck).map Command.render

@[simp] theorem effects_append (commands more : List Command) :
    effects (commands ++ more) = effects commands ++ effects more := by
  simp [effects]

theorem effects_flatten (commands : List (List Command)) :
    effects commands.flatten = commands.flatMap effects := by
  induction commands with
  | nil => rfl
  | cons first rest ih => rw [flatten_cons, effects_append, ih, flatMap_cons]

theorem filter_effective_commandSet (commands : List Command) :
    (commandSet commands).filter effective = (effects commands).eraseDups := by
  have hfilter : (commands.map Command.render).filter effective = effects commands := by
    rw [filter_map, effects]
    congr 2
    exact funext effective_render
  rw [commandSet_eq_eraseDups, ← eraseDups_filter, hfilter]

/-! ### Operations -/

namespace Operation

/-- Whether all paths of an operation can be read. -/
def Readable (op : Operation) : Prop :=
  ∀ path ∈ op.paths, (Path.ofPointer path).isOk = true

instance (op : Operation) : Decidable op.Readable :=
  inferInstanceAs (Decidable (∀ path ∈ op.paths, (Path.ofPointer path).isOk = true))

/-- Whether an operation does anything but check its path. -/
def acts : Operation → Bool
  | .other .. => false
  | _ => true

/-- An operation without the value that it sets. -/
def bare : Operation → Operation
  | .add path _ => .add path .null
  | .replace path _ => .replace path .null
  | op => op

def effects (op : Operation) : List String :=
  match op.commands with
  | .ok commands => Patch.effects commands
  | .error _ => []

theorem effects_of_commands {own : List Command} (h : op.commands = .ok own) :
    op.effects = Patch.effects own := by
  unfold effects
  rw [h]

/-- The value that an operation sets has no part in its commands. -/
theorem effects_bare (op : Operation) : op.bare.effects = op.effects := by
  have hcommands : op.bare.commands = op.commands := by
    cases op <;> unfold commands <;> rfl
  unfold effects
  rw [hcommands]

theorem path_mem_paths (op : Operation) : op.path ∈ op.paths := by
  cases op <;> simp [paths, path]

theorem exists_path (h : op.Readable) {path : String} (hpath : path ∈ op.paths) :
    ∃ p, Path.ofPointer path = .ok p := by
  have hok := h path hpath
  cases hread : Path.ofPointer path with
  | ok p => exact ⟨p, rfl⟩
  | error fault => simp [hread, Except.isOk, Except.toBool] at hok

/-- An operation whose paths can be read has commands, and unless it is of another name, it does
something. -/
theorem exists_commands (h : op.Readable) :
    ∃ commands, op.commands = .ok commands ∧ (op.acts = true → Patch.effects commands ≠ []) := by
  obtain ⟨p, hp⟩ := exists_path h op.path_mem_paths
  unfold commands
  rw [hp, ok_bind]
  cases op with
  | move source path | copy source path =>
    obtain ⟨s, hs⟩ : ∃ s, Path.ofPointer source = .ok s := exists_path h (by simp [paths])
    simp only [hs, ok_bind, pure_eq_ok, Except.ok.injEq, exists_eq_left']
    simp [Patch.effects, Command.isCheck]
  | _ =>
    simp only [pure_eq_ok, Except.ok.injEq, exists_eq_left']
    simp [Patch.effects, Command.isCheck, acts]

theorem exists_param (h : op.Readable) : ∃ entries, op.param = .ok entries := by
  obtain ⟨p, hp⟩ := exists_path h op.path_mem_paths
  cases op with
  | add path value | replace path value | test path value =>
    have hread : Path.ofPointer path = .ok p := hp
    exact ⟨[(p.paramKey, value)], by simp only [param, hread, ok_bind, pure_eq_ok]⟩
  | _ => exact ⟨[], rfl⟩

end Operation

theorem effects_of_mapM {commands : List (List Command)}
    (h : ops.mapM Operation.commands = .ok commands) :
    effects commands.flatten = ops.flatMap Operation.effects := by
  have heach :
      ∀ (op : Operation) (own : List Command), op.commands = .ok own → op.effects = effects own :=
    fun _ _ => effects_of_commands
  rw [effects_flatten, flatMap_def, flatMap_def, map_eq_of_forall₂ heach (mapM_eq_ok.mp h)]

theorem nodup_bare_of_nodup_effects (hops : ∀ op ∈ ops, op.Readable)
    (h : (ops.flatMap Operation.effects).Nodup) :
    ((ops.filter Operation.acts).map Operation.bare).Nodup := by
  induction ops with
  | nil => exact nodup_nil
  | cons op ops ih =>
    rw [flatMap_cons, nodup_append] at h
    obtain ⟨-, hrest, hdisjoint⟩ := h
    have ih := ih (fun op hop => hops op (mem_cons_of_mem _ hop)) hrest
    by_cases hacts : op.acts = true
    · rw [filter_cons_of_pos hacts, map_cons]
      refine ih.cons ?_
      intro htwin
      obtain ⟨twin, htwin, hbare⟩ := mem_map.mp htwin
      -- The twin has the effects of the operation, and there is at least one of them.
      have hsame : twin.effects = op.effects := by
        rw [← effects_bare twin, hbare, effects_bare]
      obtain ⟨commands, hcommands, hsome⟩ := exists_commands (hops op mem_cons_self)
      have heffects : op.effects ≠ [] := by
        rw [effects_of_commands hcommands]
        exact hsome hacts
      obtain ⟨text, htext⟩ := exists_mem_of_ne_nil _ heffects
      have htwinText : text ∈ twin.effects := by
        rwa [hsame]
      have hlater := mem_flatMap.mpr ⟨twin, mem_of_mem_filter htwin, htwinText⟩
      exact hdisjoint text htext text hlater rfl
    · rwa [filter_cons_of_neg hacts]

theorem script_eq_ok_iff :
    script ops = .ok s ↔
      ops ≠ [] ∧
      ∃ commands params, ops.mapM Operation.commands = .ok commands ∧
        ops.mapM Operation.param = .ok params ∧
        s = ⟨String.join (commandSet commands.flatten), Fields.insertAll [] params.flatten⟩ := by
  simp only [script, bind_eq_ok]
  cases ops with
  | nil => simp
  | cons op ops => grind [pure_eq_ok]

/-- **Effects.** A script is made of the commands of its operations, and what it does is what they
do, each text once, where it first occurs. So it does all that they do exactly if no text occurs
twice. It does not if two operations differ in nothing but the values they set. Without operations
there is no script. -/
theorem script_effects_eq_eraseDups {ops : List Operation} (hops : ∀ op ∈ ops, op.Readable) :
    (ops = [] → script ops = .error (.unset "source")) ∧
      (ops ≠ [] → ∃ commands s, ops.mapM Operation.commands = .ok commands ∧ script ops = .ok s ∧
        s.source = String.join (commandSet commands.flatten) ∧
        (commandSet commands.flatten).filter effective = (ops.flatMap Operation.effects).eraseDups ∧
        ((commandSet commands.flatten).filter effective = ops.flatMap Operation.effects ↔
          (ops.flatMap Operation.effects).Nodup) ∧
        ((commandSet commands.flatten).filter effective = ops.flatMap Operation.effects →
          ((ops.filter Operation.acts).map Operation.bare).Nodup)) := by
  obtain ⟨commands, hcommands⟩ : ∃ commands, ops.mapM Operation.commands = .ok commands :=
    Outcome.exists_mapM fun op hop => (exists_commands (hops op hop)).imp fun _ => And.left
  obtain ⟨params, hparams⟩ : ∃ params, ops.mapM Operation.param = .ok params :=
    Outcome.exists_mapM fun op hop => exists_param (hops op hop)
  have hset : (commandSet commands.flatten).filter effective =
      (ops.flatMap Operation.effects).eraseDups := by
    rw [filter_effective_commandSet, effects_of_mapM hcommands]
  refine ⟨?_, fun hne => ?_⟩
  · rintro rfl
    rfl
  · refine ⟨commands, _, hcommands, script_eq_ok_iff.mpr ⟨hne, commands, params, hcommands,
      hparams, rfl⟩, rfl, hset, ?_, ?_⟩
    · rw [hset, eraseDups_eq_self_iff]
    · rw [hset, eraseDups_eq_self_iff]
      exact nodup_bare_of_nodup_effects hops

/-- A member that is added, removed and added again: the second addition is lost. -/
theorem script_effects_eq_eraseDups_again :
    ∃ commands s, script [.add "/a" (.int 1), .remove "/a", .add "/a" (.int 1)] = .ok s ∧
      s.source = String.join (commandSet commands) ∧
      (commandSet commands).filter effective =
        ["ctx._source.a = params.a;", "def _a = ctx._source.remove('a');"] ∧
      (commandSet commands).filter effective ≠
        [Operation.add "/a" (.int 1), .remove "/a", .add "/a" (.int 1)].flatMap
          Operation.effects := by
  have hops : ∀ op ∈ [Operation.add "/a" (.int 1), .remove "/a", .add "/a" (.int 1)],
      op.Readable := by decide +kernel
  obtain ⟨commands, s, -, hs, hsource, heffects, hall, -⟩ :=
      (script_effects_eq_eraseDups hops).2 (by simp)
  refine ⟨commands.flatten, s, hs, hsource, ?_, ?_⟩
  · rw [heffects]
    decide +kernel
  · rw [Ne, hall]
    decide +kernel

/-! ### Parameters -/

namespace Operation

/-- Whether an operation brings a value along. -/
def brings : Operation → Bool
  | .add .. | .replace .. | .test .. => true
  | _ => false

/-- The parameter that an operation hands over. -/
def handed (op : Operation) : Option (String × Json) :=
  match op.brings, Path.ofPointer op.path with
  | true, .ok p => some (p.paramKey, op.value)
  | _, _ => none

/-- The value that an operation hands over under a name. -/
def handedAs (key : String) (op : Operation) : Option Json :=
  op.handed.bind fun entry => if entry.1 = key then some entry.2 else none

theorem handed_eq_some_iff :
    op.handed = some (key, value) ↔
      op.brings = true ∧
      ∃ p, Path.ofPointer op.path = .ok p ∧ p.paramKey = key ∧ op.value = value := by
  unfold handed
  split
  · rename_i p hbrings hp
    simp [hbrings, hp]
  · rename_i hno
    simp only [reduceCtorEq, false_iff, not_and, not_exists]
    intro hbrings p hp
    exact absurd hp (hno p hbrings)

theorem handedAs_eq_some_iff : op.handedAs key = some value ↔ op.handed = some (key, value) := by
  unfold handedAs
  cases op.handed with
  | none => simp
  | some entry =>
    obtain ⟨name, given⟩ := entry
    by_cases h : name = key <;> simp [h]

theorem param_eq_ok {entries : Fields} (h : op.param = .ok entries) :
    op.handed.toList = entries := by
  cases op with
  | add path value | replace path value | test path value =>
    obtain ⟨p, hp, h⟩ := bind_eq_ok.mp h
    cases h
    simp [handed, brings, Operation.path, hp, Operation.value]
  | _ =>
    cases h
    rfl

end Operation

theorem lookup_handed (ops : List Operation) (key : String) :
    (ops.flatMap fun op => op.handed.toList).reverse.lookup key =
      ops.reverse.findSome? (Operation.handedAs key) := by
  induction ops with
  | nil => rfl
  | cons op ops ih =>
    rw [flatMap_cons, reverse_append, lookup_append, ih, reverse_cons, findSome?_append]
    congr 1
    cases hhanded : op.handed with
    | none => simp [Operation.handedAs, hhanded]
    | some entry =>
      obtain ⟨name, value⟩ := entry
      by_cases h : name = key
      · simp [Operation.handedAs, hhanded, h]
      · simp [Operation.handedAs, hhanded, h, Keyed.lookup_cons, Ne.symm h]

/-- The value of a parameter is the one that the last operation hands over under its name. -/
theorem get?_params (h : script ops = .ok s) (key : String) :
    Fields.get? s.params key = ops.reverse.findSome? (Operation.handedAs key) := by
  obtain ⟨-, commands, params, -, hparams, rfl⟩ := script_eq_ok_iff.mp h
  have heach :
      ∀ (op : Operation) (entries : Fields), op.param = .ok entries → op.handed.toList = entries :=
    fun _ _ => param_eq_ok
  have hentries : params.flatten = ops.flatMap fun op => op.handed.toList := by
    rw [flatMap_def, map_eq_of_forall₂ (g := id) heach (mapM_eq_ok.mp hparams), map_id]
  rw [Fields.get?_insertAll, hentries, lookup_handed]
  simp [Fields.get?]

/-! ### Names of parameters -/

/-- Whether a character divides a path into its parts. -/
def divides (c : Char) : Bool :=
  "/.:[]".toList.contains c

def letters (pointer : String) : String :=
  String.ofList (pointer.toList.filter (!divides ·))

theorem filter_points (cs : List Char) :
    (cs.map fun c => if c = '/' then '.' else c).filter (!divides ·) = cs.filter (!divides ·) := by
  induction cs with
  | nil => rfl
  | cons c cs ih =>
    by_cases hc : c = '/'
    · subst hc
      simpa [divides] using ih
    · rw [map_cons, if_neg hc, filter_cons, ih, filter_cons]

theorem filter_dropWhile_slash (cs : List Char) :
    (cs.dropWhile (· == '/')).filter (!divides ·) = cs.filter (!divides ·) := by
  induction cs with
  | nil => rfl
  | cons c cs ih =>
    by_cases hc : c = '/'
    · subst hc
      simpa [divides] using ih
    · rw [dropWhile_cons_of_neg (by simpa using hc)]

theorem path_of_member {p : Path} (h : Path.ofPointer pointer = .ok p) (hp : p.position = none) :
    p.path.toList =
      (pointer.toList.dropWhile (· == '/')).map fun c => if c = '/' then '.' else c := by
  obtain ⟨-, hparts, -⟩ := Path.ofPointer_eq_ok_iff.mp h
  rw [hp, partsAt] at hparts
  rw [(Prod.mk.inj hparts).1, joined_keysOf]

theorem paramKey_of_member {p : Path} (h : Path.ofPointer pointer = .ok p)
    (hp : p.position = none) : p.paramKey = letters pointer := by
  have hfilter : p.path.toList.filter (!divides ·) = pointer.toList.filter (!divides ·) := by
    rw [path_of_member h hp, filter_points, filter_dropWhile_slash]
  exact congrArg String.ofList hfilter

/-- **Parameters.** A parameter has the value that the last operation hands over under its name. So
every operation is run with its own value exactly if operations that share a name share the value;
and operations on members share a name if the letters of their paths are the same. -/
theorem script_params_eq_last {ops : List Operation} {s : Script} (h : script ops = .ok s) :
    (∀ key, Fields.get? s.params key = ops.reverse.findSome? (Operation.handedAs key)) ∧
    ((∀ op ∈ ops, op.brings = true →
          ∀ p, Path.ofPointer op.path = .ok p → Fields.get? s.params p.paramKey = some op.value) ↔
      ∀ op ∈ ops, ∀ other ∈ ops, op.brings = true → other.brings = true →
        ∀ p q, Path.ofPointer op.path = .ok p → Path.ofPointer other.path = .ok q →
          p.paramKey = q.paramKey → op.value = other.value) ∧
    ∀ op ∈ ops, ∀ other ∈ ops, ∀ p q, Path.ofPointer op.path = .ok p →
      Path.ofPointer other.path = .ok q → p.position = none → q.position = none →
      (p.paramKey = q.paramKey ↔ letters op.path = letters other.path) := by
  refine ⟨get?_params h, ⟨?_, ?_⟩, ?_⟩
  · intro hown op hop other hother hbrings hbrings' p q hp hq hkey
    have hvalue := hown op hop hbrings p hp
    rw [hkey, hown other hother hbrings' q hq] at hvalue
    exact (Option.some.inj hvalue).symm
  · intro hshare op hop hbrings p hp
    have hhanded : op.handedAs p.paramKey = some op.value :=
      handedAs_eq_some_iff.mpr (handed_eq_some_iff.mpr ⟨hbrings, p, hp, rfl, rfl⟩)
    -- Some operation hands over a value under this name; the last that does shares it.
    obtain ⟨value, hlast⟩ : ∃ value, ops.reverse.findSome? (Operation.handedAs p.paramKey) =
        some value := by
      rw [← Option.isSome_iff_exists, findSome?_isSome_iff]
      exact ⟨op, mem_reverse.mpr hop, by rw [hhanded]; rfl⟩
    obtain ⟨other, hother, hvalue⟩ := exists_of_findSome?_eq_some hlast
    obtain ⟨hbrings', q, hq, hkey, rfl⟩ :=
      handed_eq_some_iff.mp (handedAs_eq_some_iff.mp hvalue)
    rw [get?_params h, hlast, hshare op hop other (mem_reverse.mp hother) hbrings hbrings' p q hp
      hq hkey.symm]
  · intro op _ other _ p q hp hq hmember hmember'
    rw [paramKey_of_member hp hmember, paramKey_of_member hq hmember']

/-- A test of a member and its replacement share a parameter, and the test is run with the new
value. -/
theorem script_params_eq_last_test_replace :
    ∃ s, script [.test "/a" (.int 1), .replace "/a" (.int 2)] = .ok s ∧
      Fields.get? s.params "a" = some (.int 2) ∧
      ¬ ∀ op ∈ [Operation.test "/a" (.int 1), .replace "/a" (.int 2)], op.brings = true →
        ∀ p, Path.ofPointer op.path = .ok p → Fields.get? s.params p.paramKey = some op.value := by
  have hscript : (script [.test "/a" (.int 1), .replace "/a" (.int 2)]).isOk =
      true := by decide +kernel
  cases h : script [.test "/a" (.int 1), .replace "/a" (.int 2)] with
  | error fault => simp [h, Except.isOk, Except.toBool] at hscript
  | ok s =>
    obtain ⟨hlast, hown, -⟩ := script_params_eq_last h
    refine ⟨s, rfl, ?_, ?_⟩
    · rw [hlast]
      decide +kernel
    · rw [hown]
      intro hshare
      have hremove : (Operation.remove "/a").Readable := by decide +kernel
      obtain ⟨p, hp⟩ : ∃ p, Path.ofPointer "/a" = .ok p := exists_path hremove mem_cons_self
      have hvalue := hshare _ mem_cons_self _ (mem_cons_of_mem _ mem_cons_self) rfl rfl
          p p hp hp rfl
      cases hvalue

end StacCatalog.Patch
