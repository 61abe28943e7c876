import StacCatalog.Proofs.Patch.Quotes

/-!
# How far the values of a patch reach into the text of its script
-/

namespace StacCatalog

open List Outcome

variable {op : Patch.Operation} {text path : String} {own : List Patch.Command} {p : Patch.Path}
    {value : Json} {fault : Fault}

namespace Outcome

variable {α β γ : Type}

theorem mapM_map_result (f : α → Outcome β) (g : β → γ) (as : List α) :
    as.mapM (fun a => (f a).map g) = (as.mapM f).map (map g) := by
  induction as with
  | nil => rfl
  | cons a as ih =>
    rw [mapM_cons, mapM_cons, ih]
    cases f a with
    | error fault => rfl
    | ok b =>
      cases as.mapM f with
      | error fault => rfl
      | ok bs => rfl

end Outcome

namespace Patch

/-! ### Operations without their values -/

namespace Operation

/-- An operation without its value. -/
def outline : Operation → Operation
  | .add path _ => .add path .null
  | .replace path _ => .replace path .null
  | .test path _ => .test path .null
  | .other name path _ => .other name path .null
  | op => op

/-- The text of the value that an operation shows in its script. -/
def shown : Operation → Option String
  | .test _ value => some (value.write .spaced)
  | _ => none

/-- A test with another value to expect; any other operation as it is. -/
def expecting (value : Json) : Operation → Operation
  | .test path _ => .test path value
  | op => op

theorem outline_expecting (value : Json) (op : Operation) :
    (op.expecting value).outline = op.outline := by
  cases op <;> rfl

theorem shown_eq_some (h : op.shown = some text) :
    ∃ path value, op = .test path value ∧ value.write .spaced = text := by
  cases op with
  | test path value => exact ⟨path, value, rfl, Option.some.inj h⟩
  | _ => cases h

theorem shown_eq_none_of_outline {other : Operation} (h : op.outline = other.outline)
    (hop : op.shown = none) : other.shown = none := by
  cases other with
  | test path value =>
    cases op with
    | test path' value' => cases hop
    | _ => cases h
  | _ => rfl

end Operation

/-! ### Commands without values -/

namespace Command

/-- A command without the value that it shows. -/
def outline : Command → Command
  | .expect p _ => .expect p .null
  | c => c

end Command

theorem eq_of_mem_checks {c : Command} {p : Path} {present fromPath : Bool}
    (h : c ∈ p.checks present fromPath) :
    c = .needNest p ∨ c = .needKey p ∨ c = .needPosition p := by
  unfold Path.checks at h
  grind

theorem outline_checks (p : Path) (present fromPath : Bool) :
    (p.checks present fromPath).map Command.outline = p.checks present fromPath := by
  unfold Path.checks
  rw [map_append, map_append]
  congr 1
  · congr 1
    all_goals split <;> rfl
  · split <;> rfl

namespace Operation

/-- Without its value an operation has the same commands, but for the value that one of them shows.
-/
theorem commands_outline (op : Operation) :
    op.outline.commands = op.commands.map (map Command.outline) := by
  unfold commands
  have hpath : op.outline.path = op.path := by cases op <;> rfl
  rw [hpath]
  cases Path.ofPointer op.path with
  | error fault => rfl
  | ok p =>
    cases op with
    | move source path | copy source path =>
      simp only [outline, ok_bind]
      cases Path.ofPointer source with
      | error fault => rfl
      | ok s => simp [Except.map, outline_checks, Command.outline]
    | _ => simp [outline, Except.map, outline_checks, Command.outline]

theorem param_outline (op : Operation) :
    op.outline.param = op.param.map (map fun entry => (entry.1, Json.null)) := by
  cases op with
  | add path value | replace path value | test path value =>
    simp only [outline, param]
    cases Path.ofPointer path <;> rfl
  | _ => rfl

def texts (op : Operation) : Outcome (List String) :=
  op.commands.map (map Command.render)

theorem texts_outline (h : op.shown = none) : op.outline.texts = op.texts := by
  cases op with
  | test path value => cases h
  | _ => rfl

theorem texts_congr {other : Operation} (h : op.outline = other.outline)
    (hshown : op.shown = other.shown) : op.texts = other.texts := by
  cases hop : op.shown with
  | none => rw [← texts_outline hop, h, texts_outline (shown_eq_none_of_outline h hop)]
  | some text =>
    obtain ⟨path, value, rfl, hvalue⟩ := shown_eq_some hop
    obtain ⟨path', value', rfl, hvalue'⟩ := shown_eq_some (hshown ▸ hop)
    obtain ⟨rfl, -⟩ := Operation.test.inj h
    have hrender (p) : (Command.expect p value).render = (Command.expect p value').render := by
      unfold Command.render
      dsimp only
      rw [hvalue, hvalue']
    unfold texts commands
    dsimp only [Operation.path]
    cases Path.ofPointer path with
    | error fault => rfl
    | ok p => simp [Except.map, hrender]

theorem eq_test_of_expect_mem (hown : op.commands = .ok own) (h : Command.expect p value ∈ own) :
    ∃ path, op = .test path value ∧ Path.ofPointer path = .ok p := by
  have hchecks (q : Path) (a b) : Command.expect p value ∉ q.checks a b :=
      fun h => by simpa using eq_of_mem_checks h
  unfold commands at hown
  obtain ⟨q, hq, hown⟩ := bind_eq_ok.mp hown
  cases op with
  | move source path | copy source path =>
    obtain ⟨s, -, hown⟩ := bind_eq_ok.mp hown
    cases hown
    simp [hchecks] at h
  | test path expected =>
    cases hown
    obtain ⟨rfl, rfl⟩ : p = q ∧ value = expected := by simpa [hchecks] using h
    exact ⟨path, rfl, hq⟩
  | _ =>
    cases hown
    simp [hchecks] at h

theorem exists_expect_mem (hown : (Operation.test path value).commands = .ok own) :
    ∃ p, Command.expect p value ∈ own := by
  unfold commands at hown
  obtain ⟨p, -, hown⟩ := bind_eq_ok.mp hown
  cases hown
  exact ⟨p, mem_append_right _ mem_cons_self⟩

end Operation

/-! ### The message of a test -/

def unquoted (text : String) : String :=
  String.ofList (outside false text.toList)

namespace Command

def beforeShown (p : Path) : String :=
  "if (ctx._source." ++ p.scriptPath ++ " != params." ++ p.paramKey ++ ")" ++
    "\x7bDebug.explain('Test failed `" ++ p.path ++ "` | "

def afterShown (p : Path) : String :=
  " != ' + ctx._source." ++ p.scriptPath ++ ");\x7d"

theorem render_expect (p : Path) (value : Json) :
    (expect p value).render = beforeShown p ++ (value.write .spaced ++ afterShown p) := by
  unfold render beforeShown afterShown
  simp only [String.append_assoc]

theorem opens_beforeShown (hplain : plainPath path = true) (h : Path.ofPointer path = .ok p) :
    opens (beforeShown p).toList = true := by
  have hsearch := searchable_of_plainPath hplain h
  have hscript := hsearch.opens_scriptChars (path_of_ofPointer h).1
  have hkey : '\'' ∉ p.paramKey.toList := by
    intro hmem
    rw [Path.paramKey, String.toList_ofList] at hmem
    exact hsearch.unquoted (mem_of_mem_filter hmem)
  have hif : opens "if (ctx._source.".toList = false := by decide
  have hparams : opens " != params.".toList = false := by decide
  have hclose : opens ")".toList = false := by decide
  have hquote : opens "\x7bDebug.explain('Test failed `".toList = true := by decide
  have hbar : opens "` | ".toList = false := by decide
  unfold beforeShown
  simp only [String.toList_append, opens_append, hif, hscript, hparams, opens_of_notMem hkey,
    hclose, hquote, opens_of_notMem hsearch.unquoted, hbar]
  rfl

/-- Outside of quotes a test reads as if it expected nothing exactly if the value has no quote. -/
theorem unquoted_expect_iff (hplain : plainPath path = true) (h : Path.ofPointer path = .ok p)
    (value : Json) :
    unquoted (expect p value).render = unquoted (expect p .null).render ↔
      '\'' ∉ (value.write .spaced).toList := by
  have hnull : '\'' ∉ (Json.null.write .spaced).toList := by decide
  unfold unquoted
  rw [render_expect, render_expect, String.ofList_inj]
  simp only [String.toList_append]
  constructor
  · -- Whatever the quotes enclose, their number is seen.
    intro hsame
    have hcount := congrArg (count '\'') hsame
    simp only [count_outside, count_append, count_eq_zero.mpr hnull] at hcount
    exact count_eq_zero.mp (by omega)
  · intro hvalue
    simp only [outside_append, opens_beforeShown hplain h, Bool.false_xor, opens_of_notMem hvalue,
      opens_of_notMem hnull, outside_quoted_of_notMem hvalue, outside_quoted_of_notMem hnull]

end Command

/-- Outside of quotes the commands of a plain operation read the same without its value. -/
theorem unquoted_outline {c : Command} (hplain : op.plain = true) (hown : op.commands = .ok own)
    (hc : c ∈ own) : unquoted c.outline.render = unquoted c.render := by
  cases c with
  | expect p value =>
    obtain ⟨path, rfl, hp⟩ := Operation.eq_test_of_expect_mem hown hc
    obtain ⟨hpaths, hvalue⟩ := Bool.and_eq_true_iff.mp hplain
    have hpath : plainPath path = true := by simpa [Operation.paths, Operation.path] using hpaths
    refine ((Command.unquoted_expect_iff hpath hp value).mpr fun hmem => ?_).symm
    have hchar := all_eq_true.mp hvalue _ hmem
    revert hchar
    decide
  | _ => rfl

/-! ### Scripts of the same outline -/

section Outline

variable {ops ops' : List Operation} {s s' : Script}

theorem mapM_commands_outline (ops : List Operation) :
    (ops.map Operation.outline).mapM Operation.commands =
      (ops.mapM Operation.commands).map (map (map Command.outline)) := by
  rw [mapM_map, ← mapM_map_result]
  exact congrArg (fun f => ops.mapM f) (funext Operation.commands_outline)

theorem mapM_param_outline (ops : List Operation) :
    (ops.map Operation.outline).mapM Operation.param =
      (ops.mapM Operation.param).map (map (map fun entry => (entry.1, Json.null))) := by
  rw [mapM_map, ← mapM_map_result]
  exact congrArg (fun f => ops.mapM f) (funext Operation.param_outline)

/-- A patch fails as it does without its values. -/
theorem script_outline_eq_error :
    script (ops.map Operation.outline) = .error fault ↔ script ops = .error fault := by
  unfold script
  rw [mapM_commands_outline, mapM_param_outline]
  cases ops.mapM Operation.commands with
  | error fault => rfl
  | ok commands =>
    cases ops.mapM Operation.param with
    | error fault => rfl
    | ok params => cases ops <;> simp [Except.map]

theorem script_eq_error_of_outline (h : ops.map Operation.outline = ops'.map Operation.outline) :
    script ops = .error fault ↔ script ops' = .error fault := by
  rw [← script_outline_eq_error, h, script_outline_eq_error]

theorem commands_of_outline (h : ops.map Operation.outline = ops'.map Operation.outline)
    {commands commands' : List (List Command)} (hc : ops.mapM Operation.commands = .ok commands)
    (hc' : ops'.mapM Operation.commands = .ok commands') :
    commands.flatten.map Command.outline = commands'.flatten.map Command.outline := by
  have hboth := mapM_commands_outline ops
  rw [h, mapM_commands_outline, hc, hc'] at hboth
  rw [map_flatten, map_flatten, Except.ok.inj hboth]

theorem names_params_of_outline (h : ops.map Operation.outline = ops'.map Operation.outline)
    (hs : script ops = .ok s) (hs' : script ops' = .ok s') :
    Fields.names s.params = Fields.names s'.params := by
  obtain ⟨-, commands, params, -, hparams, rfl⟩ := script_eq_ok_iff.mp hs
  obtain ⟨-, commands', params', -, hparams', rfl⟩ := script_eq_ok_iff.mp hs'
  have hboth := mapM_param_outline ops
  rw [h, mapM_param_outline, hparams, hparams'] at hboth
  have hnames := congrArg (fun entries => entries.flatten.map Prod.fst) (Except.ok.inj hboth)
  simp only [map_flatten, map_map, Function.comp_def] at hnames
  refine Fields.names_insertAll rfl ?_
  unfold Fields.names
  rw [map_flatten, map_flatten]
  exact hnames.symm

theorem source_eq_join_texts (hs : script ops = .ok s) :
    ∃ texts,
      ops.mapM Operation.texts = .ok texts ∧ s.source = String.join texts.flatten.eraseDups := by
  obtain ⟨-, commands, params, hcommands, -, rfl⟩ := script_eq_ok_iff.mp hs
  refine ⟨commands.map (map Command.render), ?_, ?_⟩
  · show ops.mapM (fun op => op.commands.map (map Command.render)) = _
    rw [mapM_map_result, hcommands]
    rfl
  · rw [commandSet_eq_eraseDups, map_flatten]

theorem source_of_shown (h : ops.map Operation.outline = ops'.map Operation.outline)
    (hshown : ops.map Operation.shown = ops'.map Operation.shown) (hs : script ops = .ok s)
    (hs' : script ops' = .ok s') : s.source = s'.source := by
  have htexts : ops.mapM Operation.texts = ops'.mapM Operation.texts := by
    clear hs hs'
    induction ops generalizing ops' with
    | nil =>
      cases ops' with
      | nil => rfl
      | cons op' ops' => cases h
    | cons op ops ih =>
      cases ops' with
      | nil => cases h
      | cons op' ops' =>
        obtain ⟨hop, hops⟩ := cons.inj h
        obtain ⟨hopShown, hopsShown⟩ := cons.inj hshown
        rw [mapM_cons, mapM_cons, Operation.texts_congr hop hopShown, ih hops hopsShown]
  obtain ⟨texts, hjoin, hsource⟩ := source_eq_join_texts hs
  obtain ⟨texts', hjoin', hsource'⟩ := source_eq_join_texts hs'
  rw [htexts, hjoin'] at hjoin
  rw [hsource, hsource', Except.ok.inj hjoin]

theorem shown_infix_source (hs : script ops = .ok s) (hop : op ∈ ops)
    (hshown : op.shown = some text) : text.toList <:+: s.source.toList := by
  obtain ⟨path, value, rfl, rfl⟩ := Operation.shown_eq_some hshown
  obtain ⟨-, commands, params, hcommands, -, rfl⟩ := script_eq_ok_iff.mp hs
  obtain ⟨own, hown, hcommand⟩ := exists_right_of_forall₂ (mapM_eq_ok.mp hcommands) hop
  obtain ⟨p, hp⟩ := Operation.exists_expect_mem hcommand
  have hmem : (Command.expect p value).render ∈ commandSet commands.flatten := by
    rw [commandSet_eq_eraseDups, mem_eraseDups]
    exact mem_map_of_mem (mem_flatten.mpr ⟨own, hown, hp⟩)
  have hcommandText : (Command.expect p value).render.toList <:+:
      (String.join (commandSet commands.flatten)).toList := by
    rw [String.toList_join, flatMap_def]
    exact infix_of_mem_flatten (mem_map_of_mem hmem)
  refine List.IsInfix.trans ?_ hcommandText
  rw [Command.render_expect, String.toList_append, String.toList_append]
  exact ⟨_, _, append_assoc _ _ _⟩

theorem eraseDups_map_eraseDups {α β : Type} [DecidableEq α] [DecidableEq β] (f : α → β)
    (l : List α) : (l.eraseDups.map f).eraseDups = (l.map f).eraseDups := by
  induction l using reverseRecOn with
  | nil => rfl
  | append_singleton l a ih =>
    rw [eraseDups_concat, map_append, map_singleton, eraseDups_concat, ← ih]
    by_cases ha : a ∈ l
    · have hfa : f a ∈ l.map f := mem_map_of_mem ha
      rw [if_pos ha, if_pos hfa]
    · rw [if_neg ha, map_append, map_singleton, eraseDups_concat]
      simp only [mem_map, mem_eraseDups]

theorem unquoted_commandSet (hplain : ∀ op ∈ ops, op.plain = true) {commands : List (List Command)}
    (hc : ops.mapM Operation.commands = .ok commands) :
    ((commandSet commands.flatten).map unquoted).eraseDups =
      ((commands.flatten.map Command.outline).map fun c => unquoted c.render).eraseDups := by
  rw [commandSet_eq_eraseDups, eraseDups_map_eraseDups, map_map, map_map]
  refine congrArg eraseDups (map_congr_left fun c hmem => ?_)
  obtain ⟨own, hown, hc'⟩ := mem_flatten.mp hmem
  obtain ⟨op, hop, hcommands⟩ := exists_left_of_forall₂ (mapM_eq_ok.mp hc) hown
  exact (unquoted_outline (hplain op hop) hcommands hc').symm

/-- A source that is the same whatever its tests expect has no test. -/
theorem shown_eq_none_of_source_const (hs : script ops = .ok s)
    (hconst : ∀ other t, other.map Operation.outline = ops.map Operation.outline →
      script other = .ok t → t.source = s.source)
    (hop : op ∈ ops) : op.shown = none := by
  -- A test that expects a text longer than the source would make the source longer than it is.
  let long : Json := .str (String.ofList (replicate s.source.length 'x'))
  have hlong : (long.write .spaced).toList.length = s.source.length + 2 := by
    show ((Json.Style.spaced.text _).toList).length = _
    have hx : Json.Style.spaced.char 'x' = ['x'] := by decide
    simp [Json.Style.text, hx]
  cases hshown : op.shown with
  | none => rfl
  | some text =>
    have houtline : (ops.map (Operation.expecting long)).map Operation.outline =
        ops.map Operation.outline := by
      rw [map_map]
      exact map_congr_left fun op _ => Operation.outline_expecting long op
    cases ht : script (ops.map (Operation.expecting long)) with
    | error fault =>
      rw [(script_eq_error_of_outline houtline).mp ht] at hs
      cases hs
    | ok t =>
      obtain ⟨path, value, rfl, -⟩ := Operation.shown_eq_some hshown
      have hinfix : (long.write .spaced).toList <:+: t.source.toList :=
        shown_infix_source ht (mem_map_of_mem hop) rfl
      have hle := hinfix.length_le
      rw [hconst _ _ houtline ht, hlong, String.length_toList] at hle
      omega

theorem source_of_shown_eq_none (h : ops.map Operation.outline = ops'.map Operation.outline)
    (hnone : ∀ op ∈ ops', op.shown = none) (hs : script ops = .ok s) (hs' : script ops' = .ok s') :
    s.source = s'.source := by
  refine source_of_shown h ?_ hs hs'
  have hnone' : ∀ op ∈ ops, op.shown = none := by
    intro op hop
    obtain ⟨op', hop', houtline⟩ :=
        mem_map.mp (h ▸ mem_map_of_mem hop : op.outline ∈ ops'.map Operation.outline)
    exact Operation.shown_eq_none_of_outline houtline (hnone op' hop')
  have hlength : ops.length = ops'.length := by simpa using congrArg length h
  rw [map_congr_left hnone, map_congr_left hnone', map_const', map_const', hlength]

/-- **Values and programs.** Patches that differ in their values only fail alike, and their scripts
name the same parameters. A value gets into the source by a test that shows it, and in no other way:
the source stays the same if the tests show the same texts, and it is the same for all values
exactly if there is no test. What a test shows stands in the source as it is, so the message that
encloses it holds only if it has no quote; if all operations are plain, then outside of quotes
nothing changes. -/
theorem script_source_of_same_outline {ops ops' : List Operation}
    (h : ops.map Operation.outline = ops'.map Operation.outline) :
    (∀ fault, script ops = .error fault ↔ script ops' = .error fault) ∧
    ∀ s s', script ops = .ok s → script ops' = .ok s' →
      Fields.names s.params = Fields.names s'.params ∧
      (ops.map Operation.shown = ops'.map Operation.shown → s.source = s'.source) ∧
      ((∀ other t, other.map Operation.outline = ops.map Operation.outline → script other = .ok t →
            t.source = s.source) ↔ ∀ op ∈ ops, op.shown = none) ∧
      (∀ op ∈ ops, ∀ text, op.shown = some text → text.toList <:+: s.source.toList) ∧
      (∀ path value p, Operation.test path value ∈ ops → plainPath path = true →
        Path.ofPointer path = .ok p →
        (unquoted (Command.expect p value).render = unquoted (Command.expect p .null).render ↔
          '\'' ∉ (value.write .spaced).toList)) ∧
      ((∀ op ∈ ops ++ ops', op.plain = true) →
        ∃ commands commands', ops.mapM Operation.commands = .ok commands ∧
          s.source = String.join (commandSet commands.flatten) ∧
          ops'.mapM Operation.commands = .ok commands' ∧
          s'.source = String.join (commandSet commands'.flatten) ∧
          ((commandSet commands.flatten).map unquoted).eraseDups =
            ((commandSet commands'.flatten).map unquoted).eraseDups) := by
  refine ⟨fun fault => script_eq_error_of_outline h, fun s s' hs hs' =>
    ⟨names_params_of_outline h hs hs', fun hshown => source_of_shown h hshown hs hs',
    ⟨?_, ?_⟩, ?_, ?_, ?_⟩⟩
  · exact fun hconst op hop => shown_eq_none_of_source_const hs hconst hop
  · exact fun hnone other t houtline ht => source_of_shown_eq_none houtline hnone ht hs
  · exact fun op hop text hshown => shown_infix_source hs hop hshown
  · exact fun path value p _ hplain hp => Command.unquoted_expect_iff hplain hp value
  · intro hplain
    obtain ⟨-, commands, params, hcommands, -, rfl⟩ := script_eq_ok_iff.mp hs
    obtain ⟨-, commands', params', hcommands', -, rfl⟩ := script_eq_ok_iff.mp hs'
    refine ⟨commands, commands', hcommands, rfl, hcommands', rfl, ?_⟩
    rw [unquoted_commandSet (fun op hop => hplain op (List.mem_append_left _ hop)) hcommands,
      unquoted_commandSet (fun op hop => hplain op (List.mem_append_right _ hop)) hcommands',
      commands_of_outline h hcommands hcommands']

/-- A text that ends the message of a test, and with it the test, and goes on with a command of its
own. -/
def breakout : String :=
  "');\x7dctx._source.remove('b');if (false)\x7bDebug.explain('"

/-- Two patches that test one member for one value or another; the second script removes another
member. -/
theorem script_source_of_same_outline_breakout :
    ∃ s s', script [.test "/a" (.int 1)] = .ok s ∧ script [.test "/a" (.str breakout)] = .ok s' ∧
      Fields.names s.params = Fields.names s'.params ∧
      s.source =
        "if (!ctx._source.containsKey('a'))\x7bDebug.explain('a  does not exist in ');\x7d" ++
        "if (ctx._source.a != params.a)\x7bDebug.explain('Test failed `a` | 1 != ' + " ++
        "ctx._source.a);\x7d" ∧
      s'.source =
        "if (!ctx._source.containsKey('a'))\x7bDebug.explain('a  does not exist in ');\x7d" ++
        "if (ctx._source.a != params.a)\x7bDebug.explain('Test failed `a` | \"');\x7d" ++
        "ctx._source.remove('b');if (false)\x7bDebug.explain('\" != ' + ctx._source.a);\x7d" ∧
      ∃ p, Path.ofPointer "/a" = .ok p ∧
        unquoted (Command.expect p (.int 1)).render = unquoted (Command.expect p .null).render ∧
        unquoted (Command.expect p (.str breakout)).render ≠
          unquoted (Command.expect p .null).render := by
  have hs : script [.test "/a" (.int 1)] = .ok ⟨
      "if (!ctx._source.containsKey('a'))\x7bDebug.explain('a  does not exist in ');\x7d" ++
      "if (ctx._source.a != params.a)\x7bDebug.explain('Test failed `a` | 1 != ' + " ++
      "ctx._source.a);\x7d",
      [("a", .int 1)]⟩ := by
    decide +kernel
  have hs' : script [.test "/a" (.str breakout)] = .ok ⟨
      "if (!ctx._source.containsKey('a'))\x7bDebug.explain('a  does not exist in ');\x7d" ++
      "if (ctx._source.a != params.a)\x7bDebug.explain('Test failed `a` | \"');\x7d" ++
      "ctx._source.remove('b');if (false)\x7bDebug.explain('\" != ' + ctx._source.a);\x7d",
      [("a", .str breakout)]⟩ := by
    decide +kernel
  have hsame : [Operation.test "/a" (.int 1)].map Operation.outline =
      [Operation.test "/a" (.str breakout)].map Operation.outline := rfl
  obtain ⟨hnames, -, -, -, hint, -⟩ := (script_source_of_same_outline hsame).2 _ _ hs hs'
  obtain ⟨-, -, -, -, hbreakout, -⟩ := (script_source_of_same_outline hsame.symm).2 _ _ hs' hs
  have hplain : plainPath "/a" = true := by decide
  obtain ⟨p, hp⟩ := Outcome.exists_of_isOk (show (Path.ofPointer "/a").isOk = true by decide)
  refine ⟨_, _, hs, hs', hnames, rfl, rfl, p, hp, ?_, ?_⟩
  · exact (hint _ _ p List.mem_cons_self hplain hp).mpr (by decide)
  · rw [ne_eq, hbreakout _ _ p List.mem_cons_self hplain hp]
    decide

end Outline

end Patch

end StacCatalog
