import StacCatalog.Proofs.Patch.Accessors
import StacCatalog.Proofs.Patch.Values

/-!
# The statements of a script, and the variables that they declare
-/

namespace StacCatalog.Patch

open List Outcome Command

variable {supply : Supply} {op : Operation} {own : List Command} {cs : List Char} {c : Char}

/-! ### Statements -/

def isStop (c : Char) : Bool :=
  ";\x7b\x7d".toList.contains c

/-- The statements of a text that begins inside of quotes or outside of them. -/
def statements (quoted : Bool) : List Char → List (List Char)
  | [] => [[]]
  | c :: rest =>
    if !quoted && isStop c then [] :: statements false rest
    else (statements (quoted ^^ decide (c = '\'')) rest).modifyHead (c :: ·)

/-- The name that a statement declares: it stands between `def` and the equals sign. -/
def declaration? (statement : List Char) : Option String :=
  (statement.dropPrefix? "def ".toList).map fun rest => String.ofList
    (rest.takeWhile (· != '=')).dropLast

def declared (cs : List Char) : List String :=
  (statements false cs).filterMap declaration?

example : declared "if (a)\x7bexplain('def b = 1;');\x7ddef c = a.remove('b');".toList = ["c"] := by
  decide

/-- A text in which no statement ends, from inside or outside of quotes to inside or outside of
them. -/
def Unbroken (before after : Bool) (cs : List Char) : Prop :=
  (outside before cs).all (!isStop ·) = true ∧ (before ^^ opens cs) = after

instance (before after : Bool) (cs : List Char) : Decidable (Unbroken before after cs) :=
  inferInstanceAs (Decidable (_ ∧ _))

theorem mem_of_mem_outside {quoted : Bool} (h : c ∈ outside quoted cs) : c ∈ cs := by
  induction cs generalizing quoted with
  | nil => cases h
  | cons d cs ih =>
    rw [outside] at h
    split at h
    · exact (mem_cons.mp h).elim (fun hc => hc ▸ mem_cons_self) fun hc => mem_cons_of_mem _ (ih hc)
    · split at h
      · exact mem_cons_of_mem _ (ih h)
      · exact (mem_cons.mp h).elim (fun hc => hc ▸ mem_cons_self) fun hc =>
          mem_cons_of_mem _ (ih hc)

namespace Unbroken

variable {a b c : Bool} {xs ys : List Char}

theorem append (hxs : Unbroken a b xs) (hys : Unbroken b c ys) : Unbroken a c (xs ++ ys) := by
  obtain ⟨hxs, rfl⟩ := hxs
  obtain ⟨hys, rfl⟩ := hys
  refine ⟨?_, ?_⟩
  · rw [outside_append, all_append, hxs, hys]
    rfl
  · rw [opens_append, Bool.xor_assoc]

theorem of_closed (hstop : ∀ c ∈ xs, isStop c = false) (hopens : opens xs = false) :
    Unbroken a a xs := by
  refine ⟨all_eq_true.mpr fun c hc => ?_, ?_⟩
  · rw [hstop c (mem_of_mem_outside hc)]
    rfl
  · rw [hopens, Bool.xor_false]

theorem quoted (h : '\'' ∉ xs) : Unbroken true true xs := by
  refine ⟨?_, ?_⟩
  · rw [outside_quoted_of_notMem h]
    rfl
  · rw [opens_of_notMem h]
    rfl

theorem statements_append (h : Unbroken a b xs) (ys : List Char) :
    statements a (xs ++ ys) = (statements b ys).modifyHead (xs ++ ·) := by
  obtain ⟨hxs, rfl⟩ := h
  induction xs generalizing a with
  | nil =>
    have hid : (([] : List Char) ++ ·) = id := rfl
    rw [hid, modifyHead_id]
    simp [opens]
  | cons d xs ih =>
    have hstop : (!a && isStop d) = false := by
      cases a with
      | true => rfl
      | false =>
        have hmem : d ∈ outside false (d :: xs) := by
          rw [outside]
          split <;> simp
        simpa using all_eq_true.mp hxs d hmem
    have hrest : (outside (a ^^ decide (d = '\'')) xs).all (!isStop ·) = true := by
      rw [outside] at hxs
      by_cases hd : d = '\''
      · rw [if_pos hd, all_cons, Bool.and_eq_true] at hxs
        simpa [hd] using hxs.2
      · rw [if_neg hd] at hxs
        cases a with
        | true => simpa [hd] using hxs
        | false =>
          rw [if_neg Bool.false_ne_true, all_cons, Bool.and_eq_true] at hxs
          simpa [hd] using hxs.2
    rw [cons_append, statements, if_neg (by simp [hstop]), ih hrest,
      modifyHead_modifyHead, opens_cons, ← Bool.xor_assoc]
    rfl

end Unbroken

theorem declared_nil : declared [] = [] := by
  decide

theorem declaration?_cons (hc : c ≠ 'd') (rest : List Char) : declaration? (c :: rest) = none := by
  have hdrop : (c :: rest).dropPrefix? "def ".toList = none := by
    rw [← Option.not_isSome_iff_eq_none, Option.isSome_iff_exists]
    rintro ⟨more, hmore⟩
    obtain ⟨prefixed, happend, hsame⟩ := dropPrefix?_eq_some_iff.mp hmore
    have hdef : "def ".toList = 'd' :: ['e', 'f', ' '] := by decide
    rw [beq_iff_eq] at hsame
    rw [hsame, hdef] at happend
    exact hc (cons.inj happend).1
  rw [declaration?, hdrop, Option.map_none]

theorem exists_statements (quoted : Bool) (cs : List Char) :
    ∃ first rest, statements quoted cs = first :: rest := by
  cases cs with
  | nil => exact ⟨[], [], rfl⟩
  | cons c cs =>
    rw [statements]
    split
    · exact ⟨[], _, rfl⟩
    · obtain ⟨first, rest, h⟩ := exists_statements (quoted ^^ decide (c = '\'')) cs
      exact ⟨c :: first, rest, by rw [h]; rfl⟩

theorem declaration?_definition {name rest : List Char} (h : '=' ∉ name) :
    declaration? ("def ".toList ++ (name ++ (" = ".toList ++ rest))) =
      some (String.ofList name) := by
  have hname : '=' ∉ name ++ [' '] := by simp [h]
  have hshape : name ++ (" = ".toList ++ rest) = (name ++ [' ']) ++ '=' :: ' ' :: rest := by
    have hequals : " = ".toList = [' ', '=', ' '] := by decide
    simp [hequals]
  unfold declaration?
  rw [dropPrefix?_append, Option.map_some, hshape, (takeWhile_append_char hname (by simp)).1,
    dropLast_concat]

/-! ### Texts without stops -/

/-- The characters that neither end a statement or a quotation nor divide a declaration. -/
def isCalm (c : Char) : Bool :=
  !";\x7b\x7d'=".toList.contains c

theorem contains_eq_false {p : Char → Bool} (hall : cs.all (!p ·) = true) (h : p c = true) :
    cs.contains c = false := by
  rw [contains_eq_mem, decide_eq_false_iff_not]
  intro hmem
  simpa [h] using all_eq_true.mp hall c hmem

theorem isCalm_of_plainChar (h : plainChar c = true) : isCalm c = true := by
  rw [isCalm, contains_eq_false (by decide) h]
  rfl

theorem isStop_of_isCalm (h : isCalm c = true) : isStop c = false :=
  contains_eq_false (by decide) h

theorem notMem_of_all_isCalm (h : cs.all isCalm = true) (hc : isCalm c = false) : c ∉ cs := by
  intro hmem
  rw [all_eq_true.mp h c hmem] at hc
  cases hc

theorem Unbroken.of_calm {quoted : Bool} (h : cs.all isCalm = true) : Unbroken quoted quoted cs :=
  .of_closed (fun c hc => isStop_of_isCalm (all_eq_true.mp h c hc))
    (opens_of_notMem (notMem_of_all_isCalm h (by decide)))

namespace Searchable

variable {cs out part : List Char}

theorem sublist (h : Searchable cs) (hpart : part.Sublist cs) : Searchable part :=
  ⟨fun hc => h.unquoted (hpart.subset hc), fun hsub => h.brackets (hsub.trans hpart),
    fun c hc => h.letters c (hpart.subset hc)⟩

theorem unbroken (h : Searchable cs) (hcalm : cs.all isCalm = true)
    (hout : scriptChars cs = .ok out) : Unbroken false false out := by
  refine .of_closed (fun c hc => ?_) (h.opens_scriptChars hout)
  rcases h.mem_scriptChars hout hc with hown | hindex
  · exact isStop_of_isCalm (all_eq_true.mp hcalm c hown)
  · have hall : "[']".toList.all (fun c => !isStop c) = true := by decide
    simpa using all_eq_true.mp hall c hindex

end Searchable

/-! ### Paths without stops -/

/-- A path whose texts can stand in a statement. Those that are written into quotes have no quotes
themselves. -/
structure Tame (p : Path) : Prop where
  path : p.path.toList.all isCalm = true
  nest : p.nest.toList.all isCalm = true
  key : p.key.toList.all isCalm = true
  index : p.index.display.toList.all isCalm = true
  name : p.variableName.toList.all isCalm = true
  scriptPath : Unbroken false false p.scriptPath.toList
  scriptNest : Unbroken false false p.scriptNest.toList
  scriptLocation : Unbroken false false p.scriptLocation.toList

theorem splitLast_parts (cs : List Char) :
    (splitLast cs).1.Sublist cs ∧ ((splitLast cs).2.1 = [] ∨ (splitLast cs).2.1 = ['.']) ∧
    (splitLast cs).2.2.Sublist cs := by
  by_cases h : '.' ∈ cs
  · obtain ⟨front, after, rfl, hno⟩ := exists_last h
    rw [splitLast_append hno]
    exact ⟨sublist_append_left _ _, .inr rfl, (sublist_cons_self _ _).trans
      (sublist_append_right _ _)⟩
  · rw [splitLast_of_notMem h]
    exact ⟨nil_sublist _, .inl rfl, .refl _⟩

theorem all_isCalm_toString (n : Int) : (toString n).toList.all isCalm = true := by
  rw [all_eq_true]
  intro c hc
  rcases mem_toString_int hc with hdigit | rfl
  · exact isCalm_of_plainChar (by simp [plainChar, Char.isAlphanum, hdigit])
  · decide

theorem all_isCalm_map (h : cs.all isCalm = true) (p : Char → Prop) [DecidablePred p] :
    (cs.map fun c => if p c then '_' else c).all isCalm = true := by
  rw [all_map, all_eq_true]
  intro c hc
  show isCalm (if p c then '_' else c) = true
  split
  · decide
  · exact all_eq_true.mp h c hc

theorem all_isCalm_index {p : Path} (h : p.location.toList.all isCalm = true) :
    p.index.display.toList.all isCalm = true := by
  have hsource : "ctx._source.".toList.all isCalm = true := by decide
  have hsize : ".size() - ".toList.all isCalm = true := by decide
  unfold Path.index
  cases p.position with
  | none =>
    show Json.null.display.toList.all isCalm = true
    decide
  | some n =>
    dsimp only
    split
    · show ("ctx._source." ++ p.location ++ ".size() - " ++ toString (-n)).toList.all isCalm = true
      simp only [String.toList_append, all_append, hsource, h, hsize, all_isCalm_toString,
        Bool.and_self]
    · exact all_isCalm_toString n

section Plain

variable {pointer : String} {p : Path} (hp : Path.ofPointer pointer = .ok p)

include hp

theorem path_parts :
    p.nest.toList.Sublist p.path.toList ∧ (p.joint.toList = [] ∨ p.joint.toList = ['.']) ∧
    p.key.toList.Sublist p.path.toList := by
  obtain ⟨-, hparts, -⟩ := Path.ofPointer_eq_ok_iff.mp hp
  cases hposition : p.position <;> rw [hposition, partsAt, Prod.mk.injEq] at hparts
  case none =>
    have hlast := splitLast_parts (joined (keysOf pointer))
    rwa [← hparts.2, ← hparts.1] at hlast
  case some n =>
    have harray : (splitLast (joined (keysOf pointer))).1.Sublist p.path.toList := by
      rw [hparts.1, append_assoc]
      exact sublist_append_left _ _
    obtain ⟨hnest, hjoint, hkey⟩ := splitLast_parts (splitLast (joined (keysOf pointer))).1
    rw [← hparts.2] at hnest hjoint hkey
    exact ⟨hnest.trans harray, hjoint, hkey.trans harray⟩

variable (hplain : plainPath pointer = true)

include hplain

theorem all_isCalm_path : p.path.toList.all isCalm = true := by
  have hwhole : (joined (keysOf pointer)).all isCalm = true :=
    all_eq_true.mpr fun c hc => isCalm_of_plainChar (plainChar_of_mem_joined hplain c hc)
  obtain ⟨-, hparts, -⟩ := Path.ofPointer_eq_ok_iff.mp hp
  cases hposition : p.position <;> rw [hposition, partsAt, Prod.mk.injEq] at hparts
  case none => rwa [hparts.1]
  case some n =>
    have harray : (splitLast (joined (keysOf pointer))).1.all isCalm = true :=
      all_eq_true.mpr fun c hc => all_eq_true.mp hwhole c (( splitLast_prefix _).subset hc)
    have hopening : isCalm '[' = true := by decide
    have hclosing : [']'].all isCalm = true := by decide
    rw [hparts.1, all_append, all_append, all_cons, harray, hopening, all_isCalm_toString, hclosing]
    rfl

theorem tame_of_plainPath : Tame p := by
  have hpath := all_isCalm_path hp hplain
  have hsearch := searchable_of_plainPath hplain hp
  obtain ⟨hnestSub, hjoint, hkeySub⟩ := path_parts hp
  obtain ⟨-, -, hscriptPath, hscriptNest, hscriptKey⟩ := Path.ofPointer_eq_ok_iff.mp hp
  have hpart : ∀ {part : List Char}, part.Sublist p.path.toList → part.all isCalm = true :=
      fun hpart =>
    all_eq_true.mpr fun c hc => all_eq_true.mp hpath c (hpart.subset hc)
  have hpoint : p.joint.toList.all isCalm = true := by
    rcases hjoint with hjoint | hjoint <;> rw [hjoint] <;> decide
  have hlocation : p.location.toList.all isCalm = true := by
    rw [Path.location, String.toList_append, String.toList_append, all_append, all_append,
      hpart hnestSub, hpoint, hpart hkeySub]
    rfl
  have hnest : Unbroken false false p.scriptNest.toList := by
    unfold nestChars at hscriptNest
    split at hscriptNest
    · rw [← Except.ok.inj hscriptNest]
      decide
    · cases hout : scriptChars p.nest.toList with
      | error fault =>
        rw [hout] at hscriptNest
        cases hscriptNest
      | ok out =>
        rw [hout] at hscriptNest
        rw [← Except.ok.inj hscriptNest]
        have hdot : Unbroken false false ['.'] := by decide
        exact hdot.append ((hsearch.sublist hnestSub).unbroken (hpart hnestSub) hout)
  have hkey := (hsearch.sublist hkeySub).unbroken (hpart hkeySub) hscriptKey
  -- All other texts are put together from parts of the path.
  refine ⟨hpath, hpart hnestSub, hpart hkeySub, all_isCalm_index hlocation, ?_,
    hsearch.unbroken hpath hscriptPath, hnest, ?_⟩
  · have hline : "_".toList.all isCalm = true := by decide
    unfold Path.variableName Path.underscored Path.withoutColons
    split
    · simp only [String.toList_append, String.toList_ofList, all_append,
        all_isCalm_map hlocation, hline, all_isCalm_index hlocation, Bool.and_self]
    · simp only [String.toList_append, String.toList_ofList, all_append, all_isCalm_map
        (hpart hnestSub), hline, all_isCalm_map (hpart hkeySub), Bool.and_self]
  · unfold Path.scriptLocation
    split
    · rw [String.toList_append]
      exact hnest.append hkey
    · rw [String.toList_append, String.toList_append]
      exact (hnest.append (.of_calm hpoint)).append hkey

end Plain

/-! ### Commands -/

def Command.paths : Command → List Path
  | .needNest p | .needKey p | .needPosition p | .take p | .expect p _ => [p]
  | .put p _ .param => [p]
  | .put p _ (.taken source) | .put p _ (.stored source) => [p, source]

def Command.shown : Command → Option String
  | .expect _ value => some (value.write .spaced)
  | _ => none

def Command.declares : Command → List String
  | .take p => [p.variableName]
  | _ => []

/-- Where a reader stands: at the beginning of a statement, or inside of one whose declaration has
been read, if it is one, inside or outside of quotes. -/
inductive Place where
  | start
  | within (quoted : Bool)
  deriving DecidableEq

/-- What a text declares to a reader who stands somewhere. -/
def declaredFrom : Place → List Char → List String
  | .start, cs => declared cs
  | .within quoted, cs => (statements quoted cs).tail.filterMap declaration?

/-- A text that declares some names and takes a reader from one place to another. -/
def Reads (a : Place) (text : String) (names : List String) (b : Place) : Prop :=
  ∀ rest, declaredFrom a (text.toList ++ rest) = names ++ declaredFrom b rest

/-- Where a character takes a reader. The letter with which a declaration begins leaves it open. -/
def Place.next? : Place → Char → Option Place
  | .start, c =>
    if isStop c then some .start else if c = 'd' then none else some (.within (decide (c = '\'')))
  | .within false, c => if isStop c then some .start else some (.within (decide (c = '\'')))
  | .within true, c => some (.within (decide (c ≠ '\'')))

namespace Reads

variable {a b c : Place} {text more : String} {names : List String}

theorem append (h : Reads a text names b) (h' : Reads b more [] c) :
    Reads a (text ++ more) names c := by
  intro rest
  rw [String.toList_append, append_assoc, h, h', nil_append]

theorem declaredFrom_cons {d : Char} (h : a.next? d = some b) (rest : List Char) :
    declaredFrom a (d :: rest) = declaredFrom b rest := by
  cases a with
  | start =>
    rw [Place.next?] at h
    split at h
    · rename_i hstop
      cases h
      have hempty : declaration? [] = none := by decide
      simp [declaredFrom, declared, statements, hstop, hempty]
    · rename_i hstop
      split at h
      · cases h
      · rename_i hd
        cases h
        obtain ⟨first, others, hfirst⟩ := exists_statements (decide (d = '\'')) rest
        have hnone : declaration? (d :: first) = none := declaration?_cons hd first
        simp [declaredFrom, declared, statements, hstop, hfirst, hnone]
  | within quoted =>
    cases quoted with
    | true =>
      cases h
      simp [declaredFrom, statements]
    | false =>
      rw [Place.next?] at h
      split at h
      · rename_i hstop
        cases h
        simp [declaredFrom, declared, statements, hstop]
      · rename_i hstop
        cases h
        simp [declaredFrom, statements, hstop]

theorem literal (h : text.toList.foldlM Place.next? a = some b) : Reads a text [] b := by
  intro rest
  generalize text.toList = xs at h
  induction xs generalizing a with
  | nil =>
    cases h
    rfl
  | cons d xs ih =>
    obtain ⟨next, hnext, h⟩ := Option.bind_eq_some_iff.mp h
    exact (declaredFrom_cons hnext _).trans (ih h)

theorem unbroken {p q : Bool} (h : Unbroken p q text.toList) :
    Reads (.within p) text [] (.within q) := by
  intro rest
  simp [declaredFrom, h.statements_append]

theorem definition {name : String} (h : name.toList.all isCalm = true) :
    Reads .start ("def " ++ name ++ " = ") [name] (.within false) := by
  intro rest
  obtain ⟨first, others, hfirst⟩ := exists_statements false rest
  have hwhole : Unbroken false false ("def ".toList ++ (name.toList ++ " = ".toList)) :=
    .append (b := false) (by decide) (.append (.of_calm h) (by decide))
  have hname := @declaration?_definition _ first (notMem_of_all_isCalm h
      (show isCalm '=' = false by decide))
  rw [String.ofList_toList] at hname
  rw [String.toList_append, String.toList_append, append_assoc "def ".toList,
    declaredFrom, declared, hwhole.statements_append, hfirst, modifyHead_cons, append_assoc,
    append_assoc, filterMap_cons_some hname, declaredFrom, hfirst]
  rfl

theorem calm (h : text.toList.all isCalm = true) : Reads (.within false) text [] (.within false) :=
  unbroken (.of_calm h)

theorem inside (h : text.toList.all isCalm = true) : Reads (.within true) text [] (.within true) :=
  unbroken (.of_calm h)

theorem fixed (h : Reads a text names b) (hmore : more.toList.foldlM Place.next? b = some c) :
    Reads a (text ++ more) names c :=
  h.append (.literal hmore)

theorem explain (h : Reads (.within true) text [] (.within true)) :
    Reads (.within false) (explain text) [] .start :=
  ((Reads.literal (by decide)).append h).fixed (by decide)

end Reads

namespace Tame

variable {p source : Path}

variable (h : Tame p)

include h

theorem all_isCalm_paramKey : p.paramKey.toList.all isCalm = true := by
  rw [Path.paramKey, String.toList_ofList, all_eq_true]
  intro c hc
  exact all_eq_true.mp h.path c (mem_of_mem_filter hc)

theorem supplied
    (hsupply : ∀ source, supply = .taken source ∨ supply = .stored source → Tame source) :
    Unbroken false false (supplied p supply).toList := by
  cases supply with
  | param =>
    unfold supplied
    rw [String.toList_append]
    exact .append (by decide) (.of_calm h.all_isCalm_paramKey)
  | taken source => exact .of_calm (hsupply source (.inl rfl)).name
  | stored source =>
    unfold supplied
    rw [String.toList_append]
    exact .append (by decide) (hsupply source (.inr rfl)).scriptPath

theorem reads_needNest : Reads .start (needNest p).render [] .start :=
  ((Reads.literal (by decide)).append (.inside h.nest)).fixed (by decide)
    |>.append (.explain ((Reads.inside h.nest).fixed (by decide)))

theorem reads_needKey : Reads .start (needKey p).render [] .start :=
  (Reads.literal (by decide)).append (.unbroken h.scriptNest)
    |>.fixed (by decide) |>.append (.inside h.key) |>.fixed (by decide)
    |>.append (.explain (((Reads.inside h.key).fixed (by decide)).append (.inside h.nest)))

theorem reads_place {a : Place}
    (ha : "ctx._source".toList.foldlM Place.next? a = some (.within false)) :
    Reads a ("ctx._source" ++ p.scriptLocation) [] (.within false) :=
  .append (.literal ha) (.unbroken h.scriptLocation)

theorem reads_needPosition : Reads .start (needPosition p).render [] .start := by
  have hplace : Reads (.within false) _ [] _ := h.reads_place (by decide)
  exact (Reads.literal (by decide)).append hplace |>.fixed (by decide) |>.append hplace
    |>.fixed (by decide) |>.append (.calm h.index) |>.fixed (by decide) |>.append hplace
    |>.fixed (by decide) |>.append hplace |>.fixed (by decide) |>.append (.inside h.index)
    |>.fixed (by decide) |>.append (.explain ((Reads.inside h.path).fixed (by decide)))

theorem reads_take : Reads .start (take p).render [p.variableName] .start := by
  have hname : Reads .start ("def " ++ p.variableName ++ " = ctx._source") [p.variableName]
      (.within false) := by
    have hsource : " = ctx._source" = " = " ++ "ctx._source" := by decide
    rw [hsource, ← String.append_assoc]
    exact (Reads.definition h.name).fixed (by decide)
  unfold render
  dsimp only
  split
  · exact hname.append (.unbroken h.scriptLocation) |>.fixed (by decide) |>.append (.calm h.index)
      |>.fixed (by decide)
  · exact hname.append (.unbroken h.scriptNest) |>.fixed (by decide) |>.append (.inside h.key)
      |>.fixed (by decide)

theorem reads_put (inserted : Bool)
    (hsupply : ∀ source, supply = .taken source ∨ supply = .stored source → Tame source) :
    Reads .start (put p inserted supply).render [] .start := by
  have hvalue := Reads.unbroken (h.supplied hsupply)
  have hpath := Reads.unbroken h.scriptPath
  have hmethod : Reads (.within false) (if inserted then "add" else "set") [] (.within false) := by
    cases inserted <;> exact .literal (by decide)
  unfold render
  dsimp only
  split
  · exact (Reads.literal (by decide)).append (h.reads_place (a := .within false) (by decide))
      |>.fixed (by decide) |>.append (h.reads_place (a := .start) (by decide)) |>.fixed (by decide)
      |>.append hmethod |>.fixed (by decide) |>.append (.calm h.index) |>.fixed (by decide)
      |>.append hvalue |>.fixed (by decide) |>.append hpath |>.fixed (by decide) |>.append hvalue
      |>.fixed (by decide)
  · exact (Reads.literal (by decide)).append hpath |>.fixed (by decide) |>.append hvalue
      |>.fixed (by decide)

theorem reads_expect {value : Json} (hvalue : '\'' ∉ (value.write .spaced).toList) :
    Reads .start (expect p value).render [] .start := by
  have hpath := Reads.unbroken h.scriptPath
  exact (Reads.literal (by decide)).append hpath |>.fixed (by decide)
    |>.append (.calm h.all_isCalm_paramKey) |>.fixed (c := .within false) (by decide)
    |>.fixed (by decide) |>.append (.inside h.path) |>.fixed (by decide)
    |>.append (.unbroken (.quoted hvalue)) |>.fixed (by decide) |>.append hpath |>.fixed (by decide)

end Tame

/-- A command is made of whole statements: in front of other text it declares what it declares. -/
theorem declared_render {c : Command} (hpaths : ∀ p ∈ c.paths, Tame p)
    (hshown : ∀ text ∈ c.shown, '\'' ∉ text.toList) (rest : List Char) :
    declared (c.render.toList ++ rest) = c.declares ++ declared rest := by
  cases c with
  | needNest p => exact (hpaths p mem_cons_self).reads_needNest rest
  | needKey p => exact (hpaths p mem_cons_self).reads_needKey rest
  | needPosition p => exact (hpaths p mem_cons_self).reads_needPosition rest
  | take p => exact (hpaths p mem_cons_self).reads_take rest
  | expect p value => exact (hpaths p mem_cons_self).reads_expect (hshown _ rfl) rest
  | put p inserted supply =>
    have hp : Tame p := hpaths p (by cases supply <;> exact mem_cons_self)
    refine hp.reads_put inserted (fun source hsource => ?_) rest
    rcases hsource with rfl | rfl <;> exact hpaths source (mem_cons_of_mem _ mem_cons_self)

theorem declared_join {texts : List String}
    (h : ∀ text ∈ texts,
      ∀ rest, declared (text.toList ++ rest) = declared text.toList ++ declared rest) :
    declared (String.join texts).toList = texts.flatMap fun text => declared text.toList := by
  induction texts with
  | nil => exact declared_nil
  | cons text texts ih =>
    obtain ⟨htext, htexts⟩ := forall_mem_cons.mp h
    rw [String.join_cons, String.toList_append, htext, ih htexts, flatMap_cons]

/-! ### Operations -/

namespace Operation

variable {c : Command} {p : Path}

/-- The pointer to the value that an operation takes out. -/
def taken? : Operation → Option String
  | .remove path => some path
  | .move source _ => some source
  | _ => none

theorem paths_of_mem_checks {q : Path} {present fromPath : Bool}
    (hc : c ∈ p.checks present fromPath) (hq : q ∈ c.paths) : q = p := by
  rcases eq_of_mem_checks hc with rfl | rfl | rfl
  all_goals exact mem_singleton.mp hq

theorem exists_pointer_of_mem_paths (hown : op.commands = .ok own) (hc : c ∈ own)
    (hp : p ∈ c.paths) : ∃ pointer ∈ op.paths, Path.ofPointer pointer = .ok p := by
  unfold commands at hown
  obtain ⟨target, htarget, hown⟩ := bind_eq_ok.mp hown
  have hpath := op.path_mem_paths
  cases op with
  | move source path | copy source path =>
    obtain ⟨s, hs, hown⟩ := bind_eq_ok.mp hown
    cases hown
    have hpair : p = target ∨ p = s := by
      rcases mem_append.mp hc with hc | hc
      · rcases mem_append.mp hc with hc | hc
        · exact .inl (paths_of_mem_checks hc hp)
        · exact .inr (paths_of_mem_checks hc hp)
      · simp only [mem_cons, not_mem_nil, or_false] at hc
        rcases hc with rfl | rfl <;> simp_all [Command.paths]
    rcases hpair with rfl | rfl
    · exact ⟨path, hpath, htarget⟩
    · exact ⟨source, by simp [paths], hs⟩
  | other name path value =>
    cases hown
    exact ⟨path, hpath, paths_of_mem_checks hc hp ▸ htarget⟩
  | _ =>
    cases hown
    rcases mem_append.mp hc with hc | hc
    · exact ⟨_, hpath, paths_of_mem_checks hc hp ▸ htarget⟩
    · rw [mem_singleton.mp hc] at hp
      exact ⟨_, hpath, mem_singleton.mp hp ▸ htarget⟩

theorem take_mem_commands_iff (hown : op.commands = .ok own) :
    take p ∈ own ↔ ∃ pointer ∈ op.taken?, Path.ofPointer pointer = .ok p := by
  have hchecks (q : Path) (a b) : take p ∉ q.checks a b :=
      fun h => by simpa using eq_of_mem_checks h
  unfold commands at hown
  obtain ⟨target, htarget, hown⟩ := bind_eq_ok.mp hown
  cases op with
  | move source path | copy source path =>
    obtain ⟨s, hs, hown⟩ := bind_eq_ok.mp hown
    cases hown
    simp [hchecks, taken?, hs, eq_comm]
  | remove path =>
    have hpath : Path.ofPointer path = .ok target := htarget
    cases hown
    simp [hchecks, taken?, hpath, eq_comm]
  | _ =>
    cases hown
    simp [hchecks, taken?]

theorem shown_of_mem_commands {text : String} (hown : op.commands = .ok own) (hc : c ∈ own)
    (htext : text ∈ c.shown) : op.shown = some text := by
  cases c with
  | expect p value =>
    obtain ⟨path, rfl, -⟩ := eq_test_of_expect_mem hown hc
    exact htext
  | _ => cases htext

end Operation

/-- What a script declares, command by command. A command that stands there twice declares only
once. -/
theorem declared_source {ops : List Operation} {commands : List (List Command)}
    (hcommands : ops.mapM Operation.commands = .ok commands)
    (hplain : ∀ op ∈ ops, ∀ path ∈ op.paths, plainPath path = true)
    (hshown : ∀ op ∈ ops, ∀ text ∈ op.shown, '\'' ∉ text.toList) :
    (∀ c ∈ commands.flatten, declared c.render.toList = c.declares) ∧
    declared (String.join (commandSet commands.flatten)).toList =
      (commands.flatten.map render).eraseDups.flatMap fun text => declared text.toList := by
  have heach : ∀ c ∈ commands.flatten,
      ∀ rest, declared (c.render.toList ++ rest) = c.declares ++ declared rest := by
    intro c hc rest
    obtain ⟨own, hown, hc⟩ := mem_flatten.mp hc
    obtain ⟨op, hop, hown⟩ := exists_left_of_forall₂ (mapM_eq_ok.mp hcommands) hown
    refine declared_render (fun p hp => ?_) (fun text htext => ?_) rest
    · obtain ⟨pointer, hpointer, hread⟩ := Operation.exists_pointer_of_mem_paths hown hc hp
      exact tame_of_plainPath hread (hplain op hop pointer hpointer)
    · exact hshown op hop text (Operation.shown_of_mem_commands hown hc htext)
  have halone : ∀ c ∈ commands.flatten, declared c.render.toList = c.declares := by
    intro c hc
    have hnil := heach c hc []
    rwa [append_nil, declared_nil, append_nil] at hnil
  refine ⟨halone, ?_⟩
  rw [commandSet_eq_eraseDups]
  refine declared_join fun text htext rest => ?_
  obtain ⟨c, hc, rfl⟩ := mem_map.mp (mem_eraseDups.mp htext)
  rw [heach c hc, halone c hc]

end StacCatalog.Patch
