import StacCatalog.Settings.Refresh

/-!
# Who decides when a write becomes visible
-/

namespace StacCatalog

namespace Environment

/-- What the environment says under a name, if it is a yes or a no. -/
def answer? (env : Environment) (name : String) : Option Bool :=
  (env.get? name).bind fun s =>
    if isYes (Text.lower s) then some true else if isNo (Text.lower s) then some false else none

theorem plain_of_yes_or_no {s : String} (h : (isYes s || isNo s) = true) :
    Text.lower s = s ∧ isNo s = !isYes s ∧ s ≠ "wait_for" := by
  have hmem : s ∈ ["true", "1", "yes", "y", "false", "0", "no", "n"] := by
    simpa [isYes, isNo, or_assoc] using h
  have hall : ∀ w ∈ ["true", "1", "yes", "y", "false", "0", "no", "n"],
      Text.lower w = w ∧ isNo w = !isYes w ∧ w ≠ "wait_for" := by decide +kernel
  exact hall s hmem

/-- A default that is a yes or a no gives way to what the environment says. -/
theorem flag_eq {value : Json} (h : (isYes (defaultText value) || isNo (defaultText value)) = true)
    (env : Environment) (name : String) :
    env.flag name value = (env.answer? name).getD (isYes (defaultText value)) := by
  unfold flag answer? getD
  cases env.get? name with
  | none =>
    obtain ⟨hlower, hno, -⟩ := plain_of_yes_or_no h
    simp [hlower, hno]
  | some text =>
    simp only [Option.getD_some, Option.bind_some]
    split
    · rfl
    · split <;> rfl

end Environment

namespace Refresh

open Environment

/-- What a value asks for by itself. -/
def wish : Json → Refresh
  | .bool b => .ofBool b
  | .str s =>
    if Text.lower s ∈ ["true", "1", "yes", "y"] then .now
    else if Text.lower s = "wait_for" then .waited
    else .later
  | _ => .later

theorem wish_str (s : String) :
    wish (.str s) =
      if isYes (Text.lower s) then .now
        else if Text.lower s = "wait_for" then .waited else .later := by
  simp [wish, isYes, or_assoc]

/-- A yes or a no gets what it asks for exactly if the environment does not say the opposite. -/
theorem ofBool_flag_iff (value : Json)
    (h : (isYes (defaultText value) || isNo (defaultText value)) = true) (env : Environment)
    (name : String) :
    ofBool (env.flag name value) = ofBool (isYes (defaultText value)) ↔
      env.answer? name ≠ some !isYes (defaultText value) := by
  rw [flag_eq h]
  cases env.answer? name with
  | none => simp
  | some said => cases said <;> cases isYes (defaultText value) <;> decide

/-- **Who decides.** A truth value, and a yes or a no in lower case, get what they ask for exactly
if the environment does not say the opposite. Any other text gets it, whatever the environment says,
exactly if it is not a yes in other letters. -/
theorem read_eq_wish_iff (env : Environment) :
    (∀ b, ∃ r, read env (.bool b) = .ok r ∧
      (r = wish (.bool b) ↔ env.answer? "DATABASE_REFRESH" ≠ some !b)) ∧
    ∀ s, ∃ r, read env (.str s) = .ok r ∧
      (r = wish (.str s) ↔
        if isYes s || isNo s then env.answer? "DATABASE_REFRESH" ≠ some !isYes s
          else wish (.str s) ≠ .now) := by
  constructor
  · intro b
    have hb : isYes (defaultText (.bool b)) = b := by cases b <;> rfl
    have hiff := ofBool_flag_iff (.bool b) (by cases b <;> decide) env "DATABASE_REFRESH"
    rw [hb] at hiff
    exact ⟨_, rfl, hiff⟩
  · intro s
    rw [read]
    by_cases h : (isYes s || isNo s) = true
    · obtain ⟨hlower, -, hwait⟩ := plain_of_yes_or_no h
      have hdefault : defaultText (.str s) = s := hlower
      have hiff := ofBool_flag_iff (.str s) (by rwa [hdefault]) env "DATABASE_REFRESH"
      have hwish : wish (.str s) = ofBool (isYes s) := by simp [wish_str, hlower, hwait, ofBool]
      rw [hdefault] at hiff
      rw [if_pos h, if_pos h, hwish]
      exact ⟨_, rfl, hiff⟩
    · rw [if_neg h, if_neg h, wish_str]
      refine ⟨if Text.lower s = "wait_for" then .waited else .later, by split <;> rfl, ?_⟩
      cases isYes (Text.lower s) <;> split <;> simp

end Refresh

end StacCatalog
