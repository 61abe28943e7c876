import StacCatalog.Proofs.Paging.Items
import StacCatalog.Proofs.Wire.Engine

/-!
# Searching with both backends
-/

namespace StacCatalog

/-! ### The parts of a search -/

/-- What a search is made of. -/
inductive Search.Part where
  | ids (values : Json)
  | collections (values : Json)
  | interval (interval : Time.IntervalArg)
  | box (box : Json)
  | shape (geometry : Json)
  | comparison (operator : String) (field value : Json)
  | words (words : Json)
  | filter (filter : Json)

namespace Searching

open Program

def add (ctx : Context) (s : Search) : Search.Part → Program Search
  | .ids values => pure (s.withIds values)
  | .collections values => pure (s.withCollections values)
  | .interval interval => liftM (s.withInterval interval)
  | .box box => liftM (s.withBox box)
  | .shape geometry => liftM (s.withShape ctx.library geometry)
  | .comparison operator field value =>
    liftM (s.withComparison ctx.backend (.str operator) field value)
  | .words words => liftM (s.withWords words)
  | .filter filter => withFilter ctx s filter

def build (ctx : Context) (parts : List Search.Part) : Program Search :=
  parts.foldlM (add ctx) .empty

end Searching

namespace Search.Alike

variable {s t : Search}

variable (h : s.Alike t)

include h

theorem withInterval (interval : Time.IntervalArg) :
    Outcome.Alike Search.Alike (s.withInterval interval) (t.withInterval interval) := by
  unfold Search.withInterval
  split
  · cases Time.bounds interval with
    | ok ends => exact .ok (h.add _ _ _)
    | error fault =>
      cases fault with
      | invalid | wrongType => exact .ok h
      | _ => exact .error _
  · exact .ok h

theorem withBox (box : Json) : Outcome.Alike Search.Alike (s.withBox box) (t.withBox box) :=
  .bind_self fun _ => .bind_self fun _ => .ok (h.add _ _ _)

theorem withShape (library : Library) (geometry : Json) :
    Outcome.Alike Search.Alike (s.withShape library geometry) (t.withShape library geometry) :=
  .bind_self fun _ => .ok (h.add _ _ _)

theorem withWords (words : Json) :
    Outcome.Alike Search.Alike (s.withWords words) (t.withWords words) := by
  unfold Search.withWords
  split
  · exact .ok h
  · exact .bind_self fun _ => .ok (h.add _ _ _)

/-- An operator is a text, and its own name as a key. -/
theorem withComparison (operator : String) (field value : Json) :
    Outcome.Alike Search.Alike (s.withComparison .elasticsearch (.str operator) field value)
      (t.withComparison .opensearch (.str operator) field value) := by
  unfold Search.withComparison
  split
  · cases field with
    | str name => exact .ok (h.add _ _ _)
    | _ => exact .error _
  · refine .bind_self fun _ => ?_
    cases field with
    | str name => exact .ok (h.add _ _ _)
    | _ => exact .error _

end Search.Alike

namespace Engine

open Program Searching

variable {σ : Type} (engine : Engine σ) {n : Naming} (ctx : Context) {s t : Search}

end Engine

namespace Engine

open Program Searching

variable {σ : Type} (engine : Engine σ) {n : Naming} (ctx : Context) {s t : Search}

end Engine

end StacCatalog
