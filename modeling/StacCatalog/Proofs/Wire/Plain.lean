import StacCatalog.Database.Call

/-!
# Requests as they are sent, and what they say once their spelling is taken away
-/

namespace StacCatalog

open List

variable {value : Json} {t : Search}

/-- A request as it is sent: its name and its keywords. -/
structure Sent where
  name : String
  args : Fields
  deriving DecidableEq

/-- A call in the words of a backend. -/
def Call.sent (n : Naming) (backend : Backend) (c : Call) : Sent :=
  ⟨c.name, c.args n backend⟩

/-! ### The plain form -/

namespace Sent

/-- The parts of a request that are keywords for one client and members of the body for another. -/
def parts : List String :=
  ["query", "search_after", "sort", "script"]

/-- The condition of a clause, however it counts. -/
def condition : Json → Json
  | .obj [("filter", c)] => c
  | .obj [("query", c)] => c
  | v => v

/-- The conditions of a search, which all have to hold. -/
def conjunction : Json → Json
  | .obj [("clauses", .arr clauses)] => .arr (clauses.map condition)
  | v => v

/-- A part of a request, if it says anything. -/
def part? : String × Json → Option (String × Json)
  | (key, value) =>
    if value.isNull then none else some (key, if key = "query" then conjunction value else value)

@[simp] theorem part?_null (key : String) : part? (key, .null) = none := rfl

/-- The body of a request with all its parts: those among the keywords, those in the body, and the
rest of the body. -/
def wholeBody (args : Fields) : Fields :=
  let inside := ((Fields.getD args "body").fields?).getD []
  let given := parts.map fun key => (key, Fields.getD (args ++ inside) key)
  given.filterMap part? ++ inside.filter fun entry => !parts.contains entry.1

/-- The keywords of a request of some name, without the spelling. -/
def plainArgs (name : String) (args : Fields) : Fields :=
  if name = "index" then args.map fun (key, value) =>
    (if key = "document" then "body" else key, value)
  -- When a deletion becomes visible is no part of what is deleted.
  else if name = "delete" then args.erase "refresh"
  -- What the fields of a new index are is said by its template.
  else if name = "indices.create" then
    args.map fun (key, value) =>
      (key, if key = "body" then .single "aliases" (value.field "aliases") else value)
  else if ["search", "count", "update"].contains name then
    (args.filter fun entry => !("body" :: parts).contains entry.1) ++
      [("body", .obj (wholeBody args))]
  else args

def plain (x : Sent) : Sent :=
  ⟨x.name, plainArgs x.name x.args⟩

end Sent

/-! ### Searches -/

namespace Search

/-- Two searches with the same conditions, however they count. -/
def Alike (s t : Search) : Prop :=
  s.clauses.map Clause.condition = t.clauses.map Clause.condition

theorem Alike.refl (s : Search) : s.Alike s := rfl

/-- A condition may be added as a filter to one search and as a query to the other. -/
theorem Alike.add {s : Search} (h : s.Alike t) (c : Condition) (r r' : Role) :
    Alike ⟨s.clauses ++ [⟨r, c⟩]⟩ ⟨t.clauses ++ [⟨r', c⟩]⟩ := by
  unfold Alike at h ⊢
  rw [map_append, map_append, h]
  rfl

end Search

/-! ### Pages -/

namespace Page

/-- Whether both backends say the same of where a page begins. -/
def clear (p : Page) : Bool :=
  p.after.isNull || p.after.truthy

/-- What a page asks for that begins at a place. -/
def said (p : Page) (after : Json) : Fields :=
  let parts : Fields := [("query", p.query), ("search_after", after), ("sort", p.sort)]
  [("index", .str p.indices), ("ignore_unavailable", p.ignoreUnavailable), ("size", p.size),
   ("body", .obj (parts.filterMap Sent.part?))]

end Page

/-! ### Calls -/

namespace Call

/-- The first backend says by one call what the second says by the other. -/
def Alike (c d : Call) : Prop :=
  ∀ n, (c.sent n .elasticsearch).plain = (d.sent n .opensearch).plain

/-- The calls by which both backends say the same. -/
def shared : Call → Bool
  | .getMapping _ strict => !strict
  | .findItems p => p.clear
  | _ => true

end Call

end StacCatalog
