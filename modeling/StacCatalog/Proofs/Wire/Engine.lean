import StacCatalog.Database.Searching
import StacCatalog.Proofs.Json.Access
import StacCatalog.Proofs.Program.Operations
import StacCatalog.Proofs.Wire.Agree
import StacCatalog.Proofs.Wire.Plain

/-!
# Both backends in front of one database
-/

namespace StacCatalog

/-- Whether every hit in the answer of a search has a sort key. -/
def Json.Ranked (answer : Json) : Prop :=
  ∀ hits items, (answer.item "hits" >>= fun outer => outer.item "hits") = .ok hits →
    hits.elements = .ok items → ∀ hit ∈ items, ∃ key rest, hit.item "sort" =
    .ok (.arr (key :: rest))

/-- A reply as a client has it that overlooks refusals: what the refusal says is an answer. -/
def Reply.overlooked : Reply → Reply
  | .fault (.badRequest cause) => .value cause
  | reply => reply

/-- A database that answers requests by what they say. -/
structure Engine (σ : Type) where
  /-- The reply to a request, and the state that it leaves. -/
  serve : σ → Sent → Reply × σ
  /-- Every hit has a sort key. -/
  ranked : ∀ {s x answer}, x.name = "search" → (serve s x).1 = .value answer → answer.Ranked
  /-- A batch reports its errors in a list. -/
  reported : ∀ {s x answer stored errors}, x.name = "bulk" → (serve s x).1 = .value answer →
    answer.pair = .ok (stored, errors) → ∃ items, errors = .arr items
  /-- The database knows which indices it has, and creating one of them does nothing if its refusal
  is overlooked. -/
  known : ∀ s index, ∃ found,
    serve s ⟨"indices.exists", [("index", .str index)]⟩ = (.value found, s) ∧
    (found.truthy = true → ∀ body, ∃ reply answer,
      serve s ⟨"indices.create", [("index", .str index), ("body", body)]⟩ = (reply, s) ∧
        reply.overlooked = .value answer)

/-- The same operations on another backend. -/
def Context.on (backend : Backend) (ctx : Context) : Context :=
  { ctx with backend := backend }

namespace Engine

open Program Collections

variable {σ α : Type} (engine : Engine σ) {n : Naming} (ctx : Context)

/-- What a client does with a request. To be told to overlook a refusal and to be closed concern the
client alone; all else goes to the database. Only the request that follows is overlooked. -/
def receive (client : Client σ) (x : Sent) : Reply × Client σ :=
  if x.name = "options" then (.value .null, ⟨client.database, true⟩)
  else if x.name = "close" then (.value .null, .of client.database)
  else
    let (reply, s) := engine.serve client.database x
    (if x.name = "indices.create" && client.lenient then reply.overlooked else reply, .of s)

/-- The client of a backend. -/
def answer (n : Naming) (backend : Backend) (client : Client σ) (c : Call) : Reply × Client σ :=
  engine.receive client (c.sent n backend).plain

/-- Both backends come to the same, with results that are related as said. -/
abbrev Agree {β : Type} (n : Naming) (R : α → β → Prop) (p : Program α) (q : Program β) : Prop :=
  Program.Agree (engine.answer n .elasticsearch) (engine.answer n .opensearch) R p q

/-- Where one backend fails with a refusal, the other does not notice it. -/
abbrev Splits (n : Naming) (p q : Program α) : Prop :=
  Program.Splits (engine.answer n .elasticsearch) (engine.answer n .opensearch) p q

/-- The request to create an index with an alias. -/
def creation (index aliasName : String) : Sent :=
  ⟨"indices.create",
    [("index", .str index), ("body", .single "aliases" (.single aliasName (.obj [])))]⟩

section Creating

variable {i a : String} {kind : IndexKind} {client : Client σ} {reply : Reply} {s : σ}

variable {found : Json} (hfound : engine.serve client.database
  ⟨"indices.exists", [("index", .str i)]⟩ = (.value found, client.database))

include hfound

end Creating

end Engine

end StacCatalog
