import StacCatalog.Index.Mapping
import StacCatalog.Index.Naming
import StacCatalog.Patch.Script
import StacCatalog.Search.Clause
import StacCatalog.Settings.Refresh

/-!
# The requests to the database
-/

namespace StacCatalog

/-- What an index holds. -/
inductive IndexKind where
  | collections
  | items
  deriving DecidableEq, Repr

/-- A document of a batch, with its place. -/
structure BulkAction where
  index : String
  id : String
  document : Json
  deriving DecidableEq, Repr

/-- Whether a batch is waited for. -/
inductive BulkMode where
  | blocking
  | concurrent
  deriving DecidableEq, Repr

/-- Items that move from one collection to another: all of them, or one. -/
structure Move where
  source : Json
  target : Json
  item : Option Json
  refresh : Json
  deriving DecidableEq, Repr

/-- A page of a search. -/
structure Page where
  indices : String
  ignoreUnavailable : Json
  search : Search
  sort : Json
  /-- The sort key after which the page begins; `null` for the first page. -/
  after : Json
  size : Json
  deriving Repr

/-- A search for what is aggregated. -/
structure Aggregates where
  indices : String
  ignoreUnavailable : Json
  search : Search
  aggregations : Fields
  deriving Repr

/-- A call of the client of a database. -/
inductive Call where
  | exists (index : String) (id : Json)
  | get (index : String) (id : Json)
  | index (index : String) (id document : Json) (refresh : Refresh)
  | delete (index : String) (id : Json) (refresh : Refresh)
  | update (index : String) (id : Json) (script : Patch.Script)
  | reindex (move : Move)
  | deleteAll (index : String)
  | listCollections (index : String) (size : Json) (after : Option Json)
  | findItems (page : Page)
  | count (indices : String) (ignoreUnavailable : Json) (search : Search)
  | aggregate (request : Aggregates)
  /-- Asks for the different values of fields. -/
  | uniqueValues (index : String) (fields : List Json) (size : Json)
  | createIndex (index aliasName : String) (kind : IndexKind)
  | indexExists (index : String)
  | resolveAlias (name : String)
  | deleteAlias (indices name : Json)
  | deleteIndex (indices : Json)
  /-- Says how indices of a kind are to be created. -/
  | putTemplate (kind : IndexKind)
  /-- Reads the field mapping; `strict` fails where there is no index. -/
  | getMapping (index : String) (strict : Bool)
  /-- Makes the next request overlook that something exists. -/
  | tolerate
  | close
  | bulk (mode : BulkMode) (actions : List BulkAction) (refresh : Refresh) (raiseOnError : Bool)
  deriving Repr

namespace BulkAction

def toJson (a : BulkAction) : Json :=
  .obj [("_index", .str a.index), ("_id", .str a.id), ("_source", a.document)]

end BulkAction

namespace Move

/-- The script that gives a moved document its new name and collection. -/
def script (m : Move) : String :=
  let source := m.source.display
  let target := m.target.display
  let rename := "ctx._id = ctx._id.replace('" ++ source ++ "', '" ++ target ++ "');"
  let assign := "ctx._source.collection = '" ++ target ++ "'"
  match m.item with
  | some _ => rename ++ assign ++ ";"
  | none => rename ++ " " ++ assign ++ " ;"

def toJson (n : Naming) (m : Move) : Json :=
  let only : Fields := match m.item with
    | some id => [("query", .single "term" (.single "id" (.single "value" id)))]
    | none => []
  .obj [
    ("dest", .single "index" (.str (n.items ++ m.target.display))),
    ("source", .obj ([("index", .str (n.items ++ m.source.display))] ++ only)),
    ("script", .obj [("lang", .str "painless"), ("source", .str m.script)])]

end Move

namespace Page

/-- The query, `null` if there are no clauses. -/
def query (p : Page) : Json :=
  if p.search.clauses.isEmpty then .null else p.search.clausesJson

/-- The arguments of the search, which differ between the backends. -/
def args (backend : Backend) (p : Page) : Fields :=
  let place : Fields := [("index", .str p.indices), ("ignore_unavailable", p.ignoreUnavailable)]
  match backend with
  | .elasticsearch =>
    place ++ [("query", p.query), ("sort", p.sort)] ++
      (if p.after.isNull then [] else [("search_after", p.after)]) ++ [("size", p.size)]
  | .opensearch =>
    let body : Fields :=
      (if p.search.clauses.isEmpty then [] else [("query", p.query)]) ++
        (if p.after.truthy then [("search_after", p.after)] else []) ++ [("sort", p.sort)]
    place ++ [("body", .obj body), ("size", p.size)]

end Page

namespace IndexKind

def mapping : IndexKind → Json
  | .collections => Mapping.collections
  | .items => Mapping.items

/-- What the names of such indices begin with. -/
def stem (n : Naming) : IndexKind → String
  | .collections => n.collections
  | .items => n.items

def settings : IndexKind → Fields
  | .collections => []
  | .items => [("settings", SortOrder.indexSettings)]

end IndexKind

namespace Call

def name : Call → String
  | .exists .. => "exists"
  | .get .. => "get"
  | .index .. => "index"
  | .delete .. => "delete"
  | .update .. => "update"
  | .reindex _ => "reindex"
  | .deleteAll _ => "delete_by_query"
  | .listCollections .. | .findItems _ | .aggregate _ | .uniqueValues .. => "search"
  | .count .. => "count"
  | .createIndex .. => "indices.create"
  | .indexExists _ => "indices.exists"
  | .resolveAlias _ => "indices.resolve_index"
  | .deleteAlias .. => "indices.delete_alias"
  | .deleteIndex _ => "indices.delete"
  | .putTemplate _ => "indices.put_index_template"
  | .getMapping .. => "indices.get_mapping"
  | .tolerate => "options"
  | .close => "close"
  | .bulk .blocking .. => "bulk"
  | .bulk .concurrent .. => "async_bulk"

/-- The body of the creation of an index. -/
def creation (backend : Backend) (aliasName : String) (kind : IndexKind) : Json :=
  let aliases : Fields := [("aliases", .single aliasName (.obj []))]
  match backend with
  | .elasticsearch => .obj aliases
  | .opensearch => .obj (aliases ++ [("mappings", kind.mapping)] ++ kind.settings)

/-- The arguments of the client's method. -/
def args (n : Naming) (backend : Backend) : Call → Fields
  | .exists place id | .get place id => [("index", .str place), ("id", id)]
  | .index place id document refresh =>
    let key := match backend with
      | .elasticsearch => "document"
      | .opensearch => "body"
    [("index", .str place), ("id", id), (key, document), ("refresh", refresh.toJson)]
  | .delete place id refresh => [("index", .str place), ("id", id), ("refresh", refresh.toJson)]
  | .update place id script =>
    let body : Fields := match backend with
      | .elasticsearch => [("script", script.toJson)]
      | .opensearch => [("body", .single "script" script.toJson)]
    [("index", .str place), ("id", id)] ++ body ++ [("refresh", .bool true)]
  | .reindex move =>
    [("body", move.toJson n), ("wait_for_completion", .bool true), ("refresh", move.refresh)]
  | .deleteAll place =>
    [("index", .str place), ("body", .single "query" (.single "match_all" (.obj []))),
     ("wait_for_completion", .bool true)]
  | .listCollections place size after =>
    [("index", .str place),
     ("body", .obj ([("sort", .arr [.single "id" (SortOrder.direction (.str "asc"))]),
       ("size", size)] ++ (after.map fun key => ("search_after", Json.arr [key])).toList))]
  | .findItems page => page.args backend
  | .count indices ignoreUnavailable search =>
    [("index", .str indices), ("ignore_unavailable", ignoreUnavailable),
     ("body", .single "query" search.clausesJson)]
  | .aggregate request =>
    [("index", .str request.indices), ("ignore_unavailable", request.ignoreUnavailable),
     ("body", .obj ((if request.search.clauses.isEmpty then []
       else [("query", request.search.clausesJson)]) ++
       [("aggregations", .obj request.aggregations)]))]
  | .uniqueValues place fields size =>
    let ask (field : Json) : Json × Json :=
      (field, .single "terms" (.obj [("field", field), ("size", size)]))
    [("index", .str place),
     ("body", .obj [("size", .int 0),
       ("aggs", .obj (Json.Table.ofEntries (fields.map ask)).toFields)])]
  | .createIndex place aliasName kind =>
    [("index", .str place), ("body", creation backend aliasName kind)]
  | .indexExists place => [("index", .str place)]
  | .resolveAlias name => [("name", .str name)]
  | .deleteAlias indices name => [("index", indices), ("name", name)]
  | .deleteIndex indices => [("index", indices)]
  | .putTemplate kind =>
    [("name", .str ("template_" ++ kind.stem n)),
     ("body", .obj [
       ("index_patterns", Json.ofStrings [kind.stem n ++ "*"]),
       ("template", .obj (kind.settings ++ [("mappings", kind.mapping)]))])]
  | .getMapping place strict =>
    let limits : Fields := match strict, backend with
      | false, _ => []
      | true, .elasticsearch => [("allow_no_indices", .bool false)]
      | true, .opensearch => [("params", .single "allow_no_indices" (.str "false"))]
    [("index", .str place)] ++ limits
  | .tolerate => [("ignore_status", .int 400)]
  | .close => []
  | .bulk _ actions refresh raiseOnError =>
    [("actions", .arr (actions.map BulkAction.toJson)), ("refresh", refresh.toJson),
     ("raise_on_error", .bool raiseOnError)]

end Call

end StacCatalog
