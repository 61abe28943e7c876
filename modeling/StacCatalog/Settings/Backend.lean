/-!
# The two databases the catalogue can stand on
-/

namespace StacCatalog

/-- The kinds of databases. -/
inductive Backend where
  | elasticsearch
  | opensearch
  deriving DecidableEq, Repr, Inhabited

namespace Backend

/-- The name of a backend in titles and addresses. -/
def name : Backend → String
  | .elasticsearch => "elasticsearch"
  | .opensearch => "opensearch"

end Backend

end StacCatalog
