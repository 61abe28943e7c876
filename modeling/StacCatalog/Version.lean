/-!
# The version of the catalogue
-/

namespace StacCatalog

def version : String := "6.0.0"

end StacCatalog
