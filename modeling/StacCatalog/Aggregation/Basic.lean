import StacCatalog.Json.Compare

/-!
# What can be aggregated, and how finely
-/

namespace StacCatalog.Aggregation

/-- An aggregation with one value. -/
def single (name dataType : String) : Json :=
  .obj [("name", .str name), ("data_type", .str dataType)]

/-- An aggregation that counts documents by buckets of a type. -/
def distribution (name bucketType : String) : Json :=
  .obj [("name", .str name), ("data_type", .str "frequency_distribution"),
    ("frequency_distribution_data_type", .str bucketType)]

/-- The aggregations that every collection offers. -/
def standard : List Json :=
  [single "total_count" "integer", single "datetime_max" "datetime",
    single "datetime_min" "datetime",
   distribution "datetime_frequency" "datetime", distribution "collection_frequency" "string",
   distribution "geometry_geohash_grid_frequency" "string",
   distribution "geometry_geotile_grid_frequency" "string"]

/-- The aggregations that are answered besides those a collection offers. -/
def additional : List Json :=
  [distribution "grid_code_frequency" "string"]

/-! ### How finely -/

/-- A grid that divides the surface of the earth. -/
inductive Grid where
  | centroidGeohash
  | centroidGeohex
  | centroidGeotile
  | geometryGeohash
  | geometryGeotile
  deriving DecidableEq, Repr

namespace Grid

def all : List Grid :=
  [centroidGeohash, centroidGeohex, centroidGeotile, geometryGeohash, geometryGeotile]

def name : Grid → String
  | centroidGeohash => "centroid_geohash_grid_frequency"
  | centroidGeohex => "centroid_geohex_grid_frequency"
  | centroidGeotile => "centroid_geotile_grid_frequency"
  | geometryGeohash => "geometry_geohash_grid_frequency"
  | geometryGeotile => "geometry_geotile_grid_frequency"

/-- The least and the greatest precision of a grid. -/
def range : Grid → Int × Int
  | centroidGeohash | geometryGeohash => (1, 12)
  | centroidGeohex => (0, 15)
  | centroidGeotile | geometryGeotile => (0, 29)

end Grid

/-- A precision within a range; the least if none is asked for. -/
def precision (value least greatest : Json) : Outcome Json := do
  if value.isNull then return least
  else
    let below ← value.less least
    let outside ← if below then .ok true else value.greater greatest
    if outside then
      .error (.http 400 ("Invalid precision value. Must be between " ++ least.display ++ " and " ++
        greatest.display))
    else return value

/-- A precision for a grid: `extract_precision`. -/
def Grid.precision (grid : Grid) (value : Json) : Outcome Json :=
  Aggregation.precision value (.int grid.range.1) (.int grid.range.2)

/-- The lengths of time by which documents can be counted. -/
def intervals : List String :=
  ["year", "quarter", "month", "week", "day", "hour", "minute", "second"]

/-- A length of time; a month if none is asked for: `extract_date_histogram_interval`. -/
def interval (value : Json) : Outcome Json :=
  if value.isNull then .ok (.str "month")
  else if intervals.any fun name => value == .str name then .ok value
  else .error (.http 400 ("Invalid datetime interval. Must be one of " ++
    (Json.ofStrings intervals).display))

/-- What the database is asked for a name that is not a grid. -/
def definitions : List (String × Json) :=
  let on (kind field : String) (more : Fields) :
      Json := .single kind (.obj (("field", .str field) :: more))
  let range (entries : List (String × Int)) :
      Json := .obj (entries.map fun (k, n) => (k, Json.int n))
  [("total_count", on "value_count" "id" []),
   ("collection_frequency", on "terms" "collection" [("size", .int 100)]),
   ("platform_frequency", on "terms" "properties.platform" [("size", .int 100)]),
   ("cloud_cover_frequency", on "range" "properties.eo:cloud_cover" [("ranges", .arr [
      range [("to", 5)], range [("from", 5), ("to", 15)], range [("from", 15), ("to", 40)],
      range [("from", 40)]])]),
   ("datetime_frequency", on "date_histogram" "properties.datetime"
     [("calendar_interval", .str "month")]),
   ("datetime_min", on "min" "properties.datetime" []),
   ("datetime_max", on "max" "properties.datetime" []),
   ("grid_code_frequency", on "terms" "properties.grid:code" [("missing", .str "none"),
     ("size", .int 10000)]),
   ("sun_elevation_frequency", on "histogram" "properties.view:sun_elevation"
     [("interval", .int 5)]),
   ("sun_azimuth_frequency", on "histogram" "properties.view:sun_azimuth" [("interval", .int 5)]),
   ("off_nadir_frequency", on "histogram" "properties.view:off_nadir" [("interval", .int 5)]),
   ("centroid_geohash_grid_frequency", on "geohash_grid" "properties.proj:centroid"
     [("precision", .int 1)]),
   ("centroid_geohex_grid_frequency", on "geohex_grid" "properties.proj:centroid"
     [("precision", .int 0)]),
   ("centroid_geotile_grid_frequency", on "geotile_grid" "properties.proj:centroid"
     [("precision", .int 0)]),
   ("geometry_geohash_grid_frequency", on "geohash_grid" "geometry" [("precision", .int 1)]),
   ("geometry_geotile_grid_frequency", on "geotile_grid" "geometry" [("precision", .int 0)])]

end StacCatalog.Aggregation
