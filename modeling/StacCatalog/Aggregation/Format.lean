import StacCatalog.Json.Access
import StacCatalog.Time.Iso
import StacCatalog.Time.Stamp

/-!
# The answers of aggregations
-/

namespace StacCatalog.Aggregation

/-- The first value if it counts as given, else the second. -/
def orElse (first second : Json) : Json :=
  if first.truthy then first else second

/-- What was answered under a name. -/
def entry (answers name : Json) : Outcome Json :=
  answers.lookupKey name (.obj [])

/-- A bucket as it is answered. -/
def bucket (dataType b : Json) : Outcome Json := do
  let text ← b.lookup "key_as_string"
  let key ← b.lookup "key"
  return .obj [("key", orElse text key), ("data_type", dataType),
    ("frequency", ← b.lookup "doc_count"), ("to", ← b.lookup "to"), ("from", ← b.lookup "from")]

/-- The answer of an aggregation that counts documents by buckets: `frequency_agg`. -/
def frequency (answers name dataType : Json) : Outcome Json := do
  let found ← entry answers name
  let buckets ← (← (← found.lookupD "buckets" (.arr [])).elements).mapM (bucket dataType)
  return .obj [("name", name), ("data_type", .str "frequency_distribution"),
    ("overflow", ← found.lookupD "sum_other_doc_count" (.int 0)), ("buckets", .arr buckets)]

def timeValue (value : Json) : Outcome Json :=
  match value with
  | .float stamp => do
    let clock ← Time.ofStamp stamp
    return .str ((⟨clock, none⟩ : Time.Moment).zuluText .auto)
  | v => .ok v

/-- The answer of an aggregation with one value: `metric_agg`. Its name tells whether the value is a
time. -/
def metric (answers name dataType : Json) : Outcome Json := do
  let found ← entry answers name
  let value := orElse (← found.lookup "value_as_string") (← found.lookup "value")
  let value ← if ← name.contains "datetime" then timeValue value else .ok value
  return .obj [("name", name), ("data_type", dataType), ("value", value)]

end StacCatalog.Aggregation
