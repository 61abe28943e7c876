import StacCatalog.Api.App
import StacCatalog.Loading.Files
import StacCatalog.Main
import StacCatalog.Proofs.Aggregation.Answers
import StacCatalog.Proofs.Aggregation.Scope
import StacCatalog.Proofs.Filter.Globs
import StacCatalog.Proofs.Filter.Meaning
import StacCatalog.Proofs.Index.Slots
import StacCatalog.Proofs.Items.Insertion
import StacCatalog.Proofs.Items.Moves
import StacCatalog.Proofs.Json.Merging
import StacCatalog.Proofs.Paging.Bounds
import StacCatalog.Proofs.Paging.Landing
import StacCatalog.Proofs.Paging.Order
import StacCatalog.Proofs.Patch.Growth
import StacCatalog.Proofs.Patch.Merge
import StacCatalog.Proofs.Patch.Variables
import StacCatalog.Proofs.Placement.Interruption
import StacCatalog.Proofs.Placement.Renaming
import StacCatalog.Proofs.Projection.InPlace
import StacCatalog.Proofs.Queryables.Fresh
import StacCatalog.Proofs.Routes.Expansion
import StacCatalog.Proofs.Search.Comparisons
import StacCatalog.Proofs.Search.Overlap
import StacCatalog.Proofs.Search.Parameters
import StacCatalog.Proofs.Search.Words
import StacCatalog.Proofs.Settings.Refresh
import StacCatalog.Proofs.Time.Normal
import StacCatalog.Proofs.Time.Writing
import StacCatalog.Proofs.Wire.Session
import StacCatalog.Settings.Service
