import SchemaMigration.Main
import SchemaMigration.Proofs.Constraints
import SchemaMigration.Proofs.CopiedColumns
import SchemaMigration.Proofs.CopySources
import SchemaMigration.Proofs.Deltas
import SchemaMigration.Proofs.DialectIndependence
import SchemaMigration.Proofs.DrainedBatches
import SchemaMigration.Proofs.EngineVersions
import SchemaMigration.Proofs.Fallbacks
import SchemaMigration.Proofs.ForeignTargets
import SchemaMigration.Proofs.MovedRows
import SchemaMigration.Proofs.NotedRuns
import SchemaMigration.Proofs.NullableFields
import SchemaMigration.Proofs.PlanRequests
import SchemaMigration.Proofs.PlanText
import SchemaMigration.Proofs.RefusedFlushes
import SchemaMigration.Proofs.RowDeclarations
import SchemaMigration.Proofs.ScratchNames
import SchemaMigration.Proofs.SqlText
import SchemaMigration.Proofs.StepHistory
import SchemaMigration.Proofs.TableSemantics
import SchemaMigration.Proofs.TableSlots
import SchemaMigration.Proofs.TrackedState
