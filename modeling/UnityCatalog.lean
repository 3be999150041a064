import UnityCatalog.Threads
import UnityCatalog.Yyjson
import UnityCatalog.Api
import UnityCatalog.ScanPlan
import UnityCatalog.TableInformation
import UnityCatalog.VersionGate
import UnityCatalog.Session
import UnityCatalog.SessionRuns
import UnityCatalog.Ratify
import UnityCatalog.Publish
import UnityCatalog.PublishRuns
import UnityCatalog.CreateTable
import UnityCatalog.CreateRuns
import UnityCatalog.LogTail
import UnityCatalog.InternalNames
import UnityCatalog.FileList
import UnityCatalog.TableVersion
import UnityCatalog.EntryKeys
import UnityCatalog.ScanFunction
import UnityCatalog.FallbackScan
import UnityCatalog.PlannedScan
import UnityCatalog.IrcExpression
import UnityCatalog.LateEtags
import UnityCatalog.ReadDatabases
import UnityCatalog.Decoding
import UnityCatalog.Listings
import UnityCatalog.ExactAnswers
import UnityCatalog.TableSet
import UnityCatalog.RegisterOutcomes
import UnityCatalog.TableSetThreads
import UnityCatalog.TableSetRuns
import UnityCatalog.PlanningGate
import UnityCatalog.BoundPath
import UnityCatalog.OneSchema
import UnityCatalog.ColumnTypes
import UnityCatalog.Crc
import UnityCatalog.DeletionVector
import UnityCatalog.DeletionVectorCodec
import UnityCatalog.FailedExpansion
import UnityCatalog.LongestPrefix
import UnityCatalog.OwnCommits
import UnityCatalog.ScanSecrets
import UnityCatalog.TaskPayload
import UnityCatalog.TypeAgreement
import UnityCatalog.PositionDeletes
import UnityCatalog.BlobReads
import UnityCatalog.Puffin
import UnityCatalog.NullMembers
import UnityCatalog.YyjsonText
import UnityCatalog.FilterText
import UnityCatalog.TypeGrammar
import UnityCatalog.WireSchema
import UnityCatalog.AnsweredQueue
import UnityCatalog.TokenExchange
import UnityCatalog.Watermark
import UnityCatalog.Checksum
import UnityCatalog.Locations
import UnityCatalog.Polling
import UnityCatalog.TokenText
import UnityCatalog.Intervals
import UnityCatalog.Url
import UnityCatalog.RequestUrls
import UnityCatalog.YyjsonTails
import UnityCatalog.YyjsonWrite
import UnityCatalog.CommittedTable
import UnityCatalog.LockOrder
import UnityCatalog.Catalog
import UnityCatalog.ReportedColumns
import UnityCatalog.Footprints
import UnityCatalog.CatalogLocks
import UnityCatalog.SchemaListing
import UnityCatalog.YyjsonRaw
import UnityCatalog.RequestBodies
import UnityCatalog.PlannedRows
import UnityCatalog.TableSecrets
import UnityCatalog.Attach
import UnityCatalog.ScanHandoff
import UnityCatalog.PlannedQuery
import UnityCatalog.PlanResponses
import UnityCatalog.DatabaseOwners
