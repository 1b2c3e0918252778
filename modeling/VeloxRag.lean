import VeloxRag.Lib.Bisect
import VeloxRag.Lib.Periodic
import VeloxRag.Lib.BlockSearch
import VeloxRag.Lib.PySlice
import VeloxRag.Lib.Json
import VeloxRag.Lib.JsonRoundTrip
import VeloxRag.Lib.JsonLines
import VeloxRag.Lib.Records
import VeloxRag.Lib.OnlyRaises
import VeloxRag.Lib.Utf8Stream
import VeloxRag.Text
import VeloxRag.Platform
import VeloxRag.Ingestion.Boundary
import VeloxRag.Ingestion.BoundaryTable
import VeloxRag.Ingestion.BoundaryBuilder
import VeloxRag.Ingestion.BoundaryPacking
import VeloxRag.Ingestion.BoundaryTitles
import VeloxRag.Ingestion.BoundaryCodec
import VeloxRag.Ingestion.BoundaryRead
import VeloxRag.Ingestion.BoundaryIndex
import VeloxRag.Ingestion.BoundaryPoints
import VeloxRag.Ingestion.BoundaryCollect
import VeloxRag.Ingestion.BoundaryTitleAt
import VeloxRag.Ingestion.BoundaryIndexSpec
import VeloxRag.Ingestion.Validation
import VeloxRag.Ingestion.MarkdownLine
import VeloxRag.Ingestion.Markdown
import VeloxRag.Ingestion.MarkdownCover
import VeloxRag.Ingestion.MarkdownSpec
import VeloxRag.Ingestion.Grapheme
import VeloxRag.Ingestion.Artifact
import VeloxRag.Ingestion.TextValidator
import VeloxRag.Ingestion.Parsers
import VeloxRag.Ingestion.Chunk
import VeloxRag.Ingestion.Chunker
import VeloxRag.Ingestion.ChunkerSpec
import VeloxRag.Ingestion.ChunkSizes
import VeloxRag.Ingestion.Manifest
import VeloxRag.Ingestion.ManifestSpec
import VeloxRag.Ingestion.ObjectKeys
import VeloxRag.Ingestion.Repository
import VeloxRag.Ingestion.Upload
import VeloxRag.Ingestion.Pipeline
import VeloxRag.Metadata.KnowledgeBases
import VeloxRag.Indexing.Generations
import VeloxRag.Indexing.Cleanup
import VeloxRag.Indexing.Repair
import VeloxRag.System.Step
import VeloxRag.System.Effects
import VeloxRag.System.Base
import VeloxRag.System.Purge
import VeloxRag.System.Uploads
import VeloxRag.System.Documents
import VeloxRag.System.Accounting
import VeloxRag.System.Generations
import VeloxRag.System.Collections
import VeloxRag.System.Replays
import VeloxRag.System.Exclusion
import VeloxRag.System.Ingestions
import VeloxRag.System.Failures
import VeloxRag.Providers.Admission
import VeloxRag.Providers.RateLimit
import VeloxRag.Providers.NetworkPolicy
import VeloxRag.Providers.PoolLeases
import VeloxRag.Providers.Pinned
import VeloxRag.Providers.PoolLock
import VeloxRag.ObjectStore.UploadFlow
import VeloxRag.ObjectStore.PublicationSafety
import VeloxRag.Ingestion.ArtifactAttempts
import VeloxRag.Api.Listings
import VeloxRag.Retrieval.Search
import VeloxRag.Ingestion.TextValidatorSpec
import VeloxRag.Ingestion.MarkdownMemo
import VeloxRag.Ingestion.BoundaryCheck
import VeloxRag.Ingestion.ManifestReader
import VeloxRag.Ingestion.ManifestBudget
import VeloxRag.Ingestion.ChunkWindows
import VeloxRag.Ingestion.ChunkBlanks
import VeloxRag.Ingestion.ChunkHeadings
import VeloxRag.Ingestion.ChunkCuts
import VeloxRag.Metadata.FilterSchemas
import VeloxRag.Metadata.FilterSnapshots
import VeloxRag.Ingestion.FilterMetadata
import VeloxRag.Ingestion.ObjectCleanup
import VeloxRag.Ingestion.StageSuccess
import VeloxRag.Metadata.DocumentContent
import VeloxRag.System.ObjectReferences
import VeloxRag.Auth.Tokens
import VeloxRag.ObjectStore.OrphanListing
import VeloxRag.Providers.EmbeddingResponses
import VeloxRag.Metadata.FilterSchemaRuns
import VeloxRag.Lib.Ranking
import VeloxRag.Retrieval.Rerank
import VeloxRag.Indexing.VersionPoints
import VeloxRag.Ingestion.IndexValidation
import VeloxRag.Lib.Entries
import VeloxRag.Observability.Logging
import VeloxRag.Observability.LogSafety
import VeloxRag.Retrieval.FilterMeaning
import VeloxRag.Lib.FirstMatch
import VeloxRag.Dev.HookSettings
import VeloxRag.Lib.Procedures
import VeloxRag.Api.RequestProtocol
import VeloxRag.Dev.ChatTranscripts
import VeloxRag.Indexing.CanonicalJson
import VeloxRag.Ingestion.ArtifactKeys
import VeloxRag.Lib.Decimals
import VeloxRag.Lib.PercentCoding
import VeloxRag.Providers.AddressTexts
import VeloxRag.Providers.Fingerprints
import VeloxRag.System.Fencing
import VeloxRag.Auth.KeyRuns
import VeloxRag.Auth.Authentication
import VeloxRag.Providers.EndpointUrls
import VeloxRag.System.ArtifactCleanup
import VeloxRag.System.ReplacedGenerations
