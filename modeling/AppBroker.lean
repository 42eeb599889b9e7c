import AppBroker.Action
import AppBroker.Archive
import AppBroker.Archive.Gzip
import AppBroker.Archive.Inflate
import AppBroker.Archive.Stream
import AppBroker.Archive.Tar
import AppBroker.Archive.Zip
import AppBroker.Catalog
import AppBroker.Clock
import AppBroker.Composition
import AppBroker.Console
import AppBroker.Console.Grid
import AppBroker.Console.Invocation
import AppBroker.Console.Markup
import AppBroker.Disk
import AppBroker.Disk.Update
import AppBroker.Engine
import AppBroker.Engine.Connection
import AppBroker.Engine.Handle
import AppBroker.Engine.Runtime
import AppBroker.Engine.Script
import AppBroker.Error
import AppBroker.Http
import AppBroker.Hub
import AppBroker.Hub.Install
import AppBroker.Lifecycle
import AppBroker.Lock
import AppBroker.Lock.Keyed
import AppBroker.Lock.Party
import AppBroker.Main
import AppBroker.Manifest
import AppBroker.Name
import AppBroker.Plugin
import AppBroker.Pool
import AppBroker.Program
import AppBroker.Record
import AppBroker.Resolver
import AppBroker.Routing
import AppBroker.Scale
import AppBroker.Settings
import AppBroker.Setup
import AppBroker.Store
import AppBroker.Table
import AppBroker.Tag
import AppBroker.Text.Blank
import AppBroker.Text.Case
import AppBroker.Text.Composition
import AppBroker.Text.Digit
import AppBroker.Text.Encoding
import AppBroker.Text.Integer
import AppBroker.Text.Punycode
import AppBroker.Text.Width
import AppBroker.Url
import AppBroker.Url.Internet
import AppBroker.Url.Label
import AppBroker.Url.Request
import AppBroker.Value
import AppBroker.Value.Binary64
import AppBroker.Value.Field
import AppBroker.Value.Moment
import AppBroker.Version
import AppBroker.World
import AppBroker.Yaml.Codec
import AppBroker.Yaml.Construct
import AppBroker.Yaml.Cursor
import AppBroker.Yaml.Node
import AppBroker.Yaml.Print
import AppBroker.Yaml.Scalar
import AppBroker.Yaml.Scan
import AppBroker.Yaml.Token
import AppBroker.Proofs.ReadBack
import AppBroker.Proofs.PlainDisk
import AppBroker.Proofs.StoredRecords
import AppBroker.Proofs.RecordCalls
import AppBroker.Proofs.KeyedLocks
import AppBroker.Proofs.Lineup
import AppBroker.Proofs.Driving
import AppBroker.Proofs.Contract
import AppBroker.Proofs.LockOrder
import AppBroker.Proofs.LockTurns
import AppBroker.Proofs.Together
import AppBroker.Proofs.Request
import AppBroker.Proofs.Effect
import AppBroker.Proofs.Identity
import AppBroker.Proofs.Sharing
import AppBroker.Proofs.Reading
import AppBroker.Proofs.RoutedRunning
import AppBroker.Proofs.Composed
import AppBroker.Proofs.Upkeep
import AppBroker.Proofs.Agreement
import AppBroker.Proofs.CarefulCodec
import AppBroker.Proofs.TagGrammar
import AppBroker.Proofs.DiskTree
import AppBroker.Proofs.ManifestReading
import AppBroker.Proofs.VersionOrder
import AppBroker.Proofs.HubStock
import AppBroker.Proofs.HubRemoval
import AppBroker.Proofs.HubInstall
import AppBroker.Proofs.HubRefinement
import AppBroker.Proofs.CompositionTags
import AppBroker.Proofs.SharingGate
import AppBroker.Proofs.Reachable
import AppBroker.Proofs.RouteCalls
import AppBroker.Proofs.CreateUndone
import AppBroker.Proofs.CreateManned
import AppBroker.Proofs.Handling
import AppBroker.Proofs.Structural
import AppBroker.Proofs.RoutingBlind
import AppBroker.Proofs.Abiding
import AppBroker.Proofs.PublicHosts
import AppBroker.Proofs.RealMoments
import AppBroker.Proofs.StoreRefinement
import AppBroker.Proofs.Custody
import AppBroker.Proofs.HubScopes
import AppBroker.Proofs.HubConfined
import AppBroker.Proofs.Isolation
import AppBroker.Proofs.HubManaged
import AppBroker.Proofs.HubListing
import AppBroker.Proofs.DiskMoves
import AppBroker.Proofs.HubStaging
import AppBroker.Proofs.HubPlacing
import AppBroker.Proofs.HubUndone
import AppBroker.Proofs.SealedStaging
import AppBroker.Proofs.ArchiveContained
import AppBroker.Proofs.Orderly
import AppBroker.Proofs.RouteDuty
import AppBroker.Proofs.Settling
import AppBroker.Proofs.Resync
import AppBroker.Proofs.TrueRoutes
import AppBroker.Proofs.CategoryListing
import AppBroker.Proofs.Scaling
import AppBroker.Proofs.ScaleRetry
import AppBroker.Proofs.VersionRanking
import AppBroker.Proofs.HubSupplied
import AppBroker.Proofs.HubLookups
import AppBroker.Proofs.RoutingTrouble
import AppBroker.Proofs.Deeds
import AppBroker.Proofs.PartialFailure
import AppBroker.Proofs.ConcreteTags
import AppBroker.Proofs.DocumentFaults
import AppBroker.Proofs.ListingSkips
import AppBroker.Proofs.FaithfulHandles
import AppBroker.Proofs.HubTags
import AppBroker.Proofs.Furnishing
import AppBroker.Proofs.RoutesAgree
import AppBroker.Proofs.ApplicationInfo
import AppBroker.Proofs.Keeping
import AppBroker.Proofs.HeldStarts
import AppBroker.Proofs.PlainNames
import AppBroker.Proofs.BaseUrls
import AppBroker.Proofs.PluginFields
import AppBroker.Proofs.Readers
import AppBroker.Proofs.Scanning
import AppBroker.Proofs.Quoting
import AppBroker.Proofs.BlankText
import AppBroker.Proofs.UnquotedWords
import AppBroker.Proofs.UnquotedVersions
import AppBroker.Proofs.DisplayNames
import AppBroker.Proofs.Numerals
import AppBroker.Proofs.EscapedMarkup
import AppBroker.Proofs.ScaleExpressions
