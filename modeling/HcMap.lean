import HcMap.Lib.Isolation
import HcMap.Lib.Table
import HcMap.Lib.Run
import HcMap.Lib.Store
import HcMap.Sync.LostUpdate
import HcMap.Sync.FirstWrite
import HcMap.Sync.Replay
import HcMap.Sync.Commute
import HcMap.Sync.Pull
import HcMap.Sync.PullWalk
import HcMap.Sync.OfflineQueue
import HcMap.Sync.LoneWriter
import HcMap.Sync.SequenceNumbers
import HcMap.Sync.EndEvent
import HcMap.Sync.ConflictReplies
import HcMap.Sync.AcceptedPush
import HcMap.Routes.Finished
import HcMap.Routes.Tombstones
import HcMap.Routes.Partners
import HcMap.Routes.ConcurrentInserts
import HcMap.Startup.MigrationsRunner
import HcMap.Routes.CatalogDecisions
import HcMap.Routes.Writes
import HcMap.Routes.Confined
import HcMap.Routes.ApprovedLinks
import HcMap.Routes.Orphans
import HcMap.Routes.Advances
import HcMap.Routes.Deletions
import HcMap.Routes.Grants
import HcMap.Routes.Intervals
import HcMap.Routes.Administrators
import HcMap.Routes.UserSwitch
import HcMap.Pin.StaysLocked
import HcMap.Pin.Guesses
import HcMap.Db.SqlPolicies
import HcMap.Routes.Creations
import HcMap.Routes.DeleteRoutes
import HcMap.Services.CatalogTrail
import HcMap.Forms.EventEdit
import HcMap.Map.UrlState
import HcMap.Routes.Geocode
import HcMap.Routes.Masked
import HcMap.Routes.Merges
import HcMap.Routes.Exports
import HcMap.Sync.Migrations
import HcMap.Routes.Undisturbed
import HcMap.Routes.OneAtATime
import HcMap.Map.SearchBox
import HcMap.Map.EventFilter
import HcMap.Hooks.WakeLock
import HcMap.Services.CsvExport
import HcMap.Pages.EventPage
import HcMap.Pin.Encoding
import HcMap.Sync.RxdbProvider
import HcMap.Security.Csrf
import HcMap.Routes.CatalogRequests
import HcMap.Pages.Rbac
import HcMap.Pages.Pickers
import HcMap.Pages.Timeline
import HcMap.Security.LoginRedirect
import HcMap.Security.AccessLog
import HcMap.Routes.Stats
