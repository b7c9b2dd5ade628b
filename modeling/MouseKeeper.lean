import MouseKeeper.FileEngine.Steps
import MouseKeeper.FileEngine.Names
import MouseKeeper.FileEngine.Containment
import MouseKeeper.FileEngine.History
import MouseKeeper.FileEngine.SearchPages
import MouseKeeper.Server.Sync
import MouseKeeper.Server.Lifecycle
import MouseKeeper.Desktop.Delivery
import MouseKeeper.Desktop.Stranded
import MouseKeeper.Desktop.Progress
import MouseKeeper.Desktop.OutOfReach
import MouseKeeper.Mobile.NoEventLost
import MouseKeeper.Mobile.QueuedMutations
import MouseKeeper.Posix.NoLinks
import MouseKeeper.FileEngine.NoLoss
import MouseKeeper.FileEngine.OneOperation
import MouseKeeper.FileEngine.Acceptance
import MouseKeeper.Desktop.NeverBlocked
import MouseKeeper.Storage.Lifecycle
import MouseKeeper.Desktop.StaleReports
import MouseKeeper.Storage.SmartCache
import MouseKeeper.Storage.Browses
import MouseKeeper.Storage.RemovedRooms
import MouseKeeper.Desktop.AcceptedProposals
import MouseKeeper.Mobile.SmartCacheDecryption
import MouseKeeper.Desktop.RootWrites
import MouseKeeper.Desktop.SyncCursor
import MouseKeeper.Desktop.HiddenFiles
import MouseKeeper.Desktop.SearchCursors
import MouseKeeper.Desktop.RoomWork
import MouseKeeper.Chat.WaitingRuns
import MouseKeeper.Chat.MessagePages
import MouseKeeper.Chat.SessionLimit
import MouseKeeper.Chat.ExpiredDrafts
import MouseKeeper.Server.PublishedInOrder
import MouseKeeper.Mobile.CacheCoherence
import MouseKeeper.Server.PairingSafety
import MouseKeeper.Server.DisconnectsOnce
import MouseKeeper.Mobile.StaleSummaries
import MouseKeeper.Mobile.DisconnectIdentity
import MouseKeeper.Mobile.FolderFollowed
import MouseKeeper.Mobile.HomeReducer
import MouseKeeper.Mobile.VerifiedDownload
import MouseKeeper.FileEngine.FirstMatch
import MouseKeeper.FileEngine.RefusedUndo
import MouseKeeper.FileEngine.EachItemAnswered
import MouseKeeper.Desktop.ApprovedItems
import MouseKeeper.Worker.EachPhoneOnce
import MouseKeeper.Server.PresenceTruth
import MouseKeeper.Desktop.PairedRooms
import MouseKeeper.Desktop.OnlyDelayed
import MouseKeeper.Desktop.RacedApproval
import MouseKeeper.FileEngine.GlobMatch
import MouseKeeper.FileEngine.AutoApproval
import MouseKeeper.FileEngine.ContractMeaning
import MouseKeeper.FileEngine.RemovedSubtree
import MouseKeeper.Desktop.PolicyGlobs
import MouseKeeper.Desktop.PolicyStore
import MouseKeeper.Storage.RepeatedCompletion
import MouseKeeper.Storage.Approvals
import MouseKeeper.Storage.Evictions
import MouseKeeper.FileEngine.Reindex
import MouseKeeper.Desktop.MirroredRules
import MouseKeeper.Desktop.RulePrecedence
import MouseKeeper.FileEngine.Decisions
import MouseKeeper.FileEngine.Recovery
import MouseKeeper.Chat.SearchesAgree
import MouseKeeper.Server.PairingCodes
import MouseKeeper.Desktop.Registrations
import MouseKeeper.Mobile.PerfectMazes
import MouseKeeper.Desktop.Timestamps
import MouseKeeper.Server.CanonicalJson
