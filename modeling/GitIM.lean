import GitIM.TextLines
import GitIM.TextScan
import GitIM.FileTree
import GitIM.Checked
import GitIM.Runs
import GitIM.TableCodec
import GitIM.ThreadFormat
import GitIM.ThreadGrammar
import GitIM.ThreadRoundTrip
import GitIM.ThreadMerge
import GitIM.ThreadReading
import GitIM.ThreadValidation
import GitIM.DiffCapture
import GitIM.ContentReplay
import GitIM.ConflictReplay
import GitIM.PendingMessages
import GitIM.CommitChain
import GitIM.PullOnlySync
import GitIM.PushConfirmation
import GitIM.PushTracking
import GitIM.EpochMigration
import GitIM.EpochRotation
import GitIM.EpochRemote
import GitIM.EpochClones
import GitIM.EpochAgreement
import GitIM.QuickSession
import GitIM.QuickSessionMerge
import GitIM.QuickSessionHistory
import GitIM.QuickSessionLife
import GitIM.DmThreads
import GitIM.Channels
import GitIM.ChannelMembership
import GitIM.Departure
import GitIM.Poll
import GitIM.ChannelPrivacy
import GitIM.GitIndex
import GitIM.Cards
import GitIM.CommitCalls
import GitIM.CommitIsolation
import GitIM.CardUpdates
import GitIM.CronEngine
import GitIM.AgentLoop
import GitIM.TreeDiff
import GitIM.PollSecrecy
import GitIM.AssetAccounts
import GitIM.AssetAccounting
import GitIM.AssetLifecycle
import GitIM.AssetLinearity
import GitIM.AssetActivation
import GitIM.AssetLives
import GitIM.ChatMessages
import GitIM.Ranking
import GitIM.Reading
import GitIM.ReadSecrecy
import GitIM.TwoSteps
import GitIM.Users
import GitIM.Flows
import GitIM.DocumentUpdates
import GitIM.UserLifecycle
import GitIM.FlowRuns
import GitIM.FetchCache
import GitIM.PollLoop
import GitIM.QuickSessionStore
import GitIM.Timers
import GitIM.UsageDeltas
import GitIM.QuickSessionPrompt
import GitIM.WebThreads
import GitIM.WebRecipients
import GitIM.AssetResolution
import GitIM.WebSends
import GitIM.PlainYaml
import GitIM.WebJoins
import GitIM.WebCardYaml
import GitIM.WebCardTitles
import GitIM.WebArchives
import GitIM.SearchOrder
import GitIM.BinaryReplacement
import GitIM.QuickSessionCreate
import GitIM.SyncBackoff
import GitIM.AuthCircuit
import GitIM.Occurrences
import GitIM.PushRejection
import GitIM.DepthFirst
import GitIM.FlowValidation
import GitIM.Trimming
import GitIM.FlowFiles
import GitIM.InclusiveLines
import GitIM.Boards
import GitIM.BoardSections
import GitIM.BoardFiles
import GitIM.Recipients
import GitIM.MemberMerges
import GitIM.ByteOffsets
import GitIM.ResetDetection
import GitIM.LoopDelays
import GitIM.WorkspaceSlugs
import GitIM.PercentEncoding
import GitIM.AssetRefs
import GitIM.ProtocolLinks
import GitIM.CardReminders
import GitIM.QuickSessionCalls
import GitIM.QuickSessionPolls
import GitIM.CronCalls
import GitIM.CronViews
import GitIM.GitMoves
import GitIM.ChannelArchive
import GitIM.ArchiveRollback
import GitIM.ArchiveRuns
import GitIM.DepartureRuns
import GitIM.DepartureSteps
