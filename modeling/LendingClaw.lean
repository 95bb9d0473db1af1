import LendingClaw.Agent.Calibration
import LendingClaw.Agent.Capture
import LendingClaw.Agent.CaptureTheorems
import LendingClaw.Agent.Compact
import LendingClaw.Agent.CompactShared
import LendingClaw.Agent.Events
import LendingClaw.Agent.Flush
import LendingClaw.Agent.HardClear
import LendingClaw.Agent.History
import LendingClaw.Agent.InputGuard
import LendingClaw.Agent.Loop
import LendingClaw.Agent.LoopPairing
import LendingClaw.Agent.LoopSystem
import LendingClaw.Agent.MemoryFlush
import LendingClaw.Agent.MemoryFlushTheorems
import LendingClaw.Agent.Pairing
import LendingClaw.Agent.Pruning
import LendingClaw.Agent.PruningFrame
import LendingClaw.Agent.Repair
import LendingClaw.Agent.Run
import LendingClaw.Agent.RunCallbacks
import LendingClaw.Agent.RunGuard
import LendingClaw.Agent.RunProtocol
import LendingClaw.Agent.Sanitize
import LendingClaw.Agent.SanitizeTheorems
import LendingClaw.Agent.StableJson
import LendingClaw.Agent.Summarize
import LendingClaw.Agent.SummarizeTheorems
import LendingClaw.Agent.Thoughts
import LendingClaw.Agent.ToolLoop
import LendingClaw.Agent.ToolLoopRuns
import LendingClaw.Agent.WholeTurns
import LendingClaw.Http.AgentStream
import LendingClaw.Http.Collections
import LendingClaw.Http.CompletionRelay
import LendingClaw.Http.Completions
import LendingClaw.Http.MembershipTheorems
import LendingClaw.Http.RbacMiddleware
import LendingClaw.Http.Router
import LendingClaw.Http.RouterTheorems
import LendingClaw.Http.Sessions
import LendingClaw.Http.WorkspaceScope
import LendingClaw.Http.Workspaces
import LendingClaw.Knowledge.Crawl
import LendingClaw.Knowledge.Embedding
import LendingClaw.Knowledge.Indexing
import LendingClaw.Knowledge.Search
import LendingClaw.Knowledge.Store
import LendingClaw.Knowledge.SyncStatus
import LendingClaw.Knowledge.SyncTheorems
import LendingClaw.Lib.Balanced
import LendingClaw.Lib.Base64
import LendingClaw.Lib.ByteSpace
import LendingClaw.Lib.Calendar
import LendingClaw.Lib.CodeUnits
import LendingClaw.Lib.Csv
import LendingClaw.Lib.Escapes
import LendingClaw.Lib.Forest
import LendingClaw.Lib.GoQuote
import LendingClaw.Lib.JsText
import LendingClaw.Lib.JsValue
import LendingClaw.Lib.Json
import LendingClaw.Lib.Matcher
import LendingClaw.Lib.Merge
import LendingClaw.Lib.Parties
import LendingClaw.Lib.Paths
import LendingClaw.Lib.Pieces
import LendingClaw.Lib.Ranking
import LendingClaw.Lib.Regex
import LendingClaw.Lib.RegexReplace
import LendingClaw.Lib.Runes
import LendingClaw.Lib.Runs
import LendingClaw.Lib.Snapshots
import LendingClaw.Lib.Strings
import LendingClaw.Lib.Table
import LendingClaw.Lib.Texts
import LendingClaw.Lib.Utf8
import LendingClaw.Lib.Windows
import LendingClaw.Mcp.Interleaving
import LendingClaw.Mcp.InterleavingTheorems
import LendingClaw.Mcp.Manager
import LendingClaw.Mcp.ManagerTheorems
import LendingClaw.Mcp.PermissionKeys
import LendingClaw.Mcp.Secrets
import LendingClaw.Mcp.ServerInv
import LendingClaw.Mcp.TokenRefresh
import LendingClaw.Memory.ChunkLines
import LendingClaw.Memory.DocumentTheorems
import LendingClaw.Memory.Documents
import LendingClaw.Memory.OverlapChunks
import LendingClaw.Memory.OverlapLimits
import LendingClaw.Providers.ChatRequests
import LendingClaw.Providers.MessageJson
import LendingClaw.Providers.OpenAI
import LendingClaw.Providers.OpenAITheorems
import LendingClaw.Providers.Retry
import LendingClaw.Providers.Types
import LendingClaw.Rbac.Adapter
import LendingClaw.Rbac.AdapterTheorems
import LendingClaw.Rbac.Atomicity
import LendingClaw.Rbac.Enforcer
import LendingClaw.Rbac.Management
import LendingClaw.Rbac.Policies
import LendingClaw.Rbac.RoleIdentity
import LendingClaw.Routines.BotPermissions
import LendingClaw.Routines.Cron
import LendingClaw.Routines.FireTokenTheorems
import LendingClaw.Routines.Firing
import LendingClaw.Routines.Schedule
import LendingClaw.Routines.ScheduleTheorems
import LendingClaw.Routines.Service
import LendingClaw.Routines.Store
import LendingClaw.Routines.Upsert
import LendingClaw.Skills.Cache
import LendingClaw.Skills.Discovery
import LendingClaw.Skills.Frontmatter
import LendingClaw.Skills.FrontmatterRoundTrip
import LendingClaw.Skills.RealScores
import LendingClaw.Skills.Refresh
import LendingClaw.Skills.Restriction
import LendingClaw.Skills.Search
import LendingClaw.Store.ConcurrentDelete
import LendingClaw.Store.ConcurrentSaves
import LendingClaw.Store.RoundTrip
import LendingClaw.Store.Sessions
import LendingClaw.Store.SessionsTheorems
import LendingClaw.Store.Workspace
import LendingClaw.Tools.Advertised
import LendingClaw.Tools.IsolationTheorems
import LendingClaw.Tools.Registry
import LendingClaw.Tools.Scrub
import LendingClaw.Tools.ScrubTheorems
import LendingClaw.Tools.Types
import LendingClaw.Ui.Chat
import LendingClaw.Ui.ChatTheorems
import LendingClaw.Ui.Completions
import LendingClaw.Ui.CronText
import LendingClaw.Ui.HtmlEntities
import LendingClaw.Ui.HtmlReport
import LendingClaw.Ui.HtmlText
import LendingClaw.Ui.LoanStatus
import LendingClaw.Ui.MessageSegments
import LendingClaw.Ui.PlannedRuns
import LendingClaw.Ui.ProfitLoss
import LendingClaw.Ui.ReportSpec
import LendingClaw.Ui.ReportTable
import LendingClaw.Ui.ReportTree
import LendingClaw.Ui.RunView
import LendingClaw.Ui.SankeyData
import LendingClaw.Ui.ScheduleEditor
import LendingClaw.Ui.SkillPackage
import LendingClaw.Ui.Sse
