import TaskScheduler.Ledger.Continuation
import TaskScheduler.Ledger.Log
import TaskScheduler.Interleave.Replay
import TaskScheduler.Quotas.Containment
import TaskScheduler.Llm.Budget
import TaskScheduler.Actions.EmailSend
import TaskScheduler.Workers.Dispatch
import TaskScheduler.Batch.Poison
import TaskScheduler.Fleet.Retry
import TaskScheduler.Fleet.Recover
import TaskScheduler.Fleet.Written
import TaskScheduler.Tenant.Noninterference
import TaskScheduler.Interleave.Chains
import TaskScheduler.Lifecycle.CompareAndSet
import TaskScheduler.Lifecycle.SettleCheck
import TaskScheduler.Mcp.LatestRun
import TaskScheduler.Mcp.List
import TaskScheduler.Mcp.RecentResults
import TaskScheduler.Migrations.JobState
import TaskScheduler.Connections.Durable
import TaskScheduler.Web.OAuthState
import TaskScheduler.Interleave.Spawning
import TaskScheduler.Config.CronGrammar
import TaskScheduler.Llm.Prompt
import TaskScheduler.Secrets.Resolver
import TaskScheduler.Ratelimit.Checker
import TaskScheduler.Secrets.LiteralDetection
import TaskScheduler.Mcp.TaskCreate
import TaskScheduler.Mcp.Endpoint
import TaskScheduler.Actions.Handler
import TaskScheduler.Actions.Replay
import TaskScheduler.Lib.Calendar
import TaskScheduler.Lib.Digits
import TaskScheduler.Config.DateTime
import TaskScheduler.Domain.TimeBucket
import TaskScheduler.Ics.Parser
import TaskScheduler.Lib.Parts
import TaskScheduler.Lib.Offsets
import TaskScheduler.Ics.Recurrence
import TaskScheduler.Batch.Redelivery
import TaskScheduler.Auth.TokenValidation
import TaskScheduler.Actions.GithubDigest
import TaskScheduler.Python.Loads
import TaskScheduler.Llm.Client
import TaskScheduler.Web.Disconnect
import TaskScheduler.Ledger.Schedule
import TaskScheduler.Interleave.Cursor
import TaskScheduler.Interleave.Schedule
import TaskScheduler.Interleave.Recurring
import TaskScheduler.Lifecycle.Cancel
import TaskScheduler.Fleet.Attempts
import TaskScheduler.Fleet.Leases
import TaskScheduler.Interleave.Lineage
import TaskScheduler.Interleave.DataPlane
import TaskScheduler.Interleave.Final
import TaskScheduler.Interleave.Logs
import TaskScheduler.Interleave.Batch
import TaskScheduler.Ratelimit.Windows
import TaskScheduler.Overload.Limiter
