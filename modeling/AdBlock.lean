import AdBlock.Blocker.Basic
import AdBlock.Blocker.Closing
import AdBlock.Blocker.DisabledLists
import AdBlock.Blocker.Fetch
import AdBlock.Blocker.Headers
import AdBlock.Blocker.Names
import AdBlock.Blocker.Page
import AdBlock.Blocker.Procedural
import AdBlock.Blocker.Redirects
import AdBlock.Blocker.Rewrite
import AdBlock.Blocker.Runtimes
import AdBlock.Blocker.Splice
import AdBlock.Curation.Accounts
import AdBlock.Curation.Append
import AdBlock.Curation.Backing
import AdBlock.Curation.Basic
import AdBlock.Curation.Durability
import AdBlock.Curation.EngineInUse
import AdBlock.Curation.Install
import AdBlock.Curation.ListFile
import AdBlock.Curation.Names
import AdBlock.Curation.Order
import AdBlock.Curation.Reconcile
import AdBlock.Curation.Refresh
import AdBlock.Curation.Restart
import AdBlock.Curation.Sanitize
import AdBlock.Curation.ScriptletFile
import AdBlock.Curation.Startup
import AdBlock.Curation.Store
import AdBlock.Curation.Twice
import AdBlock.Cursor.Basic
import AdBlock.Dns.AddedUpstream
import AdBlock.Dns.Answers
import AdBlock.Dns.Balance
import AdBlock.Dns.Cache
import AdBlock.Dns.CacheRuns
import AdBlock.Dns.Commands
import AdBlock.Dns.Concurrency
import AdBlock.Dns.Dot
import AdBlock.Dns.Durability
import AdBlock.Dns.Handle
import AdBlock.Dns.Message
import AdBlock.Dns.Replies
import AdBlock.Dns.Resolver
import AdBlock.Dns.RewriteMatching
import AdBlock.Dns.RewriteStore
import AdBlock.Dns.Rewrites
import AdBlock.Dns.Service
import AdBlock.Dns.Settings
import AdBlock.Dns.Upstream
import AdBlock.Domain.Basic
import AdBlock.Engine.Build
import AdBlock.Engine.Cache
import AdBlock.Engine.CacheFile
import AdBlock.Files.Basic
import AdBlock.Files.Folders
import AdBlock.Framing.Basic
import AdBlock.Http.Headers
import AdBlock.Journal.Basic
import AdBlock.Json.Basic
import AdBlock.Json.Cut
import AdBlock.Json.Escape
import AdBlock.Json.Lexer
import AdBlock.Json.Parser
import AdBlock.Json.Reading
import AdBlock.Json.Same
import AdBlock.Json.Serde
import AdBlock.Json.Struct
import AdBlock.Json.Value
import AdBlock.Listener.InEffect
import AdBlock.Listener.Overrides
import AdBlock.Listener.Runtime
import AdBlock.Lru.Basic
import AdBlock.Lru.Retrieval
import AdBlock.Persist.Lines
import AdBlock.Persist.Merged
import AdBlock.Persist.Overrides
import AdBlock.Persist.Reload
import AdBlock.Persist.Shared
import AdBlock.Process.Basic
import AdBlock.Process.Calls
import AdBlock.Process.Environment
import AdBlock.Process.Exclusive
import AdBlock.Process.Fallible
import AdBlock.Process.Rely
import AdBlock.Process.Seen
import AdBlock.Process.System
import AdBlock.Proxy.ActiveCert
import AdBlock.Proxy.Blackhole
import AdBlock.Proxy.Capture
import AdBlock.Proxy.Certs
import AdBlock.Proxy.Checkout
import AdBlock.Proxy.Connect
import AdBlock.Proxy.Egress
import AdBlock.Proxy.ExclusionReload
import AdBlock.Proxy.Exclusions
import AdBlock.Proxy.Forward
import AdBlock.Proxy.HttpClient
import AdBlock.Proxy.Pool
import AdBlock.Proxy.Settings
import AdBlock.Proxy.Upstream
import AdBlock.Rotation.Basic
import AdBlock.Rust.Ascii
import AdBlock.Rust.Bytes
import AdBlock.Rust.Lower
import AdBlock.Rust.Net
import AdBlock.Rust.NetChars
import AdBlock.Rust.NetText
import AdBlock.Rust.Search
import AdBlock.Rust.Slice
import AdBlock.Rust.Spaced
import AdBlock.Rust.Text
import AdBlock.Rust.Unicode
import AdBlock.Rust.Utf8
import AdBlock.Stats.Calls
import AdBlock.Stats.Capture
import AdBlock.Stats.Clock
import AdBlock.Stats.Decode
import AdBlock.Stats.Details
import AdBlock.Stats.Errors
import AdBlock.Stats.Exclude
import AdBlock.Stats.ExcludeReload
import AdBlock.Stats.History
import AdBlock.Stats.HistoryWindow
import AdBlock.Stats.Ledger
import AdBlock.Stats.LogRotation
import AdBlock.Stats.Logs
import AdBlock.Stats.Paging
import AdBlock.Stats.Records
import AdBlock.Stats.Resume
import AdBlock.Stats.Retention
import AdBlock.Stats.Series
import AdBlock.Stats.SharedState
import AdBlock.Stats.Traffic
import AdBlock.Uri.Basic
import AdBlock.Uri.Characters
import AdBlock.Uri.Resolution
import AdBlock.Uri.Splitting
import AdBlock.Web.Query
import AdBlock.Weights.Basic
import AdBlock.Window.Basic
