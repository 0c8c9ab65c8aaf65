import OpenSpoke.Lib.Lts
import OpenSpoke.Lib.Registry
import OpenSpoke.Lib.Totals
import OpenSpoke.Lib.Pipe
import OpenSpoke.Lib.Document
import OpenSpoke.Tunnel.Server.Connected
import OpenSpoke.Tunnel.Server.Closing
import OpenSpoke.Tunnel.Server.Handover
import OpenSpoke.Tunnel.Server.Accounting
import OpenSpoke.Tunnel.Server.Proxy
import OpenSpoke.Tunnel.Stream.Lossless
import OpenSpoke.Spawn.Terminal
import OpenSpoke.Spawn.Cancel
import OpenSpoke.GitPathSync.Branches
import OpenSpoke.GitPathSync.Confine
import OpenSpoke.GitPathSync.Predicted
import OpenSpoke.Spawn.Talk
import OpenSpoke.Scheduler.Exclusive
import OpenSpoke.Scheduler.Updates
import OpenSpoke.Handoff.Policy
import OpenSpoke.Kubeconfig.Manual
import OpenSpoke.Kubeconfig.Rewritten
import OpenSpoke.GitTokens.Hosts
import OpenSpoke.Projects.Serial
import OpenSpoke.Valkey.Pairing
import OpenSpoke.Tunnel.Server.Refusal
import OpenSpoke.Mcp.EventStore
import OpenSpoke.Mcp.Replay
import OpenSpoke.Rag.Isolation
import OpenSpoke.Ci.Dispatch
import OpenSpoke.Ci.Bump
import OpenSpoke.Mcp.Caller
import OpenSpoke.Mcp.Lifetime
import OpenSpoke.Mcp.UserAcl
import OpenSpoke.GitHub.Branch
import OpenSpoke.GitHub.Undo
import OpenSpoke.Hub.Confined
import OpenSpoke.Hub.Scope
import OpenSpoke.Hub.Migration
import OpenSpoke.Hub.Writers
import OpenSpoke.Credentials.Kept
import OpenSpoke.Accounts.GitHub
import OpenSpoke.Accounts.GitLab
import OpenSpoke.Hub.Published
import OpenSpoke.Chat.Ordered
import OpenSpoke.Chat.Chunks
import OpenSpoke.Chat.Window
import OpenSpoke.Lib.Rounds
import OpenSpoke.Chat.Turn
import OpenSpoke.Chat.Transcript
import OpenSpoke.Chat.Costs
import OpenSpoke.Knowledge.Atomic
import OpenSpoke.Migrate.Complete
import OpenSpoke.Knowledge.Pushed
import OpenSpoke.Spawn.Serials
import OpenSpoke.Tunnel.Client.Backoff
import OpenSpoke.Handoff.Tags
import OpenSpoke.Handoff.Topics
import OpenSpoke.Spawn.References
import OpenSpoke.Rag.Resolved
import OpenSpoke.Tunnel.SpokesSound
import OpenSpoke.Tunnel.Transparent
import OpenSpoke.Rag.Fused
import OpenSpoke.Valkey.Reconnect
import OpenSpoke.Rag.Chunks
import OpenSpoke.Rag.SemanticCache
import OpenSpoke.Hub.NodesAggregated
import OpenSpoke.GitHub.Move
import OpenSpoke.GitHub.SymbolEdit
import OpenSpoke.GitHub.LineNumbers
import OpenSpoke.GitHub.StrReplace
import OpenSpoke.Credentials.Fleet
import OpenSpoke.Hub.NodeOrphans
import OpenSpoke.Chat.TopicSearch
import OpenSpoke.Kubeconfig.Listings
import OpenSpoke.Tunnel.Correlated
import OpenSpoke.Lib.Regex
import OpenSpoke.Lib.Url
import OpenSpoke.Relay.Confined
