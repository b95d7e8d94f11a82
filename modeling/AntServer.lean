import AntServer.Lib.Machine
import AntServer.Lib.Table
import AntServer.Lib.LinearGrid
import AntServer.Lib.Mailbox
import AntServer.Lib.Lease
import AntServer.Lib.WriteBack
import AntServer.Lib.Replica
import AntServer.Lua
import AntServer.LuaString
import AntServer.LuaNumber
import AntServer.Lib.Bisection
import AntServer.LowerBound
import AntServer.Common.MongodbPool
import AntServer.Common.Mongodb
import AntServer.Common.RedisPool
import AntServer.Common.Routing
import AntServer.Game.Messages
import AntServer.Game.Gated
import AntServer.Game.HubSlave
import AntServer.Game.Hubd
import AntServer.Game.AgentPool
import AntServer.Game.System
import AntServer.Game.Reaction
import AntServer.Game.Tables
import AntServer.Game.AgentExclusive
import AntServer.Game.OneAgent
import AntServer.Game.Handshake
import AntServer.Game.Logout
import AntServer.Game.Rejected
import AntServer.Game.Client
import AntServer.Login.LoginMaster
import AntServer.Login.Exclusivity
import AntServer.Lib.KeyedLock
import AntServer.Lib.Base64
import AntServer.Login.LoginServer
import AntServer.Login.LoginLock
import AntServer.Login.Verdict
import AntServer.Login.Token
import AntServer.Agent.Mods
import AntServer.Agent.Commands
import AntServer.Agent.RoleFlow
import AntServer.Agent.SaveFlow
import AntServer.Agent.ChangeDetection
import AntServer.Agent.HashOrder
import AntServer.Battle.PendingCommnads
import AntServer.Battle.Delivery
import AntServer.Battle.ConfirmedCommands
import AntServer.Battle.LockStep
import AntServer.Scene.Aoi
import AntServer.Scene.AoiUpdate
import AntServer.Scene.Resolve
import AntServer.Scene.Cells
import AntServer.Scene.Registry
import AntServer.Scene.Commit
import AntServer.Scene.Neighbourhood
import AntServer.Scene.Messages
import AntServer.Scene.World
import AntServer.Scene.Calls
import AntServer.Scene.Contents
import AntServer.Scene.Strategies
import AntServer.Scene.View
import AntServer.Scene.Index
import AntServer.Transaction.Transactiond
import AntServer.Transaction.Lock
import AntServer.Transaction.Services
import AntServer.Transaction.Isolation
import AntServer.Lib.Ring
import AntServer.Lib.Buckets
import AntServer.WebSocket.Netpack
import AntServer.WebSocket.Connection
import AntServer.WebSocket.Frames
import AntServer.WebSocket.Pack
import AntServer.WebSocket.Stream
import AntServer.WebSocket.Delivery
import AntServer.WebSocket.Resumed
import AntServer.WebSocket.Safety
import AntServer.WebSocket.Close
import AntServer.WebSocket.GateserverWs
import AntServer.WebSocket.Handover
import AntServer.WebSocket.Headers
import AntServer.Lib.Schedule
import AntServer.SkynetApi.SkynetTimer
import AntServer.SkynetApi.Firing
import AntServer.SkynetApi.Loops
import AntServer.SkynetApi.SkynetTimermgr
import AntServer.Lib.Calendar
import AntServer.SkynetApi.SkynetSchedule
import AntServer.SkynetApi.SkynetDataBinding
import AntServer.SkynetApi.Watchers
import AntServer.SkynetApi.SkynetEventDispatcher
import AntServer.Battle.Battled
import AntServer.Battle.Join
import AntServer.Battle.Authentication
import AntServer.Battle.SessionIds
import AntServer.Battle.RollingAverage
import AntServer.Battle.AverageBounds
import AntServer.Battle.FrameRate
import AntServer.Battle.ProcessCommands
import AntServer.Battle.Cadence
import AntServer.Battle.Readiness
import AntServer.Lib.Decimal
import AntServer.Game.MaxUin
import AntServer.Game.UniqueUins
import AntServer.Game.TokenExpiry
import AntServer.Game.Driven
import AntServer.Game.FailedHandshake
import AntServer.Game.Gateserver
import AntServer.Game.Bookkeeping
import AntServer.Lib.Comp
import AntServer.Behavior3.Nodes
import AntServer.Behavior3.BehaviorTree
import AntServer.Behavior3.Forest
import AntServer.Behavior3.OpenNodes
import AntServer.Behavior3.StatusClosure
import AntServer.Behavior3.Executions
import AntServer.Behavior3.Resumption
import AntServer.Behavior3.Repetition
import AntServer.Lib.Framing
import AntServer.Lib.SerialNumber
import AntServer.Lib.LossyChannel
import AntServer.Rudp.Rudp
import AntServer.Rudp.Segments
import AntServer.Rudp.Packaging
import AntServer.Rudp.Endpoint
import AntServer.Rudp.Link
import AntServer.Lib.Links
import AntServer.Crab.Table
import AntServer.Crab.NewKey
import AntServer.Crab.Insert
import AntServer.Lib.Masking
import AntServer.Crab.Dict
import AntServer.Crab.Filter
import AntServer.Crab.Utf8
import AntServer.Crab.WordCrab
import AntServer.Lib.BulkStrings
import AntServer.Common.Redisbackup
import AntServer.Common.Restoring
import AntServer.Common.Answers
import AntServer.Lib.WatchedSets
import AntServer.Lib.UniqueIndex
import AntServer.Entitas.Context
import AntServer.Entitas.Lifecycle
import AntServer.Entitas.Matching
import AntServer.Entitas.Groups
import AntServer.Entitas.PrimaryEntityIndex
import AntServer.Entitas.Collector
import AntServer.Entitas.MatcherCache
