import GaHub.Lib.Dict
import GaHub.Lib.Machine
import GaHub.Lib.Slots
import GaHub.Conductor
import GaHub.Conductor.Wire
import GaHub.Conductor.Tracker
import GaHub.Conductor.Steps
import GaHub.Conductor.Projection
import GaHub.Conductor.Owners
import GaHub.Conductor.Calls
import GaHub.Conductor.Rollback
import GaHub.Conductor.Restart
import GaHub.Conductor.Frozen
import GaHub.Conductor.Completion
import GaHub.Conductor.Bodies
import GaHub.Conductor.Reopen
import GaHub.Conductor.Tables
import GaHub.Conductor.Recovery
import GaHub.Conductor.Recovery.Records
import GaHub.Conductor.Recovery.Deletion
import GaHub.Conductor.Recovery.Poison
import GaHub.Conductor.Recovery.Replay
import GaHub.Conductor.Recovery.Resume
import GaHub.Conductor.Commands
import GaHub.Conductor.Commands.Rows
import GaHub.Conductor.Commands.Shifts
import GaHub.Conductor.Commands.Submit
import GaHub.Conductor.Commands.Boots
import GaHub.Conductor.Commands.Delivery
import GaHub.Conductor.Commands.Outcomes
import GaHub.EventBus
import GaHub.EventBus.Replay
import GaHub.EventBus.Live
import GaHub.EventBus.Live.Invariant
import GaHub.EventBus.Live.Theorems
import GaHub.Sessions
import GaHub.Sessions.Calls
import GaHub.Sessions.Steps
import GaHub.Sessions.Admission
import GaHub.Lib.Log
import GaHub.Sessions.Ownership
import GaHub.Sessions.Creation
import GaHub.Sessions.Install
import GaHub.Sessions.Abort
import GaHub.Sessions.AbortWindow
import GaHub.Sessions.Slots
import GaHub.Sessions.Shutdown
import GaHub.Sessions.Conclusion
import GaHub.Lib.Lists
import GaHub.Lib.Distinct
import GaHub.Lib.Carry
import GaHub.Chat
import GaHub.Chat.Archive
import GaHub.Chat.Order
import GaHub.Chat.Merge
import GaHub.Chat.Pages
import GaHub.Chat.Reducer
import GaHub.Chat.Terminal
import GaHub.Transport
import GaHub.Transport.Lifetime
import GaHub.Streams.Retry
import GaHub.Streams
import GaHub.Streams.Steps
import GaHub.Streams.Chain
import GaHub.Streams.Origin
import GaHub.Streams.Completion
import GaHub.Streams.Consumers
import GaHub.Streams.Stop
import GaHub.Lib.Text
import GaHub.Lib.Json
import GaHub.Lib.Program
import GaHub.Scheduled
import GaHub.Scheduled.Dispatch
import GaHub.Memory
import GaHub.Memory.Saves
import GaHub.Remote.Worker
import GaHub.Remote.Pairing
import GaHub.Remote.Cookie
import GaHub.Remote.Submissions
import GaHub.Remote.Creations
import GaHub.Remote.Forwards
import GaHub.Remote.Posts
import GaHub.Remote.AtMostOnce
import GaHub.Remote.Progress
import GaHub.Remote.Subscribers
import GaHub.Remote.Artifacts
import GaHub.Remote.Capabilities
import GaHub.Remote.Routes
import GaHub.Remote.Handle
import GaHub.Remote.Authority
import GaHub.Remote.Sockets
import GaHub.Lib.Paging
import GaHub.Archive
import GaHub.Archive.Window
import GaHub.Archive.Headers
import GaHub.Archive.Marks
import GaHub.Archive.Decode
import GaHub.Archive.Rounds
import GaHub.Archive.Index
import GaHub.Conductor.Generations
import GaHub.Archive.Identity
import GaHub.Desktop
import GaHub.Desktop.Steps
import GaHub.Desktop.Holders
import GaHub.Desktop.Isolation
import GaHub.Desktop.Exit
import GaHub.Transfer.Import
import GaHub.Lib.Sorted
import GaHub.Page
import GaHub.Page.Snapshots
import GaHub.Page.Activity
import GaHub.Page.History
import GaHub.Conductor.Mirror
import GaHub.Chat.Turns
import GaHub.Chat.Regroup
import GaHub.Chat.Frames
import GaHub.Lib.Regex
import GaHub.Chat.Transcript
import GaHub.Chat.Boundaries
import GaHub.Chat.Tiling
import GaHub.Chat.Protect
import GaHub.Chat.Cursors
import GaHub.Retry
import GaHub.Drafts
import GaHub.Desktop.Sweep
import GaHub.Schedules.Stores
import GaHub.Schedules.Lifecycle
import GaHub.Rewind
import GaHub.GoalHive.Tasks
import GaHub.Lib.Routine
import GaHub.Restore
import GaHub.Remote.Throttle
import GaHub.WeChat.Media
import GaHub.Memory.Skills
import GaHub.Engine
import GaHub.Config
import GaHub.Children
import GaHub.Lib.Forest
import GaHub.Citations
import GaHub.Lib.Pieces
import GaHub.WeChat.Relay
import GaHub.Archive.Encode
import GaHub.Lib.Rows
import GaHub.Feishu
import GaHub.Lib.Bisect
import GaHub.Page.Virtual
import GaHub.Archive.Search
import GaHub.FileTail
import GaHub.Streams.Projection
import GaHub.Lib.CommandLine
import GaHub.Engine.Shell
import GaHub.Lib.Calendar
import GaHub.Lib.Tally
import GaHub.Tokens
import GaHub.Tokens.Conservation
import GaHub.Lib.Mirror
import GaHub.Streams.Fanout
import GaHub.Lib.CachedFile
import GaHub.SessionMetadata
