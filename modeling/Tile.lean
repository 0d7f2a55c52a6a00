import Tile.Runtime.Sessions
import Tile.Runtime.Conversation
import Tile.Runtime.CallIds
import Tile.Library.AsyncEvent
import Tile.Library.Output
import Tile.ToolExecutor
import Tile.Tools.EditFrame
import Tile.Tools.EditAgree
import Tile.Tools.EditDiff
import Tile.Tools.Files
import Tile.Tools.Support.OutputTail
import Tile.Tools.Read
import Tile.Tools.SearchOutput
import Tile.Providers.OpenAI.ToolCalls
import Tile.Providers.OpenAI.Replay
import Tile.Providers.OpenAI.WellFormed
import Tile.Providers.OpenAI.Transport
import Tile.Runtime.Sendable
import Tile.Prompt
import Tile.Runtime.Harness
import Tile.Runtime.Subscribers
import Tile.Runtime.Durability
import Tile.Runtime.RunLog
import Tile.Runtime.Nesting
import Tile.Runtime.ResultContract
import Tile.Store.Opening
import Tile.Store.Recovery
import Tile.Store.RoundTrip
import Tile.Store.Errors
import Tile.Store.Timestamps
import Tile.Store.Columns
import Tile.Tools.Support.DimensionNote
import Tile.Tools.BashAnswer
import Tile.Tools.ReadEdit
import Tile.Tools.SearchTools
import Tile.Tools.Ls
