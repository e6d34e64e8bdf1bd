import SequoiaIpc.Core
import SequoiaIpc.Cookie
import SequoiaIpc.Net.Addr
import SequoiaIpc.Net.Parser
import SequoiaIpc.Net.RoundTrip
import SequoiaIpc.CookieFile
import SequoiaIpc.Record
import SequoiaIpc.RecordFormat
import SequoiaIpc.Server.Context
import SequoiaIpc.Server.ServeLoop
import SequoiaIpc.Protocol.System
import SequoiaIpc.Protocol.Step
import SequoiaIpc.Protocol.Invariant
import SequoiaIpc.Protocol.Serve
import SequoiaIpc.Protocol.Authentication
import SequoiaIpc.Protocol.Launch
import SequoiaIpc.Protocol.Policy
import SequoiaIpc.Protocol.Liveness
import SequoiaIpc.Protocol.Restart
import SequoiaIpc.Protocol.Recovery
import SequoiaIpc.Protocol.Private
import SequoiaIpc.Protocol.Agreement
import SequoiaIpc.Protocol.Completion
import SequoiaIpc.Protocol.Exit
