import MuseCodex.Json.Compact
import MuseCodex.Json.Spacing
import MuseCodex.Json.Size
import MuseCodex.Gateway.Frame
import MuseCodex.Gateway.Failure
import MuseCodex.Gateway.Sequence
import MuseCodex.Gateway.LineEnds
import MuseCodex.Gateway.Fixpoint
import MuseCodex.Zai.Scanners
import MuseCodex.Zai.Validated
import MuseCodex.Zai.Failing
import MuseCodex.Zai.Order
import MuseCodex.Zai.Minimization
import MuseCodex.Zai.Replay
import MuseCodex.Zai.History
import MuseCodex.Zai.CallIds
import MuseCodex.Zai.Texts
import MuseCodex.Zai.Arrival
import MuseCodex.Zai.Agreement
import MuseCodex.Zai.Names
import MuseCodex.Zai.Content
import MuseCodex.Zai.Table
import MuseCodex.Zai.Arithmetic
import MuseCodex.Msp.Session
import MuseCodex.Msp.Correlation
import MuseCodex.Msp.Lines
import MuseCodex.Msp.Limit
import MuseCodex.Launcher.Arguments
import MuseCodex.Launcher.Positions
import MuseCodex.Launcher.Words
import MuseCodex.Launcher.Dispatch
import MuseCodex.Launcher.Routing
import MuseCodex.Launcher.Opacity
import MuseCodex.Transport.Dialects
import MuseCodex.Transport.Namespaces
import MuseCodex.Transport.Grouping
import MuseCodex.Transport.Items
import MuseCodex.Transport.Images
import MuseCodex.Transport.Idempotence
import MuseCodex.Transport.Models
import MuseCodex.Transport.Intersection
import MuseCodex.Transport.Retry
import MuseCodex.Launcher.Ready
import MuseCodex.Launcher.Limits
import MuseCodex.Launcher.Secret
import MuseCodex.Gateway.Outgoing
import MuseCodex.Transport.Refresh
import MuseCodex.Gateway.Exchange
import MuseCodex.Launcher.Startup
import MuseCodex.Msp.Relay
import MuseCodex.Launcher.Profile
import MuseCodex.Launcher.Credentials
