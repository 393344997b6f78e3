import Pydeno.Wire.Budgets
import Pydeno.Isolated.Deadline
import Pydeno.Isolated.Frames
import Pydeno.Isolated.Commands
import Pydeno.Isolated.ToolDeadline
import Pydeno.Isolated.ToolProcess
import Pydeno.Isolated.Authority
import Pydeno.Workers.Capacity
import Pydeno.Workers.SingleUse
import Pydeno.Sessions.Rollback
import Pydeno.Sessions.Drops
import Pydeno.Gates.Algebra
import Pydeno.Gates.Threads
import Pydeno.Runtime.Buffers
import Pydeno.Runtime.Watchdog
import Pydeno.Runtime.Handles
import Pydeno.HttpFetch.Policy
import Pydeno.Schema.Definitions
import Pydeno.Runtime.Ops
import Pydeno.Runtime.Loader
import Pydeno.Wire.Strings
import Pydeno.Scanner.Spellings
import Pydeno.Runtime.Transfer
import Pydeno.Runtime.ToPython
import Pydeno.Runtime.Termination
import Pydeno.Runtime.JobQueue
import Pydeno.Agent.Capture
import Pydeno.Agent.Limiter
import Pydeno.Agent.Gate
