import AsyncBerkeley.WakeUps
import AsyncBerkeley.StaleInterest
import AsyncBerkeley.Exceptions
import AsyncBerkeley.Messages
import AsyncBerkeley.Completions
import AsyncBerkeley.Pointers
import AsyncBerkeley.ExecutionOrder
import AsyncBerkeley.BusyLoops
import AsyncBerkeley.WouldBlock
import AsyncBerkeley.Fairness
import AsyncBerkeley.Connections
import AsyncBerkeley.MessageBuffers
import AsyncBerkeley.Timeouts
import AsyncBerkeley.Addresses
import AsyncBerkeley.InterestMaps
import AsyncBerkeley.TaskQueues
import AsyncBerkeley.SmallFunctors
import AsyncBerkeley.HandleRuns
import AsyncBerkeley.QueueRuns
import AsyncBerkeley.Progress
import AsyncBerkeley.Calls
import AsyncBerkeley.ErrorSources
import AsyncBerkeley.SystemCalls
import AsyncBerkeley.Echoes
import AsyncBerkeley.MainLoop
