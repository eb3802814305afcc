import Pacing.Packet
import Pacing.Budget
import Pacing.Sender
import Pacing.Methods
import Pacing.System
import Pacing.Flags
import Pacing.Budgets
import Pacing.Queues
import Pacing.Priority
import Pacing.Window
import Pacing.Padding
import Pacing.MediaRate
import Pacing.Burst
import Pacing.Drain
import Pacing.Capture
