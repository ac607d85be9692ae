import RaspikeArt.Lifetime.Descriptor
import RaspikeArt.Protocol.Shutdown
import RaspikeArt.Protocol.Completions
import RaspikeArt.Protocol.Correlation
import RaspikeArt.Protocol.Sessions
import RaspikeArt.Transport.Order
import RaspikeArt.Transport.Once
import RaspikeArt.Transport.Apart
import RaspikeArt.Transport.Unsent
import RaspikeArt.Transport.Stream
import RaspikeArt.Protocol.Updates
import RaspikeArt.Protocol.Rejected
import RaspikeArt.Protocol.Hello
import RaspikeArt.Protocol.Failed
import RaspikeArt.Protocol.Canonical
import RaspikeArt.Protocol.Priority
import RaspikeArt.Protocol.Limit
import RaspikeArt.Transport.Bounds
import RaspikeArt.Devices.OneType
import RaspikeArt.Checksum.Division
import RaspikeArt.Protocol.Wraparound
import RaspikeArt.Transport.Skipped
import RaspikeArt.Locks.Deadlock
import RaspikeArt.Devices.Power
import RaspikeArt.Status.ModeRead
import RaspikeArt.Devices.Answers
import RaspikeArt.Devices.Granted
import RaspikeArt.Devices.HandedOut
import RaspikeArt.Status.Atomic
