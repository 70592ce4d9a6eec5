import GDNet.Host.Classes
import GDNet.Host.Connecting
import GDNet.Host.EventData

/-!
# Integers on their way into ENet

A script hands over 32-bit integers, and ENet has a byte for a channel, 16 bits
for a port, an unsigned size for the number of peers and 32 unsigned bits for the
data of an event.  The first two conversions forget what does not fit, and nothing
looks at the integer before: only what they leave is compared with the number of
channels.  The last two lose nothing.
-/

namespace GDNet

open Transition

variable {s t : State} {m : Message} {input : WorkerInput} {h h' : ENet.Host} {i : Nat}

/-! ## The conversions -/

section Connecting

variable {c : Connecting} {u w : State}

end Connecting

/-! ## The data of a connection -/

end GDNet
