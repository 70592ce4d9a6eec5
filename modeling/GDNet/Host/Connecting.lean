import GDNet.Host.Exclusion
import GDNet.Host.Slots

/-!
# The steps of a `connect`

`connect` looks for a free slot in one step and takes it in another, and the host
thread goes on between the steps as if the game thread were not there: `connect` holds
no mutex.  Here a whole call is one run, with what the host thread does in it, and
`connect_returns` and `connect_runs` say when it comes back with a peer.
-/

namespace GDNet

open Transition

variable {s t u w : State} {p : PeerPtr}

/-! ## Steps of the host thread alone -/

/-- A call of `connect`: its arguments, what the environment decides about its steps, and
what the host thread does before and after the search for a slot. -/
structure Connecting where
  addr : NetAddress
  data : Int
  starts : Env := {}
  searches : Env := {}
  claims : Env := {}
  before : List WorkerInput := []
  after : List WorkerInput := []

namespace Connecting

def steps (c : Connecting) : List Action :=
  .game (.call (.connect (some c.addr) c.data) c.starts) ::
    (c.before.map .worker ++ .game (.go c.searches) ::
      (c.after.map .worker ++ [.game (.go c.claims)]))

/-- The arguments of `enet_host_connect`, for what the host name resolves to. -/
def args (c : Connecting) (host : UInt32) : ConnectArgs :=
  ⟨⟨host, UInt16.ofInt c.addr.port⟩, c.data⟩

/-- The slot that the search has found is taken. -/
def claim (c : Connecting) (w : World) (h : ENet.Host) (i : Nat) (host : UInt32) :
    Option ENet.Host :=
  ENet.hostConnectClaim h i (c.args host).address (UInt64.ofInt w.host.maxChannels).toNat
    (UInt32.ofInt c.data) c.claims.channels c.claims.allocates

end Connecting

variable {c : Connecting} {args : ConnectArgs} {i : Nat} {env : Env} {as : List Action}

/-- The thread at the start of a call. -/
def State.starting (s : State) : Game := { s.game with since := s.world.session }

/-- A `connect` that returns a peer has found a free slot in a bound host and taken it. -/
structure Connecting.Returns (c : Connecting) (s u w t : State) (host : UInt32) (h g : ENet.Host)
    (i : Nat) : Prop where
  bound : s.enet.isSome = true
  resolves : c.starts.resolves = some host
  found : u.enet.bind ENet.hostConnectSearch = some i
  enet : w.enet = some h
  claims : c.claim w.world h i host = some g
  peer : t = ⟨w.world.setENet g, (s.starting.obtain ⟨w.world.session, i⟩).goto .idle⟩

end GDNet
