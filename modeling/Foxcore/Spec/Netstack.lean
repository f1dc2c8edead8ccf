import Foxcore.Lib.System
import Foxcore.Ref.Netstack

/-!
# What the userspace stack promises

The two crates are known by what they document. `Listens` is what smoltcp says of `listen`
on a new socket.

`Bounded` is what the stack holds of anything at a time.

`Genuine` is that a flow is the connection it is taken for. A socket is made for a tuple but
listens on its destination, so this depends on which socket a SYN reaches; `Endpoints` is
what smoltcp documents of that, and `OwnListener` the condition under which all is well.

`Unharmed` is that a live flow is never dropped for want of room in the queue of commands.
The queue has a place for every session the stack may have, and `SendsLive` is that only
sessions take them.
-/

namespace Foxcore.Spec.Netstack

open Lib Ref.Netstack

variable {Socket : Type}

/-- A new socket listens on any endpoint but one with port 0. -/
structure Listens (S : Smoltcp Socket) : Prop where
  refuses : ∀ receiveBytes transmitBytes endpoint,
    S.listen receiveBytes transmitBytes endpoint = none ↔ endpoint.port = 0

/-- A first SYN to port 0 for which everything an admission needs is there. -/
def OpensPortZero (parse : List UInt8 → Option NetworkPacket) (w : Actor Socket)
    (bytes : List UInt8) : Prop :=
  ∃ packet header, parse bytes = some packet ∧ packet.transport = .tcp header ∧
    Actor.opensFlow header = true ∧ packet.networkTuple.dst.port = 0 ∧
    w.tcpFlows.lookup packet.networkTuple = none ∧ w.sessionsFull = false ∧
    w.mayAdmit packet.networkTuple = true

/-- A session that has not been published counts once. -/
def unpublished (session : TcpSession) : Nat := if session.published then 0 else 1

structure Bounded (w : Actor Socket) : Prop where
  charged : w.tcpMemoryBytes = HashMap.total TcpSession.memoryBytes w.tcpFlows
  budget : w.tcpMemoryBytes ≤ tcpMemoryBudgetBytes
  tcpSessions : w.tcpFlows.len ≤ w.config.maxTcpSessions
  sessions : w.tcpFlows.len + w.udpSessions.len ≤ w.config.maxSessions
  ingress : w.ingress.length ≤ packetQueueDepth
  egress : w.egress.length ≤ packetQueueDepth
  /-- A session has a permit exactly until it is published. -/
  owns : ∀ tuple session, w.tcpFlows.lookup tuple = some session →
    session.acceptPermit = !session.published
  /-- There are no other permits, and none is shared. -/
  permits : w.accept.permits = HashMap.total unpublished w.tcpFlows
  /-- A UDP session has one task, and it is its own. -/
  task : ∀ tuple serial, w.udpSessions.lookup tuple = some serial →
    (w.sessionTasks.filter fun task => task.tuple = tuple).map SessionTask.serial = [serial]
  /-- A task, finished or not, is of the session that its tuple has now. -/
  current : ∀ task ∈ w.sessionTasks, w.udpSessions.lookup task.tuple = some task.serial

/-- An operation that makes no connection: endpoints stay as they are or are cleared. -/
structure Keeps (S : Smoltcp Socket) (socket next : Socket) : Prop where
  connection : S.remoteEndpoint next = none ∨
    S.remoteEndpoint next = S.remoteEndpoint socket ∧
      S.localEndpoint next = S.localEndpoint socket
  listening : S.listenEndpoint next = none ∨ S.listenEndpoint next = S.listenEndpoint socket

structure Endpoints (S : Smoltcp Socket) : Prop where
  listen : ∀ {receiveBytes transmitBytes endpoint socket},
    S.listen receiveBytes transmitBytes endpoint = some socket →
      S.remoteEndpoint socket = none ∧ S.listenEndpoint socket = some endpoint
  established : ∀ {socket}, S.state socket = .established → S.remoteEndpoint socket ≠ none
  abort : ∀ socket, Keeps S socket (S.abort socket)
  close : ∀ socket, Keeps S socket (S.close socket)
  recv : ∀ {socket n bytes next}, S.recvSlice socket n = some (bytes, next) →
    Keeps S socket next
  send : ∀ {socket bytes n next}, S.sendSlice socket bytes = some (n, next) →
    Keeps S socket next
  dispatch : ∀ socket now, Keeps S socket (S.dispatch socket now).1
  /-- A listening socket takes any SYN without ACK to where it listens. -/
  takes : ∀ {socket segment}, S.state socket = .listen →
    S.listenEndpoint socket = some segment.dst → segment.header.syn = true →
    segment.header.ack = false → S.accepts socket segment = true
  /-- Such a SYN connects it to its sender; any other segment makes no connection. -/
  process : ∀ {socket segment} now, S.accepts socket segment = true →
    Keeps S socket (S.process socket now segment).1 ∨
      (S.state socket = .listen ∧ S.listenEndpoint socket = some segment.dst ∧
        segment.header.syn = true ∧ segment.header.ack = false ∧
        S.remoteEndpoint (S.process socket now segment).1 = some segment.src ∧
        S.localEndpoint (S.process socket now segment).1 = some segment.dst ∧
        (S.listenEndpoint (S.process socket now segment).1 = none ∨
          S.listenEndpoint (S.process socket now segment).1 = S.listenEndpoint socket))

structure Genuine (S : Smoltcp Socket) (w : Actor Socket) : Prop where
  /-- What was published was, at that moment, the connection it says it is. -/
  published : ∀ publication ∈ w.publications,
    publication.localEndpoint = some publication.tuple.dst ∧
      publication.remoteEndpoint = some publication.tuple.src
  /-- And the socket of a session is never another connection. -/
  connected : ∀ tuple session socket remote, w.tcpFlows.lookup tuple = some session →
    getSocket w.sockets session.handle = some socket → S.remoteEndpoint socket = some remote →
    remote = tuple.src ∧ S.localEndpoint socket = some tuple.dst

def firstListener (S : Smoltcp Socket) (sockets : List (Option Socket)) (endpoint : SocketAddr) :
    Option Nat :=
  sockets.findIdx? fun slot =>
    match slot with
    | some socket => decide (S.state socket = .listen ∧ S.listenEndpoint socket = some endpoint)
    | none => false

/-- If the packet is a valid SYN without ACK, the lowest slot that listens on its
destination, if there is one, is that of the SYN's own session. -/
def FindsOwn (S : Smoltcp Socket) (parse : List UInt8 → Option NetworkPacket) (w : Actor Socket)
    (packet : IngressPacket) : Prop :=
  ∀ segment ∈ Actor.segmentOf parse packet, S.valid packet.bytes = true →
    segment.header.syn = true → segment.header.ack = false →
    ∀ slot ∈ firstListener S w.sockets segment.dst,
      ∃ session ∈ w.tcpFlows.lookup packet.tuple, session.handle = slot

instance FindsOwn.decidable (S : Smoltcp Socket) (parse : List UInt8 → Option NetworkPacket)
    (w : Actor Socket) (packet : IngressPacket) : Decidable (FindsOwn S parse w packet) :=
  inferInstanceAs (Decidable (∀ segment ∈ _, _ → _ → _ → ∀ slot ∈ _, ∃ session ∈ _, _))

/-- The packet that the actor is about to hand to smoltcp. -/
def nextDelivery (w : Actor Socket) : Actor.Action → Option IngressPacket
  | .advance _ =>
    match w.stage with
    | .receiving (_ + 1) => w.ingress.head?
    | _ => none
  | _ => none

/-- What is delivered finds its own listener. -/
def OwnListener (S : Smoltcp Socket) (parse : List UInt8 → Option NetworkPacket)
    (w : Actor Socket) (a : Actor.Action) : Prop :=
  ∀ packet ∈ nextDelivery w a, FindsOwn S parse w packet

instance OwnListener.decidable (S : Smoltcp Socket) (parse : List UInt8 → Option NetworkPacket)
    (w : Actor Socket) (a : Actor.Action) : Decidable (OwnListener S parse w a) :=
  inferInstanceAs (Decidable (∀ packet ∈ nextDelivery w a, FindsOwn S parse w packet))

/-- The flow has a session. -/
def Live (w : Actor Socket) (id : Nat) : Prop :=
  ∃ session ∈ w.tcpFlows.values, session.control = id

instance Live.decidable (w : Actor Socket) (id : Nat) : Decidable (Live w id) :=
  inferInstanceAs (Decidable (∃ session ∈ w.tcpFlows.values, session.control = id))

structure Unharmed (w : Actor Socket) : Prop where
  /-- A call on a live flow that is about to send its command finds room. -/
  room : ∀ id ∈ w.sending, Live w id → w.commands.length < w.config.maxTcpSessions
  /-- Only dropping a `TcpFlow` sets the flag of a live session. -/
  dropped : ∀ id flow, w.flows[id]? = some flow → Live w id → flow.control.dropped = true →
    flow.gone = true

/-- A command is sent for a flow that has a session. -/
def SendsLive (w : Actor Socket) (a : Actor.Action) : Prop :=
  ∀ id ∈ w.sending, a = .send id → Live w id

instance SendsLive.decidable (w : Actor Socket) (a : Actor.Action) : Decidable (SendsLive w a) :=
  inferInstanceAs (Decidable (∀ id ∈ w.sending, a = .send id → Live w id))

end Foxcore.Spec.Netstack
