import Foxcore.Lib.HashMap
import Foxcore.Ref.Net

/-!
# The userspace stack

One actor owns the tun device's queues, the sockets of smoltcp and the tables of sessions.
It goes round a loop of stages (`Stage`); applications, the writer of the device and the
acceptor of flows act between any two of its steps.

Two crates are parameters. `etherparse` is a function that parses a packet. `smoltcp` is a
record of the operations the actor uses (`Smoltcp`), over any type of sockets; the
interface itself is small enough to be written out: it offers a segment to the sockets in
the order of their slots, and gives a new socket the first free one. A socket answers a
segment or a poll with at most one packet. Both crates read the same endpoints from a
packet.

A `TcpFlow` and the control block it shares with its session are one entry of `flows`, and
its index stands for the `Arc`. A call may come from the application at any time, also on
a flow the actor still holds. `schedule` swaps a flag and then sends a command; the actor may
act before each of the two, so a call that is to schedule its flow waits in `pending` and
then in `sending`. Wakers, and what a UDP flow carries, are left out.
-/

namespace Foxcore.Ref.Netstack

open Lib

def packetQueueDepth : Nat := 256
def tcpCommandsPerTick : Nat := 64
def tcpPacketsPerTick : Nat := 32
def tcpEgressPollsPerTick : Nat := 32
def tcpFlowsPerTick : Nat := 64
def tcpMemoryBudgetBytes : Nat := 64 * 1024 * 1024
def maxTunReadErrors : Nat := 8
def usizeMax : Nat := 2 ^ 64 - 1

def saturatingAdd (a b : Nat) : Nat := min (a + b) usizeMax
def saturatingMul (a b : Nat) : Nat := min (a * b) usizeMax

/-! ## Packets -/

structure SocketAddr where
  ip : IpAddr
  port : Nat
  deriving DecidableEq

structure NetworkTuple where
  src : SocketAddr
  dst : SocketAddr
  tcp : Bool
  deriving DecidableEq

structure TcpHeader where
  sourcePort : Nat
  destinationPort : Nat
  syn : Bool := false
  ack : Bool := false
  rst : Bool := false
  fin : Bool := false
  deriving DecidableEq

inductive TransportHeader where
  | tcp (header : TcpHeader)
  | udp (sourcePort destinationPort : Nat)
  | unknown
  deriving DecidableEq

structure NetworkPacket where
  source : IpAddr
  destination : IpAddr
  transport : TransportHeader
  payload : Option (List UInt8)
  deriving DecidableEq

namespace NetworkPacket

def srcAddr (p : NetworkPacket) : SocketAddr :=
  { ip := p.source
    port :=
      match p.transport with
      | .udp sourcePort _ => sourcePort
      | .tcp header => header.sourcePort
      | .unknown => 0 }

def dstAddr (p : NetworkPacket) : SocketAddr :=
  { ip := p.destination
    port :=
      match p.transport with
      | .udp _ destinationPort => destinationPort
      | .tcp header => header.destinationPort
      | .unknown => 0 }

def networkTuple (p : NetworkPacket) : NetworkTuple :=
  { src := p.srcAddr
    dst := p.dstAddr
    tcp := match p.transport with
      | .tcp _ => true
      | _ => false }

end NetworkPacket

/-! ## smoltcp -/

inductive TcpState where
  | closed
  | listen
  | synSent
  | synReceived
  | established
  | finWait1
  | finWait2
  | closeWait
  | closing
  | lastAck
  | timeWait
  deriving DecidableEq

/-- A TCP segment as the sockets see it. -/
structure Segment where
  src : SocketAddr
  dst : SocketAddr
  header : TcpHeader
  payload : List UInt8
  deriving DecidableEq

/-- What the actor and the interface use of a socket. -/
structure Smoltcp (Socket : Type) where
  /-- A new socket with its buffers that listens on an endpoint, unless that is refused. -/
  listen : (receiveBytes transmitBytes : Nat) → SocketAddr → Option Socket
  state : Socket → TcpState
  /-- Where the socket listens, or listened before it was connected. -/
  listenEndpoint : Socket → Option SocketAddr
  localEndpoint : Socket → Option SocketAddr
  remoteEndpoint : Socket → Option SocketAddr
  abort : Socket → Socket
  close : Socket → Socket
  canRecv : Socket → Bool
  mayRecv : Socket → Bool
  canSend : Socket → Bool
  recvQueue : Socket → Nat
  recvSlice : Socket → Nat → Option (List UInt8 × Socket)
  sendSlice : Socket → List UInt8 → Option (Nat × Socket)
  /-- The packet parses for smoltcp too, and its checksums are right. -/
  valid : List UInt8 → Bool
  accepts : Socket → Segment → Bool
  process : Socket → Nat → Segment → Socket × Option (List UInt8)
  /-- The answer to a packet that reaches no socket. -/
  refuse : List UInt8 → Option (List UInt8)
  dispatch : Socket → Nat → Socket × Option (List UInt8)

/-! ## Configuration -/

structure TcpConfig where
  twoMsl : Nat
  handshakeTimeout : Nat
  maxUnackedBytes : Nat
  readBufferSize : Nat
  deriving DecidableEq

structure StackConfig where
  mtu : Nat
  tcpConfig : TcpConfig
  maxSessions : Nat
  maxTcpSessions : Nat
  reportTcpRefusals : Bool
  maxSessions_le : maxSessions ≤ usizeMax

/-! ## Flows and sessions -/

structure TcpControl where
  tuple : NetworkTuple
  scheduled : Bool := false
  resetRequested : Bool := false
  closeRequested : Bool := false
  dropped : Bool := false
  closed : Bool := false
  queuedWriteBytes : Nat := 0
  socketReadBytes : Nat := 0
  applicationReadBytes : Nat := 0
  deriving DecidableEq

/-- The application's side, with the two channels of one chunk each. -/
structure TcpFlow where
  control : TcpControl
  readRx : Option (List UInt8) := none
  readCurrent : List UInt8 := []
  readOffset : Nat := 0
  writeTx : Option (List UInt8) := none
  writeChunkBytes : Nat
  /-- The `TcpFlow` has been dropped. -/
  gone : Bool := false
  deriving DecidableEq

structure TcpSession where
  handle : Nat
  control : Nat
  toApplication : Bool := true
  pendingWrite : Option (List UInt8 × Nat) := none
  stream : Bool := true
  acceptPermit : Bool := true
  memoryBytes : Nat
  published : Bool := false
  admittedAt : Nat
  timeWaitSince : Option Nat := none
  deriving DecidableEq

inductive StackFlow where
  | tcp (flow : Nat)
  | tcpRefused (localAddr peerAddr : SocketAddr)
  | udp (serial : Nat)
  | unknownTransport (packet : NetworkPacket)
  | unknownNetwork (bytes : List UInt8)
  deriving DecidableEq

/-- The bounded channel to the acceptor; a permit holds a place in it. -/
structure AcceptQueue where
  capacity : Nat
  queue : List StackFlow := []
  permits : Nat := 0
  closed : Bool := false
  deriving DecidableEq

namespace AcceptQueue

def canReserve (a : AcceptQueue) : Bool :=
  !a.closed && decide (a.queue.length + a.permits < a.capacity)

/-- `try_reserve`, and the flow sent at once. -/
def trySend (a : AcceptQueue) (flow : StackFlow) : AcceptQueue :=
  if a.canReserve then { a with queue := a.queue ++ [flow] } else a

def reserve (a : AcceptQueue) : AcceptQueue := { a with permits := a.permits + 1 }

/-- A permit that is dropped. -/
def release (a : AcceptQueue) : AcceptQueue := { a with permits := a.permits - 1 }

/-- A permit that is used. -/
def redeem (a : AcceptQueue) (flow : StackFlow) : AcceptQueue :=
  { a with queue := a.queue ++ [flow], permits := a.permits - 1 }

end AcceptQueue

structure IngressPacket where
  bytes : List UInt8
  tuple : NetworkTuple
  deriving DecidableEq

/-- A task that waits for a `DatagramFlow` to be dropped. -/
structure SessionTask where
  tuple : NetworkTuple
  serial : Nat
  finished : Bool := false
  deriving DecidableEq

/-! ## The actor -/

/-- Where the loop stands. A number is how many rounds of a stage are left. -/
inductive Stage where
  | top
  | writing (left : Nat)
  | commands (left : Nat)
  | serving (left : Nat) (tuple : NetworkTuple)
  | joins (left : Nat)
  | uplinkUdp
  | uplinkRaw
  | receiving (left : Nat)
  | sending (left : Nat)
  | scanStart
  | scanning (left : Nat)
  | waiting
  | servingAlone (tuple : NetworkTuple)
  | stopped
  deriving DecidableEq

/-- What a flow that was published says it is, and what the socket behind it was. -/
structure Publication where
  tuple : NetworkTuple
  localEndpoint : Option SocketAddr
  remoteEndpoint : Option SocketAddr
  deriving DecidableEq

structure Actor (Socket : Type) where
  config : StackConfig
  stage : Stage := .top
  didWork : Bool := false
  scanTcp : Bool := false
  scanQueue : List NetworkTuple := []
  nextTcpDeadline : Option Nat := none
  readErrors : Nat := 0
  ingress : List IngressPacket := []
  egress : List (List UInt8) := []
  sockets : List (Option Socket) := []
  tcpFlows : HashMap NetworkTuple TcpSession := ∅
  tcpMemoryBytes : Nat := 0
  udpSessions : HashMap NetworkTuple Nat := ∅
  sessionTasks : List SessionTask := []
  /-- The number of UDP sessions there have been. -/
  udpSerial : Nat := 0
  /-- The queue of commands, each with the control block that sent it. -/
  commands : List (NetworkTuple × Nat) := []
  /-- Calls that are about to swap the flag of their flow. -/
  pending : List Nat := []
  /-- Calls that have swapped it and are about to send. -/
  sending : List Nat := []
  udpUp : List (List UInt8) := []
  rawUp : List (List UInt8) := []
  accept : AcceptQueue
  flows : List TcpFlow := []
  publications : List Publication := []

inductive StackError where
  /-- `socket.listen` was refused. -/
  | listen
  | packetExceedsMtu
  | ingressFull
  deriving DecidableEq

section Sockets

variable {Socket : Type}

/-- `SocketSet::add`: the first free slot. -/
def addSocket (sockets : List (Option Socket)) (socket : Socket) :
    Nat × List (Option Socket) :=
  match sockets.findIdx? Option.isNone with
  | some slot => (slot, sockets.set slot (some socket))
  | none => (sockets.length, sockets ++ [some socket])

def getSocket (sockets : List (Option Socket)) (handle : Nat) : Option Socket :=
  (sockets[handle]?).join

/-- The first socket in the order of slots that takes a segment. -/
def acceptor (S : Smoltcp Socket) (sockets : List (Option Socket)) (segment : Segment) :
    Option Nat :=
  sockets.findIdx? fun slot =>
    match slot with
    | some socket => S.accepts socket segment
    | none => false

end Sockets

namespace Actor

variable {Socket : Type}

def canEnqueueIngress (w : Actor Socket) : Bool := decide (w.ingress.length < packetQueueDepth)

def canEnqueueEgress (w : Actor Socket) : Bool := decide (w.egress.length < packetQueueDepth)

def enqueueIngress (w : Actor Socket) (bytes : List UInt8) (tuple : NetworkTuple) :
    Except StackError Unit × Actor Socket :=
  if w.config.mtu < bytes.length then (.error .packetExceedsMtu, w)
  else if !w.canEnqueueIngress then (.error .ingressFull, w)
  else (.ok (), { w with ingress := w.ingress ++ [{ bytes, tuple }] })

def sessionsFull (w : Actor Socket) : Bool :=
  decide (w.config.maxSessions ≤ saturatingAdd w.tcpFlows.len w.udpSessions.len)

/-! ### Admission -/

def receiveBufferBytes (tuple : NetworkTuple) (config : StackConfig) : Nat :=
  let ipHeader := match tuple.src.ip with
    | .v4 _ => 20
    | .v6 _ => 40
  let maximumSegment := max (config.mtu - (ipHeader + 20)) 1
  let requested := max config.tcpConfig.readBufferSize maximumSegment
  max (requested / maximumSegment) 1 * maximumSegment

/-- The charge of a session. -/
def memoryBytesFor (tuple : NetworkTuple) (config : StackConfig) : Nat :=
  saturatingAdd
    (saturatingAdd (receiveBufferBytes tuple config) (max config.tcpConfig.maxUnackedBytes 1))
    (saturatingMul (max config.mtu 1) 2)

/-- The checks of `admit_tcp_flow` before a socket is made. -/
def mayAdmit (w : Actor Socket) (tuple : NetworkTuple) : Bool :=
  !decide (w.config.maxTcpSessions ≤ w.tcpFlows.len) &&
    !decide (tcpMemoryBudgetBytes - w.tcpMemoryBytes < memoryBytesFor tuple w.config) &&
    w.accept.canReserve

/-- The actor with a session for a socket that listens. -/
def withSession (w : Actor Socket) (tuple : NetworkTuple) (now : Nat) (socket : Socket) :
    Actor Socket :=
  let added := addSocket w.sockets socket
  let memoryBytes := memoryBytesFor tuple w.config
  let session : TcpSession :=
    { handle := added.1, control := w.flows.length, memoryBytes, admittedAt := now }
  let flow : TcpFlow := { control := { tuple }, writeChunkBytes := max w.config.mtu 1 }
  { w with
    sockets := added.2
    accept := w.accept.reserve
    flows := w.flows ++ [flow]
    tcpFlows := w.tcpFlows.insert tuple session
    tcpMemoryBytes := saturatingAdd w.tcpMemoryBytes memoryBytes }

def admitTcpFlow (S : Smoltcp Socket) (w : Actor Socket) (tuple : NetworkTuple) (now : Nat) :
    Except StackError Bool × Actor Socket :=
  if !w.mayAdmit tuple then (.ok false, w)
  else
    match S.listen (receiveBufferBytes tuple w.config) (max w.config.tcpConfig.maxUnackedBytes 1)
        tuple.dst with
    | none => (.error .listen, w)
    | some socket => (.ok true, w.withSession tuple now socket)

def reportTcpRefusal (w : Actor Socket) (tuple : NetworkTuple) : Actor Socket :=
  if !w.config.reportTcpRefusals then w
  else { w with accept := w.accept.trySend (.tcpRefused tuple.src tuple.dst) }

/-- A first SYN: nothing else in its header. -/
def opensFlow (header : TcpHeader) : Bool :=
  header.syn && !header.ack && !header.rst && !header.fin

def processTcp (S : Smoltcp Socket) (w : Actor Socket) (bytes : List UInt8)
    (tuple : NetworkTuple) (header : TcpHeader) (now : Nat) :
    Except StackError Unit × Actor Socket :=
  if (w.tcpFlows.lookup tuple).isNone && opensFlow header then
    let (admitted, w) := if w.sessionsFull then (.ok false, w) else w.admitTcpFlow S tuple now
    match admitted with
    | .error error => (.error error, w)
    | .ok true => w.enqueueIngress bytes tuple
    | .ok false => (w.reportTcpRefusal tuple).enqueueIngress bytes tuple
  else w.enqueueIngress bytes tuple

def processUdp (w : Actor Socket) (tuple : NetworkTuple) : Actor Socket :=
  if (w.udpSessions.lookup tuple).isSome then w
  else if w.sessionsFull then w
  else if !w.accept.canReserve then w
  else
    { w with
      sessionTasks := w.sessionTasks ++ [{ tuple, serial := w.udpSerial }]
      udpSessions := w.udpSessions.insert tuple w.udpSerial
      udpSerial := w.udpSerial + 1
      accept := w.accept.trySend (.udp w.udpSerial) }

def processIngressPacket (S : Smoltcp Socket) (parse : List UInt8 → Option NetworkPacket)
    (w : Actor Socket) (bytes : List UInt8) (now : Nat) : Except StackError Unit × Actor Socket :=
  match parse bytes with
  | none => (.ok (), { w with accept := w.accept.trySend (.unknownNetwork bytes) })
  | some packet =>
    match packet.transport with
    | .tcp header => w.processTcp S bytes packet.networkTuple header now
    | .udp _ _ => (.ok (), w.processUdp packet.networkTuple)
    | .unknown => (.ok (), { w with accept := w.accept.trySend (.unknownTransport packet) })

/-! ### Service -/

/-- A session with its socket and the flow it serves. -/
structure Served (Socket : Type) where
  session : TcpSession
  socket : Socket
  flow : TcpFlow

namespace Served

/-- A reset, a dropped flow or an overdue handshake aborts the connection. -/
def expire (S : Smoltcp Socket) (config : TcpConfig) (now : Nat) (p : Served Socket) :
    Served Socket :=
  let handshakeExpired := !p.session.published && decide (S.state p.socket ≠ .established) &&
    decide (config.handshakeTimeout ≤ now - p.session.admittedAt)
  let reset := p.flow.control.resetRequested
  { p with
    socket := if reset || p.flow.control.dropped || handshakeExpired then S.abort p.socket
      else p.socket
    flow := { p.flow with control := { p.flow.control with resetRequested := false } } }

/-- The flow is due to be published. -/
def publishes (S : Smoltcp Socket) (p : Served Socket) : Bool :=
  decide (S.state p.socket = .established) && !p.session.published &&
    p.session.acceptPermit && p.session.stream

def publish (S : Smoltcp Socket) (p : Served Socket) : Served Socket :=
  if p.publishes S then
    { p with
      session := { p.session with acceptPermit := false, stream := false, published := true } }
  else p

/-- One chunk for the application, if its channel is empty and still read from. -/
def receive (S : Smoltcp Socket) (mtu : Nat) (p : Served Socket) : Served Socket :=
  if S.canRecv p.socket && p.session.toApplication then
    if p.flow.gone then { p with socket := S.abort p.socket }
    else if p.flow.readRx.isSome then p
    else
      match S.recvSlice p.socket (min (S.recvQueue p.socket) (max mtu 1)) with
      | none => p
      | some (bytes, socket) =>
        if bytes = [] then { p with socket }
        else
          { p with
            socket
            flow :=
              { p.flow with
                readRx := some bytes
                control :=
                  { p.flow.control with
                    applicationReadBytes :=
                      p.flow.control.applicationReadBytes + bytes.length } } }
  else p

/-- The next chunk to send: what is left of the last one, or what the application wrote. -/
def nextWrite (p : Served Socket) : Served Socket :=
  match p.session.pendingWrite, p.flow.writeTx with
  | none, some bytes =>
    { p with
      session := { p.session with pendingWrite := some (bytes, 0) }
      flow := { p.flow with writeTx := none } }
  | _, _ => p

def send (S : Smoltcp Socket) : (rounds : Nat) → Served Socket → Served Socket
  | 0, p => p
  | rounds + 1, p =>
    if !S.canSend p.socket then p
    else
      let p := p.nextWrite
      match p.session.pendingWrite with
      | none => p
      | some (bytes, offset) =>
        match S.sendSlice p.socket (bytes.drop offset) with
        | none => { p with socket := S.abort p.socket }
        | some (0, socket) => { p with socket }
        | some (length, socket) =>
          send S rounds
            { session :=
                { p.session with
                  pendingWrite :=
                    if offset + length = bytes.length then none
                    else some (bytes, offset + length) }
              socket
              flow :=
                { p.flow with
                  control :=
                    { p.flow.control with
                      queuedWriteBytes := p.flow.control.queuedWriteBytes - length } } }

/-- A close the application asked for, once everything it wrote is with the socket. -/
def finishClose (S : Smoltcp Socket) (p : Served Socket) : Served Socket :=
  if p.flow.control.closeRequested && decide (p.flow.control.queuedWriteBytes = 0) &&
      p.session.pendingWrite.isNone then
    { p with socket := S.close p.socket }
  else p

def note (S : Smoltcp Socket) (now : Nat) (p : Served Socket) : Served Socket :=
  { p with
    session :=
      { p.session with
        timeWaitSince :=
          if S.state p.socket = .timeWait ∧ p.session.timeWaitSince = none then some now
          else p.session.timeWaitSince
        toApplication :=
          if p.session.published && !S.mayRecv p.socket && decide (S.recvQueue p.socket = 0) then
            false
          else p.session.toApplication }
    flow :=
      { p.flow with
        control := { p.flow.control with socketReadBytes := S.recvQueue p.socket } } }

/-- The session is over. -/
def finished (S : Smoltcp Socket) (config : TcpConfig) (now : Nat) (p : Served Socket) : Bool :=
  ((decide (S.state p.socket = .closed) || decide (S.state p.socket = .listen)) &&
      (S.remoteEndpoint p.socket).isNone) ||
    match p.session.timeWaitSince with
    | some started => decide (config.twoMsl ≤ now - started)
    | none => false

end Served

/-- The session of a tuple with its socket and its flow. -/
def served (w : Actor Socket) (tuple : NetworkTuple) : Option (Served Socket) := do
  let session ← w.tcpFlows.lookup tuple
  let socket ← getSocket w.sockets session.handle
  let flow ← w.flows[session.control]?
  return { session, socket, flow }

/-- A flow that is due goes to the acceptor by the permit of its session. -/
def announce (S : Smoltcp Socket) (w : Actor Socket) (p : Served Socket) : Actor Socket :=
  if p.publishes S then
    { w with
      accept := w.accept.redeem (.tcp p.session.control)
      publications := w.publications ++
        [{ tuple := p.flow.control.tuple
           localEndpoint := S.localEndpoint p.socket
           remoteEndpoint := S.remoteEndpoint p.socket }] }
  else w

/-- What follows the publication. -/
def Served.work (S : Smoltcp Socket) (mtu now : Nat) (p : Served Socket) : Served Socket :=
  (((p.receive S mtu).send S 4).finishClose S).note S now

/-- The session, its socket and its flow as they are now. -/
def putBack (w : Actor Socket) (tuple : NetworkTuple) (p : Served Socket) : Actor Socket :=
  { w with
    sockets := w.sockets.set p.session.handle (some p.socket)
    tcpFlows := w.tcpFlows.insert tuple p.session
    flows := w.flows.set p.session.control p.flow }

/-- `service_tcp_flow`: whether the session is over, and the actor. -/
def serviceTcpFlow (S : Smoltcp Socket) (w : Actor Socket) (tuple : NetworkTuple) (now : Nat) :
    Bool × Actor Socket :=
  match w.served tuple with
  | none => (false, w)
  | some p =>
    let alive := p.expire S w.config.tcpConfig now
    let worked := (alive.publish S).work S w.config.mtu now
    (worked.finished S w.config.tcpConfig now, (w.announce S alive).putBack tuple worked)

/-- A session that is dropped closes its control block and gives up its permit. -/
def reap (w : Actor Socket) (tuple : NetworkTuple) : Actor Socket :=
  match w.tcpFlows.lookup tuple with
  | none => w
  | some session =>
    { w with
      tcpFlows := w.tcpFlows.erase tuple
      sockets := w.sockets.set session.handle none
      tcpMemoryBytes := w.tcpMemoryBytes - session.memoryBytes
      accept := if session.acceptPermit then w.accept.release else w.accept
      flows := w.flows.modify session.control fun flow =>
        { flow with control := { flow.control with closed := true, socketReadBytes := 0 } } }

/-- When a session has to be looked at again. -/
def sessionDeadline (config : TcpConfig) (session : TcpSession) : Option Nat :=
  let timeWait := session.timeWaitSince.map (· + config.twoMsl)
  let halfOpen := if session.published then none
    else some (session.admittedAt + config.handshakeTimeout)
  match timeWait, halfOpen with
  | some left, some right => some (min left right)
  | some deadline, none | none, some deadline => some deadline
  | none, none => none

def serviceAndReapTcpFlow (S : Smoltcp Socket) (w : Actor Socket) (tuple : NetworkTuple)
    (now : Nat) : Actor Socket :=
  let (finished, w) := w.serviceTcpFlow S tuple now
  if finished then w.reap tuple
  else
    match (w.tcpFlows.lookup tuple).bind (sessionDeadline w.config.tcpConfig) with
    | none => w
    | some deadline =>
      { w with
        nextTcpDeadline := some (match w.nextTcpDeadline with
          | some current => min current deadline
          | none => deadline) }

/-! ### The application's calls -/

/-- The first half of `schedule`: `scheduled.swap(true)`. -/
def swapScheduled (w : Actor Socket) (id : Nat) : Actor Socket :=
  match w.flows[id]? with
  | none => w
  | some flow =>
    if id ∉ w.pending then w
    else if flow.control.scheduled then { w with pending := w.pending.erase id }
    else
      { w with
        pending := w.pending.erase id
        sending := w.sending ++ [id]
        flows := w.flows.set id
          { flow with control := { flow.control with scheduled := true } } }

/-- The second half: `commands.try_send`, and what follows if the queue is full. -/
def trySendCommand (w : Actor Socket) (id : Nat) : Actor Socket :=
  match w.flows[id]? with
  | none => w
  | some flow =>
    if id ∉ w.sending then w
    else if w.commands.length < w.config.maxTcpSessions then
      { w with
        sending := w.sending.erase id
        commands := w.commands ++ [(flow.control.tuple, id)] }
    else
      { w with
        sending := w.sending.erase id
        flows := w.flows.set id
          { flow with control := { flow.control with dropped := true, closed := true } } }

/-- `begin_service` of the session a command names. -/
def beginService (w : Actor Socket) (tuple : NetworkTuple) : Actor Socket :=
  match w.tcpFlows.lookup tuple with
  | none => w
  | some session =>
    { w with
      flows := w.flows.modify session.control fun flow =>
        { flow with control := { flow.control with scheduled := false } } }

inductive Call where
  | read (remaining : Nat)
  | write (buf : List UInt8)
  | shutdown
  | reset
  | drop
  deriving DecidableEq

/-- `consume_current`: the flow, whether anything was read and whether the chunk is used up. -/
def consumeCurrent (flow : TcpFlow) (remaining : Nat) : TcpFlow × Bool × Bool :=
  if flow.readCurrent.length ≤ flow.readOffset ∨ remaining = 0 then (flow, false, false)
  else
    let length := min remaining (flow.readCurrent.length - flow.readOffset)
    let control :=
      { flow.control with
        applicationReadBytes := flow.control.applicationReadBytes - length }
    if flow.readOffset + length = flow.readCurrent.length then
      ({ flow with readCurrent := [], readOffset := 0, control }, true, true)
    else ({ flow with readOffset := flow.readOffset + length, control }, true, false)

/-- `poll_read`: the flow and whether it schedules itself. -/
def pollRead (flow : TcpFlow) (remaining : Nat) : TcpFlow × Bool :=
  if remaining = 0 then (flow, false)
  else
    match consumeCurrent flow remaining with
    | (flow, true, usedUp) => (flow, usedUp)
    | (flow, false, _) =>
      match flow.readRx with
      | none => (flow, false)
      | some bytes =>
        let (flow, _, usedUp) :=
          consumeCurrent { flow with readRx := none, readCurrent := bytes, readOffset := 0 }
            remaining
        (flow, usedUp)

def pollWrite (flow : TcpFlow) (buf : List UInt8) : TcpFlow × Bool :=
  if flow.control.closed || flow.control.dropped || buf = [] || flow.writeTx.isSome then
    (flow, false)
  else
    let length := min buf.length flow.writeChunkBytes
    ({ flow with
       writeTx := some (buf.take length)
       control :=
        { flow.control with queuedWriteBytes := flow.control.queuedWriteBytes + length } }, true)

def pollShutdown (flow : TcpFlow) : TcpFlow × Bool :=
  if flow.control.closed then (flow, false)
  else ({ flow with control := { flow.control with closeRequested := true } }, true)

def reset (flow : TcpFlow) : TcpFlow × Bool :=
  if flow.control.closed then (flow, false)
  else ({ flow with control := { flow.control with resetRequested := true } }, true)

def dropFlow (flow : TcpFlow) : TcpFlow × Bool :=
  if flow.control.closed then ({ flow with gone := true }, false)
  else ({ flow with gone := true, control := { flow.control with dropped := true } }, true)

/-- What a call does to the flow, and whether it schedules it. -/
def callFlow (flow : TcpFlow) : Call → TcpFlow × Bool
  | .read remaining => pollRead flow remaining
  | .write buf => pollWrite flow buf
  | .shutdown => pollShutdown flow
  | .reset => reset flow
  | .drop => dropFlow flow

def call (w : Actor Socket) (id : Nat) (call : Call) : Actor Socket :=
  match w.flows[id]? with
  | none => w
  | some flow =>
    if flow.gone then w
    else
      let called := callFlow flow call
      { w with
        flows := w.flows.set id called.1
        pending := if called.2 then w.pending ++ [id] else w.pending }

/-! ### The loop -/

/-- The arm of `select!` that is taken. -/
inductive Arm where
  | shutdown
  | writerFailed
  | reserved
  | read (bytes : List UInt8)
  /-- Fewer bytes than the header in front of every packet. -/
  | shortRead
  | readFailed
  | closed
  | command
  | uplinkUdp
  | uplinkRaw
  | joined (index : Nat)
  | timer
  deriving DecidableEq

/-- What `try_send` of a packet to the writer finds. -/
inductive Writer where
  | takes
  | full
  | closed
  deriving DecidableEq

/-- What a step of the actor finds outside: the time, whether it has to stop, the writer,
which task has ended, whether smoltcp reports a change, and the arm. -/
structure Input where
  now : Nat := 0
  stop : Bool := false
  writer : Writer := .takes
  joined : Nat := 0
  changed : Bool := false
  arm : Arm := .timer
  deriving DecidableEq

/-- A finished task ends the session of its tuple. -/
def joinTask (w : Actor Socket) (index : Nat) : Option (Actor Socket) := do
  let task ← w.sessionTasks[index]?
  if task.finished then
    some
      { w with
        sessionTasks := w.sessionTasks.eraseIdx index
        udpSessions := w.udpSessions.erase task.tuple }
  else none

/-- The segment of a packet from the ingress queue. -/
def segmentOf (parse : List UInt8 → Option NetworkPacket) (packet : IngressPacket) :
    Option Segment :=
  match parse packet.bytes with
  | some { transport := .tcp header, payload, .. } =>
    some
      { src := packet.tuple.src
        dst := packet.tuple.dst
        header
        payload := payload.getD [] }
  | _ => none

/-- `poll_ingress_single`: the interface offers the next packet to the sockets. -/
def deliver (S : Smoltcp Socket) (parse : List UInt8 → Option NetworkPacket) (now : Nat)
    (w : Actor Socket) (packet : IngressPacket) : Actor Socket :=
  match segmentOf parse packet with
  | none => w
  | some segment =>
    if !S.valid packet.bytes then
      { w with egress := w.egress ++ (S.refuse packet.bytes).toList }
    else
      match (acceptor S w.sockets segment).bind fun slot =>
          (getSocket w.sockets slot).map fun socket => (slot, socket) with
      | some (slot, socket) =>
        let processed := S.process socket now segment
        { w with
          sockets := w.sockets.set slot (some processed.1)
          egress := w.egress ++ processed.2.toList }
      | none => { w with egress := w.egress ++ (S.refuse packet.bytes).toList }

/-- `poll_egress`: every socket may send a packet as long as there is room. -/
def pollEgress (S : Smoltcp Socket) (now : Nat) :
    (sockets : List (Option Socket)) → (egress : List (List UInt8)) →
      List (Option Socket) × List (List UInt8)
  | [], egress => ([], egress)
  | none :: rest, egress =>
    let (rest, egress) := pollEgress S now rest egress
    (none :: rest, egress)
  | some socket :: rest, egress =>
    if egress.length < packetQueueDepth then
      let (socket, packet) := S.dispatch socket now
      let (rest, egress) := pollEgress S now rest (egress ++ packet.toList)
      (some socket :: rest, egress)
    else (some socket :: rest, egress)

def goTo (w : Actor Socket) (stage : Stage) : Actor Socket := { w with stage }

def worked (w : Actor Socket) : Actor Socket := { w with didWork := true }

/-- One arm of `select!`; an arm whose guard fails, or with nothing to take, is not ready.
The order the arms are tried in is left open. -/
def select (S : Smoltcp Socket) (parse : List UInt8 → Option NetworkPacket) (w : Actor Socket)
    (input : Input) : Actor Socket :=
  match input.arm with
  | .shutdown | .writerFailed | .closed => w.goTo .stopped
  | .reserved =>
    match w.egress with
    | [] => w
    | _ :: rest => { w with egress := rest }.goTo .top
  | .shortRead =>
    if !w.canEnqueueIngress then w else { w with readErrors := 0 }.goTo .top
  | .read bytes =>
    -- the buffer of the read has room for `mtu` bytes after the header
    if !w.canEnqueueIngress || decide (w.config.mtu < bytes.length) then w
    else
      match w.processIngressPacket S parse bytes input.now with
      | (.ok (), w) => { w with readErrors := 0 }.goTo .top
      | (.error _, w) => { w with readErrors := 0 }.goTo .stopped
  | .readFailed =>
    if !w.canEnqueueIngress then w
    else
      let w := { w with readErrors := w.readErrors + 1 }
      if maxTunReadErrors ≤ w.readErrors then w.goTo .stopped else w.goTo .top
  | .command =>
    match w.commands with
    | [] => w
    | (tuple, _) :: rest =>
      ({ w with commands := rest }.beginService tuple).goTo (.servingAlone tuple)
  | .uplinkUdp =>
    match w.udpUp with
    | [] => w
    | packet :: rest =>
      if w.canEnqueueEgress then
        { w with udpUp := rest, egress := w.egress ++ [packet] }.goTo .top
      else w
  | .uplinkRaw =>
    match w.rawUp with
    | [] => w
    | packet :: rest =>
      if w.canEnqueueEgress then
        { w with rawUp := rest, egress := w.egress ++ [packet] }.goTo .top
      else w
  | .joined index =>
    match w.joinTask index with
    | some w => w.goTo .top
    | none => w
  | .timer => { w with scanTcp := true }.goTo .top

/-- One step of the actor. -/
def advance (S : Smoltcp Socket) (parse : List UInt8 → Option NetworkPacket) (w : Actor Socket)
    (input : Input) : Actor Socket :=
  match w.stage with
  | .top =>
    if input.stop then w.goTo .stopped
    else
      let due := match w.nextTcpDeadline with
        | some deadline => decide (deadline ≤ input.now)
        | none => false
      { w with
        nextTcpDeadline := if due then none else w.nextTcpDeadline
        scanTcp := w.scanTcp || due
        didWork := false }.goTo (.writing packetQueueDepth)
  | .writing 0 => w.goTo (.commands tcpCommandsPerTick)
  | .writing (left + 1) =>
    match w.egress with
    | [] => w.goTo (.commands tcpCommandsPerTick)
    | _ :: rest =>
      match input.writer with
      | .takes => { w with egress := rest }.worked.goTo (.writing left)
      | .full => w.goTo (.commands tcpCommandsPerTick)
      | .closed => w.goTo .stopped
  | .commands 0 => w.goTo (.joins packetQueueDepth)
  | .commands (left + 1) =>
    match w.commands with
    | [] => w.goTo (.joins packetQueueDepth)
    | (tuple, _) :: rest =>
      ({ w with commands := rest }.beginService tuple).goTo (.serving left tuple)
  | .serving left tuple =>
    (w.serviceAndReapTcpFlow S tuple input.now).worked.goTo (.commands left)
  | .joins 0 => w.goTo .uplinkUdp
  | .joins (left + 1) =>
    match w.joinTask input.joined with
    | some w => w.worked.goTo (.joins left)
    | none => w.goTo .uplinkUdp
  | .uplinkUdp =>
    match w.udpUp with
    | [] => w.goTo .uplinkRaw
    | packet :: rest =>
      if w.canEnqueueEgress then
        { w with udpUp := rest, egress := w.egress ++ [packet] }.worked
      else w.goTo .uplinkRaw
  | .uplinkRaw =>
    match w.rawUp with
    | [] => w.goTo (.receiving tcpPacketsPerTick)
    | packet :: rest =>
      if w.canEnqueueEgress then
        { w with rawUp := rest, egress := w.egress ++ [packet] }.worked
      else w.goTo (.receiving tcpPacketsPerTick)
  | .receiving 0 => w.goTo (.sending tcpEgressPollsPerTick)
  | .receiving (left + 1) =>
    if !w.canEnqueueEgress then w.goTo (.sending tcpEgressPollsPerTick)
    else
      match w.ingress with
      | [] => w.goTo (.sending tcpEgressPollsPerTick)
      | packet :: rest =>
        let w := deliver S parse input.now { w with ingress := rest } packet
        (w.serviceAndReapTcpFlow S packet.tuple input.now).worked.goTo (.receiving left)
  | .sending 0 => w.goTo .scanStart
  | .sending (left + 1) =>
    if !w.canEnqueueEgress then w.goTo .scanStart
    else
      let (sockets, egress) := pollEgress S input.now w.sockets w.egress
      let idle := decide (egress.length = w.egress.length) && !input.changed
      let w := { w with sockets, egress, scanTcp := w.scanTcp || input.changed }
      if idle then w.goTo .scanStart else w.worked.goTo (.sending left)
  | .scanStart =>
    -- the order of the keys is left open in the source
    if w.scanTcp && w.scanQueue.isEmpty then
      { w with scanQueue := w.tcpFlows.keys, scanTcp := false }.goTo (.scanning tcpFlowsPerTick)
    else w.goTo (.scanning tcpFlowsPerTick)
  | .scanning 0 => if w.didWork then w.goTo .top else w.goTo .waiting
  | .scanning (left + 1) =>
    match w.scanQueue with
    | [] => if w.didWork then w.goTo .top else w.goTo .waiting
    | tuple :: rest =>
      { w.serviceAndReapTcpFlow S tuple input.now with scanQueue := rest }.worked.goTo
        (.scanning left)
  | .waiting => w.select S parse input
  | .servingAlone tuple => (w.serviceAndReapTcpFlow S tuple input.now).goTo .top
  | .stopped => w

/-! ### Everything that can happen -/

inductive Action where
  | advance (input : Input)
  | call (id : Nat) (call : Call)
  | swap (id : Nat)
  | send (id : Nat)
  | uplinkUdp (packet : List UInt8)
  | uplinkRaw (packet : List UInt8)
  | accepted
  | acceptorGone
  | udpDropped (serial : Nat)
  deriving DecidableEq

def apply (S : Smoltcp Socket) (parse : List UInt8 → Option NetworkPacket) (w : Actor Socket) :
    Action → Actor Socket
  | .advance input => w.advance S parse input
  | .call id c => if w.stage = .stopped then w else w.call id c
  | .swap id => if w.stage = .stopped then w else w.swapScheduled id
  | .send id => if w.stage = .stopped then w else w.trySendCommand id
  | .uplinkUdp packet => { w with udpUp := w.udpUp ++ [packet] }
  | .uplinkRaw packet => { w with rawUp := w.rawUp ++ [packet] }
  | .accepted => { w with accept := { w.accept with queue := w.accept.queue.drop 1 } }
  | .acceptorGone => { w with accept := { w.accept with closed := true } }
  | .udpDropped serial =>
    { w with
      sessionTasks := w.sessionTasks.map fun task =>
        if task.serial = serial then { task with finished := true } else task }

def Initial (w : Actor Socket) : Prop :=
  ∃ config capacity, w = { config, accept := { capacity } }

end Actor

end Foxcore.Ref.Netstack
