import Foxcore.Spec.Netstack

/-!
# No packet ends the stack but one

Every way out of `process_ingress_packet` is followed. A packet that does not parse, that is
no TCP or that opens no flow only moves between queues, and the ingress queue has room; what
is left is `listen`, whose refusal is propagated and ends the actor.
-/

namespace Foxcore.Proofs.Netstack

open Lib Ref.Netstack Ref.Netstack.Actor Spec.Netstack

section Ingress

variable {Socket : Type} {S : Smoltcp Socket} {parse : List UInt8 → Option NetworkPacket}
  {w : Actor Socket} {bytes : List UInt8}

theorem enqueueIngress_ok (w : Actor Socket) (hroom : w.canEnqueueIngress = true)
    (hlen : bytes.length ≤ w.config.mtu) (tuple : NetworkTuple) :
    (w.enqueueIngress bytes tuple).1 = .ok () := by
  unfold enqueueIngress
  rw [if_neg (Nat.not_lt.mpr hlen), hroom]
  rfl

theorem reportTcpRefusal_enqueue (hroom : w.canEnqueueIngress = true)
    (hlen : bytes.length ≤ w.config.mtu) (tuple : NetworkTuple) :
    ((w.reportTcpRefusal tuple).enqueueIngress bytes tuple).1 = .ok () := by
  have hsame : (w.reportTcpRefusal tuple).ingress = w.ingress ∧
      (w.reportTcpRefusal tuple).config = w.config := by
    unfold reportTcpRefusal
    split <;> exact ⟨rfl, rfl⟩
  apply enqueueIngress_ok
  · unfold canEnqueueIngress
    rw [hsame.1]
    exact hroom
  · rw [hsame.2]
    exact hlen

/-- An admission fails with an error exactly when the socket does not listen. -/
theorem admitTcpFlow_cases (S : Smoltcp Socket) (w : Actor Socket) (tuple : NetworkTuple)
    (now : Nat) :
    (w.mayAdmit tuple = false ∧ w.admitTcpFlow S tuple now = (.ok false, w)) ∨
    (w.mayAdmit tuple = true ∧
      S.listen (receiveBufferBytes tuple w.config)
        (max w.config.tcpConfig.maxUnackedBytes 1) tuple.dst = none ∧
      w.admitTcpFlow S tuple now = (.error .listen, w)) ∨
    (w.mayAdmit tuple = true ∧ ∃ socket,
      S.listen (receiveBufferBytes tuple w.config)
        (max w.config.tcpConfig.maxUnackedBytes 1) tuple.dst = some socket ∧
      w.admitTcpFlow S tuple now = (.ok true, w.withSession tuple now socket)) := by
  unfold admitTcpFlow
  cases hmay : w.mayAdmit tuple with
  | false => exact .inl ⟨rfl, rfl⟩
  | true =>
    cases hlisten : S.listen (receiveBufferBytes tuple w.config)
        (max w.config.tcpConfig.maxUnackedBytes 1) tuple.dst with
    | none => exact .inr (.inl ⟨rfl, rfl, rfl⟩)
    | some socket => exact .inr (.inr ⟨rfl, socket, rfl, rfl⟩)

theorem processTcp_ok_iff (hS : Listens S) (hroom : w.canEnqueueIngress = true)
    (hlen : bytes.length ≤ w.config.mtu) (tuple : NetworkTuple) (header : TcpHeader) (now : Nat) :
    (w.processTcp S bytes tuple header now).1 = .ok () ↔
      ¬(opensFlow header = true ∧ tuple.dst.port = 0 ∧ w.tcpFlows.lookup tuple = none ∧
        w.sessionsFull = false ∧ w.mayAdmit tuple = true) := by
  unfold processTcp
  split
  · next hopens =>
    rw [Bool.and_eq_true, Option.isNone_iff_eq_none] at hopens
    obtain ⟨hnew, hfirst⟩ := hopens
    cases hfull : w.sessionsFull with
    | true =>
      refine iff_of_true (reportTcpRefusal_enqueue hroom hlen tuple) ?_
      rintro ⟨-, -, -, hnot, -⟩
      cases hnot
    | false =>
      simp only [Bool.false_eq_true, if_false]
      rcases admitTcpFlow_cases S w tuple now with
        ⟨hmay, heq⟩ | ⟨hmay, hlisten, heq⟩ | ⟨hmay, socket, hlisten, heq⟩
      · rw [heq]
        refine iff_of_true (reportTcpRefusal_enqueue hroom hlen tuple) ?_
        rintro ⟨-, -, -, -, hyes⟩
        rw [hmay] at hyes
        cases hyes
      · rw [heq]
        refine iff_of_false nofun fun hnot => ?_
        exact hnot ⟨hfirst, (hS.refuses _ _ _).mp hlisten, hnew, trivial, hmay⟩
      · rw [heq]
        have hok : ((w.withSession tuple now socket).enqueueIngress bytes tuple).1 = .ok () :=
          enqueueIngress_ok (w.withSession tuple now socket) hroom hlen tuple
        refine iff_of_true hok ?_
        rintro ⟨-, hzero, -, -, -⟩
        rw [(hS.refuses _ _ _).mpr hzero] at hlisten
        cases hlisten
  · next hopens =>
    refine iff_of_true (enqueueIngress_ok w hroom hlen tuple) ?_
    rintro ⟨hfirst, -, hnew, -, -⟩
    rw [hnew, hfirst] at hopens
    exact hopens rfl

theorem processIngressPacket_ok_iff (w : Actor Socket) (hS : Listens S)
    (hroom : w.canEnqueueIngress = true) (hlen : bytes.length ≤ w.config.mtu) (now : Nat) :
    (w.processIngressPacket S parse bytes now).1 = .ok () ↔ ¬OpensPortZero parse w bytes := by
  unfold processIngressPacket
  cases hparse : parse bytes with
  | none => exact iff_of_true rfl (by simp [OpensPortZero, hparse])
  | some packet =>
    -- the condition is about the packet that was parsed
    have hzero : OpensPortZero parse w bytes ↔ ∃ header, packet.transport = .tcp header ∧
        opensFlow header = true ∧ packet.networkTuple.dst.port = 0 ∧
          w.tcpFlows.lookup packet.networkTuple = none ∧ w.sessionsFull = false ∧
          w.mayAdmit packet.networkTuple = true := by
      simp [OpensPortZero, hparse]
    rw [hzero]
    cases htransport : packet.transport with
    | tcp =>
      simp only [htransport, processTcp_ok_iff hS hroom hlen]
      simp
    | udp sourcePort destinationPort | unknown => simp [htransport]

/-- A packet that fits is processed without an error, and the actor goes on, unless it is
a first SYN to port 0 that would be admitted. -/
theorem ingress_stops_iff (hS : Listens S) (hroom : w.canEnqueueIngress = true)
    (hlen : bytes.length ≤ w.config.mtu) (now : Nat) :
    ((w.processIngressPacket S parse bytes now).1 = .ok () ↔ ¬OpensPortZero parse w bytes) ∧
    (w.stage = .waiting →
      ((w.advance S parse { now, arm := .read bytes }).stage ≠ .stopped ↔
        ¬OpensPortZero parse w bytes)) := by
  refine ⟨processIngressPacket_ok_iff w hS hroom hlen now, fun hwaiting => ?_⟩
  rw [← processIngressPacket_ok_iff w hS hroom hlen now]
  have hguard : (!w.canEnqueueIngress || decide (w.config.mtu < bytes.length)) = false := by
    rw [hroom, decide_eq_false (Nat.not_lt.mpr hlen)]
    rfl
  unfold Actor.advance
  rw [hwaiting]
  unfold Actor.select
  simp only [hguard]
  rcases w.processIngressPacket S parse bytes now with ⟨_ | ⟨⟩, w'⟩
  · exact iff_of_false (fun hne => hne rfl) nofun
  · exact iff_of_true nofun rfl

end Ingress

/-! ## A small smoltcp

Sockets with their states and a receive buffer, but no sequence numbers and no answers. It
keeps to what is documented of the crate, which is enough to run the actor on. -/

inductive PlainSocket where
  | closed
  | listening (endpoint : SocketAddr)
  | connected (established closing : Bool) (endpoint remote : SocketAddr) (inbox : List UInt8)
  deriving DecidableEq

namespace PlainSocket

def state : PlainSocket → TcpState
  | .closed => .closed
  | .listening _ => .listen
  | .connected _ true _ _ _ => .finWait1
  | .connected true false _ _ _ => .established
  | .connected false false _ _ _ => .synReceived

def listenEndpoint : PlainSocket → Option SocketAddr
  | .closed => none
  | .listening endpoint => some endpoint
  | .connected _ _ endpoint _ _ => some endpoint

def localEndpoint : PlainSocket → Option SocketAddr
  | .connected _ _ endpoint _ _ => some endpoint
  | _ => none

def remoteEndpoint : PlainSocket → Option SocketAddr
  | .connected _ _ _ remote _ => some remote
  | _ => none

def inbox : PlainSocket → List UInt8
  | .connected _ _ _ _ inbox => inbox
  | _ => []

def close : PlainSocket → PlainSocket
  | .connected established _ endpoint remote inbox =>
    .connected established true endpoint remote inbox
  | socket => socket

/-- The socket with another receive buffer. -/
def withInbox (socket : PlainSocket) (inbox : List UInt8) : PlainSocket :=
  match socket with
  | .connected established closing endpoint remote _ =>
    .connected established closing endpoint remote inbox
  | socket => socket

def accepts (socket : PlainSocket) (segment : Segment) : Bool :=
  match socket with
  | .closed => false
  | .listening endpoint =>
    decide (endpoint = segment.dst) && segment.header.syn && !segment.header.ack
  | .connected _ _ endpoint remote _ =>
    decide (endpoint = segment.dst) && decide (remote = segment.src)

def process (socket : PlainSocket) (segment : Segment) : PlainSocket :=
  match socket with
  | .closed => .closed
  | .listening endpoint => .connected false false endpoint segment.src []
  | .connected established closing endpoint remote inbox =>
    if segment.header.rst then .closed
    else
      .connected (established || segment.header.ack) closing endpoint remote
        (inbox ++ segment.payload)

end PlainSocket

/-- The first byte of a packet says whether its checksum is right. -/
def plain : Smoltcp PlainSocket where
  listen _ _ endpoint := if endpoint.port = 0 then none else some (.listening endpoint)
  state := PlainSocket.state
  listenEndpoint := PlainSocket.listenEndpoint
  localEndpoint := PlainSocket.localEndpoint
  remoteEndpoint := PlainSocket.remoteEndpoint
  abort _ := .closed
  close := PlainSocket.close
  canRecv socket := !socket.inbox.isEmpty
  mayRecv socket := decide (socket.state = .established)
  canSend socket := decide (socket.state = .established)
  recvQueue socket := socket.inbox.length
  recvSlice socket n := some (socket.inbox.take n, socket.withInbox (socket.inbox.drop n))
  sendSlice socket bytes := some (bytes.length, socket)
  valid bytes := decide (bytes.head? = some 1)
  accepts := PlainSocket.accepts
  process socket _ segment := (socket.process segment, none)
  refuse _ := none
  dispatch socket _ := (socket, none)

/-- Packets of four bytes or more: the checksum, the ports, the flags SYN, ACK and RST, and
a payload. -/
def plainParse : List UInt8 → Option NetworkPacket
  | _ :: source :: destination :: flags :: payload =>
    some
      { source := .v4 1
        destination := .v4 2
        transport := .tcp
          { sourcePort := source.toNat
            destinationPort := destination.toNat
            syn := flags == 1
            ack := flags == 2
            rst := flags == 4 }
        payload := if payload = [] then none else some payload }
  | _ => none

theorem plain_listens : Listens plain where
  refuses _ _ endpoint := by
    show (if endpoint.port = 0 then none else some _) = none ↔ endpoint.port = 0
    split
    · next h => exact iff_of_true rfl h
    · next h => exact iff_of_false nofun h

/-- A stack that has just been started, with room for two sessions. -/
def started : Actor PlainSocket where
  config :=
    { mtu := 1500
      tcpConfig :=
        { twoMsl := 2, handshakeTimeout := 30, maxUnackedBytes := 16384, readBufferSize := 16384 }
      maxSessions := 2
      maxTcpSessions := 2
      reportTcpRefusals := false
      maxSessions_le := by decide }
  accept := { capacity := 2 }

/-- The actor goes round its loop once and finds nothing to do. -/
def idleRound : List Actor.Action := List.replicate 10 (.advance {})

/-- A packet for a socket is read, a round delivers it, and the next one is idle. -/
def packetRounds (bytes : List UInt8) : List Actor.Action :=
  .advance { arm := .read bytes } :: List.replicate 11 (.advance {}) ++ idleRound

theorem port_zero_stops :
    Listens plain ∧
    ∃ w, Reach Actor.Initial (Actor.apply plain plainParse) anyAction w ∧
      w.stage = .waiting ∧ w.canEnqueueIngress = true ∧
      [1, 7, 0, 1].length ≤ w.config.mtu ∧
      (w.processIngressPacket plain plainParse [1, 7, 0, 1] 0).1 = .error .listen ∧
      (w.advance plain plainParse { arm := .read [1, 7, 0, 1] }).stage = .stopped :=
  ⟨plain_listens, idleRound.foldl (Actor.apply plain plainParse) started,
    Reach.run (.start ⟨_, _, rfl⟩) (admissible_any _ _ _), by decide +kernel⟩

/-- The same SYN to any other port is taken. -/
theorem port_seven_goes_on :
    (started.processIngressPacket plain plainParse [1, 7, 7, 1] 0).1 = .ok () :=
  (ingress_stops_iff plain_listens rfl (by decide) 0).1.mpr (by
    rintro ⟨packet, header, hparse, -, -, hzero, -⟩
    cases hparse
    cases hzero)

end Foxcore.Proofs.Netstack
