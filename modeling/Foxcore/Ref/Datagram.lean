import Foxcore.Ref.Netstack

/-!
# A UDP flow and its relay

`DatagramFlow` hands the datagrams of one five-tuple to a relay through `AsyncRead`, and the
relay's answers back as packets through `AsyncWrite`. Time is an input of each call. The
flow holds a sender of its own queue, so the queue is never closed.
-/

namespace Foxcore.Ref.Datagram

open Ref.Netstack

def minMtu : Nat := 1280
def udpSessionQueueDepth : Nat := 32
def udpSessionChannelDepth : Nat := udpSessionQueueDepth - 1
def udpHeader : Nat := 8
def ttl : Nat := 64

def ipHeader : IpAddr → Nat
  | .v4 _ => 20
  | .v6 _ => 40

def isIpv4 : IpAddr → Bool
  | .v4 _ => true
  | .v6 _ => false

/-- `NetworkPacket::parse`: no payload is stored for an empty one. -/
def parsedPayload (payload : List UInt8) : Option (List UInt8) :=
  if payload.isEmpty then none else some payload

/-- A packet to the device. -/
structure RevPacket where
  source : SocketAddr
  destination : SocketAddr
  timeToLive : Nat
  payload : List UInt8
  deriving DecidableEq

def RevPacket.length (p : RevPacket) : Nat :=
  ipHeader p.source.ip + udpHeader + p.payload.length

structure DatagramFlow where
  srcAddr : SocketAddr
  dstAddr : SocketAddr
  mtu : Nat
  timeoutInterval : Nat
  deadline : Nat
  /-- The payloads of the packets in the queue. -/
  queue : List (Option (List UInt8)) := []
  readPayload : Option (List UInt8)
  readOffset : Nat := 0
  /-- The stack is built with a smaller MTU by no one. -/
  mtu_ge : minMtu ≤ mtu
  /-- Both addresses are of one IP packet. -/
  sameFamily : isIpv4 srcAddr.ip = isIpv4 dstAddr.ip

inductive WriteError where
  | exceedsMtu
  | invalidPacket
  | writeZero
  | unexpectedEof
  deriving DecidableEq

inductive SessionPacketDelivery where
  | delivered
  | dropped
  | closed
  deriving DecidableEq

inductive ReadPoll where
  | ready (bytes : List UInt8)
  | timedOut
  | pending
  deriving DecidableEq

namespace DatagramFlow

def maxPayload (flow : DatagramFlow) : Nat := flow.mtu - (ipHeader flow.dstAddr.ip + udpHeader)

/-- `SessionPacketSender::send`: the packet and whether it was taken. -/
def accept (flow : DatagramFlow) (payload : List UInt8) : Bool × DatagramFlow :=
  if flow.queue.length < udpSessionChannelDepth then
    (true, { flow with queue := flow.queue ++ [parsedPayload payload] })
  else (false, flow)

def resetTimeout (flow : DatagramFlow) (now : Nat) : DatagramFlow :=
  { flow with deadline := now + flow.timeoutInterval }

def readPendingPayload (flow : DatagramFlow) (remaining : Nat) : List UInt8 × DatagramFlow :=
  match flow.readPayload with
  | none => ([], flow)
  | some payload =>
    let last := min (flow.readOffset + remaining) payload.length
    let bytes := (payload.take last).drop flow.readOffset
    if last = payload.length then (bytes, { flow with readPayload := none, readOffset := 0 })
    else (bytes, { flow with readOffset := last })

def pollRead (flow : DatagramFlow) (now remaining : Nat) : ReadPoll × DatagramFlow :=
  if remaining = 0 then (.ready [], flow)
  else if flow.readPayload.isSome then
    let read := flow.readPendingPayload remaining
    (.ready read.1, read.2)
  else if flow.deadline ≤ now then (.timedOut, flow)
  else
    let flow := flow.resetTimeout now
    match flow.queue with
    | [] => (.pending, flow)
    | payload :: rest =>
      let read := { flow with queue := rest, readPayload := payload }.readPendingPayload remaining
      (.ready read.1, read.2)

def createRevPacket (flow : DatagramFlow) (payload : List UInt8) : Except WriteError RevPacket :=
  if isIpv4 flow.dstAddr.ip ≠ isIpv4 flow.srcAddr.ip then .error .invalidPacket
  else if flow.mtu - (ipHeader flow.dstAddr.ip + udpHeader) < payload.length then
    .error .exceedsMtu
  else
    .ok { source := flow.dstAddr, destination := flow.srcAddr, timeToLive := ttl, payload }

/-- `poll_write`, with the packet it offers to the device. -/
def pollWrite (flow : DatagramFlow) (now : Nat) (buf : List UInt8)
    (delivery : SessionPacketDelivery) :
    Except WriteError Nat × Option RevPacket × DatagramFlow :=
  let flow := flow.resetTimeout now
  if flow.maxPayload < buf.length then (.error .exceedsMtu, none, flow)
  else
    match flow.createRevPacket buf with
    | .error error => (.error error, none, flow)
    | .ok packet =>
      match delivery with
      | .delivered | .dropped => (.ok buf.length, some packet, flow)
      | .closed => (.error .unexpectedEof, some packet, flow)

/-- `write_all`: one `poll_write` after the other until nothing is left. -/
def writeAll (now : Nat) (delivery : SessionPacketDelivery) :
    (rounds : Nat) → DatagramFlow → List UInt8 →
      Except WriteError Unit × List RevPacket × DatagramFlow
  | 0, flow, _ => (.ok (), [], flow)
  | rounds + 1, flow, buf =>
    if buf.isEmpty then (.ok (), [], flow)
    else
      match flow.pollWrite now buf delivery with
      | (.error error, packet, flow) => (.error error, packet.toList, flow)
      | (.ok 0, packet, flow) => (.error .writeZero, packet.toList, flow)
      | (.ok written, packet, flow) =>
        let rest := writeAll now delivery rounds flow (buf.drop written)
        (rest.1, packet.toList ++ rest.2.1, rest.2.2)

end DatagramFlow

/-! ## The relay loop of `handle_udp` -/

/-- Why the loop was left. -/
inductive Ending where
  /-- A cancellation or a revocation. -/
  | stopped
  | readFailed
  | endOfFile
  | sendFailed
  | receiveFailed
  | writeFailed
  deriving DecidableEq

structure Relay where
  flow : DatagramFlow
  ending : Option Ending := none
  /-- What was handed to the datagram session. -/
  forwarded : List (List UInt8) := []
  /-- What was offered to the device. -/
  emitted : List RevPacket := []

namespace Relay

/-- The arm that reads from the flow; `sent` is what becomes of the datagram. -/
def read (r : Relay) (now : Nat) (sent : Option Ending) : Relay :=
  match r.flow.pollRead now r.flow.maxPayload with
  | (.pending, flow) => { r with flow }
  | (.timedOut, flow) => { r with flow, ending := some .readFailed }
  | (.ready bytes, flow) =>
    if bytes.length = 0 then { r with flow, ending := some .endOfFile }
    else { r with flow, forwarded := r.forwarded ++ [bytes], ending := sent }

/-- The arm that receives from the session. -/
def receive (r : Relay) (now : Nat) (payload : List UInt8) (delivery : SessionPacketDelivery) :
    Relay :=
  let written := DatagramFlow.writeAll now delivery payload.length r.flow payload
  { r with
    flow := written.2.2
    emitted := r.emitted ++ written.2.1
    ending := match written.1 with
      | .ok () => r.ending
      | .error _ => some .writeFailed }

end Relay

end Foxcore.Ref.Datagram
