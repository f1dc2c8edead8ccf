import Foxcore.Ref.Amnezia
import Foxcore.Ref.InitPacket
import Foxcore.Ref.Session

/-!
# The tunnel to one peer

The state machine of a WireGuard peer: IP packets go in, datagrams come out.
Time comes in with each call, as milliseconds of a clock, and random bytes come
from a source that may fail. An operation that fails keeps what it has changed
by then, so operations are commands over the state of the tunnel.

Three things are here that the source does not have. A session has a serial
number and a packet the number of the call that brought it, since values do not
have the identity that boxed sessions and buffers have. And `log` is what has
happened so far: packets handed in, sessions established, messages sealed,
datagrams queued, packets written to the caller's output.

The pool of spare buffers is left out: a buffer is cleared before it is used.
The source reads the system clock twice when it starts a handshake; the readings
come in with the call. Sizes are those of a 64-bit target.
-/

namespace Foxcore.Ref.Wireguard

open Lib

/-! ## Settings -/

structure PeerTimers where
  rekeyTimeoutS : Option (UInt16 × UInt16) := none
  rekeyAfterTimeS : Option (UInt16 × UInt16) := none
  rejectAfterTimeS : Option (UInt16 × UInt16) := none
  keepaliveTimeoutS : Option (UInt16 × UInt16) := none
  maxHandshakeAttempts : Option (UInt16 × UInt16) := none
  deriving DecidableEq

structure PeerSettings where
  privateKey : Key
  peerPublicKey : Key
  presharedKey : Option Key := none
  amnezia : AmneziaParams := {}
  persistentKeepaliveS : Option UInt16 := none
  reserved : Block 3 := Block.zero 3
  initPackets : List InitPacket := []
  timers : PeerTimers := {}
  deriving DecidableEq

structure PeerConfig where
  settings : PeerSettings
  headerProtectionKey : Option HeaderProtectionKey := none
  deriving DecidableEq

def PeerConfig.validate (config : PeerConfig) : Except WireguardError Unit := do
  config.settings.amnezia.validate
  match config.headerProtectionKey with
  | some _ => HeaderProtectionKey.validatePrefixes config.settings.amnezia
  | none => .ok ()

def rekeyTimeoutMs : Nat := 5000
def rekeyTimeoutJitterMaxMs : Nat := 333
def rekeyAttemptTimeMs : Nat := 90000
def keepaliveTimeoutMs : Nat := 10000
def rekeyAfterTimeMs : Nat := 120000
def rejectAfterTimeMs : Nat := 180000
def maxPendingPackets : Nat := 64
def cookieLifetimeMs : Nat := 120000

structure ResolvedTimers where
  rekeyTimeoutMs : Nat
  rekeyAfterTimeMs : Nat
  rejectAfterTimeMs : Nat
  keepaliveTimeoutMs : Nat
  maxHandshakeAttempts : Nat
  deriving DecidableEq

/-- `u64::saturating_add`. -/
def saturatingAdd64 (a b : Nat) : Nat := min (a + b) (2 ^ 64 - 1)

/-- `u64::saturating_mul`. -/
def saturatingMul64 (a b : Nat) : Nat := min (a * b) (2 ^ 64 - 1)

namespace ResolvedTimers

variable {ε : Type} [Entropy ε]

/-- Seconds from a range, or the default. -/
def draw (range : Option (UInt16 × UInt16)) (defaultS : Nat) : Command ε WireguardError Nat :=
  match range with
  | none => return defaultS
  | some (low, high) =>
    let high := max high.toNat low.toNat
    if low.toNat = high then return low.toNat
    else do
      let drawn ← ExceptT.mk (m := StateM ε) Entropy.nextU32
      return low.toNat + drawn.toNat % (high - low.toNat + 1)

def resolve (timers : PeerTimers) : Command ε WireguardError ResolvedTimers := do
  let rekeyTimeout ← draw timers.rekeyTimeoutS (Wireguard.rekeyTimeoutMs / 1000)
  let attempts ← draw timers.maxHandshakeAttempts
    (rekeyAttemptTimeMs / Wireguard.rekeyTimeoutMs)
  let rekeyAfter ← draw timers.rekeyAfterTimeS (Wireguard.rekeyAfterTimeMs / 1000)
  let rejectAfter ← draw timers.rejectAfterTimeS (Wireguard.rejectAfterTimeMs / 1000)
  let keepalive ← draw timers.keepaliveTimeoutS (Wireguard.keepaliveTimeoutMs / 1000)
  return { rekeyTimeoutMs := max (rekeyTimeout * 1000) 1000, rekeyAfterTimeMs := rekeyAfter * 1000,
           rejectAfterTimeMs := rejectAfter * 1000, keepaliveTimeoutMs := keepalive * 1000,
           maxHandshakeAttempts := max (min attempts (2 ^ 32 - 1)) 1 }

end ResolvedTimers

/-! ## State -/

inductive Queued where
  | sealed
  | held
  | heldDisplacing
  deriving DecidableEq

inductive Received where
  | none
  | packet
  deriving DecidableEq

/-- A packet and which call of `send_packet` brought it. A packet the tunnel
makes itself has no such call. -/
structure Held where
  packet : Bytes
  ticket : Option Nat
  deriving DecidableEq

structure Outgoing where
  datagram : Bytes
  payload : Nat
  deriving DecidableEq

inductive Event where
  /-- `send_packet` was called with a packet. -/
  | accepted (packet : Bytes)
  /-- A session was installed. Its serial number is how many were before it. -/
  | established (atMs : Nat)
  /-- A session sealed a packet into a transport message. -/
  | sealed (serial : Nat) (message : Bytes) (held : Held) (atMs : Nat)
  /-- The datagram with a sealed packet went into the transmit queue. -/
  | queued (held : Held) (outgoing : Outgoing)
  /-- A packet that a session opened was written to the output. -/
  | delivered (serial : Nat) (packet : Bytes) (atMs : Nat)
  deriving DecidableEq

/-- The packets handed to `send_packet`. -/
def accepted (log : List Event) : List Bytes :=
  log.filterMap fun
    | .accepted packet => some packet
    | _ => none

/-- When each session was installed. -/
def established (log : List Event) : List Nat :=
  log.filterMap fun
    | .established atMs => some atMs
    | _ => none

structure Live where
  session : TransportSession
  establishedMs : Nat
  serial : Nat
  deriving DecidableEq

namespace Live

def isExpired (live : Live) (nowMs rejectAfterMs : Nat) : Bool :=
  rejectAfterMs ≤ nowMs - live.establishedMs

def canSend (live : Live) (nowMs rejectAfterMs : Nat) : Bool :=
  !live.isExpired nowMs rejectAfterMs && live.session.canSend

end Live

structure Cookie where
  value : Block 16
  receivedMs : Nat
  deriving DecidableEq

section

variable [WireguardCrates]

/-- An initiation that waits for its response. -/
structure InFlight where
  handshake : Handshake
  retryAtMs : Nat
  mac1 : Block 16
  answered : Bool

structure PeerTunnel (ε : Type) where
  identity : StaticIdentity
  amnezia : AmneziaParams
  headerProtectionKey : Option HeaderProtectionKey
  persistentKeepaliveS : Option UInt16
  reserved : Block 3
  udpWindow : Nat
  initPackets : List InitPacket
  entropy : ε
  live : Option Live
  previous : Option Live
  handshake : Option InFlight
  cookie : Option Cookie
  nowMs : Nat
  lastSentMs : Nat
  timers : ResolvedTimers
  handshakeAttempts : Nat
  dataReceivedMs : Option Nat
  transmit : List Outgoing
  pending : List Held
  log : List Event

variable {ε : Type} [Entropy ε]

def PeerTunnel.new (config : PeerConfig) (entropy : ε) : Except WireguardError (PeerTunnel ε) := do
  config.validate
  let settings := config.settings
  let identity ← StaticIdentity.new settings.privateKey settings.peerPublicKey settings.presharedKey
  match (ResolvedTimers.resolve settings.timers).exec entropy with
  | (.error error, _) => .error error
  | (.ok timers, entropy) =>
    return { identity, amnezia := settings.amnezia,
             headerProtectionKey := config.headerProtectionKey,
             persistentKeepaliveS := settings.persistentKeepaliveS,
             reserved := settings.reserved, udpWindow := initialUdpWindow,
             initPackets := settings.initPackets, entropy, live := none, previous := none,
             handshake := none, cookie := none, nowMs := 0, lastSentMs := 0, timers,
             handshakeAttempts := 0, dataReceivedMs := none, transmit := [], pending := [],
             log := [] }

abbrev TunnelM (ε α : Type) : Type := Command (PeerTunnel ε) WireguardError α

/-- What the system clock reads when templates are rendered and when the
initiation is stamped. -/
structure Wall where
  rendered : Option SystemTime
  stamped : Option SystemTime
  deriving DecidableEq

namespace PeerTunnel

def fill (n : Nat) : TunnelM ε (Block n) :=
  ExceptT.mk fun t =>
    ((Entropy.fill t.entropy n).1, { t with entropy := (Entropy.fill t.entropy n).2 })

def nextU32 : TunnelM ε UInt32 :=
  ExceptT.mk fun t =>
    ((Entropy.nextU32 t.entropy).1, { t with entropy := (Entropy.nextU32 t.entropy).2 })

def canSeal (t : PeerTunnel ε) : Bool :=
  t.live.any (·.canSend t.nowMs t.timers.rejectAfterTimeMs)

/-- Drop every key that is too old. -/
def expireSessions (t : PeerTunnel ε) : PeerTunnel ε :=
  let keep := fun live : Live => !live.isExpired t.nowMs t.timers.rejectAfterTimeMs
  { t with live := t.live.filter keep, previous := t.previous.filter keep }

/-- What every call with a time begins with. -/
def enter (nowMs : Nat) : TunnelM ε Unit := modify fun t => { t with nowMs }.expireSessions

/-! ## Obfuscation -/

/-- The reserved bytes, where there is a header to put them in. -/
def stampReserved (t : PeerTunnel ε) (datagram : Bytes) : Bytes :=
  if t.reserved ≠ Block.zero 3 ∧ 4 ≤ datagram.length then
    datagram.take 1 ++ t.reserved.1 ++ datagram.drop 4
  else datagram

/-- The source lets the transform finish when the entropy fails in it and then
reports the failure; nothing more is drawn in between. -/
def obfuscate (message : Bytes) : TunnelM ε Bytes := do
  let t ← get
  let transform ← Command.give (t.amnezia.obfuscateIntoWithWindow message t.udpWindow fill)
  let datagram ← transform
  return if t.amnezia.isVanilla then t.stampReserved datagram else datagram

def obfuscateOwned (message : Bytes) : TunnelM ε Bytes := do
  let t ← get
  if !t.amnezia.isVanilla then obfuscate message
  else
    let _ ← Command.give (AmneziaParams.classify message)
    return t.stampReserved message

/-- The junk before and the protected length of a kind of message. -/
def protectedPart (t : PeerTunnel ε) (kind : UInt8) : Except WireguardError (Nat × Nat) :=
  if kind = typeInitiation then .ok (t.amnezia.initJunkSize.toNat, initiationLen)
  else if kind = typeResponse then .ok (t.amnezia.responseJunkSize.toNat, responseLen)
  else if kind = typeCookieReply then .ok (t.amnezia.cookieJunkSize.toNat, cookieReplyLen)
  else if kind = typeTransport then .ok (t.amnezia.transportJunkSize.toNat, transportHeaderLen)
  else .error .unexpectedMessage

def protectMessage (t : PeerTunnel ε) (kind : UInt8) (datagram : Bytes) :
    Except WireguardError Bytes :=
  match t.headerProtectionKey with
  | none => .ok datagram
  | some key => do
      let (junk, length) ← t.protectedPart kind
      let before := datagram.take junk
      let rest := datagram.drop junk
      if rest.length < length then .error .malformedMessage
      else
        let body ← key.transform before (rest.take length)
        return before ++ body ++ rest.drop length

/-! ## Handshakes -/

/-- The cookie that is not too old. -/
def activeCookie (t : PeerTunnel ε) : Option (Block 16) :=
  (t.cookie.filter fun cookie => t.nowMs - cookie.receivedMs < cookieLifetimeMs).map (·.value)

def renderInitPackets (wall : Wall) : TunnelM ε (List Outgoing) := do
  let t ← get
  let nowUnix := (wall.rendered.map fun now => now.secs % 2 ^ 32).getD 0
  (t.initPackets.filter fun packet => !packet.isEmpty).mapM fun packet => do
    let datagram ← packet.render nowUnix fill
    return ⟨datagram, 0⟩

def renderJunkPacket (amnezia : AmneziaParams) : TunnelM ε Outgoing := do
  let span := amnezia.junkMaxSize.toNat - amnezia.junkMinSize.toNat
  if span = 0 then do
    let junk ← fill amnezia.junkMinSize.toNat
    return ⟨junk.1, 0⟩
  else do
    let drawn ← nextU32
    let junk ← fill (amnezia.junkMinSize.toNat + drawn.toNat % (span + 1))
    return ⟨junk.1, 0⟩

def renderJunkPackets : TunnelM ε (List Outgoing) := do
  let t ← get
  (List.range t.amnezia.junkPacketCount.toNat).mapM fun _ => renderJunkPacket t.amnezia

/-- The obfuscated initiation with its two codes, and the first of them. -/
def authenticate (t : PeerTunnel ε) (initiation : Initiation) (datagram : Bytes) :
    Bytes × Block 16 :=
  let junk := t.amnezia.initJunkSize.toNat
  let body := (datagram.drop junk).take initiationLen
  let mac1 :=
    if t.amnezia.isVanilla then initiation.mac1
    else computeMac1 t.identity.peerPublic body initiationMac1Offset
  let body := body.take initiationMac1Offset ++ mac1.1 ++ body.drop initiationMac2Offset
  let body :=
    match t.activeCookie with
    | none => body
    | some cookie =>
      let mac2 :=
        if t.amnezia.isVanilla then
          computeMac2 cookie initiation.encode initiationMac2Offset
        else computeMac2 cookie body initiationMac2Offset
      body.take initiationMac2Offset ++ mac2.1
  (datagram.take junk ++ body ++ datagram.drop (junk + initiationLen), mac1)

def startHandshake (wall : Wall) : TunnelM ε Unit := do
  let initPackets ← renderInitPackets wall
  let junkPackets ← renderJunkPackets
  let ephemeralSeed ← fill 32
  let senderIndex ← nextU32
  let t ← get
  let (handshake, initiation) ← Command.give
    (Handshake.initiate t.identity senderIndex.toNat ephemeralSeed (tai64n wall.stamped))
  let drawn ← nextU32
  let jitterMs := drawn.toNat % (rekeyTimeoutJitterMaxMs + 1)
  let datagram ← obfuscate initiation.encode
  let (datagram, mac1) := t.authenticate initiation datagram
  let datagram ← Command.give (t.protectMessage typeInitiation datagram)
  modify fun t =>
    { t with
      transmit := t.transmit ++ (initPackets ++ junkPackets ++ [⟨datagram, 0⟩])
      handshake := some
        { handshake, mac1, answered := false,
          retryAtMs := saturatingAdd64 (saturatingAdd64 t.nowMs t.timers.rekeyTimeoutMs) jitterMs }
      handshakeAttempts := min (t.handshakeAttempts + 1) (2 ^ 32 - 1) }

/-! ## Sending -/

/-- The padding of a packet when so much of the window is free. `none` is the
standard padding. -/
def contentPadding (amnezia : AmneziaParams) (available : Nat) : TunnelM ε (Option Nat) :=
  match amnezia.contentPaddingAddition.filter fun range => range.start ≠ 0 || range.stop ≠ 0 with
  | some range =>
    if range.isSingle then return some (min range.start available)
    else do
      let drawn ← nextU32
      return some (min (range.samplePadding drawn) available)
  | none =>
    if amnezia.randomTrailers then
      if available = 0 then return some 0
      else do
        let drawn ← nextU32
        return some (drawn.toNat % available)
    else return none

/-- The live session seals a packet. -/
def sealLive (held : Held) (padding : Option Nat) : TunnelM ε Bytes := do
  let t ← get
  match t.live with
  | none => throw .unexpectedMessage
  | some live =>
    let (message, session) := live.session.sealAs held.packet padding
    modify fun t => { t with live := some { live with session } }
    let message ← Command.give message
    modify fun t => { t with log := t.log ++ [.sealed live.serial message held t.nowMs] }
    return message

def sealNow (held : Held) : TunnelM ε Queued := do
  let t ← get
  match (add64 t.amnezia.transportJunkSize.toNat (transportHeaderLen + tagLen)).bind
      (add64 · held.packet.length) with
  | none => throw .invalidParameters
  | some minimum =>
    let window := max t.udpWindow minimum
    modify fun t => { t with udpWindow := window }
    let padding ← contentPadding t.amnezia (window - minimum)
    let message ← sealLive held padding
    let datagram ← obfuscateOwned message
    let datagram ← Command.give (t.protectMessage typeTransport datagram)
    let outgoing : Outgoing := ⟨datagram, held.packet.length⟩
    modify fun t =>
      { t with
        transmit := t.transmit ++ [outgoing], lastSentMs := t.nowMs
        log := t.log ++ [.queued held outgoing] }
    return .sealed

/-- The loop of `flush_pending`, which takes a packet off the queue in every
round. -/
def flushLoop : Nat → TunnelM ε Unit
  | 0 => return ()
  | fuel + 1 => do
      let t ← get
      match t.pending with
      | [] => return ()
      | held :: rest =>
        if t.canSeal then do
          modify fun t => { t with pending := rest }
          let _ ← sealNow held
          flushLoop fuel
        else return ()

/-- Seal everything that waits for a session. -/
def flushPending : TunnelM ε Unit := do
  let t ← get
  flushLoop t.pending.length

/-- Put an empty packet at the end of the queue and seal what is in it. -/
def sendEmpty : TunnelM ε Unit := do
  modify fun t => { t with pending := t.pending ++ [⟨[], none⟩] }
  flushPending

/-- What `send_packet` answers from what the queue looks like in the end. -/
def queuedAs (pending : List Held) (displaced : Bool) : Queued :=
  match pending.isEmpty, displaced with
  | true, _ => .sealed
  | false, true => .heldDisplacing
  | false, false => .held

/-- Put a packet at the end of the queue, and drop the first one if the queue is
full. -/
def hold (t : PeerTunnel ε) (held : Held) : PeerTunnel ε :=
  { t with
    pending :=
      (if t.pending.length = maxPendingPackets then t.pending.tail else t.pending) ++ [held] }

def sendPacket (packet : Bytes) (nowMs : Nat) (wall : Wall) : TunnelM ε Queued := do
  enter nowMs
  let t ← get
  let held : Held := ⟨packet, some (accepted t.log).length⟩
  modify fun t => { t with log := t.log ++ [.accepted packet] }
  if t.pending.isEmpty && t.canSeal then sealNow held
  else
    let displaced : Bool := t.pending.length = maxPendingPackets
    modify fun t => t.hold held
    let _ ← (if !t.canSeal && t.handshake.isNone then startHandshake wall else flushPending)
    let t ← get
    return queuedAs t.pending displaced

def announceEndpoint (nowMs : Nat) (wall : Wall) : TunnelM ε Unit := do
  enter nowMs
  let t ← get
  if !t.canSeal then startHandshake wall
  else sendEmpty

def pollTransmit (t : PeerTunnel ε) : Option Outgoing × PeerTunnel ε :=
  match t.transmit with
  | [] => (none, t)
  | outgoing :: rest => (some outgoing, { t with transmit := rest })

/-! ## Receiving -/

def acceptCookieReply (datagram : Bytes) : TunnelM ε Received := do
  let reply ← Command.give (CookieReply.decode datagram)
  let t ← get
  match t.handshake with
  | none => throw .unexpectedMessage
  | some inFlight =>
    if reply.receiverIndex ≠ inFlight.handshake.senderIndex then throw .unexpectedMessage
    else
      let value ← Command.give
        (openCookie t.identity.peerPublic reply.nonce reply.encryptedCookie inFlight.mac1)
      modify fun t =>
        { t with
          cookie := some { value, receivedMs := t.nowMs }
          handshake := some { inFlight with answered := true } }
      return .none

/-- Take the responder's answer. `authenticated` is the message with the header
it had on the wire. -/
def acceptResponse (datagram authenticated : Bytes) : TunnelM ε Received := do
  let t ← get
  match t.handshake with
  | none => throw .unexpectedMessage
  | some inFlight =>
    let response ← Command.give (Response.decode datagram)
    if response.receiverIndex ≠ inFlight.handshake.senderIndex then throw .unexpectedMessage
    else if !verifyMac1 t.identity.publicKey
        (if t.amnezia.isVanilla then datagram else authenticated) responseMac1Offset
        response.mac1 then throw .malformedMessage
    else
      let keys ← Command.give (inFlight.handshake.consumeResponse t.identity response)
      modify fun t =>
        { t with
          handshake := none, handshakeAttempts := 0, previous := t.live
          live := some
            { session := .new keys, establishedMs := t.nowMs
              serial := (established t.log).length }
          log := t.log ++ [.established t.nowMs] }
      flushPending
      return .none

/-- The session a receiver index names: the current one or the one it replaced. -/
def sessionFor (t : PeerTunnel ε) (receiverIndex : Nat) : Option Live :=
  let names := fun live : Live => decide (live.session.localIndex = receiverIndex)
  (if t.live.any names then t.live else t.previous).filter names

/-- Put the session that `sessionFor` chose back. -/
def putSession (t : PeerTunnel ε) (receiverIndex : Nat) (live : Live) : PeerTunnel ε :=
  if t.live.any fun live => live.session.localIndex = receiverIndex then
    { t with live := some live }
  else { t with previous := some live }

def acceptTransport (datagram : Bytes) : TunnelM ε Received := do
  let (receiverIndex, _) ← Command.give (parseTransport datagram)
  let t ← get
  match t.sessionFor receiverIndex with
  | none => throw .unexpectedMessage
  | some live =>
    let (plaintext, session) := live.session.openMessage datagram
    modify fun t => t.putSession receiverIndex { live with session }
    let plaintext ← Command.give plaintext
    match (add64 t.amnezia.transportJunkSize.toNat transportHeaderLen).bind
        (add64 · plaintext.length) with
    | none => throw .malformedMessage
    | some observed =>
      modify fun t => { t with udpWindow := max t.udpWindow observed }
      match ipPacketLen plaintext with
      | none => return .none
      | some length =>
        modify fun t =>
          { t with
            dataReceivedMs := some t.nowMs
            log := t.log ++ [.delivered live.serial (plaintext.take length) t.nowMs] }
        return .packet

/-- What is done with a handshake message of a kind, given the message with the
header it had on the wire. -/
def acceptHandshake (kind : UInt8) (body : Bytes) : TunnelM ε Received :=
  let standard := header kind ++ body.drop 4
  if kind = typeResponse then acceptResponse standard body
  else if kind = typeCookieReply then acceptCookieReply standard
  else throw .unexpectedMessage

/-- The end of `receive_datagram`: the datagram as transport data, unless a
handshake message was accepted. `refusal` is why none was, if one was tried. -/
def receiveTransport (datagram : Bytes) (refusal : Option WireguardError) : TunnelM ε Received := do
  let t ← get
  if t.amnezia.isTransport datagram then
    if t.amnezia.isVanilla then acceptTransport datagram
    else
      let standard ← Command.give (t.amnezia.deobfuscateTransport datagram)
      acceptTransport standard
  else throw (refusal.getD .unexpectedMessage)

def receivePlain (datagram : Bytes) : TunnelM ε Received := do
  let t ← get
  match t.amnezia.handshakeBody datagram with
  | .error _ => receiveTransport datagram none
  | .ok (kind, body) =>
    let result ← Command.attempt (acceptHandshake kind body)
    match result with
    | .ok received => return received
    | .error error => receiveTransport datagram (some error)

/-- The four bytes at an offset under the mask, as a header. -/
def maskedHeader (datagram : Bytes) (offset : Nat) (mask : Bytes) : Nat :=
  fromLe (List.zipWith (· ^^^ ·) ((datagram.drop offset).take 4) (mask.take 4))

def protectedHandshakeBody (t : PeerTunnel ε) (datagram : Bytes) (candidate : Candidate)
    (mask : Bytes) : Except WireguardError (Option Bytes) :=
  if !t.amnezia.fits candidate datagram then .ok none
  else
    match t.headerProtectionKey with
    | none => .error .invalidParameters
    | some key =>
      if !candidate.header.contains (maskedHeader datagram candidate.junk mask) then .ok none
      else do
        let body ← key.transform (datagram.take candidate.junk)
          ((datagram.drop candidate.junk).take candidate.length)
        return some body

/-- The end of `receive_protected`, when no handshake message was accepted. -/
def receiveProtectedTransport (datagram mask : Bytes) (refusal : Option WireguardError) :
    TunnelM ε Received := do
  let t ← get
  let junk := t.amnezia.transportJunkSize.toNat
  if junk + (transportHeaderLen + tagLen) ≤ datagram.length &&
      t.amnezia.headerTransport.contains (maskedHeader datagram junk mask) then
    let body := datagram.drop junk
    let unmasked := List.zipWith (· ^^^ ·) (body.take transportHeaderLen) mask
    acceptTransport (header typeTransport ++ unmasked.drop 4 ++ body.drop transportHeaderLen)
  else throw (refusal.getD .unexpectedMessage)

/-- The loop of `receive_protected` over the kinds of handshake messages. -/
def tryCandidates (datagram mask : Bytes) :
    List Candidate → Option WireguardError → TunnelM ε Received
  | [], refusal => receiveProtectedTransport datagram mask refusal
  | candidate :: rest, refusal => do
      let t ← get
      let body ← Command.give (t.protectedHandshakeBody datagram candidate mask)
      match body with
      | none => tryCandidates datagram mask rest refusal
      | some body =>
        let result ← Command.attempt (acceptHandshake candidate.kind body)
        match result with
        | .ok received => return received
        | .error error => tryCandidates datagram mask rest (some error)

def receiveProtected (key : HeaderProtectionKey) (datagram : Bytes) : TunnelM ε Received := do
  let mask ← Command.give (key.transform datagram (List.replicate transportHeaderLen 0))
  let t ← get
  tryCandidates datagram mask t.amnezia.candidates none

def receiveDatagram (datagram : Bytes) (nowMs : Nat) : TunnelM ε Received := do
  enter nowMs
  let t ← get
  match t.headerProtectionKey with
  | some key => receiveProtected key datagram
  | none => receivePlain datagram

/-! ## Timers -/

def retryHandshakeIfDue (wall : Wall) : TunnelM ε Unit := do
  let t ← get
  match t.handshake with
  | none => return ()
  | some inFlight =>
    if t.nowMs < inFlight.retryAtMs then return ()
    else if t.timers.maxHandshakeAttempts ≤ t.handshakeAttempts then
      modify fun t => { t with handshake := none, pending := [] }
    else startHandshake wall

def unansweredRetryDue (t : PeerTunnel ε) (nowMs : Nat) : Bool :=
  !(t.live.any (·.canSend nowMs t.timers.rejectAfterTimeMs)) &&
    t.handshake.any fun inFlight =>
      !inFlight.answered && inFlight.retryAtMs ≤ nowMs &&
        t.handshakeAttempts < t.timers.maxHandshakeAttempts

def retryOnNewEndpoint (nowMs : Nat) (wall : Wall) : TunnelM ε Unit := do
  let t ← get
  if !t.unansweredRetryDue nowMs then throw .unexpectedMessage
  else
    enter nowMs
    modify fun t => { t with cookie := none }
    startHandshake wall

def rekeyIfDue (wall : Wall) : TunnelM ε Unit := do
  let t ← get
  if t.handshake.isSome then return ()
  else
    match t.live with
    | none => return ()
    | some live =>
      if t.nowMs - live.establishedMs < t.timers.rekeyAfterTimeMs &&
          !live.session.needsRekey then return ()
      else startHandshake wall

def sendKeepaliveIfDue : TunnelM ε Unit := do
  let t ← get
  match t.persistentKeepaliveS.filter (0 < ·) with
  | none => return ()
  | some intervalS =>
    if !t.canSeal then return ()
    else if t.nowMs - t.lastSentMs < intervalS.toNat * 1000 then return ()
    else sendEmpty

def sendPassiveKeepaliveIfDue : TunnelM ε Unit := do
  let t ← get
  match t.dataReceivedMs with
  | none => return ()
  | some receivedMs =>
    if receivedMs ≤ t.lastSentMs then modify fun t => { t with dataReceivedMs := none }
    else if t.nowMs - receivedMs < t.timers.keepaliveTimeoutMs then return ()
    else if !t.canSeal then return ()
    else
      modify fun t => { t with dataReceivedMs := none }
      sendEmpty

def tick (nowMs : Nat) (wall : Wall) : TunnelM ε Unit := do
  enter nowMs
  retryHandshakeIfDue wall
  rekeyIfDue wall
  sendPassiveKeepaliveIfDue
  sendKeepaliveIfDue

/-- The times `next_deadline_ms` considers. -/
def deadlines (t : PeerTunnel ε) : List Nat :=
  let rejectAfterMs := t.timers.rejectAfterTimeMs
  (t.handshake.elim [] fun inFlight => [inFlight.retryAtMs]) ++
  (t.live.elim [] fun live =>
    [saturatingAdd64 live.establishedMs rejectAfterMs] ++
    (if t.handshake.isNone then
      if live.session.needsRekey then [t.nowMs]
      else [saturatingAdd64 live.establishedMs t.timers.rekeyAfterTimeMs]
    else []) ++
    (if live.canSend t.nowMs rejectAfterMs then
      ((t.persistentKeepaliveS.filter (0 < ·)).elim [] fun intervalS =>
        [saturatingAdd64 t.lastSentMs (saturatingMul64 intervalS.toNat 1000)]) ++
      ((t.dataReceivedMs.filter (t.lastSentMs < ·)).elim [] fun receivedMs =>
        [saturatingAdd64 receivedMs t.timers.keepaliveTimeoutMs])
    else [])) ++
  (t.previous.elim [] fun previous => [saturatingAdd64 previous.establishedMs rejectAfterMs])

def nextDeadlineMs (t : PeerTunnel ε) : Option Nat := t.deadlines.min?

/-! ## Runs -/

inductive Action where
  | sendPacket (packet : Bytes) (nowMs : Nat) (wall : Wall)
  | receiveDatagram (datagram : Bytes) (nowMs : Nat)
  | tick (nowMs : Nat) (wall : Wall)
  | announceEndpoint (nowMs : Nat) (wall : Wall)
  | retryOnNewEndpoint (nowMs : Nat) (wall : Wall)
  | pollTransmit

/-- The tunnel after a call, whatever the call answered. -/
def apply (t : PeerTunnel ε) : Action → PeerTunnel ε
  | .sendPacket packet nowMs wall => ((PeerTunnel.sendPacket packet nowMs wall).exec t).2
  | .receiveDatagram datagram nowMs => ((PeerTunnel.receiveDatagram datagram nowMs).exec t).2
  | .tick nowMs wall => ((PeerTunnel.tick nowMs wall).exec t).2
  | .announceEndpoint nowMs wall => ((PeerTunnel.announceEndpoint nowMs wall).exec t).2
  | .retryOnNewEndpoint nowMs wall => ((PeerTunnel.retryOnNewEndpoint nowMs wall).exec t).2
  | .pollTransmit => t.pollTransmit.2

/-- A tunnel that has just been made. -/
def Made (config : PeerConfig) (t : PeerTunnel ε) : Prop :=
  ∃ entropy : ε, PeerTunnel.new config entropy = .ok t

end PeerTunnel

end

end Foxcore.Ref.Wireguard
