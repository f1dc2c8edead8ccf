import Foxcore.Lib.History
import Foxcore.Ref.Tunnel

/-!
# A link

What a tunnel is for, as far as the use of keys and the fate of packets go: a
session in use and the one before it, packets that wait, datagrams to send, and
the history. `Link.Step` is everything that may happen to a link. It says under
which condition a packet may be sealed and what sealing can come to; why a
session is established, which datagrams are sent and what is drawn at random is
left open.
-/

namespace Foxcore.Spec

open Lib Ref Ref.Wireguard

/-! ## What a history has -/

/-- The sealed messages, each with the serial number of its session. -/
def seals (log : List Event) : List (Nat × Bytes) :=
  log.filterMap fun
    | .sealed serial message _ _ => some (serial, message)
    | _ => none

def sealedPackets (log : List Event) : List Held :=
  log.filterMap fun
    | .sealed _ _ held _ => some held
    | _ => none

/-- The packets whose datagrams were queued. -/
def queued (log : List Event) : List Held :=
  log.filterMap fun
    | .queued held _ => some held
    | _ => none

def counterOf (message : Bytes) : Option Nat :=
  match parseTransport message with
  | .ok (_, counter, _) => some counter
  | .error _ => none

/-- A session was not too old when it was used. -/
def InTime (rejectAfterMs : Nat) (before : List Event) (serial atMs : Nat) : Prop :=
  ∃ sinceMs, (established before)[serial]? = some sinceMs ∧ atMs - sinceMs < rejectAfterMs

/-- The rules on the use of keys. A message is sealed under the newest session,
in time, and with a counter below the limit that no earlier message of the
session carries. A packet is handed out in time. -/
def RightfulUse (rejectAfterMs : Nat) (before : List Event) : Event → Prop
  | .sealed serial message _ atMs =>
    (established before).length = serial + 1 ∧ InTime rejectAfterMs before serial atMs ∧
    ∃ counter < rejectAfterMessages, counterOf message = some counter ∧
      ∀ earlier ∈ seals before, earlier.1 = serial → counterOf earlier.2 ≠ some counter
  | .delivered serial _ atMs => InTime rejectAfterMs before serial atMs
  | _ => True

/-- Packets with the numbers of the calls that brought them. -/
def ticketed (packets : List Bytes) : List Held :=
  packets.zipIdx.map fun (packet, i) => ⟨packet, some i⟩

/-- The packets that are not empty. -/
def filled (held : List Held) : List Held := held.filter fun h => h.packet ≠ []

/-- What is sealed are packets that were handed in, in order and each once, and
the empty packets a tunnel makes itself. What is queued was sealed. -/
structure PacketsInOrder (log : List Event) : Prop where
  order : (filled (sealedPackets log)).Sublist (ticketed (accepted log))
  once : (filled (sealedPackets log)).Nodup
  queued : (queued log).Sublist (sealedPackets log)

/-! ## Links -/

/-- A session as far as the rules go. -/
structure SessionKey where
  serial : Nat
  counter : Nat
  sinceMs : Nat
  deriving DecidableEq

def SessionKey.next (key : SessionKey) : SessionKey := { key with counter := key.counter + 1 }

structure Link where
  nowMs : Nat
  rejectAfterMs : Nat
  live : Option SessionKey
  previous : Option SessionKey
  pending : List Held
  transmit : List Outgoing
  log : List Event

namespace Link

def Young (l : Link) (key : SessionKey) : Prop := l.nowMs - key.sinceMs < l.rejectAfterMs

def CanSeal (l : Link) : Prop :=
  ∃ key, l.live = some key ∧ l.Young key ∧ key.counter < rejectAfterMessages

/-- Time passes and sessions that are too old go. -/
def enter (l : Link) (nowMs : Nat) : Link :=
  let keep := fun key : SessionKey => decide (nowMs - key.sinceMs < l.rejectAfterMs)
  { l with nowMs, live := l.live.filter keep, previous := l.previous.filter keep }

/-- A packet is handed in and joins the queue, in place of the first one if the
queue is full. -/
def accept (l : Link) (packet : Bytes) : Link :=
  { l with
    pending :=
      (if l.pending.length = maxPendingPackets then l.pending.tail else l.pending) ++
        [⟨packet, some (accepted l.log).length⟩]
    log := l.log ++ [.accepted packet] }

/-- A new session takes the place of the one in use. -/
def establish (l : Link) : Link :=
  { l with
    previous := l.live, live := some ⟨(established l.log).length, 0, l.nowMs⟩
    log := l.log ++ [.established l.nowMs] }

/-- What sealing a packet can come to, and whether it succeeds. -/
inductive Seals (l : Link) (held : Held) : Bool → Link → Prop
  /-- No message was made. -/
  | refused : Seals l held false l
  /-- The counter has advanced and no message was made. -/
  | spoiled {key : SessionKey} : l.live = some key →
      Seals l held false { l with live := some key.next }
  /-- A message was made and no datagram. -/
  | lost {key : SessionKey} {message : Bytes} : l.live = some key →
      counterOf message = some key.counter →
      Seals l held false
        { l with
          live := some key.next
          log := l.log ++ [.sealed key.serial message held l.nowMs] }
  | queued {key : SessionKey} {message : Bytes} {outgoing : Outgoing} : l.live = some key →
      counterOf message = some key.counter →
      Seals l held true
        { l with
          live := some key.next, transmit := l.transmit ++ [outgoing]
          log := l.log ++ [.sealed key.serial message held l.nowMs] ++ [.queued held outgoing] }

/-- What sealing the packets that wait can come to: it goes on while a packet
may be sealed and ends at the first that fails. -/
inductive Flushed : Link → Bool → Link → Prop
  | stop {l : Link} : l.pending = [] ∨ ¬ l.CanSeal → Flushed l true l
  | fail {l l' : Link} {held : Held} {rest : List Held} : l.CanSeal → l.pending = held :: rest →
      Seals { l with pending := rest } held false l' → Flushed l false l'
  | next {l m l' : Link} {held : Held} {rest : List Held} {ok : Bool} : l.CanSeal →
      l.pending = held :: rest → Seals { l with pending := rest } held true m →
      Flushed m ok l' → Flushed l ok l'

inductive Step (l : Link) : Link → Prop
  | enter (nowMs : Nat) : Step l (l.enter nowMs)
  | send {packet : Bytes} {ok : Bool} {l' : Link} : l.CanSeal → Flushed (l.accept packet) ok l' →
      Step l l'
  | hold (packet : Bytes) : ¬ l.CanSeal → Step l (l.accept packet)
  /-- An empty packet joins the queue. -/
  | keepalive {ok : Bool} {l' : Link} : l.CanSeal →
      Flushed { l with pending := l.pending ++ [⟨[], none⟩] } ok l' → Step l l'
  | establish {ok : Bool} {l' : Link} : Flushed l.establish ok l' → Step l l'
  | abandon : Step l { l with pending := [] }
  | emit (outgoing : List Outgoing) : Step l { l with transmit := l.transmit ++ outgoing }
  | deliver {key : SessionKey} (packet : Bytes) : (l.live = some key ∨ l.previous = some key) →
      l.Young key → Step l { l with log := l.log ++ [.delivered key.serial packet l.nowMs] }
  | poll : Step l { l with transmit := l.transmit.tail }

/-- What `send_packet` does after the clock has been set: the packets that wait
are sealed, this one behind them, or it waits with them. -/
inductive Sent (l : Link) (packet : Bytes) : Except WireguardError Queued → Link → Prop
  | flushed {r : Except WireguardError Queued} {l' : Link} : l.CanSeal →
      Flushed (l.accept packet) r.isOk l' →
      (∀ answer, r = .ok answer → ∃ displaced, answer = PeerTunnel.queuedAs l'.pending displaced) →
      Sent l packet r l'
  | held {r : Except WireguardError Queued} (outgoing : List Outgoing) : ¬ l.CanSeal →
      (∀ answer, r = .ok answer →
        ∃ displaced, answer = PeerTunnel.queuedAs (l.accept packet).pending displaced) →
      Sent l packet r { l.accept packet with transmit := l.transmit ++ outgoing }

/-- One step after the other. -/
abbrev Steps : Link → Link → Prop := Relation.ReflTransGen Step

end Link

end Foxcore.Spec
