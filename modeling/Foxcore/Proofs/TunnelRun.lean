import Foxcore.Lib.System
import Foxcore.Proofs.Tunnel
import Foxcore.Spec.Delivery

/-!
# Runs of a tunnel

Receiving is the last of the operations. A datagram may be tried as a handshake
message and then as transport data, and a handshake message may establish a
session and fail after that; sessions are then still not too old, because a
packet was about to be sealed (`acceptResponse_spec`).
-/

namespace Foxcore.Proofs

open Lib Lib.Command Ref Ref.Wireguard Spec Option
open Ref.Wireguard.PeerTunnel

section

variable [WireguardCrates] {ε : Type}

variable {t : PeerTunnel ε} {config : PeerConfig}
  {Q : Except WireguardError Received → PeerTunnel ε → Prop}

/-! ## What is received -/

/-- A cookie changes something only if it opens. -/
theorem ends_acceptCookieReply {datagram : Bytes} (hrefused : ∀ error, Q (.error error) t)
    (hanswer : ∀ reply inFlight value, CookieReply.decode datagram = .ok reply →
      t.handshake = some inFlight →
      openCookie t.identity.peerPublic reply.nonce reply.encryptedCookie inFlight.mac1 =
        .ok value →
      Q (.ok .none)
        { t with
          cookie := some { value, receivedMs := t.nowMs }
          handshake := some { inFlight with answered := true } }) :
    Ends (acceptCookieReply datagram) t Q := by
  rw [acceptCookieReply, ends_give_bind]
  refine ⟨fun error _ => hrefused error, fun reply hdecode => ?_⟩
  rw [ends_get_bind]
  split
  · exact hrefused _
  · next inFlight hflight =>
    split
    · exact hrefused _
    · rw [ends_give_bind]
      exact ⟨fun error _ => hrefused error,
        fun value hvalue => hanswer reply inFlight value hdecode hflight hvalue⟩

/-- The tunnel with the session of a response. -/
def installed (t : PeerTunnel ε) (keys : TransportKeys) : PeerTunnel ε :=
  { t with
    handshake := none, handshakeAttempts := 0, previous := t.live
    live := some
      { session := .new keys, establishedMs := t.nowMs, serial := (established t.log).length }
    log := t.log ++ [.established t.nowMs] }

section

variable [Entropy ε]

/-- A response changes something only if it is an answer; what waited is sealed then. -/
theorem ends_acceptResponse {datagram authenticated : Bytes}
    (hrefused : ∀ error, (∀ keys, ¬ Establishes t datagram authenticated keys) → Q (.error error) t)
    (haccepted : ∀ keys, Establishes t datagram authenticated keys →
      Ends flushPending (installed t keys) fun r t' => Q (r.map fun _ => .none) t') :
    Ends (acceptResponse datagram authenticated) t Q := by
  rw [acceptResponse, ends_get_bind]
  simp only [Establishes] at hrefused haccepted
  generalize (if t.amnezia.isVanilla then datagram else authenticated) = covered at *
  split
  · next hflight => exact hrefused _ (by simp [hflight])
  · next inFlight hflight =>
    rw [ends_give_bind]
    refine ⟨fun error herror => hrefused error (by simp [herror]), fun response hdecode => ?_⟩
    split
    · next hindex => exact hrefused _ (by simp [hflight, hdecode, hindex])
    · next hindex =>
      split
      · next hmac => exact hrefused _ (by simp_all)
      · next hmac =>
        rw [ends_give_bind]
        refine ⟨fun error herror => hrefused error (by simp [hflight, hdecode, herror]),
          fun keys hkeys => ?_⟩
        rw [ends_modify_bind, ends_bind]
        refine (haccepted keys ⟨inFlight, response, hflight, hdecode, not_not.mp hindex,
          by simpa using hmac, hkeys⟩).imp fun r t' h => ?_
        cases r <;> exact h

/-- A datagram is tried as one handshake message after the other and then as transport
data. `I` holds as long as nothing was accepted. -/
theorem ends_receiveDatagram {I : PeerTunnel ε → Prop} {datagram : Bytes} {nowMs : Nat}
    (henter : I { t with nowMs }.expireSessions)
    (hhandshake : ∀ t kind body, I t → Ends (acceptHandshake kind body) t fun r t' =>
      match r with
      | .ok _ => Q r t'
      | .error _ => I t') (htransport : ∀ t message, I t → Ends (acceptTransport message) t Q)
    (hrefused : ∀ t error, I t → Q (.error error) t) :
    Ends (receiveDatagram datagram nowMs) t Q := by
  have hattempt : ∀ {t kind body} {f : Except WireguardError Received → TunnelM ε Received},
      I t → (∀ received, f (.ok received) = pure received) →
      (∀ error t', I t' → Ends (f (.error error)) t' Q) →
      Ends (attempt (acceptHandshake kind body) >>= f) t Q := by
    intro t kind body f ht hok herror
    rw [ends_bind, ends_attempt]
    refine (hhandshake t kind body ht).imp fun r t' h => ?_
    cases r with
    | ok received =>
      show Ends (f (.ok received)) t' Q
      rw [hok]
      exact h
    | error error => exact herror error t' h
  have hplain : ∀ refusal t, I t → Ends (receiveTransport datagram refusal) t Q := by
    intro refusal t ht
    rw [receiveTransport, ends_get_bind]
    split
    · split
      · exact htransport t _ ht
      · rw [ends_give_bind]
        exact ⟨fun error _ => hrefused t error ht, fun standard _ => htransport t standard ht⟩
    · exact hrefused t _ ht
  have hcandidates : ∀ mask candidates refusal t, I t →
      Ends (tryCandidates datagram mask candidates refusal) t Q := by
    intro mask candidates
    induction candidates with
    | nil =>
      intro refusal t ht
      rw [tryCandidates, receiveProtectedTransport, ends_get_bind]
      dsimp only
      split
      · exact htransport t _ ht
      · exact hrefused t _ ht
    | cons candidate rest ih =>
      intro refusal t ht
      rw [tryCandidates, ends_get_bind, ends_give_bind]
      refine ⟨fun error _ => hrefused t error ht, fun body _ => ?_⟩
      cases body with
      | none => exact ih refusal t ht
      | some => exact hattempt ht (fun _ => rfl) fun error => ih (some error)
  rw [receiveDatagram, enter, ends_modify_bind, ends_get_bind]
  generalize { t with nowMs }.expireSessions = t at henter ⊢
  split
  · rw [receiveProtected, ends_give_bind]
    refine ⟨fun error _ => hrefused t error henter, fun mask _ => ?_⟩
    rw [ends_get_bind]
    exact hcandidates mask _ none t henter
  · rw [receivePlain, ends_get_bind]
    split
    · exact hplain none t henter
    · exact hattempt henter (fun _ => rfl) fun error => hplain (some error)

end

/-! ## Transport data -/

theorem sessionFor_key {receiverIndex : Nat} {live : Live}
    (h : t.sessionFor receiverIndex = some live) :
    (linkOf t).live = some (keyOfSession live) ∨
      (linkOf t).previous = some (keyOfSession live) := by
  have h := (filter_eq_some_iff.mp h).1
  split at h
  · left
    rw [linkOf, h, map_some]
  · right
    rw [linkOf, h, map_some]

/-- A session is put back with what it had. -/
theorem linkOf_putSession {receiverIndex : Nat} {live live' : Live}
    (h : t.sessionFor receiverIndex = some live) (hkey : keyOfSession live' = keyOfSession live) :
    linkOf (t.putSession receiverIndex live') = linkOf t := by
  have h := (filter_eq_some_iff.mp h).1
  rw [putSession]
  split at h
  · next hcurrent =>
    rw [if_pos hcurrent]
    simp only [linkOf, h, map_some, hkey]
  · next hcurrent =>
    rw [if_neg hcurrent]
    simp only [linkOf, h, map_some, hkey]

/-! ## What is tried -/

/-- What a handshake message may do, with sessions that are not too old before:
where it fails, they still are not after. -/
def Handles (m : TunnelM ε Received) : Prop :=
  ∀ t, AllYoung (linkOf t) → Ends m t fun r t' =>
    (linkOf t).Steps (linkOf t') ∧ ∀ error, r = .error error → AllYoung (linkOf t')

theorem handles_of_leaves {m : TunnelM ε Received} (h : Leaves linkOf m) : Handles m := by
  intro t hyoung
  refine (h t).imp fun _ t' heq => ?_
  rw [heq]
  exact ⟨.refl, fun _ _ => hyoung⟩

/-- What is tried when sessions are not too old. -/
def Tries (m : TunnelM ε Received) : Prop :=
  ∀ t, AllYoung (linkOf t) → Ends m t fun _ t' => (linkOf t).Steps (linkOf t')

theorem acceptTransport_tries (datagram : Bytes) :
    Tries (acceptTransport datagram : TunnelM ε Received) := by
  intro t hyoung
  rw [acceptTransport, ends_give_bind]
  refine ⟨fun _ _ => .refl, ?_⟩
  rintro ⟨receiverIndex, -⟩ -
  rw [ends_get_bind]
  split
  · exact .refl
  · next live hsession =>
    obtain ⟨replay, hreplay⟩ := openMessage_session live.session datagram
    generalize live.session.openMessage datagram = opened at hreplay ⊢
    obtain ⟨plaintext, session⟩ := opened
    have hput : linkOf (t.putSession receiverIndex { live with session }) = linkOf t := by
      refine linkOf_putSession hsession ?_
      rw [show session = { live.session with replay } from hreplay]
      rfl
    rw [ends_modify_bind, ends_give_bind]
    refine ⟨fun _ _ => by rw [hput], fun plaintext _ => ?_⟩
    split
    · rw [ends_throw, hput]
    · split
      · show (linkOf t).Steps (linkOf (t.putSession receiverIndex { live with session }))
        rw [hput]
      · next length _ =>
        show (linkOf t).Steps
          { linkOf (t.putSession receiverIndex { live with session }) with
            log := (linkOf (t.putSession receiverIndex { live with session })).log ++
              [.delivered live.serial (plaintext.take length)
                (linkOf (t.putSession receiverIndex { live with session })).nowMs] }
        rw [hput]
        have hkey := sessionFor_key hsession
        exact .single (.deliver _ hkey (hyoung _ hkey))

/-! ## Handshake messages -/

theorem acceptCookieReply_leaves (datagram : Bytes) :
    Leaves linkOf (acceptCookieReply datagram : TunnelM ε Received) := fun _ =>
  ends_acceptCookieReply (fun _ => rfl) fun _ _ _ _ _ _ => rfl

variable [Entropy ε]

theorem acceptResponse_spec (datagram authenticated : Bytes) :
    Handles (acceptResponse datagram authenticated : TunnelM ε Received) := by
  intro t hyoung
  refine ends_acceptResponse (fun _ _ => ⟨.refl, fun _ _ => hyoung⟩) fun keys _ => ?_
  refine (flushPending_spec (installed t keys)).imp fun r t' h => ?_
  refine ⟨.single (.establish h), ?_⟩
  cases r with
  | ok => exact nofun
  | error => exact fun _ _ => (hyoung.establish (Flushed.canSeal h)).flushed h

theorem acceptHandshake_handles (kind : UInt8) (body : Bytes) :
    Handles (acceptHandshake kind body : TunnelM ε Received) := by
  rw [acceptHandshake]
  split
  · exact acceptResponse_spec _ _
  · split
    · exact handles_of_leaves (acceptCookieReply_leaves _)
    · exact handles_of_leaves (.throw _)

theorem receiveDatagram_moves (datagram : Bytes) (nowMs : Nat) :
    Moves (receiveDatagram datagram nowMs : TunnelM ε Received) := by
  intro t
  have henter := linkOf_enter t nowMs
  refine ends_receiveDatagram
    (I := fun t' => (linkOf t).Steps (linkOf t') ∧ AllYoung (linkOf t')) ?_ ?_ ?_ ?_
  · rw [henter]
    exact ⟨.single (.enter nowMs), allYoung_enter _ _⟩
  · rintro t' kind body ⟨hsteps, hyoung⟩
    refine (acceptHandshake_handles kind body t' hyoung).imp fun r t'' h => ?_
    cases r with
    | ok => exact hsteps.trans h.1
    | error error => exact ⟨hsteps.trans h.1, h.2 error rfl⟩
  · rintro t' message ⟨hsteps, hyoung⟩
    exact (acceptTransport_tries message t' hyoung).imp fun _ _ h => hsteps.trans h
  · exact fun _ _ h => h.1

/-! ## Runs -/

theorem apply_steps (t : PeerTunnel ε) (action : PeerTunnel.Action) :
    (linkOf t).Steps (linkOf (t.apply action)) := by
  cases action with
  | sendPacket packet nowMs wall => exact sendPacket_moves packet nowMs wall t
  | receiveDatagram datagram nowMs => exact receiveDatagram_moves datagram nowMs t
  | tick nowMs wall => exact tick_moves nowMs wall t
  | announceEndpoint nowMs wall => exact announceEndpoint_moves nowMs wall t
  | retryOnNewEndpoint nowMs wall => exact retryOnNewEndpoint_moves nowMs wall t
  | pollTransmit =>
    show (linkOf t).Steps (linkOf t.pollTransmit.2)
    rw [pollTransmit]
    split
    · exact .refl
    · next rest hrest =>
      have hpoll := Link.Step.poll (l := linkOf t)
      rw [show (linkOf t).transmit.tail = rest from congrArg List.tail hrest] at hpoll
      exact .single hpoll

/-- The states of a tunnel that was made with a configuration. -/
abbrev TunnelReach (config : PeerConfig) : PeerTunnel ε → Prop :=
  Reach (PeerTunnel.Made config) PeerTunnel.apply anyAction

/-- A tunnel that was just made has no session and no packet, and nothing has
happened. -/
theorem made_link (h : PeerTunnel.Made config t) :
    (linkOf t).live = none ∧ (linkOf t).previous = none ∧ (linkOf t).pending = [] ∧
      (linkOf t).log = [] := by
  obtain ⟨entropy, h⟩ := h
  obtain ⟨_, -, h⟩ := bind_ok_iff.mp h
  obtain ⟨identity, -, h⟩ := bind_ok_iff.mp h
  split at h
  · exact nomatch h
  · cases h
    exact ⟨rfl, rfl, rfl, rfl⟩

theorem keyed_of_made (h : PeerTunnel.Made config t) : Keyed (linkOf t) := by
  obtain ⟨hlive, hprevious, _, hlog⟩ := made_link h
  refine ⟨?_, ?_, ?_, ?_, ?_, ?_⟩
  · rw [hlog]
    exact throughout_nil
  · simp [hlive]
  · simp [hlive]
  · simp [hprevious]
  · simp [hlog, seals]
  · simp [hlive]

theorem queueing_of_made (h : PeerTunnel.Made config t) : Queueing (linkOf t) := by
  obtain ⟨hlive, _, hpending, hlog⟩ := made_link h
  refine ⟨⟨?_, ?_, ?_, ?_⟩, ?_⟩
  · simp [hlog, hpending, sealedPackets, filled]
  · simp [hlog, queued]
  · simp [hlive]
  · simp [hpending]
  · simp [HasRoom, hlive]

theorem queueing_of_reach (h : TunnelReach config t) : Queueing (linkOf t) :=
  h.invariant (P := fun t => Queueing (linkOf t)) (fun _ => queueing_of_made)
    fun t action hqueueing _ => hqueueing.steps (apply_steps t action)

/-- In every run a key is used by the rules. -/
theorem keys_used_rightfully {config : PeerConfig} {t : PeerTunnel ε} (h : TunnelReach config t) :
    Throughout (RightfulUse t.timers.rejectAfterTimeMs) t.log :=
  (h.invariant (P := fun t => Keyed (linkOf t)) (fun _ => keyed_of_made)
    fun t action hkeyed _ => hkeyed.steps (apply_steps t action)).log

/-- In every run packets are sealed in the order in which they were handed in,
each at most once, the queue is bounded, and the answer to a packet says what
became of it. -/
theorem packets_kept_in_order {config : PeerConfig} {t : PeerTunnel ε} (h : TunnelReach config t) :
    PacketsInOrder t.log ∧ t.pending.length ≤ maxPendingPackets ∧
      ∀ packet nowMs wall answer t',
        (PeerTunnel.sendPacket packet nowMs wall).exec t = (.ok answer, t') →
        if answer = .sealed then
          ∃ outgoing ∈ t'.transmit,
            Event.queued ⟨packet, some (accepted t.log).length⟩ outgoing ∈ t'.log
        else ⟨packet, some (accepted t.log).length⟩ ∈ t'.pending := by
  have hqueueing := queueing_of_reach h
  refine ⟨hqueueing.inOrder, hqueueing.bound, fun packet nowMs wall answer t' hexec => ?_⟩
  have hsent := sendPacket_spec packet nowMs wall t
  rw [Ends, hexec] at hsent
  split
  · next hanswer =>
    subst hanswer
    exact Sent.sealed hsent
  · next hanswer => exact Sent.waits hsent hanswer

end

/-! ## A run -/

namespace TunnelExample

/-- Ciphers that change nothing, and keys and codes that are all zero. -/
scoped instance plainCrates : WireguardCrates where
  blake2s256 _ := Block.zero 32
  blake2sMac _ _ := Block.zero 16
  encryptInPlace _ _ _ buffer := some (⟨buffer, rfl⟩, Block.zero 16)
  decryptInPlace _ _ _ buffer _ := some ⟨buffer, rfl⟩
  decryptInPlaceX _ _ _ buffer _ := some ⟨buffer, rfl⟩
  keystream _ _ n := some (Block.zero n)
  PrivateKey := Unit
  fromPrivateKey _ := some ()
  computePublicKey _ := some (Block.zero 32)
  agree _ _ := some (Block.zero 32)

/-- Zero bytes, or a failure where the list says so. -/
scoped instance flagged : Entropy (List Bool) where
  fill
    | true :: rest, _ => (.error .entropyUnavailable, rest)
    | _ :: rest, n => (.ok (Block.zero n), rest)
    | [], n => (.ok (Block.zero n), [])

def config : PeerConfig where
  settings := { privateKey := Block.zero 32, peerPublicKey := Block.zero 32 }

/-- The entropy fails in the first handshake. -/
def made : Except WireguardError (PeerTunnel (List Bool)) := PeerTunnel.new config [true]

theorem made_isSome : made.toOption.isSome = true := by decide +kernel

def wall : Wall := ⟨none, none⟩

/-- The answer to an initiation whose index is zero. -/
def response : Bytes := header typeResponse ++ toLe 4 7 ++ List.replicate 84 0

/-- A message from the peer with an IPv4 packet of twenty bytes. -/
def fromPeer : Bytes :=
  writeTransportHeader 0 0 ++ [0x45, 0, 0, 20] ++ List.replicate 16 0 ++ List.replicate 16 0

/-- Two packets wait for the session, the third is sealed at once and the fourth
comes when the session is too old. -/
def calls : List PeerTunnel.Action :=
  [.sendPacket [1] 0 wall, .sendPacket [2] 10 wall, .receiveDatagram response 20,
   .sendPacket [3] 30 wall, .receiveDatagram fromPeer 40, .sendPacket [4] 180020 wall]

def after : PeerTunnel (List Bool) :=
  calls.foldl PeerTunnel.apply (made.toOption.get made_isSome)

theorem after_reach : TunnelReach config after :=
  Reach.run (.start ⟨[true], eq_ok_get made_isSome⟩) (admissible_any _ _ _)

end TunnelExample

open TunnelExample in
theorem three_counters_used :
    (seals after.log).map (fun made => (made.1, counterOf made.2)) =
        [(0, some 0), (0, some 1), (0, some 2)] ∧
      after.pending = [⟨[4], some 3⟩] ∧
      Throughout (RightfulUse after.timers.rejectAfterTimeMs) after.log :=
  ⟨by decide +kernel, by decide +kernel, keys_used_rightfully after_reach⟩

open TunnelExample in
theorem three_packets_sent :
    queued after.log = [⟨[1], some 0⟩, ⟨[2], some 1⟩, ⟨[3], some 2⟩] ∧
      PacketsInOrder after.log ∧ after.pending.length ≤ maxPendingPackets ∧
      ⟨[5], some 4⟩ ∈ ((PeerTunnel.sendPacket [5] 180030 wall).exec after).2.pending := by
  obtain ⟨horder, hbound, hanswer⟩ := packets_kept_in_order after_reach
  refine ⟨by decide +kernel, horder, hbound, ?_⟩
  have hticket : (accepted after.log).length = 4 := by decide +kernel
  have hheld : ((PeerTunnel.sendPacket [5] 180030 wall).exec after).1 = .ok .held := by
    decide +kernel
  have hwaits := hanswer [5] 180030 wall
  rw [hticket] at hwaits
  generalize (PeerTunnel.sendPacket [5] 180030 wall).exec after = outcome at hheld hwaits ⊢
  obtain ⟨r, t'⟩ := outcome
  cases hheld
  exact hwaits .held t' rfl

end Foxcore.Proofs
