import Foxcore.Proofs.TunnelRun

/-!
# Everything that can happen to a tunnel

The link in a tunnel leaves out parameters, timers and the handshake. `Change`
leaves out nothing: it has one case for each assignment in the source, under the
condition it is made. Every operation is a sequence of changes
(`apply_changes`), so what every change keeps holds in every run.
-/

namespace Foxcore.Proofs

open Lib Lib.Command Ref Ref.Wireguard Spec
open Ref.Wireguard.PeerTunnel

variable {nowMs : Nat}

section

variable [WireguardCrates] {ε : Type}

/-- What is done to seal packets. -/
inductive Sealing : PeerTunnel ε → PeerTunnel ε → Prop
  | draw (t : PeerTunnel ε) (entropy : ε) : Sealing t { t with entropy }
  | widen (t : PeerTunnel ε) {n : Nat} : n < 2 ^ 64 →
      Sealing t { t with udpWindow := max t.udpWindow n }
  | count (t : PeerTunnel ε) {live : Live} {session : TransportSession} : t.live = some live →
      session = live.session ∨ session = advanced live.session →
      Sealing t { t with live := some { live with session } }
  | log (t : PeerTunnel ε) (event : Event) : Sealing t { t with log := t.log ++ [event] }
  | send (t : PeerTunnel ε) (outgoing : Outgoing) (event : Event) :
      Sealing t
        { t with
          transmit := t.transmit ++ [outgoing], lastSentMs := t.nowMs, log := t.log ++ [event] }
  | queue (t : PeerTunnel ε) (pending : List Held) : Sealing t { t with pending }

/-- What one assignment does, in an operation that is told a time or none. -/
inductive Change (time : Option Nat) : PeerTunnel ε → PeerTunnel ε → Prop
  | sealing {t t' : PeerTunnel ε} : Sealing t t' → Change time t t'
  | enter (t : PeerTunnel ε) {nowMs : Nat} : time = some nowMs → Change time t (entered t nowMs)
  | initiate (t : PeerTunnel ε) (outgoing : List Outgoing) (handshake : Handshake)
      (mac1 : Block 16) {jitterMs : Nat} : jitterMs ≤ rekeyTimeoutJitterMaxMs →
      Change time t
        { t with
          transmit := t.transmit ++ outgoing
          handshake := some
            { handshake, mac1, answered := false,
              retryAtMs :=
                saturatingAdd64 (saturatingAdd64 t.nowMs t.timers.rekeyTimeoutMs) jitterMs }
          handshakeAttempts := min (t.handshakeAttempts + 1) (2 ^ 32 - 1) }
  | answer (t : PeerTunnel ε) {inFlight : InFlight} (value : Block 16) :
      t.handshake = some inFlight →
      Change time t
        { t with
          cookie := some { value, receivedMs := t.nowMs }
          handshake := some { inFlight with answered := true } }
  | establish (t : PeerTunnel ε) (keys : TransportKeys) :
      Change time t (installed t keys)
  | read (t : PeerTunnel ε) {receiverIndex : Nat} {live : Live} (datagram : Bytes) :
      t.sessionFor receiverIndex = some live →
      Change time t
        (t.putSession receiverIndex { live with session := (live.session.openMessage datagram).2 })
  | deliver (t : PeerTunnel ε) (event : Event) :
      Change time t { t with dataReceivedMs := some t.nowMs, log := t.log ++ [event] }
  | acknowledge (t : PeerTunnel ε) : Change time t { t with dataReceivedMs := none }
  | abandon (t : PeerTunnel ε) : Change time t { t with handshake := none, pending := [] }
  | forget (t : PeerTunnel ε) : Change time t { t with cookie := none }
  | poll (t : PeerTunnel ε) (transmit : List Outgoing) : Change time t { t with transmit }

variable {time : Option Nat}

/-- What a tunnel was made with. -/
structure SameConfig (t t' : PeerTunnel ε) : Prop where
  amnezia : t'.amnezia = t.amnezia
  key : t'.headerProtectionKey = t.headerProtectionKey
  keepalive : t'.persistentKeepaliveS = t.persistentKeepaliveS
  timers : t'.timers = t.timers

theorem sameConfig_of_change {t t' : PeerTunnel ε} (h : Change time t t') : SameConfig t t' := by
  cases h with
  | sealing h => cases h <;> exact ⟨rfl, rfl, rfl, rfl⟩
  | read =>
    rw [putSession]
    split <;> exact ⟨rfl, rfl, rfl, rfl⟩
  | _ => exact ⟨rfl, rfl, rfl, rfl⟩

theorem sameConfig_of_changes {t t' : PeerTunnel ε} (h : Relation.ReflTransGen (Change time) t t') :
    SameConfig t t' := by
  induction h with
  | refl => exact ⟨rfl, rfl, rfl, rfl⟩
  | tail _ hlast ih =>
    have hsame := sameConfig_of_change hlast
    exact ⟨hsame.amnezia.trans ih.amnezia, hsame.key.trans ih.key,
      hsame.keepalive.trans ih.keepalive, hsame.timers.trans ih.timers⟩

theorem enter_changes (h : time = some nowMs) :
    Follows (Change time) (enter nowMs : TunnelM ε Unit) :=
  .modify fun t => .enter t h

theorem acceptTransport_changes (datagram : Bytes) :
    Follows (Change time) (acceptTransport datagram : TunnelM ε Received) := by
  refine (Follows.give _).bind ?_
  rintro ⟨receiverIndex, -⟩
  refine .get_bind fun t => ?_
  split
  · exact .refl
  · next live hsession =>
    rw [ends_modify_bind]
    refine Ends.imp (R := fun _ t' => Relation.ReflTransGen (Change time)
      (t.putSession receiverIndex { live with session := (live.session.openMessage datagram).2 })
      t') ?_ fun _ _ h => .head (.read t datagram hsession) h
    refine (Follows.give _).bind (fun plaintext => ?_) _
    split
    · exact .throw _
    · next observed hobserved =>
      obtain ⟨base, -, hobserved⟩ := Option.bind_eq_some_iff.mp hobserved
      have hfits := (add64_eq_some hobserved).2
      refine (Follows.modify fun t => .sealing (.widen t hfits)).bind fun _ => ?_
      split
      · exact .pure _
      · exact (Follows.modify fun t => .deliver t _).bind fun _ => .pure _

theorem acceptCookieReply_changes (datagram : Bytes) :
    Follows (Change time) (acceptCookieReply datagram : TunnelM ε Received) := fun t =>
  ends_acceptCookieReply (fun _ => .refl) fun _ _ value _ hflight _ =>
    .single (.answer t value hflight)

theorem sealLive_sealing (held : Held) (padding : Option Nat) :
    Follows Sealing (sealLive held padding : TunnelM ε Bytes) := by
  refine .get_bind fun t => ?_
  split
  · exact .refl
  · next live hlive =>
    have hcases := sealAs_cases live.session held.packet padding
    generalize live.session.sealAs held.packet padding = outcome at hcases ⊢
    obtain ⟨message, session⟩ := outcome
    have hsession : session = live.session ∨ session = advanced live.session := by
      cases hcases with
      | refused => exact .inl rfl
      | spoiled error | made h => exact .inr rfl
    refine Ends.imp (R := fun _ t' => Relation.ReflTransGen Sealing
      { t with live := some { live with session } } t') ?_
      fun _ _ h => .head (.count t hlive hsession) h
    exact ((Follows.give _).bind fun message => (Follows.modify fun t => .log t _).bind
      fun _ => .pure _) _

/-- Sealing is among the changes. -/
theorem changes_of_sealing {α : Type} {m : TunnelM ε α} (h : Follows Sealing m) :
    Follows (Change time) m := h.mono fun _ _ => .sealing

/-- What only draws. -/
theorem sealing_of_apart {α : Type} {m : TunnelM ε α} (h : Leaves apart m) : Follows Sealing m :=
  fun t => (h t).imp fun _ t' heq => by
    rw [eq_of_apart heq]
    exact .single (.draw t _)

variable [Entropy ε]

theorem sealNow_sealing (held : Held) : Follows Sealing (sealNow held : TunnelM ε Queued) := by
  refine .get_bind fun t => ?_
  split
  · exact .refl
  · next minimum hminimum =>
    obtain ⟨base, -, hminimum⟩ := Option.bind_eq_some_iff.mp hminimum
    refine Ends.imp (R := fun _ t' => Relation.ReflTransGen Sealing
      { t with udpWindow := max t.udpWindow minimum } t') ?_
      fun _ _ h => .head (.widen t (add64_eq_some hminimum).2) h
    refine (sealing_of_apart (contentPadding_leaves _ _)).bind (fun padding => ?_) _
    refine (sealLive_sealing held padding).bind fun message => ?_
    refine (sealing_of_apart (obfuscateOwned_leaves message)).bind fun datagram => ?_
    exact (Follows.give _).bind fun datagram => (Follows.modify fun t => .send t _ _).bind
      fun _ => .pure _

theorem flushLoop_sealing (fuel : Nat) : Follows Sealing (flushLoop fuel : TunnelM ε Unit) := by
  induction fuel with
  | zero => exact .pure _
  | succ fuel ih =>
    refine .get_bind fun t => ?_
    split
    · exact .refl
    · refine Follows.ite ?_ (.pure _) t
      exact (Follows.modify fun t => .queue t _).bind fun _ =>
        (sealNow_sealing _).bind fun _ => ih

theorem flushPending_sealing : Follows Sealing (flushPending : TunnelM ε Unit) :=
  .get_bind fun t => flushLoop_sealing _ t

theorem sendEmpty_sealing : Follows Sealing (sendEmpty : TunnelM ε Unit) :=
  (Follows.modify fun t => .queue t _).bind fun _ => flushPending_sealing

/-! ## Handshakes -/

theorem startHandshake_changes (wall : Wall) :
    Follows (Change time) (startHandshake wall : TunnelM ε Unit) := fun t =>
  (startHandshake_spec wall t).imp fun r t' h => by
    cases r with
    | error error =>
      rw [eq_of_apart h]
      exact .single (.sealing (.draw t _))
    | ok _ =>
      obtain ⟨entropy, outgoing, handshake, mac1, jitterMs, hjitter, -, rfl⟩ := h
      exact .head (.sealing (.draw t entropy))
        (.single (.initiate _ outgoing handshake mac1 hjitter))

/-! ## Receiving -/

theorem acceptResponse_changes (datagram authenticated : Bytes) :
    Follows (Change time)
      (acceptResponse datagram authenticated : TunnelM ε Received) := fun t =>
  ends_acceptResponse (fun _ _ => .refl) fun keys _ =>
    (changes_of_sealing flushPending_sealing _).imp fun _ _ => .head (.establish t keys)

theorem acceptHandshake_changes (kind : UInt8) (body : Bytes) :
    Follows (Change time) (acceptHandshake kind body : TunnelM ε Received) :=
  .ite (acceptResponse_changes _ _) (.ite (acceptCookieReply_changes _) (.throw _))

theorem receiveDatagram_changes (datagram : Bytes) (h : time = some nowMs) :
    Follows (Change time) (receiveDatagram datagram nowMs : TunnelM ε Received) := by
  intro t
  refine ends_receiveDatagram (I := Relation.ReflTransGen (Change time) t) (.single (.enter t h))
    (fun t' kind body ht => ?_) (fun t' message ht => ?_) fun _ _ ht => ht
  · have hchanges := (acceptHandshake_changes kind body : Follows (Change time) _) t'
    refine hchanges.imp fun r _ h => ?_
    cases r <;> exact ht.trans h
  · exact (acceptTransport_changes message t').imp fun _ _ h => ht.trans h

theorem sendPacket_changes (packet : Bytes) (h : time = some nowMs) (wall : Wall) :
    Follows (Change time) (sendPacket packet nowMs wall : TunnelM ε Queued) := by
  refine (enter_changes h).bind fun _ => .get_bind fun t => ?_
  refine Follows.bind (.modify fun t => .sealing (.log t _))
    (fun _ => .ite (changes_of_sealing (sealNow_sealing _)) ?_) t
  refine (Follows.modify fun t => .sealing (.queue t _)).bind fun _ => Follows.bind ?_ fun _ => ?_
  · exact .ite (startHandshake_changes wall) (changes_of_sealing flushPending_sealing)
  · exact .get_bind fun t => .refl

theorem retryHandshakeIfDue_changes (wall : Wall) :
    Follows (Change time) (retryHandshakeIfDue wall : TunnelM ε Unit) := fun t =>
  ends_retryHandshakeIfDue (fun _ => .refl) (fun _ => .single (.abandon t))
    fun _ => startHandshake_changes wall t

theorem rekeyIfDue_changes (wall : Wall) :
    Follows (Change time) (rekeyIfDue wall : TunnelM ε Unit) := fun t =>
  ends_rekeyIfDue (fun _ _ => .refl) fun _ => startHandshake_changes wall t

theorem sendKeepaliveIfDue_changes :
    Follows (Change time) (sendKeepaliveIfDue : TunnelM ε Unit) := fun t =>
  ends_sendKeepaliveIfDue (fun _ => .refl) fun _ _ => changes_of_sealing sendEmpty_sealing t

theorem sendPassiveKeepaliveIfDue_changes :
    Follows (Change time) (sendPassiveKeepaliveIfDue : TunnelM ε Unit) := fun t =>
  ends_sendPassiveKeepaliveIfDue (fun _ => .refl) (.single (.acknowledge t)) fun _ _ =>
    (changes_of_sealing sendEmpty_sealing _).imp fun _ _ => .head (.acknowledge t)

theorem tick_changes (h : time = some nowMs) (wall : Wall) :
    Follows (Change time) (tick nowMs wall : TunnelM ε Unit) :=
  (enter_changes h).bind fun _ => (retryHandshakeIfDue_changes wall).bind fun _ =>
    (rekeyIfDue_changes wall).bind fun _ => sendPassiveKeepaliveIfDue_changes.bind fun _ =>
      sendKeepaliveIfDue_changes

theorem announceEndpoint_changes (h : time = some nowMs) (wall : Wall) :
    Follows (Change time) (announceEndpoint nowMs wall : TunnelM ε Unit) :=
  (enter_changes h).bind fun _ => .get_bind fun t =>
    Follows.ite (startHandshake_changes wall) (changes_of_sealing sendEmpty_sealing) t

theorem retryOnNewEndpoint_changes (h : time = some nowMs) (wall : Wall) :
    Follows (Change time) (retryOnNewEndpoint nowMs wall : TunnelM ε Unit) := by
  refine .get_bind fun t => Follows.ite (.throw _) ?_ t
  exact (enter_changes h).bind fun _ => (Follows.modify fun t => .forget t).bind fun _ =>
    startHandshake_changes wall

/-- The time an operation is told. -/
def timeOf : PeerTunnel.Action → Option Nat
  | .sendPacket _ nowMs _ => some nowMs
  | .receiveDatagram _ nowMs => some nowMs
  | .tick nowMs _ => some nowMs
  | .announceEndpoint nowMs _ => some nowMs
  | .retryOnNewEndpoint nowMs _ => some nowMs
  | .pollTransmit => none

/-- Every operation is a sequence of changes. -/
theorem apply_changes (t : PeerTunnel ε) (action : PeerTunnel.Action) :
    Relation.ReflTransGen (Change (timeOf action)) t (t.apply action) := by
  cases action with
  | sendPacket packet nowMs wall => exact sendPacket_changes packet rfl wall t
  | receiveDatagram datagram => exact receiveDatagram_changes datagram rfl t
  | tick nowMs wall => exact tick_changes rfl wall t
  | announceEndpoint nowMs wall => exact announceEndpoint_changes rfl wall t
  | retryOnNewEndpoint nowMs wall => exact retryOnNewEndpoint_changes rfl wall t
  | pollTransmit =>
    show Relation.ReflTransGen _ t t.pollTransmit.2
    rw [pollTransmit]
    split
    · exact .refl
    · exact .single (.poll t _)

/-- What holds of a new tunnel and is kept by every change holds in every run. -/
theorem reach_of_changes {config : PeerConfig} {ok : PeerTunnel ε → PeerTunnel.Action → Prop}
    {P : PeerTunnel ε → Prop} {t : PeerTunnel ε} (hstart : ∀ t, PeerTunnel.Made config t → P t)
    (hstep : ∀ t action t₁ t₂, ok t action → Change (timeOf action) t₁ t₂ → P t₁ → P t₂)
    (h : Reach (PeerTunnel.Made config) PeerTunnel.apply ok t) : P t := by
  refine h.invariant hstart fun t action hP hok => ?_
  have hchanges := apply_changes t action
  generalize t.apply action = t' at hchanges ⊢
  induction hchanges with
  | refl => exact hP
  | tail _ hlast ih => exact hstep t action _ _ hok hlast ih

end

end Foxcore.Proofs
