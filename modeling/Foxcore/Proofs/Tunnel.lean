import Foxcore.Proofs.Link
import Foxcore.Proofs.Session
import Foxcore.Spec.Deadline

/-!
# The tunnel is a link

Every operation of a tunnel is a sequence of steps of the link that is seen in
it (`apply_steps`). Most of what an operation does is not seen there: what is
drawn at random and how a message is made to look on the wire. `apart` is a
tunnel with its entropy taken out; what only draws leaves it as it is.
-/

namespace Foxcore.Proofs

open Lib Lib.Command Ref Ref.Wireguard Spec List Option
open Ref.Wireguard.PeerTunnel

section

variable [WireguardCrates] {ε : Type}

/-- A tunnel but for its entropy. -/
def apart (t : PeerTunnel ε) : ε → PeerTunnel ε := fun entropy => { t with entropy }

theorem eq_of_apart {t t' : PeerTunnel ε} (h : apart t' = apart t) :
    t' = { t with entropy := t'.entropy } := congrFun h t'.entropy

/-! ## The link in a tunnel -/

def keyOfSession (live : Live) : SessionKey :=
  ⟨live.serial, live.session.sendCounter, live.establishedMs⟩

def linkOf (t : PeerTunnel ε) : Link where
  nowMs := t.nowMs
  rejectAfterMs := t.timers.rejectAfterTimeMs
  live := t.live.map keyOfSession
  previous := t.previous.map keyOfSession
  pending := t.pending
  transmit := t.transmit
  log := t.log

theorem linkOf_eq_of_apart {t t' : PeerTunnel ε} (h : apart t' = apart t) :
    linkOf t' = linkOf t := by
  rw [eq_of_apart h]
  rfl

theorem canSend_iff {t : PeerTunnel ε} {live : Live} :
    live.canSend t.nowMs t.timers.rejectAfterTimeMs = true ↔
      (linkOf t).Young (keyOfSession live) ∧ (keyOfSession live).counter < rejectAfterMessages := by
  simp [Live.canSend, Live.isExpired, TransportSession.canSend, Link.Young, linkOf, keyOfSession]

theorem canSeal_iff {t : PeerTunnel ε} : t.canSeal = true ↔ (linkOf t).CanSeal := by
  rw [canSeal, Option.any_eq_true]
  constructor
  · rintro ⟨live, hlive, hsend⟩
    refine ⟨keyOfSession live, ?_, canSend_iff.mp hsend⟩
    rw [linkOf, hlive, map_some]
  · rintro ⟨key, hkey, hcan⟩
    obtain ⟨live, hlive, rfl⟩ := map_eq_some_iff.mp hkey
    exact ⟨live, hlive, canSend_iff.mpr hcan⟩

theorem linkOf_enter (t : PeerTunnel ε) (nowMs : Nat) :
    linkOf { t with nowMs }.expireSessions = (linkOf t).enter nowMs := by
  have hfilter : ∀ session : Option Live,
      (session.filter fun live => !live.isExpired nowMs t.timers.rejectAfterTimeMs).map
          keyOfSession =
        (session.map keyOfSession).filter fun key =>
          decide (nowMs - key.sinceMs < t.timers.rejectAfterTimeMs) := by
    intro session
    cases session with
    | none => rfl
    | some live =>
      have hkeep : (!live.isExpired nowMs t.timers.rejectAfterTimeMs) =
          decide (nowMs - (keyOfSession live).sinceMs < t.timers.rejectAfterTimeMs) := by
        rw [Bool.eq_iff_iff, decide_eq_true_iff, Live.isExpired, Bool.not_eq_true',
          decide_eq_false_iff_not, Nat.not_le]
        rfl
      rw [map_some, filter_some, filter_some, hkeep]
      split <;> rfl
  simp only [linkOf, expireSessions, hfilter]
  rfl

/-- Nothing is seen of it but datagrams. -/
def Emits (t t' : PeerTunnel ε) : Prop :=
  ∃ outgoing, linkOf t' = { linkOf t with transmit := t.transmit ++ outgoing }

theorem emits_of_apart {t t' : PeerTunnel ε} (h : apart t' = apart t) : Emits t t' := by
  refine ⟨[], ?_⟩
  rw [linkOf_eq_of_apart h, append_nil]
  rfl

theorem Emits.steps {t t' : PeerTunnel ε} (h : Emits t t') : (linkOf t).Steps (linkOf t') := by
  obtain ⟨outgoing, heq⟩ := h
  rw [heq]
  exact .single (.emit outgoing)

/-! ## The live session -/

/-- What the live session does with a packet. -/
theorem sealLive_spec (held : Held) (padding : Option Nat) (t : PeerTunnel ε) :
    Ends (sealLive held padding) t fun r t' => match r with
      | .error _ => (linkOf t).Seals held false (linkOf t')
      | .ok message => ∃ key, (linkOf t).live = some key ∧ counterOf message = some key.counter ∧
          linkOf t' =
            { linkOf t with
              live := some key.next
              log := (linkOf t).log ++ [.sealed key.serial message held (linkOf t).nowMs] } := by
  rw [sealLive, ends_get_bind]
  split
  · exact .refused
  · next live hlive =>
    have hkey : (linkOf t).live = some (keyOfSession live) := by
      rw [linkOf, hlive, map_some]
    have hcases := sealAs_cases live.session held.packet padding
    generalize live.session.sealAs held.packet padding = outcome at hcases ⊢
    cases hcases with
    | refused =>
      show (linkOf t).Seals held false (linkOf { t with live := some live })
      rw [← hlive]
      exact .refused
    | spoiled => exact .spoiled hkey
    | made hmessage => exact ⟨keyOfSession live, hkey, hmessage, rfl⟩

/-! ## Commands that take steps -/

/-- Whatever the state, what the command does to the link is a sequence of steps. -/
def Moves {α : Type} (m : TunnelM ε α) : Prop :=
  ∀ t, Ends m t fun _ t' => (linkOf t).Steps (linkOf t')

namespace Moves

variable {α β : Type} {m : TunnelM ε α} {f : α → TunnelM ε β}

theorem bind (hm : Moves m) (hf : ∀ a, Moves (f a)) : Moves (m >>= f) := fun t =>
  (hm t).bind (fun a t' ht' => (hf a t').imp fun _ _ h => ht'.trans h) fun _ _ h => h

theorem of_leaves (h : Leaves linkOf m) : Moves m := fun t =>
  (h t).imp fun _ t' heq => by rw [heq]

end Moves

theorem enter_moves (nowMs : Nat) : Moves (enter nowMs : TunnelM ε Unit) := by
  intro t
  show (linkOf t).Steps (linkOf { t with nowMs }.expireSessions)
  rw [linkOf_enter]
  exact .single (.enter nowMs)

/-! ## What only draws -/

variable [Entropy ε]

theorem fill_leaves (n : Nat) : Leaves apart (fill n : TunnelM ε (Block n)) :=
  fun _ => rfl

theorem nextU32_leaves : Leaves apart (nextU32 : TunnelM ε UInt32) := fun _ => rfl

theorem obfuscateInto_leaves {p : AmneziaParams} {message : Bytes} {window : Nat}
    {m : TunnelM ε Bytes} (h : p.obfuscateIntoWithWindow message window fill = .ok m) :
    Leaves apart m := by
  obtain ⟨kind, -, h⟩ := bind_ok_iff.mp h
  cases h
  refine (fill_leaves _).bind fun junk => Leaves.bind ?_ fun header => Leaves.ite ?_ (.pure _)
  · exact .ite (.pure _) ((fill_leaves 4).bind fun _ => .pure _)
  · refine Leaves.bind ?_ fun trailer => .pure _
    exact .ite ((fill_leaves 4).bind fun _ => (fill_leaves _).bind fun _ => .pure _) (.pure _)

theorem obfuscate_leaves (message : Bytes) :
    Leaves apart (obfuscate message : TunnelM ε Bytes) := by
  refine .get_bind fun t s => ?_
  rw [ends_give_bind]
  refine ⟨fun _ _ => rfl, fun m hm => ?_⟩
  exact ((obfuscateInto_leaves hm).bind fun datagram => .pure _) s

theorem obfuscateOwned_leaves (message : Bytes) :
    Leaves apart (obfuscateOwned message : TunnelM ε Bytes) :=
  .get_bind fun _ => .ite (obfuscate_leaves message) ((Leaves.give _).bind fun _ => .pure _)

theorem contentPadding_leaves (amnezia : AmneziaParams) (available : Nat) :
    Leaves apart (contentPadding amnezia available : TunnelM ε (Option Nat)) := by
  rw [contentPadding]
  split
  · exact .ite (.pure _) (nextU32_leaves.bind fun _ => .pure _)
  · exact .ite (.ite (.pure _) (nextU32_leaves.bind fun _ => .pure _)) (.pure _)

theorem renderTag_leaves (nowUnix : Nat) (tag : InitTag) :
    Leaves apart (tag.render nowUnix fill : TunnelM ε Bytes) := by
  cases tag with
  | bytes literal | timestamp => exact .pure _
  | random len | randomLetters len | randomDigits len => exact (fill_leaves _).bind fun _ => .pure _
  | payload | payloadBase64 | payloadSize len => exact .pure _

theorem renderInitPackets_leaves (wall : Wall) :
    Leaves apart (renderInitPackets wall : TunnelM ε (List Outgoing)) :=
  .get_bind fun _ => .mapM (fun _ => Leaves.bind
    ((Leaves.mapM (renderTag_leaves _) _).bind fun _ => .pure _) fun _ => .pure _) _

theorem renderJunkPackets_leaves :
    Leaves apart (renderJunkPackets : TunnelM ε (List Outgoing)) := by
  refine .get_bind fun t => .mapM (fun _ => ?_) _
  exact .ite ((fill_leaves _).bind fun _ => .pure _)
    (nextU32_leaves.bind fun _ => (fill_leaves _).bind fun _ => .pure _)

/-! ## Handshakes -/

/-- What starting a handshake does: it draws, and then nothing fails. -/
theorem startHandshake_spec (wall : Wall) (t : PeerTunnel ε) :
    Ends (startHandshake wall) t fun r t' => match r with
      | .error _ => apart t' = apart t
      | .ok _ => ∃ entropy outgoing handshake mac1 jitterMs, jitterMs ≤ rekeyTimeoutJitterMaxMs ∧
          outgoing ≠ [] ∧
          t' = { t with
            entropy
            transmit := t.transmit ++ outgoing
            handshake := some
              { handshake, mac1, answered := false,
                retryAtMs :=
                  saturatingAdd64 (saturatingAdd64 t.nowMs t.timers.rekeyTimeoutMs) jitterMs }
            handshakeAttempts := min (t.handshakeAttempts + 1) (2 ^ 32 - 1) } := by
  refine (renderInitPackets_leaves wall t).bind (fun initPackets t₁ h₁ => ?_) fun _ _ h => h
  refine (renderJunkPackets_leaves t₁).bind (fun junkPackets t₂ h₂ => ?_)
    fun _ _ h => h.trans h₁
  have h₂ := h₂.trans h₁
  refine (fill_leaves 32 t₂).bind (fun seed t₃ h₃ => ?_) fun _ _ h => h.trans h₂
  have h₃ := h₃.trans h₂
  refine (nextU32_leaves t₃).bind (fun index t₄ h₄ => ?_) fun _ _ h => h.trans h₃
  have h₄ := h₄.trans h₃
  rw [ends_get_bind, ends_give_bind]
  refine ⟨fun _ _ => h₄, ?_⟩
  rintro ⟨handshake, initiation⟩ -
  refine (nextU32_leaves t₄).bind (fun drawn t₅ h₅ => ?_) fun _ _ h => h.trans h₄
  have h₅ := h₅.trans h₄
  refine (obfuscate_leaves _ t₅).bind (fun datagram t₆ h₆ => ?_) fun _ _ h => h.trans h₅
  have h₆ := h₆.trans h₅
  rw [ends_give_bind]
  refine ⟨fun _ _ => h₆, fun datagram _ => ?_⟩
  rw [eq_of_apart h₆]
  exact ⟨_, _, _, _, _, Nat.le_of_lt_succ (Nat.mod_lt _ (Nat.succ_pos _)),
    append_ne_nil_of_right_ne_nil _ (cons_ne_nil _ _), rfl⟩

theorem startHandshake_emits (wall : Wall) (t : PeerTunnel ε) :
    Ends (startHandshake wall) t fun _ t' => Emits t t' := by
  refine (startHandshake_spec wall t).imp fun r t' h => ?_
  cases r with
  | error => exact emits_of_apart h
  | ok =>
    obtain ⟨_, outgoing, _, _, _, -, -, rfl⟩ := h
    exact ⟨outgoing, rfl⟩

/-! ## Sealing -/

theorem sealNow_spec (held : Held) (t : PeerTunnel ε) :
    Ends (sealNow held) t fun r t' =>
      (linkOf t).Seals held r.isOk (linkOf t') ∧ ∀ answer, r = .ok answer → answer = .sealed := by
  rw [sealNow, ends_get_bind]
  split
  · exact ⟨.refused, fun _ h => nomatch h⟩
  · next minimum _ =>
    rw [ends_modify_bind]
    refine (contentPadding_leaves _ _ _).bind (fun padding t₁ h₁ => ?_) fun _ _ h => ?_
    rotate_left
    · rw [linkOf_eq_of_apart h]
      exact ⟨.refused, fun _ h => nomatch h⟩
    have hlink₁ : linkOf t₁ = linkOf t := (linkOf_eq_of_apart h₁).trans rfl
    refine (sealLive_spec held padding t₁).bind (fun message t₂ h₂ => ?_) fun _ _ h => ?_
    rotate_left
    · rw [hlink₁] at h
      exact ⟨h, fun _ h => nomatch h⟩
    obtain ⟨key, hkey, hmessage, hlink₂⟩ := h₂
    rw [hlink₁] at hkey hlink₂
    have hlost : ∀ t' : PeerTunnel ε, apart t' = apart t₂ →
        (linkOf t).Seals held false (linkOf t') := by
      intro t' h
      rw [linkOf_eq_of_apart h, hlink₂]
      exact .lost hkey hmessage
    refine (obfuscateOwned_leaves message t₂).bind (fun datagram t₃ h₃ => ?_)
      fun _ t' h => ⟨hlost t' h, fun _ h => nomatch h⟩
    rw [ends_give_bind]
    refine ⟨fun _ _ => ⟨hlost t₃ h₃, fun _ h => nomatch h⟩, fun datagram _ => ?_⟩
    refine ⟨?_, fun answer h => by cases h; rfl⟩
    show (linkOf t).Seals held true
      { linkOf t₃ with
        transmit := (linkOf t₃).transmit ++ [⟨datagram, held.packet.length⟩]
        log := (linkOf t₃).log ++ [.queued held ⟨datagram, held.packet.length⟩] }
    rw [linkOf_eq_of_apart h₃, hlink₂]
    exact .queued hkey hmessage

/-! ## Flushing -/

theorem flushLoop_spec (fuel : Nat) (t : PeerTunnel ε) (hfuel : t.pending.length ≤ fuel) :
    Ends (flushLoop fuel) t fun r t' => (linkOf t).Flushed r.isOk (linkOf t') := by
  induction fuel generalizing t with
  | zero => exact .stop (.inl (eq_nil_of_length_eq_zero (Nat.le_zero.mp hfuel)))
  | succ fuel ih =>
    rw [flushLoop, ends_get_bind]
    split
    · next hpending => exact .stop (.inl hpending)
    · next held rest hpending =>
      split
      · next hcan =>
        have hcan := canSeal_iff.mp hcan
        rw [ends_modify_bind]
        refine (sealNow_spec held _).bind (fun answer t' h => ?_)
          fun _ t' h => .fail hcan hpending h.1
        -- sealing leaves the rest of the queue as it is
        have hrest : t'.pending = rest := (Seals.frame h.1).2.2.2.1
        rw [hpending, length_cons] at hfuel
        refine (ih t' (by rw [hrest]; omega)).imp fun _ _ hflush => ?_
        exact .next hcan hpending h.1 hflush
      · next hcan => exact .stop (.inr fun h => hcan (canSeal_iff.mpr h))

theorem flushPending_spec (t : PeerTunnel ε) :
    Ends flushPending t fun r t' => (linkOf t).Flushed r.isOk (linkOf t') :=
  flushLoop_spec _ t (Nat.le_refl _)

/-! ## Sending -/

theorem sendPacket_spec (packet : Bytes) (nowMs : Nat) (wall : Wall) (t : PeerTunnel ε) :
    Ends (sendPacket packet nowMs wall) t fun r t' =>
      ((linkOf t).enter nowMs).Sent packet r (linkOf t') := by
  rw [sendPacket, enter, ends_modify_bind, ends_get_bind, ends_modify_bind]
  rw [← linkOf_enter]
  generalize { t with nowMs }.expireSessions = t
  split
  · next hdirect =>
    rw [Bool.and_eq_true, List.isEmpty_iff] at hdirect
    have hcan := canSeal_iff.mp hdirect.2
    refine (sealNow_spec _ _).imp fun r t' h => .flushed hcan (flushed_accept hcan hdirect.1 h.1) ?_
    intro answer hanswer
    refine ⟨false, ?_⟩
    have hnil : (linkOf t').pending = [] := (Seals.frame h.1).2.2.2.1.trans hdirect.1
    rw [h.2 answer hanswer, hnil]
    rfl
  · -- the packet joins the queue
    rw [ends_modify_bind]
    have hlink : linkOf (hold { t with log := t.log ++ [.accepted packet] }
        ⟨packet, some (accepted t.log).length⟩) = (linkOf t).accept packet := rfl
    generalize hold { t with log := t.log ++ [.accepted packet] }
      ⟨packet, some (accepted t.log).length⟩ = joined at hlink ⊢
    split
    · next hstart =>
      have hcan : ¬ (linkOf t).CanSeal := by
        intro hcan
        rw [← canSeal_iff] at hcan
        simp [hcan] at hstart
      have hsent : ∀ (r : Except WireguardError Queued) (t' : PeerTunnel ε), Emits joined t' →
          (∀ answer, r = .ok answer →
            ∃ displaced, answer = queuedAs (linkOf t').pending displaced) →
          (linkOf t).Sent packet r (linkOf t') := by
        rintro r t' ⟨outgoing, heq⟩ hanswer
        have htransmit : joined.transmit = (linkOf t).transmit := congrArg Link.transmit hlink
        rw [hlink, htransmit] at heq
        rw [heq] at hanswer ⊢
        exact .held outgoing hcan hanswer
      refine (startHandshake_emits wall joined).bind (fun _ t' h => ?_) fun _ t' h => ?_
      · refine hsent _ t' h fun answer hanswer => ?_
        cases hanswer
        exact ⟨_, rfl⟩
      · exact hsent _ t' h nofun
    · refine (flushPending_spec joined).bind (fun _ t' h => ?_) fun _ t' h => ?_
      · rw [hlink] at h
        refine sent_of_flushed h fun answer hanswer => ?_
        cases hanswer
        exact ⟨_, rfl⟩
      · rw [hlink] at h
        exact sent_of_flushed h nofun

/-! ## Operations as steps -/

theorem startHandshake_moves (wall : Wall) :
    Moves (startHandshake wall : TunnelM ε Unit) := fun t =>
  (startHandshake_emits wall t).imp fun _ _ h => h.steps

/-- An empty packet is sent where packets may be sealed. -/
theorem sendEmpty_steps {t : PeerTunnel ε} (hcan : t.canSeal = true) :
    Ends sendEmpty t fun _ t' => (linkOf t).Steps (linkOf t') := by
  rw [sendEmpty, ends_modify_bind]
  exact (flushPending_spec _).imp fun _ _ h => .single (.keepalive (canSeal_iff.mp hcan) h)

theorem sendPacket_moves (packet : Bytes) (nowMs : Nat) (wall : Wall) :
    Moves (sendPacket packet nowMs wall : TunnelM ε Queued) := fun t =>
  (sendPacket_spec packet nowMs wall t).imp fun _ _ h =>
    .head (.enter nowMs) (Sent.steps h)

theorem announceEndpoint_moves (nowMs : Nat) (wall : Wall) :
    Moves (announceEndpoint nowMs wall : TunnelM ε Unit) := by
  refine (enter_moves nowMs).bind fun _ t => ?_
  rw [ends_get_bind]
  split
  · exact startHandshake_moves wall t
  · next hcan => exact sendEmpty_steps (by simpa using hcan)

theorem retryOnNewEndpoint_moves (nowMs : Nat) (wall : Wall) :
    Moves (retryOnNewEndpoint nowMs wall : TunnelM ε Unit) := by
  intro t
  rw [retryOnNewEndpoint, ends_get_bind]
  split
  · exact .refl
  · refine ((enter_moves nowMs).bind fun _ => Moves.bind (.of_leaves fun _ => ?_)
      fun _ => startHandshake_moves wall) t
    rfl

/-! ## Timers -/

def RetryLater (t : PeerTunnel ε) : Prop :=
  ∀ inFlight, t.handshake = some inFlight → t.nowMs < inFlight.retryAtMs

def RekeyLater (t : PeerTunnel ε) : Prop :=
  t.handshake = none → ∀ live, t.live = some live →
    t.nowMs - live.establishedMs < t.timers.rekeyAfterTimeMs

def PassiveLater (t : PeerTunnel ε) : Prop :=
  t.canSeal = true → ∀ receivedMs, t.dataReceivedMs = some receivedMs → t.lastSentMs < receivedMs →
    t.nowMs - receivedMs < t.timers.keepaliveTimeoutMs

def KeepaliveLater (t : PeerTunnel ε) : Prop :=
  t.canSeal = true → ∀ intervalS, t.persistentKeepaliveS = some intervalS → 0 < intervalS →
    t.nowMs - t.lastSentMs < intervalS.toNat * 1000

section

variable {t : PeerTunnel ε} {wall : Wall} {Q : Except WireguardError Unit → PeerTunnel ε → Prop}

theorem ends_retryHandshakeIfDue (hlater : RetryLater t → Q (.ok ()) t)
    (habandon : ¬ RetryLater t → Q (.ok ()) { t with handshake := none, pending := [] })
    (hstart : ¬ RetryLater t → Ends (startHandshake wall) t Q) :
    Ends (retryHandshakeIfDue wall) t Q := by
  rw [retryHandshakeIfDue, ends_get_bind]
  split
  · exact hlater (by grind [RetryLater])
  · split
    · exact hlater (by grind [RetryLater])
    · next hdue =>
      have hnow : ¬ RetryLater t := by grind [RetryLater]
      split
      · exact habandon hnow
      · exact hstart hnow

theorem ends_rekeyIfDue (hlater : RekeyLater t → ¬ Spent t → Q (.ok ()) t)
    (hstart : (RekeyLater t → Spent t) → Ends (startHandshake wall) t Q) :
    Ends (rekeyIfDue wall) t Q := by
  rw [rekeyIfDue, ends_get_bind]
  split
  · exact hlater (by grind [RekeyLater]) (by grind [Spent])
  · split
    · exact hlater (by grind [RekeyLater]) (by grind [Spent])
    · split
      · exact hlater (by grind [RekeyLater]) (by grind [Spent])
      · exact hstart (by grind [RekeyLater, Spent, not_isSome_iff_eq_none])

theorem ends_sendKeepaliveIfDue (hlater : KeepaliveLater t → Q (.ok ()) t)
    (hsend : ¬ KeepaliveLater t → t.canSeal = true → Ends sendEmpty t Q) :
    Ends sendKeepaliveIfDue t Q := by
  rw [sendKeepaliveIfDue, ends_get_bind]
  split
  · exact hlater (by grind [KeepaliveLater])
  · next intervalS hinterval =>
    rw [filter_eq_some_iff] at hinterval
    split
    · exact hlater (by grind [KeepaliveLater])
    · split
      · exact hlater (by grind [KeepaliveLater])
      · exact hsend (by grind [KeepaliveLater]) (by grind)

/-- What was received is forgotten once something was sent after it. -/
theorem ends_sendPassiveKeepaliveIfDue (hlater : PassiveLater t → Q (.ok ()) t)
    (hforget : Q (.ok ()) { t with dataReceivedMs := none })
    (hsend : ¬ PassiveLater t → t.canSeal = true →
      Ends sendEmpty { t with dataReceivedMs := none } Q) : Ends sendPassiveKeepaliveIfDue t Q := by
  rw [sendPassiveKeepaliveIfDue, ends_get_bind]
  split
  · exact hlater (by grind [PassiveLater])
  · split
    · exact hforget
    · split
      · exact hlater (by grind [PassiveLater])
      · split
        · exact hlater (by grind [PassiveLater])
        · exact hsend (by grind [PassiveLater]) (by grind)

end

theorem retryHandshakeIfDue_moves (wall : Wall) :
    Moves (retryHandshakeIfDue wall : TunnelM ε Unit) := fun t =>
  ends_retryHandshakeIfDue (fun _ => .refl) (fun _ => .single .abandon)
    fun _ => startHandshake_moves wall t

theorem rekeyIfDue_moves (wall : Wall) : Moves (rekeyIfDue wall : TunnelM ε Unit) := fun t =>
  ends_rekeyIfDue (fun _ _ => .refl) fun _ => startHandshake_moves wall t

theorem sendKeepaliveIfDue_moves : Moves (sendKeepaliveIfDue : TunnelM ε Unit) := fun _ =>
  ends_sendKeepaliveIfDue (fun _ => .refl) fun _ => sendEmpty_steps

theorem sendPassiveKeepaliveIfDue_moves :
    Moves (sendPassiveKeepaliveIfDue : TunnelM ε Unit) := fun t =>
  ends_sendPassiveKeepaliveIfDue (fun _ => .refl) .refl fun _ =>
    sendEmpty_steps (t := { t with dataReceivedMs := none })

theorem tick_moves (nowMs : Nat) (wall : Wall) : Moves (tick nowMs wall : TunnelM ε Unit) :=
  (enter_moves nowMs).bind fun _ => (retryHandshakeIfDue_moves wall).bind fun _ =>
    (rekeyIfDue_moves wall).bind fun _ => sendPassiveKeepaliveIfDue_moves.bind fun _ =>
      sendKeepaliveIfDue_moves

end

end Foxcore.Proofs
