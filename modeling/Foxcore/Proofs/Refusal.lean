import Foxcore.Proofs.Delivery
import Foxcore.Proofs.TunnelChange

/-!
# What is refused leaves nothing behind

A datagram is tried as one thing after the other. Each try either changes
nothing, or it is a response that was accepted and whose packets could not all
be sealed (`acceptResponse_errors`); then only the source of random bytes can
have failed (`flushPending_fails`). Unless the datagram is tried as something
else after that, this is what is reported.
-/

namespace Foxcore.Proofs

open Lib Lib.Command Ref Ref.Wireguard Spec List Option
open Ref.Wireguard.PeerTunnel

variable {live : Live} {nowMs laterMs : Nat} {datagram message : Bytes}

/-! ## The window -/

/-- A counter that is refused leaves the window as it is. -/
theorem accept_refused {w w' : ReplayWindow} {seen : List Nat} {counter : Nat}
    (hseen : Remembers w seen) (h : w.accept counter = some (false, w')) : w' = w := by
  obtain ⟨w'', haccept, -, hsame⟩ := accept_spec hseen counter
  rw [haccept] at h
  obtain ⟨hstale, rfl⟩ := Prod.mk.inj (some.inj h)
  exact hsame hstale

/-! ## Time -/

theorem isExpired_mono {rejectAfterMs : Nat} (h : nowMs ≤ laterMs)
    (hyoung : live.isExpired laterMs rejectAfterMs = false) :
    live.isExpired nowMs rejectAfterMs = false := by
  rw [Live.isExpired, decide_eq_false_iff_not] at hyoung ⊢
  omega

section

variable [WireguardCrates] {ε α : Type} {t : PeerTunnel ε}

/-- What has gone by some time has gone later. -/
theorem entered_entered (t : PeerTunnel ε) (h : nowMs ≤ laterMs) :
    entered (entered t nowMs) laterMs = entered t laterMs := by
  have hfilter : ∀ sessions : Option Live,
      (sessions.filter fun live => !live.isExpired nowMs t.timers.rejectAfterTimeMs).filter
          (fun live => !live.isExpired laterMs t.timers.rejectAfterTimeMs) =
        sessions.filter fun live => !live.isExpired laterMs t.timers.rejectAfterTimeMs := by
    intro sessions
    cases sessions with
    | none => rfl
    | some live =>
      cases hlater : live.isExpired laterMs t.timers.rejectAfterTimeMs with
      | false => simp [Option.filter, isExpired_mono h hlater]
      | true =>
        cases hnow : live.isExpired nowMs t.timers.rejectAfterTimeMs <;>
          simp [Option.filter, hnow, hlater]
  simp only [entered, expireSessions, hfilter]

/-! ## Sessions -/

/-- The window of a session is right about some counters. -/
def RightWindow (live : Live) : Prop := ∃ seen, Remembers live.session.replay seen

theorem openMessage_refused (hright : RightWindow live) {error : WireguardError}
    (h : (live.session.openMessage datagram).1 = .error error) :
    (live.session.openMessage datagram).2 = live.session := by
  obtain ⟨seen, hseen⟩ := hright
  have hcases := openMessage_cases live.session datagram
  generalize live.session.openMessage datagram = outcome at h hcases ⊢
  cases hcases with
  | refused => rfl
  | replayed haccept => rw [accept_refused hseen haccept]
  | opened => cases h

theorem rightWindow_open (hright : RightWindow live) (datagram : Bytes) :
    RightWindow { live with session := (live.session.openMessage datagram).2 } := by
  obtain ⟨seen, hseen⟩ := hright
  have hwindow : ∀ {counter answer replay},
      live.session.replay.accept counter = some (answer, replay) →
      RightWindow { live with session := { live.session with replay } } := by
    intro counter answer replay haccept
    obtain ⟨w', haccept', hw', -⟩ := accept_spec hseen counter
    cases haccept.symm.trans haccept'
    exact ⟨_, hw'⟩
  have hcases := openMessage_cases live.session datagram
  generalize live.session.openMessage datagram = outcome at hcases ⊢
  cases hcases with
  | refused => exact ⟨seen, hseen⟩
  | replayed haccept | opened haccept _ => exact hwindow haccept

/-! ## What every run keeps -/

/-- Parameters that were checked, and windows that are right. -/
structure Settled (t : PeerTunnel ε) : Prop where
  valid : ValidParams t.amnezia t.headerProtectionKey
  window : t.udpWindow < 2 ^ 64
  live : ∀ live, t.live = some live → RightWindow live
  previous : ∀ live, t.previous = some live → RightWindow live

theorem settled_change {time : Option Nat} {t t' : PeerTunnel ε} (hchange : Change time t t')
    (h : Settled t) : Settled t' := by
  have hkept : ∀ (sessions sessions' : Option Live) (keep : Live → Bool),
      (∀ live, sessions = some live → RightWindow live) → sessions' = sessions.filter keep →
      ∀ live, sessions' = some live → RightWindow live := by
    rintro sessions _ keep hall rfl live hlive
    exact hall live (filter_eq_some_iff.mp hlive).1
  cases hchange with
  | enter =>
    exact { h with live := hkept _ _ _ h.live rfl, previous := hkept _ _ _ h.previous rfl }
  | sealing hchange =>
    cases hchange with
    | widen hn => exact { h with window := Nat.max_lt.mpr ⟨h.window, hn⟩ }
    | count hlive hsession =>
      refine { h with live := fun live heq => ?_ }
      cases heq
      obtain ⟨seen, hseen⟩ := h.live _ hlive
      obtain rfl | rfl := hsession <;> exact ⟨seen, hseen⟩
    | _ => exact { h with }
  | establish =>
    refine { h with live := fun live heq => ?_, previous := h.live }
    cases heq
    exact ⟨[], remembers_nil⟩
  | read datagram hsession =>
    have hfound := (filter_eq_some_iff.mp hsession).1
    rw [putSession]
    split at hfound
    · next hcurrent =>
      rw [if_pos hcurrent]
      refine { h with live := fun live heq => ?_ }
      cases heq
      exact rightWindow_open (h.live _ hfound) datagram
    · next hcurrent =>
      rw [if_neg hcurrent]
      refine { h with previous := fun live heq => ?_ }
      cases heq
      exact rightWindow_open (h.previous _ hfound) datagram
  | _ => exact { h with }

/-- And what waits is short enough to be sealed. -/
structure Ready (t : PeerTunnel ε) : Prop extends Settled t where
  sizes : ∀ held ∈ t.pending, held.packet.length < 2 ^ 63

/-- Whatever a settled tunnel does, it stays settled. -/
theorem Settled.follows {time : Option Nat} {t t' : PeerTunnel ε} (h : Settled t)
    (hsteps : Relation.ReflTransGen (Change time) t t') : Settled t' := by
  induction hsteps with
  | refl => exact h
  | tail _ hlast ih => exact settled_change hlast ih

/-! ## Sealing works -/

/-- A session that may send seals whatever padding it is asked for. -/
theorem sealAs_ok (hciphers : ReliableCiphers) {t : TransportSession} {packet : Bytes}
    {padding : Option Nat} (hcounter : t.sendCounter < rejectAfterMessages)
    (hfits : ∀ n, padding = some n → packet.length + n < 2 ^ 64) :
    ∃ message, t.sealAs packet padding = (.ok message, advanced t) := by
  have hpadded : ∀ paddedLen, ∃ message,
      t.sealPadded packet paddedLen = (.ok message, advanced t) := by
    intro paddedLen
    rw [TransportSession.sealPadded, if_neg (Nat.not_le.mpr hcounter)]
    dsimp only
    rw [aeadSealInPlace]
    obtain ⟨sealed, hsealed⟩ := ne_none_iff_exists'.mp (hciphers.encrypts t.sendKey
      (nonce t.sendCounter) [] (packet.take paddedLen ++
        List.replicate (paddedLen - packet.length) 0))
    rw [hsealed]
    exact ⟨_, rfl⟩
  cases padding with
  | none => exact hpadded _
  | some padding =>
    rw [TransportSession.sealAs, TransportSession.sealWithPadding, add64,
      if_pos (hfits padding rfl)]
    exact hpadded _

theorem sealLive_ok {held : Held} {padding : Option Nat} {session : TransportSession}
    (hlive : t.live = some live)
    (hseal : live.session.sealAs held.packet padding = (.ok message, session)) :
    (sealLive held padding).exec t = (.ok message,
      { t with
        live := some { live with session }
        log := t.log ++ [.sealed live.serial message held t.nowMs] }) := by
  rw [sealLive, exec_get_bind, hlive]
  dsimp only
  rw [hseal]
  rfl

/-- A shaped message has room for its header to be masked. -/
theorem protectMessage_shaped (hciphers : ReliableCiphers) {shaped : Bytes}
    (hvalid : ValidParams t.amnezia t.headerProtectionKey)
    (hlong : transportHeaderLen ≤ message.length) (hshaped : Shaped t message shaped) :
    ∃ datagram, t.protectMessage typeTransport shaped = .ok datagram := by
  rw [protectMessage]
  cases hkey : t.headerProtectionKey with
  | none => exact ⟨shaped, rfl⟩
  | some =>
    have hfront := (long_prefixes (hvalid.2 (by rw [hkey]; rfl))).1
    have hvanilla : t.amnezia.isVanilla = false := not_vanilla_of_long hfront
    rw [Shaped, hvanilla] at hshaped
    obtain ⟨window, junk, value, trailer, rfl, hjunk, -, -⟩ := hshaped
    have hjunk : junk.length = t.amnezia.transportJunkSize.toNat := hjunk
    have hpart : t.protectedPart typeTransport =
        .ok (t.amnezia.transportJunkSize.toNat, transportHeaderLen) := rfl
    rw [hpart]
    dsimp only [bind, Except.bind]
    rw [if_neg]
    · have hfront : 12 ≤ ((junk ++ toLe 4 value ++ message.drop 4 ++ trailer).take
          t.amnezia.transportJunkSize.toNat).length := by
        simp only [length_take, length_append]
        omega
      obtain ⟨masked, hmasked⟩ := transform_succeeds hciphers.streams hfront
        (Nat.le_trans (length_take_le transportHeaderLen _) (by decide))
      rw [hmasked]
      exact ⟨_, rfl⟩
    · simp only [length_drop, length_append, length_toLe]
      omega

/-! ## What is refused in one try -/

/-- What failed left nothing behind. -/
def Unmoved (t : PeerTunnel ε) (r : Except WireguardError α) (t' : PeerTunnel ε) : Prop :=
  ∀ error, r = .error error → t' = t

/-- What failed, other than for want of random bytes, left nothing behind unless it was mistaken
for something else. -/
def InertIff (t : PeerTunnel ε) (datagram : Bytes) (r : Except WireguardError α)
    (t' : PeerTunnel ε) : Prop :=
  ∀ error, r = .error error → error ≠ .entropyUnavailable → (t' = t ↔ ¬ Mistakable t datagram)

theorem Unmoved.inertIff {t t' : PeerTunnel ε} {r : Except WireguardError α} (h : Unmoved t r t')
    (hclear : ¬ Mistakable t datagram) : InertIff t datagram r t' :=
  fun error heq _ => ⟨fun _ => hclear, fun _ => h error heq⟩

/-- A cookie that is refused changes nothing. -/
theorem acceptCookieReply_errors (datagram : Bytes) (t : PeerTunnel ε) :
    Ends (acceptCookieReply datagram) t (Unmoved t) :=
  ends_acceptCookieReply (fun _ _ _ => rfl) fun _ _ _ _ _ _ => nofun

theorem putSession_self {receiverIndex : Nat} (h : t.sessionFor receiverIndex = some live) :
    t.putSession receiverIndex live = t := by
  have hfound := (filter_eq_some_iff.mp h).1
  rw [putSession]
  split at hfound
  · next hcurrent => rw [if_pos hcurrent, ← hfound]
  · next hcurrent => rw [if_neg hcurrent, ← hfound]

/-- Transport data that is refused changes nothing. -/
theorem acceptTransport_errors (hsettled : Settled t) (hsize : datagram.length < 2 ^ 63) :
    Ends (acceptTransport datagram) t (Unmoved t) := by
  rw [acceptTransport, ends_give_bind]
  refine ⟨fun _ _ _ _ => rfl, ?_⟩
  rintro ⟨receiverIndex, -⟩ -
  rw [ends_get_bind]
  split
  · exact fun _ _ => rfl
  · next live hsession =>
    have hright : RightWindow live := by
      have hfound := (filter_eq_some_iff.mp hsession).1
      split at hfound
      · exact hsettled.live live hfound
      · exact hsettled.previous live hfound
    have hcases := openMessage_cases live.session datagram
    have hrefused : ∀ error, (live.session.openMessage datagram).1 = .error error →
        (live.session.openMessage datagram).2 = live.session := fun _ =>
      openMessage_refused hright
    generalize live.session.openMessage datagram = outcome at hcases hrefused ⊢
    obtain ⟨opened, session⟩ := outcome
    rw [ends_modify_bind, ends_give_bind]
    constructor
    · intro error herror _ _
      obtain rfl : session = live.session := hrefused error herror
      exact putSession_self hsession
    · intro plaintext hplaintext
      subst hplaintext
      cases hcases with
      | opened =>
        have hjunk := t.amnezia.transportJunkSize.toNat_lt
        have hheader : transportHeaderLen = 16 := rfl
        rw [add64, if_pos (by omega), bind_some, add64, if_pos (by omega)]
        dsimp only
        split
        · intro _ h
          cases h
        · intro _ h
          cases h

theorem receiveTransport_errors (hsettled : Settled t) (hsize : datagram.length < 2 ^ 63)
    (refusal : Option WireguardError) : Ends (receiveTransport datagram refusal) t (Unmoved t) := by
  rw [receiveTransport, ends_get_bind]
  split
  · split
    · exact acceptTransport_errors hsettled hsize
    · rw [ends_give_bind]
      refine ⟨fun _ _ _ _ => rfl, fun standard hstandard => acceptTransport_errors hsettled ?_⟩
      rw [AmneziaParams.deobfuscateTransport] at hstandard
      split at hstandard
      · cases hstandard
      · next hlong =>
        cases hstandard
        simp only [header, length_append, length_cons, length_nil, length_drop]
        omega
  · exact fun _ _ => rfl

theorem receiveProtectedTransport_errors (hsettled : Settled t) {mask : Bytes}
    (hsize : datagram.length < 2 ^ 63) (refusal : Option WireguardError) :
    Ends (receiveProtectedTransport datagram mask refusal) t (Unmoved t) := by
  rw [receiveProtectedTransport, ends_get_bind]
  dsimp only
  split
  · next hfound =>
    refine acceptTransport_errors hsettled ?_
    have hheader : transportHeaderLen = 16 := rfl
    simp only [header, length_append, length_cons, length_nil, length_drop,
      length_zipWith, length_take]
    omega
  · exact fun _ _ => rfl

/-! ## In every run -/

/-- A log only grows. -/
theorem log_of_changes {time : Option Nat} {t t' : PeerTunnel ε}
    (h : Relation.ReflTransGen (Change time) t t') : t.log <+: t'.log := by
  induction h with
  | refl => exact prefix_rfl
  | tail _ hlast ih =>
    refine ih.trans ?_
    cases hlast with
    | sealing h =>
      cases h with
      | log | send => exact prefix_append _ _
      | _ => exact prefix_rfl
    | establish | deliver => exact prefix_append _ _
    | read =>
      rw [putSession]
      split <;> exact prefix_rfl
    | _ => exact prefix_rfl

variable [Entropy ε]

theorem settled_of_made {config : PeerConfig} (h : PeerTunnel.Made config t) : Settled t := by
  obtain ⟨entropy, h⟩ := h
  obtain ⟨_, hvalid, h⟩ := bind_ok_iff.mp h
  obtain ⟨identity, -, h⟩ := bind_ok_iff.mp h
  obtain ⟨_, hparams, hkey⟩ := bind_ok_iff.mp hvalid
  have hvalid : ValidParams config.settings.amnezia config.headerProtectionKey := by
    refine ⟨hparams, fun hsome => ?_⟩
    obtain ⟨key, hsome⟩ := isSome_iff_exists.mp hsome
    rw [hsome] at hkey
    exact hkey
  split at h
  · cases h
  · cases h
    exact ⟨hvalid, show initialUdpWindow < 2 ^ 64 by decide, nofun, nofun⟩

theorem settled_of_reach {config : PeerConfig} (h : TunnelReach config t) : Settled t :=
  reach_of_changes (fun _ => settled_of_made) (fun _ _ _ _ _ => settled_change) h

/-! ## Sealing fails for want of random bytes only -/

section

variable (hentropy : HonestEntropy ε)
include hentropy

theorem fill_fails (n : Nat) : FailsOnly (· = .entropyUnavailable) (fill n : TunnelM ε (Block n)) :=
  fun t error h => hentropy.fill t.entropy n error h

theorem nextU32_fails : FailsOnly (· = .entropyUnavailable) (nextU32 : TunnelM ε UInt32) :=
  fun t error h => hentropy.nextU32 t.entropy error h

theorem contentPadding_fails (amnezia : AmneziaParams) (available : Nat) :
    FailsOnly (· = .entropyUnavailable)
      (contentPadding amnezia available : TunnelM ε (Option Nat)) := by
  rw [contentPadding]
  split
  · exact .ite (.pure _) ((nextU32_fails hentropy).bind fun _ => .pure _)
  · exact .ite (.ite (.pure _) ((nextU32_fails hentropy).bind fun _ => .pure _)) (.pure _)

theorem obfuscateInto_fails {p : AmneziaParams} {window : Nat} {m : TunnelM ε Bytes}
    (h : p.obfuscateIntoWithWindow message window fill = .ok m) :
    FailsOnly (· = .entropyUnavailable) m := by
  obtain ⟨kind, -, h⟩ := bind_ok_iff.mp h
  cases h
  have hfill := fun n => fill_fails hentropy n
  refine (hfill _).bind fun junk => FailsOnly.bind ?_ fun header => FailsOnly.ite ?_ (.pure _)
  · exact .ite (.pure _) ((hfill 4).bind fun _ => .pure _)
  · refine FailsOnly.bind ?_ fun trailer => .pure _
    exact .ite ((hfill 4).bind fun _ => (hfill _).bind fun _ => .pure _) (.pure _)

theorem obfuscateOwned_fails {kind : UInt8} (hkind : AmneziaParams.classify message = .ok kind) :
    FailsOnly (· = .entropyUnavailable)
      (obfuscateOwned message : TunnelM ε Bytes) := by
  intro t
  rw [obfuscateOwned, ends_get_bind]
  split
  · rw [obfuscate, ends_get_bind, ends_give_bind]
    refine ⟨fun error herror => ?_, fun m hm => ?_⟩
    · rw [AmneziaParams.obfuscateIntoWithWindow, hkind] at herror
      cases herror
    · exact ((obfuscateInto_fails hentropy hm).bind fun _ => .pure _) t
  · rw [hkind]
    intro _ h
    cases h

end

section

variable (hciphers : ReliableCiphers) (hentropy : HonestEntropy ε)
include hciphers hentropy

theorem sealNow_fails {held : Held} (hsettled : Settled t) (hcan : t.canSeal = true)
    (hsize : held.packet.length < 2 ^ 63) : Ends (sealNow held) t fun r _ =>
      ∀ error, r = .error error → error = .entropyUnavailable := by
  obtain ⟨live, hlive, hsend⟩ := (any_eq_true _ _).mp hcan
  have hcounter : live.session.sendCounter < rejectAfterMessages := by
    rw [Live.canSend, Bool.and_eq_true] at hsend
    exact of_decide_eq_true hsend.2
  have hjunk := t.amnezia.transportJunkSize.toNat_lt
  have hheader : transportHeaderLen = 16 := rfl
  have htag : tagLen = 16 := rfl
  have hminimum : (add64 t.amnezia.transportJunkSize.toNat (transportHeaderLen + tagLen)).bind
      (add64 · held.packet.length) =
        some (t.amnezia.transportJunkSize.toNat + (transportHeaderLen + tagLen) +
          held.packet.length) := by
    rw [add64, if_pos (by omega), bind_some, add64, if_pos (by omega)]
  rw [sealNow, ends_get_bind, hminimum]
  rw [ends_modify_bind]
  refine ((contentPadding_leaves _ _ _).and ((contentPadding_le _ _ _).and
    (contentPadding_fails hentropy _ _ _))).bind (fun padding t₁ h₁ => ?_)
    fun error _ h error' heq => by
      cases heq
      exact h.2.2 error rfl
  obtain ⟨hapart₁, hpadding, -⟩ := h₁
  have heq₁ := eq_of_apart hapart₁
  -- what is asked for is within the window
  have hwindow := hsettled.window
  have hfits : ∀ n, padding = some n → held.packet.length + n < 2 ^ 64 := by
    intro n hn
    have hle := hpadding padding n rfl hn
    omega
  obtain ⟨message, hseal⟩ := sealAs_ok hciphers hcounter hfits
  have hlive₁ : t₁.live = some live := by
    rw [heq₁]
    exact hlive
  obtain ⟨zeros, hof, -⟩ := sealAs_message hseal
  rw [ends_bind_of_exec (sealLive_ok hlive₁ hseal)]
  have hkind := classify_message hof
  refine ((obfuscateOwned_leaves message _).and ((obfuscateOwned_shaped hkind _).and
    (obfuscateOwned_fails hentropy hkind _))).bind (fun shaped t₃ h₃ => ?_)
    fun error _ h error' heq => by
      cases heq
      exact h.2.2 error rfl
  have hshaped : Shaped t message shaped := by
    have := h₃.2.1 shaped rfl
    rw [heq₁] at this
    exact this
  have hlong := length_message hof
  obtain ⟨datagram, hdatagram⟩ := protectMessage_shaped hciphers hsettled.valid (by omega) hshaped
  rw [hdatagram]
  intro _ h
  cases h

theorem flushLoop_fails (fuel : Nat) (h : Ready t) : Ends (flushLoop fuel) t fun r _ =>
      ∀ error, r = .error error → error = .entropyUnavailable := by
  induction fuel generalizing t with
  | zero =>
    intro _ h
    cases h
  | succ fuel ih =>
    rw [flushLoop, ends_get_bind]
    split
    · intro _ h
      cases h
    · next held rest hpending =>
      have hsizes := h.sizes
      rw [hpending] at hsizes
      split
      · next hcan =>
        rw [ends_modify_bind]
        have hrest : Settled { t with pending := rest } :=
          settled_change (.sealing (.queue t rest) : Change none _ _) h.toSettled
        have hspec := (sealNow_spec held { t with pending := rest }).and
          (((changes_of_sealing (sealNow_sealing held) : Follows (Change none) _) _).and
            (sealNow_fails hciphers hentropy hrest hcan (hsizes held mem_cons_self)))
        refine hspec.bind (fun answer t' h => ?_) fun error _ h error' heq => by
          cases heq
          exact h.2.2 error rfl
        have hpending' : t'.pending = rest := (Seals.frame h.1.1).2.2.2.1
        refine ih ⟨hrest.follows h.2.1, fun held' hheld' => ?_⟩
        rw [hpending'] at hheld'
        exact hsizes held' (mem_cons_of_mem _ hheld')
      · intro _ h
        cases h

variable (h : Ready t)

include h

/-- Packets that wait are sent unless there are no random bytes. -/
theorem flushPending_fails : Ends flushPending t fun r _ => ∀ error, r = .error error →
      error = .entropyUnavailable ∧ t.pending ≠ [] := by
  have hloop := flushLoop_fails hciphers hentropy t.pending.length h
  rw [flushPending, ends_get_bind]
  cases hpending : t.pending with
  | nil => exact nofun
  | cons =>
    rw [hpending] at hloop
    exact hloop.imp fun r t' h error heq => ⟨h error heq, cons_ne_nil _ _⟩

/-! ## What is tried -/

/-- An answer was accepted, and there were no random bytes to send the packets with that
waited for it. -/
structure Starved (t : PeerTunnel ε) (datagram authenticated : Bytes) (error : WireguardError)
    (t' : PeerTunnel ε) : Prop where
  answers : ∃ keys, Establishes t datagram authenticated keys
  starved : error = .entropyUnavailable
  waiting : t.pending ≠ []
  same : SameConfig t t'
  settled : Settled t'
  moved : t' ≠ t

/-- A response that fails is no answer and has changed nothing, or there were no random
bytes. -/
theorem acceptResponse_errors (datagram authenticated : Bytes) :
    Ends (acceptResponse datagram authenticated) t fun r t' => ∀ error, r = .error error →
      (t' = t ∧ ∀ keys, ¬ Establishes t datagram authenticated keys) ∨
        Starved t datagram authenticated error t' := by
  refine ends_acceptResponse (fun _ hnone _ _ => .inl ⟨rfl, hnone⟩) fun keys hkeys => ?_
  have hestablish : Change none t (installed t keys) := .establish t keys
  have hnew : Ready (installed t keys) := ⟨settled_change hestablish h.toSettled, h.sizes⟩
  have hsealing := (changes_of_sealing flushPending_sealing : Follows (Change none) _)
    (installed t keys)
  refine (hsealing.and (flushPending_fails hciphers hentropy hnew)).imp fun r t' h error heq => ?_
  obtain ⟨hchanges, hfails⟩ := h
  cases r with
  | ok => cases heq
  | error =>
    cases heq
    obtain ⟨hstarved, hwaiting⟩ := hfails error rfl
    refine .inr ⟨⟨keys, hkeys⟩, hstarved, hwaiting,
      sameConfig_of_changes (.head hestablish hchanges), hnew.toSettled.follows hchanges, ?_⟩
    rintro rfl
    have hlonger := (log_of_changes hchanges).length_le
    simp [installed] at hlonger

omit h hciphers hentropy in
theorem acceptHandshake_other {kind : UInt8} (hkind : kind ≠ typeResponse) (body : Bytes) :
    Ends (acceptHandshake kind body) t (Unmoved t) := by
  rw [acceptHandshake, if_neg hkind]
  split
  · exact acceptCookieReply_errors _ t
  · exact fun _ _ => rfl

/-- One handshake message is tried, and then something that leaves nothing behind. -/
theorem attempt_inert {kind : UInt8} {body : Bytes}
    {f : Except WireguardError Received → TunnelM ε Received}
    (hoffered : ∀ other, Offered t datagram typeResponse other ↔ kind = typeResponse ∧ other = body)
    (hok : ∀ received, f (.ok received) = pure received)
    (hrest : ∀ error t', Settled t' → Ends (f (.error error)) t' (Unmoved t'))
    (hlast : ∀ t', ¬ TriedAfterResponse t datagram → SameConfig t t' →
      (f (.error .entropyUnavailable)).exec t' = (.error .entropyUnavailable, t')) :
    Ends (attempt (acceptHandshake kind body) >>= f) t (InertIff t datagram) := by
  have hrefused : ∀ error, (kind = typeResponse →
      ∀ keys, ¬ Establishes t (header typeResponse ++ body.drop 4) body keys) →
      Ends (f (.error error)) t (InertIff t datagram) := by
    refine fun error hnone => (hrest error t h.toSettled).imp fun _ _ h => h.inertIff ?_
    rintro ⟨-, ⟨other, keys, hother, hkeys⟩, -⟩
    obtain ⟨hkind, rfl⟩ := (hoffered other).mp hother
    exact hnone hkind keys hkeys
  have hdone : ∀ received t', Ends (f (.ok received)) t' (InertIff t datagram) := by
    intro received t'
    rw [hok]
    intro _ h
    cases h
  rw [ends_bind, ends_attempt]
  by_cases hkind : kind = typeResponse
  · subst hkind
    refine (acceptResponse_errors hciphers hentropy h (header typeResponse ++ body.drop 4) body).imp
      fun r t' herrors => ?_
    cases r with
    | ok received => exact hdone received t'
    | error error =>
      obtain ⟨rfl, hnone⟩ | hstarved := herrors error rfl
      · exact hrefused error fun _ => hnone
      · obtain rfl := hstarved.starved
        obtain ⟨keys, hkeys⟩ := hstarved.answers
        show Ends (f (.error .entropyUnavailable)) t' _
        by_cases htried : TriedAfterResponse t datagram
        · have hmistaken : Mistakable t datagram :=
            ⟨hstarved.waiting, ⟨body, keys, (hoffered body).mpr ⟨rfl, rfl⟩, hkeys⟩, htried⟩
          refine (hrest _ t' hstarved.settled).imp fun _ _ h error heq _ => ?_
          rw [h error heq]
          exact ⟨fun h => absurd h hstarved.moved, fun h => absurd hmistaken h⟩
        · rw [Ends, hlast t' htried hstarved.same]
          intro _ heq hother
          cases heq
          exact absurd rfl hother
  · refine (acceptHandshake_other hkind body).imp fun r t' hunmoved => ?_
    cases r with
    | ok received => exact hdone received t'
    | error error =>
      obtain rfl := hunmoved error rfl
      exact hrefused error fun h => absurd h hkind

/-! ## Datagrams -/

theorem receivePlain_inert (hsize : datagram.length < 2 ^ 63)
    (hkey : t.headerProtectionKey = none) :
    Ends (receivePlain datagram) t (InertIff t datagram) := by
  have hoffered : ∀ body, Offered t datagram typeResponse body ↔
      t.amnezia.handshakeBody datagram = .ok (typeResponse, body) := by
    intro body
    rw [Offered, hkey]
  rw [receivePlain, ends_get_bind]
  split
  · next hnone =>
    refine (receiveTransport_errors h.toSettled hsize none).imp fun _ _ h => h.inertIff ?_
    rintro ⟨-, ⟨body, -, hbody, -⟩, -⟩
    cases hnone.symm.trans ((hoffered body).mp hbody)
  · next kind body hbody =>
    refine attempt_inert hciphers hentropy h (fun other => ?_) (fun _ => rfl)
      (fun error t' hsettled => receiveTransport_errors hsettled hsize (some error))
      fun t' hnot hsame => ?_
    · rw [hoffered, hbody]
      simp [eq_comm]
    · rw [TriedAfterResponse, hkey, ← hsame.amnezia] at hnot
      show (receiveTransport datagram _).exec t' = _
      rw [receiveTransport, exec_get_bind, if_neg hnot]
      rfl

omit h hciphers hentropy in
/-- One more kind is tried and leaves nothing behind. -/
theorem tryCandidates_other {mask : Bytes} {candidate : Candidate} {rest : List Candidate}
    {Q : Except WireguardError Received → PeerTunnel ε → Prop}
    (hkind : candidate.kind ≠ typeResponse) (hok : ∀ received t', Q (.ok received) t')
    (hbody : ∀ error, t.protectedHandshakeBody datagram candidate mask = .error error →
      Q (.error error) t)
    (hrest : ∀ refusal, Ends (tryCandidates datagram mask rest refusal) t Q)
    (refusal : Option WireguardError) :
    Ends (tryCandidates datagram mask (candidate :: rest) refusal) t Q := by
  rw [tryCandidates, ends_get_bind, ends_give_bind]
  refine ⟨hbody, fun body _ => ?_⟩
  cases body with
  | none => exact hrest refusal
  | some body =>
    rw [ends_bind, ends_attempt]
    refine (acceptHandshake_other hkind body).imp fun r t' h => ?_
    cases r with
    | ok received => exact hok received t'
    | error error =>
      obtain rfl := h error rfl
      exact hrest (some error)

theorem receiveProtected_inert (hsize : datagram.length < 2 ^ 63) {key : HeaderProtectionKey}
    (hkey : t.headerProtectionKey = some key) :
    Ends (receiveProtected key datagram) t (InertIff t datagram) := by
  have hclear : (∀ body, ¬ Offered t datagram typeResponse body) → ¬ Mistakable t datagram := by
    rintro hnone ⟨-, ⟨body, -, hbody, -⟩, -⟩
    exact hnone body hbody
  rw [receiveProtected, ends_give_bind]
  refine ⟨fun error hmask => Unmoved.inertIff (fun _ _ => rfl) (hclear ?_), fun mask hmask => ?_⟩
  · intro body hbody
    rw [Offered, hkey] at hbody
    obtain ⟨_, hmask', -⟩ := hbody
    cases hmask.symm.trans hmask'
  have hoffered : ∀ body, Offered t datagram typeResponse body ↔
      t.protectedHandshakeBody datagram ⟨typeResponse, responseLen,
        t.amnezia.responseJunkSize.toNat, t.amnezia.headerResponse⟩ mask = .ok (some body) := by
    intro body
    rw [Offered, hkey]
    constructor
    · rintro ⟨_, hmask', candidate, hmem, hkind, hbody⟩
      cases hmask.symm.trans hmask'
      simp only [AmneziaParams.candidates, mem_cons, not_mem_nil, or_false] at hmem
      obtain rfl | rfl | rfl := hmem
      · cases hkind
      · exact hbody
      · cases hkind
    · exact fun hbody => ⟨mask, hmask, _, mem_cons_of_mem _ mem_cons_self, rfl, hbody⟩
  -- what is tried after a response leaves nothing behind
  have hrest : ∀ t' : PeerTunnel ε, Settled t' → ∀ refusal, Ends (tryCandidates datagram mask
      [⟨typeCookieReply, cookieReplyLen, t.amnezia.cookieJunkSize.toNat, t.amnezia.headerCookie⟩]
      refusal) t' (Unmoved t') := fun t' hsettled =>
    tryCandidates_other (show typeCookieReply ≠ _ by decide) (fun _ _ _ h => by cases h)
      (fun _ _ _ _ => rfl) fun refusal => receiveProtectedTransport_errors hsettled hsize refusal
  rw [ends_get_bind]
  refine tryCandidates_other (show typeInitiation ≠ _ by decide) (fun _ _ _ h => by cases h)
    (fun error herror => ?_) (fun refusal => ?_) none
  · have hfronts := (long_prefixes (h.valid.2 (by rw [hkey]; rfl))).2
    obtain ⟨body, hbody⟩ := protectedHandshakeBody_ok hciphers.streams hkey mem_cons_self
      (hfronts _ mem_cons_self) datagram mask
    cases hbody.symm.trans herror
  rw [tryCandidates, ends_get_bind, ends_give_bind]
  refine ⟨fun error herror => Unmoved.inertIff (fun _ _ => rfl) (hclear ?_), fun body hbody => ?_⟩
  · intro body hbody
    cases herror.symm.trans ((hoffered body).mp hbody)
  cases body with
  | none =>
    refine (hrest t h.toSettled refusal).imp fun _ _ h => h.inertIff (hclear ?_)
    intro body hbody'
    cases hbody.symm.trans ((hoffered body).mp hbody')
  | some =>
    refine attempt_inert hciphers hentropy h (fun other => ?_) (fun _ => rfl)
      (fun error t' hsettled => hrest t' hsettled (some error)) fun t' hnot hsame => ?_
    · rw [hoffered, hbody]
      simp [eq_comm]
    · rw [TriedAfterResponse, hkey] at hnot
      simp only [not_exists, not_and, not_or] at hnot
      obtain ⟨hcookie, htransport⟩ := hnot mask hmask
      have hcookie := not_not.mp (hcookie _ (mem_cons_of_mem _ (mem_cons_of_mem _
        mem_cons_self)) rfl)
      have hsameBody : ∀ candidate, t'.protectedHandshakeBody datagram candidate mask =
          t.protectedHandshakeBody datagram candidate mask := by
        intro candidate
        rw [protectedHandshakeBody, protectedHandshakeBody, hsame.amnezia, hsame.key]
      show (tryCandidates datagram mask [_] _).exec t' = _
      rw [tryCandidates, exec_get_bind, hsameBody, hcookie, exec_give_bind]
      rw [tryCandidates, receiveProtectedTransport, exec_get_bind, hsame.amnezia]
      rw [if_neg]
      · rfl
      · rw [Bool.and_eq_true, decide_eq_true_iff]
        exact fun h => htransport h.1 h.2

end

/-! ## Every refusal -/

theorem pending_sizes {config : PeerConfig} (hreach : TunnelReach config t)
    (hsizes : ∀ packet ∈ accepted t.log, packet.length < 2 ^ 63) :
    ∀ held ∈ t.pending, held.packet.length < 2 ^ 63 := by
  intro held hheld
  by_cases hempty : held.packet = []
  · rw [hempty]
    decide
  · have horder := (queueing_of_reach hreach).order
    have hfilled : held ∈ filled (sealedPackets t.log ++ t.pending) := by
      rw [filled, mem_filter]
      exact ⟨mem_append_right _ hheld, decide_eq_true hempty⟩
    have hticketed := horder.subset hfilled
    rw [ticketed, List.mem_map] at hticketed
    obtain ⟨⟨packet, i⟩, hmem, rfl⟩ := hticketed
    exact hsizes packet (fst_mem_of_mem_zipIdx hmem)

/-- A datagram that is refused, other than for want of random bytes, leaves the
tunnel as it was, but for sessions that are too old by then, and whatever comes
later is taken as if it had not come, just when there is no answer in it for which packets
wait and that could be something else as well. -/
theorem refused_datagram_inert (hciphers : ReliableCiphers) (hentropy : HonestEntropy ε)
    {config : PeerConfig} {t : PeerTunnel ε} (hreach : TunnelReach config t)
    (hsizes : ∀ packet ∈ accepted t.log, packet.length < 2 ^ 63) {datagram : Bytes}
    (hsize : datagram.length < 2 ^ 63) (nowMs : Nat) :
    Ends (PeerTunnel.receiveDatagram datagram nowMs) t fun r t' => ∀ error, r = .error error →
      error ≠ .entropyUnavailable → ((t' = entered t nowMs ∧
        ∀ later laterMs, nowMs ≤ laterMs →
          (PeerTunnel.receiveDatagram later laterMs).exec t' =
            (PeerTunnel.receiveDatagram later laterMs).exec t) ↔ ¬ Mistakable t datagram) := by
  have hready : Ready (entered t nowMs) :=
    ⟨settled_change (.enter t rfl : Change (some nowMs) _ _) (settled_of_reach hreach),
      (pending_sizes hreach hsizes :)⟩
  suffices hinert : Ends (receiveDatagram datagram nowMs) t (InertIff (entered t nowMs) datagram) by
    refine hinert.imp fun r t' h error heq hother => ?_
    refine Iff.trans ⟨And.left, ?_⟩ (h error heq hother)
    rintro rfl
    refine ⟨rfl, fun later laterMs hle => ?_⟩
    rw [receiveDatagram_exec, entered_entered t hle]
    rfl
  cases hkey : t.headerProtectionKey with
  | none =>
    rw [Ends, receiveDatagram_exec, hkey]
    exact receivePlain_inert hciphers hentropy hready hsize hkey
  | some =>
    rw [Ends, receiveDatagram_exec, hkey]
    exact receiveProtected_inert hciphers hentropy hready hsize hkey

end

namespace RefusalExample

open TunnelExample

theorem reliableCiphers : ReliableCiphers where
  encrypts _ _ _ _ := some_ne_none _
  streams _ _ _ _ := some_ne_none _

theorem honestEntropy : HonestEntropy (List Bool) := by
  have hfill : ∀ (entropy : List Bool) n error, (Entropy.fill entropy n).1 = .error error →
      error = .entropyUnavailable := by
    intro entropy n error h
    match entropy, h with
    | true :: _, h =>
      cases h
      rfl
    | false :: _, h | [], h => cases h
  refine ⟨hfill, fun entropy error h => ?_⟩
  match entropy, h with
  | true :: _, h =>
    cases h
    rfl
  | false :: _, h | [], h => cases h

/-- A packet waits for a handshake. -/
def waiting : PeerTunnel (List Bool) :=
  [PeerTunnel.Action.sendPacket [1] 10 wall].foldl PeerTunnel.apply
    (TunnelExample.made.toOption.get TunnelExample.made_isSome)

/-- An answer to another initiation. -/
def stray : Bytes := header typeResponse ++ toLe 4 7 ++ toLe 4 5 ++ List.replicate 80 0

/-- Transport data has the header zero, behind eight bytes. -/
def config : PeerConfig where
  settings :=
    { privateKey := Block.zero 32, peerPublicKey := Block.zero 32
      amnezia := { transportJunkSize := 8, headerTransport := .single 0 } }

/-- The entropy lasts for the handshake and fails for the packet. -/
def made : Except WireguardError (PeerTunnel (List Bool)) :=
  PeerTunnel.new config [false, false, false, false, true]

theorem made_isSome : made.toOption.isSome = true := by decide +kernel

def before : PeerTunnel (List Bool) :=
  [PeerTunnel.Action.sendPacket [1] 0 wall].foldl PeerTunnel.apply (made.toOption.get made_isSome)

/-- The answer to the initiation, with zeros where transport data has its header. -/
def answer : Bytes :=
  header typeResponse ++ toLe 4 7 ++ toLe 4 0 ++ List.replicate 32 1 ++ List.replicate 48 0

end RefusalExample

open TunnelExample RefusalExample in
theorem stray_response_inert :
    ((PeerTunnel.receiveDatagram stray 20).exec waiting).1 = .error .unexpectedMessage ∧
    ((PeerTunnel.receiveDatagram stray 20).exec waiting).2 = entered waiting 20 := by
  have hreach : TunnelReach TunnelExample.config waiting :=
    Reach.run (.start ⟨[true], eq_ok_get TunnelExample.made_isSome⟩) (admissible_any _ _ _)
  have hanswer : ((PeerTunnel.receiveDatagram stray 20).exec waiting).1 =
      .error .unexpectedMessage := by decide +kernel
  have hclear : ¬ Mistakable waiting stray := by
    rintro ⟨-, -, htried⟩
    have hnot : waiting.amnezia.isTransport stray = false := by decide +kernel
    exact Bool.false_ne_true (hnot.symm.trans htried)
  have hsize : stray.length < 2 ^ 63 := by decide +kernel
  have hinert := refused_datagram_inert reliableCiphers honestEntropy hreach (by decide +kernel)
    hsize 20
  exact ⟨hanswer, ((hinert _ hanswer (by decide)).mpr hclear).1⟩

open TunnelExample RefusalExample in
/-- The response is accepted and its session established, there are no random
bytes to send the packet with, and then the datagram is refused as transport
data. -/
theorem accepted_response_refused :
    TunnelReach RefusalExample.config before ∧
    ((PeerTunnel.receiveDatagram answer 20).exec before).1 = .error .unexpectedMessage ∧
    (entered before 20).handshake.isSome = true ∧ (entered before 20).live = none ∧
    ((PeerTunnel.receiveDatagram answer 20).exec before).2.handshake.isNone = true ∧
    ((PeerTunnel.receiveDatagram answer 20).exec before).2.live.isSome = true ∧
    ((PeerTunnel.receiveDatagram answer 20).exec before).2.pending = [] := by
  refine ⟨Reach.run (.start ⟨_, eq_ok_get RefusalExample.made_isSome⟩) (admissible_any _ _ _), ?_⟩
  decide +kernel

end Foxcore.Proofs
