import Foxcore.Proofs.Refusal

/-!
# A tick and the deadline

`next_deadline_ms` lists again what the four timer routines act on. The list says
`AtRest` (`nothingDue_iff`). If a tunnel is at rest none of the routines does
anything (`tick_atRest`), and after a tick it is (`tick_settles`): each routine
ends with what it looks at not due, and the ones after it keep that. What a
later routine can break is that the session has messages left, since keepalives
are sent after the counter is looked at.
-/

namespace Foxcore.Proofs

open Lib Lib.Command Ref Ref.Wireguard Spec List Option
open Ref.Wireguard.PeerTunnel

variable {n count : Nat} {live : Live}

/-- What is considered where there is something to consider. -/
theorem forall_considered_iff {α : Type} {o : Option α} {f : α → List Nat} :
    (∀ d ∈ o.elim [] f, n < d) ↔ ∀ a, o = some a → ∀ d ∈ f a, n < d := by
  cases o <;> simp

theorem forall_ite_iff {c : Prop} [Decidable c] {l l' : List Nat} :
    (∀ d ∈ (if c then l else l'), n < d) ↔
      (c → ∀ d ∈ l, n < d) ∧ (¬ c → ∀ d ∈ l', n < d) := by
  split <;> simp [*]

theorem resolve_timeout {ε : Type} [Entropy ε] (timers : PeerTimers) (entropy : ε) :
    Ends (ResolvedTimers.resolve timers) entropy fun r _ =>
      ∀ resolved, r = .ok resolved → 0 < resolved.rekeyTimeoutMs := by
  have hany : ∀ {α β : Type} {m : Command ε WireguardError α} {f : α → Command ε WireguardError β}
      {P : β → Prop}, (∀ a, (answers ε WireguardError).all (f a) P) →
      (answers ε WireguardError).all (m >>= f) P := fun h =>
    (answers ε WireguardError).bind (P := fun _ => True)
      ((answers ε WireguardError).of_forall fun _ => trivial) fun a _ => h a
  refine hany (fun rekeyTimeout => hany fun attempts => hany fun rekeyAfter =>
    hany fun rejectAfter => hany fun keepalive => (answers ε WireguardError).pure ?_) entropy
  show 0 < max (rekeyTimeout * 1000) 1000
  omega

section

variable [WireguardCrates] {ε : Type} {t t' : PeerTunnel ε} {nowMs : Nat}

/-! ## The deadlines -/

theorem canSeal_of_live (hlive : t.live = some live) :
    t.canSeal = live.canSend t.nowMs t.timers.rejectAfterTimeMs := by
  rw [canSeal, hlive]
  rfl

theorem forall_deadlines_iff :
    (∀ deadlineMs ∈ t.deadlines, nowMs < deadlineMs) ↔
      AtRest t nowMs ∧ (Spent t → nowMs < t.nowMs) := by
  simp only [deadlines, forall_mem_append, forall_considered_iff, forall_ite_iff,
    forall_mem_singleton, isNone_iff_eq_none, filter_eq_some_iff]
  have hcan : t.canSeal = true ↔ ∃ live, t.live = some live ∧
      live.canSend t.nowMs t.timers.rejectAfterTimeMs = true := any_eq_true _ _
  constructor
  · rintro ⟨⟨hretry, hlive⟩, hprevious⟩
    refine ⟨⟨hretry, ?_, ?_, ?_, ?_, hprevious⟩, ?_⟩ <;> grind [Spent]
  · rintro ⟨⟨hretry, hlive, hrekey, hkeepalive, hpassive, hprevious⟩, hspent⟩
    refine ⟨⟨hretry, fun live h => ⟨⟨hlive live h, ?_, ?_⟩, ?_, ?_⟩⟩, hprevious⟩ <;> grind [Spent]

theorem nothingDue_iff : NothingDue t nowMs ↔ AtRest t nowMs ∧ (Spent t → nowMs < t.nowMs) := by
  rw [← forall_deadlines_iff]
  constructor
  · intro h d hd
    cases hmin : t.deadlines.min? with
    | none => exact absurd hd (by rw [min?_eq_none_iff.mp hmin]; exact not_mem_nil)
    | some least =>
      have hle := (min?_eq_some_iff.mp hmin).2 d hd
      have hlt := h least hmin
      omega
  · exact fun h d hd => h d (min?_eq_some_iff.mp hd).1

theorem AtRest.mono {earlierMs : Nat} (h : AtRest t nowMs) (hle : earlierMs ≤ nowMs) :
    AtRest t earlierMs where
  retry inFlight hflight := lt_of_le_of_lt hle (h.retry inFlight hflight)
  live live hlive := lt_of_le_of_lt hle (h.live live hlive)
  rekey hnone live hlive hneeds := lt_of_le_of_lt hle (h.rekey hnone live hlive hneeds)
  keepalive hcan intervalS hinterval hpos :=
    lt_of_le_of_lt hle (h.keepalive hcan intervalS hinterval hpos)
  passive hcan receivedMs hreceived hlt :=
    lt_of_le_of_lt hle (h.passive hcan receivedMs hreceived hlt)
  previous live hlive := lt_of_le_of_lt hle (h.previous live hlive)

/-- A tunnel at rest whose session is spent wants to be called at once. -/
theorem nextDeadlineMs_of_spent (hrest : AtRest t t.nowMs) (hspent : Spent t) :
    t.nextDeadlineMs = some t.nowMs := by
  refine min?_eq_some_iff.mpr ⟨?_, fun d hd => ?_⟩
  · obtain ⟨hnone, live, hlive, hneeds⟩ := hspent
    simp [deadlines, hnone, hlive, hneeds]
  · cases hnow : t.nowMs with
    | zero => exact Nat.zero_le d
    | succ n =>
      have hrest' : AtRest t n := AtRest.mono hrest (by omega)
      exact forall_deadlines_iff.mpr ⟨hrest', fun _ => by omega⟩ d hd

/-! ## What the routines look at -/

/-- Both sessions are young enough. -/
def Young (t : PeerTunnel ε) : Prop :=
  ∀ live, t.live = some live ∨ t.previous = some live →
    live.isExpired t.nowMs t.timers.rejectAfterTimeMs = false

/-- The deadlines are sums, what the routines look at are differences. -/
theorem atRest_iff (hstamped : Stamped t t.nowMs) (hbound : t.nowMs < 2 ^ 64 - 1) :
    AtRest t t.nowMs ↔ Young t ∧ RetryLater t ∧ (¬ Spent t → RekeyLater t) ∧ PassiveLater t ∧
      KeepaliveLater t := by
  have hsum : ∀ {stamp after : Nat}, stamp ≤ t.nowMs →
      (t.nowMs < saturatingAdd64 stamp after ↔ t.nowMs - stamp < after) := by
    intro stamp after hpast
    rw [saturatingAdd64, Nat.lt_min]
    omega
  have hyoung : ∀ {live : Live}, live.establishedMs ≤ t.nowMs →
      (t.nowMs < saturatingAdd64 live.establishedMs t.timers.rejectAfterTimeMs ↔
        live.isExpired t.nowMs t.timers.rejectAfterTimeMs = false) := by
    intro live hpast
    rw [hsum hpast, Live.isExpired, decide_eq_false_iff_not]
    omega
  have hinterval : ∀ intervalS : UInt16,
      t.nowMs < saturatingAdd64 t.lastSentMs (saturatingMul64 intervalS.toNat 1000) ↔
        t.nowMs - t.lastSentMs < intervalS.toNat * 1000 := by
    intro intervalS
    rw [hsum hstamped.sent, saturatingMul64, Nat.lt_min]
    omega
  obtain ⟨-, -, hlive, hprevious, hreceived⟩ := hstamped
  constructor
  · rintro ⟨hretry, hlater, hrekey, hkeepalive, hpassive, hlast⟩
    grind [Young, RetryLater, Spent, RekeyLater, PassiveLater, KeepaliveLater]
  · rintro ⟨hlater, hretry, hrekey, hpassive, hkeepalive⟩
    constructor <;> grind [Young, RetryLater, Spent, RekeyLater, PassiveLater, KeepaliveLater]

theorem entered_of_young (hyoung : Young { t with nowMs }) :
    entered t nowMs = { t with nowMs } := by
  have hkeep : ∀ sessions : Option Live, (∀ live, sessions = some live →
      live.isExpired nowMs t.timers.rejectAfterTimeMs = false) →
      (sessions.filter fun live => !live.isExpired nowMs t.timers.rejectAfterTimeMs) =
        sessions := by
    intro sessions h
    cases sessions with
    | none => rfl
    | some live => rw [filter_some, h live rfl, Bool.not_false, if_pos rfl]
  rw [entered, expireSessions]
  rw [hkeep t.live fun live h => hyoung live (.inl h),
    hkeep t.previous fun live h => hyoung live (.inr h)]

/-- A tunnel that is at rest still is when the clock gets there. -/
theorem atRest_at (hstamped : Stamped t nowMs) (hrest : AtRest t nowMs) :
    AtRest { t with nowMs } nowMs := by
  have hcan : canSeal { t with nowMs } = true → t.canSeal = true := by
    intro h
    obtain ⟨live, hlive, hsend⟩ := (any_eq_true _ _).mp h
    rw [Live.canSend, Bool.and_eq_true, Bool.not_eq_true'] at hsend
    rw [canSeal_of_live (show t.live = some live from hlive), Live.canSend,
      isExpired_mono hstamped.now hsend.1, hsend.2]
    rfl
  exact { hrest with
    keepalive := fun h => hrest.keepalive (hcan h)
    passive := fun h => hrest.passive (hcan h) }

/-! ## What keepalives change -/

/-- What may be different when keepalives have been sent. -/
structure Sealed (t t' : PeerTunnel ε) : Prop where
  timers : t'.timers = t.timers
  interval : t'.persistentKeepaliveS = t.persistentKeepaliveS
  now : t'.nowMs = t.nowMs
  handshake : t'.handshake = t.handshake
  previous : t'.previous = t.previous
  received : ∀ receivedMs, t'.dataReceivedMs = some receivedMs → t.dataReceivedMs = some receivedMs
  sent : t'.lastSentMs = t.lastSentMs ∨ t'.lastSentMs = t.nowMs
  live : ∀ live', t'.live = some live' → ∃ live, t.live = some live ∧
    live'.establishedMs = live.establishedMs ∧ live'.serial = live.serial ∧
    live.session.sendCounter ≤ live'.session.sendCounter

theorem Sealed.refl (t : PeerTunnel ε) : Sealed t t :=
  ⟨rfl, rfl, rfl, rfl, rfl, fun _ h => h, .inl rfl,
    fun live h => ⟨live, h, rfl, rfl, le_rfl⟩⟩

theorem Sealed.trans {t t₁ t₂ : PeerTunnel ε} (h : Sealed t t₁) (h' : Sealed t₁ t₂) :
    Sealed t t₂ where
  timers := h'.timers.trans h.timers
  interval := h'.interval.trans h.interval
  now := h'.now.trans h.now
  handshake := h'.handshake.trans h.handshake
  previous := h'.previous.trans h.previous
  received receivedMs heq := h.received receivedMs (h'.received receivedMs heq)
  sent := h'.sent.elim (fun heq => h.sent.imp heq.trans heq.trans) fun heq => .inr (heq.trans h.now)
  live live' heq := by
    obtain ⟨live₁, heq₁, hestablished₁, hserial₁, hle₁⟩ := h'.live live' heq
    obtain ⟨live, heq, hestablished, hserial, hle⟩ := h.live live₁ heq₁
    exact ⟨live, heq, hestablished₁.trans hestablished, hserial₁.trans hserial, hle.trans hle₁⟩

theorem Sealed.acknowledge (t : PeerTunnel ε) : Sealed t { t with dataReceivedMs := none } :=
  { Sealed.refl t with received := nofun }

theorem sealed_step {t t₁ t₂ : PeerTunnel ε} (h : Sealed t t₁) (hstep : Sealing t₁ t₂) :
    Sealed t t₂ := by
  cases hstep with
  | draw entropy | widen hn | log event | queue pending => exact { h with }
  | send => exact { h with sent := .inr h.now }
  | count hlive hsession =>
    refine { h with live := fun live' heq => ?_ }
    cases heq
    obtain ⟨live, hlive₀, hestablished, hserial, hle⟩ := h.live _ hlive
    refine ⟨live, hlive₀, hestablished, hserial, ?_⟩
    obtain rfl | rfl := hsession
    · exact hle
    · exact Nat.le_succ_of_le hle

theorem sealed_of_sealing (h : Relation.ReflTransGen Sealing t t') : Sealed t t' := by
  induction h with
  | refl => exact .refl t
  | tail _ hstep ih => exact sealed_step ih hstep

/-- A session that has sent more can still send only if it could before. -/
theorem Sealed.canSeal (h : Sealed t t') (hcan : t'.canSeal = true) : t.canSeal = true := by
  obtain ⟨live', hlive', hsend⟩ := (any_eq_true _ _).mp hcan
  obtain ⟨live, hlive, hestablished, -, hle⟩ := h.live live' hlive'
  rw [canSeal_of_live hlive]
  simp only [Live.canSend, Live.isExpired, TransportSession.canSend, h.now, h.timers, hestablished,
    Bool.and_eq_true, decide_eq_true_eq] at hsend ⊢
  exact ⟨hsend.1, lt_of_le_of_lt hle hsend.2⟩

/-! ## In a tick -/

/-- A tunnel that has been told the time. -/
structure Ticking (t : PeerTunnel ε) (nowMs : Nat) : Prop where
  now : t.nowMs = nowMs
  stamped : Stamped t t.nowMs
  young : Young t
  timeout : 0 < t.timers.rekeyTimeoutMs

theorem ticking_entered (hstamped : Stamped t nowMs) (htimeout : 0 < t.timers.rekeyTimeoutMs) :
    Ticking (entered t nowMs) nowMs := by
  have hof : ∀ {sessions : Option Live} {live : Live},
      (sessions.filter fun live => !live.isExpired nowMs t.timers.rejectAfterTimeMs) = some live →
      sessions = some live ∧ live.isExpired nowMs t.timers.rejectAfterTimeMs = false := by
    intro sessions live h
    obtain ⟨hsome, hyoung⟩ := filter_eq_some_iff.mp h
    exact ⟨hsome, (Bool.not_eq_true' _).mp hyoung⟩
  refine ⟨rfl, ⟨le_rfl, hstamped.sent, ?_, ?_, hstamped.received⟩, ?_, htimeout⟩
  · exact fun live h => hstamped.live live (hof h).1
  · exact fun live h => hstamped.previous live (hof h).1
  · rintro live (h | h)
    · exact (hof h).2
    · exact (hof h).2

theorem Ticking.sealed (h : Ticking t nowMs) (hsealed : Sealed t t') : Ticking t' nowMs := by
  obtain ⟨hnow, ⟨-, hsent, hlive, hprevious, hreceived⟩, hyoung, htimeout⟩ := h
  obtain ⟨htimers, -, hnow', -, hprevious', hreceived', hsent', hlive'⟩ := hsealed
  refine ⟨hnow'.trans hnow, ⟨le_rfl, ?_, ?_, ?_, ?_⟩, ?_, ?_⟩ <;>
    grind [Young, Live.isExpired]

theorem RetryLater.sealed (h : RetryLater t) (hsealed : Sealed t t') : RetryLater t' := by
  rw [RetryLater, hsealed.handshake, hsealed.now]
  exact h

theorem RekeyLater.sealed (h : RekeyLater t) (hsealed : Sealed t t') : RekeyLater t' := by
  rw [RekeyLater, hsealed.handshake, hsealed.now, hsealed.timers]
  intro hnone live' hlive'
  obtain ⟨live, hlive, hestablished, -, -⟩ := hsealed.live live' hlive'
  rw [hestablished]
  exact h hnone live hlive

theorem PassiveLater.sealed (hticking : Ticking t nowMs) (h : PassiveLater t)
    (hsealed : Sealed t t') : PassiveLater t' := by
  intro hcan receivedMs hreceived hlt
  have hreceived := hsealed.received receivedMs hreceived
  rw [hsealed.now, hsealed.timers]
  obtain heq | heq := hsealed.sent
  · exact h (hsealed.canSeal hcan) receivedMs hreceived (by rw [← heq]; exact hlt)
  · -- nothing has been received later than now
    have hpast := hticking.stamped.received receivedMs hreceived
    omega

variable [Entropy ε]

/-! ## A tick at rest -/

theorem retryHandshakeIfDue_later (h : RetryLater t) (wall : Wall) :
    (retryHandshakeIfDue wall).exec t = (.ok (), t) := by
  exact ends_retryHandshakeIfDue (Q := fun r t' => (r, t') = (.ok (), t)) (fun _ => rfl)
    (fun hdue => absurd h hdue) fun hdue => absurd h hdue

theorem rekeyIfDue_later (h : RekeyLater t) (hspent : ¬ Spent t) (wall : Wall) :
    (rekeyIfDue wall).exec t = (.ok (), t) := by
  exact ends_rekeyIfDue (Q := fun r t' => (r, t') = (.ok (), t)) (fun _ _ => rfl)
    fun hdue => absurd (hdue h) hspent

theorem sendPassiveKeepaliveIfDue_later (h : PassiveLater t) :
    ∃ received, sendPassiveKeepaliveIfDue.exec t =
      (.ok (), { t with dataReceivedMs := received }) := by
  exact ends_sendPassiveKeepaliveIfDue
    (Q := fun r t' => ∃ received, (r, t') = (.ok (), { t with dataReceivedMs := received }))
    (fun _ => ⟨_, rfl⟩) ⟨_, rfl⟩ fun hdue => absurd h hdue

theorem sendKeepaliveIfDue_later (h : KeepaliveLater t) :
    sendKeepaliveIfDue.exec t = (.ok (), t) := by
  exact ends_sendKeepaliveIfDue (Q := fun r t' => (r, t') = (.ok (), t)) (fun _ => rfl)
    fun hdue => absurd h hdue

/-- Each routine finds that it is too early. -/
theorem tick_atRest (hstamped : Stamped t nowMs) (hbound : nowMs < 2 ^ 64 - 1)
    (hdue : NothingDue t nowMs) (wall : Wall) :
    Ends (tick nowMs wall) t fun r t' => r = .ok () ∧ Undisturbed t t' := by
  obtain ⟨hrest, hspent⟩ := nothingDue_iff.mp hdue
  have hunspent : ¬ Spent { t with nowMs } := fun h => by
    have hlt := hspent h
    have hle := hstamped.now
    omega
  obtain ⟨hyoung, hretry, hrekey, hpassive, hkeepalive⟩ :=
    (atRest_iff { hstamped with now := Nat.le_refl nowMs } hbound).mp (atRest_at hstamped hrest)
  rw [tick, enter, ends_modify_bind]
  show Ends _ (entered t nowMs) _
  rw [entered_of_young hyoung, ends_bind_of_exec (retryHandshakeIfDue_later hretry wall),
    ends_bind_of_exec (rekeyIfDue_later (hrekey hunspent) hunspent wall)]
  obtain ⟨received, hexec⟩ := sendPassiveKeepaliveIfDue_later hpassive
  have hlast := sendKeepaliveIfDue_later
    (t := { ({ t with nowMs } : PeerTunnel ε) with dataReceivedMs := received }) hkeepalive
  rw [ends_bind_of_exec hexec, Ends, hlast]
  exact ⟨rfl, rfl, rfl, rfl, rfl, rfl⟩

/-! ## What a tick leaves -/

theorem sealNow_sent (held : Held) (t : PeerTunnel ε) :
    Ends (sealNow held) t fun r t' =>
      ∀ answer, r = .ok answer → t'.lastSentMs = t'.nowMs := by
  have hfails : ∀ (error : WireguardError) (t' : PeerTunnel ε), True → ∀ answer : Queued,
      Except.error error = .ok answer → t'.lastSentMs = t'.nowMs := by simp
  rw [sealNow, ends_get_bind]
  split
  · intro _ h
    cases h
  · rw [ends_modify_bind]
    refine Ends.bind (R := fun _ _ => True) trivial (fun padding t₁ _ => ?_) hfails
    refine Ends.bind (R := fun _ _ => True) trivial (fun message t₂ _ => ?_) hfails
    refine Ends.bind (R := fun _ _ => True) trivial (fun datagram t₃ _ => ?_) hfails
    rw [ends_give_bind]
    exact ⟨by simp, fun _ _ _ _ => rfl⟩

/-- An empty packet is behind what waits, so something is sent now. -/
theorem sendEmpty_sent (hcan : t.canSeal = true) :
    Ends sendEmpty t fun r t' => r = .ok () → Sealed t t' ∧ t'.lastSentMs = t.nowMs := by
  have hsealing := sendEmpty_sealing t
  suffices hsent : Ends sendEmpty t fun r t' => r = .ok () → t'.lastSentMs = t.nowMs from
    (Ends.and hsealing hsent).imp fun _ _ h hok => ⟨sealed_of_sealing h.1, h.2 hok⟩
  rw [sendEmpty, ends_modify_bind, flushPending, ends_get_bind]
  rw [length_append, length_singleton, flushLoop, ends_get_bind]
  split
  · next hpending => exact absurd hpending (append_ne_nil_of_right_ne_nil _ (cons_ne_nil _ _))
  · next held rest hpending =>
    rw [if_pos (show canSeal { t with pending := t.pending ++ [⟨[], none⟩] } = true
      from hcan), ends_modify_bind]
    refine ((sealNow_sent held _).and (sealNow_sealing held _)).bind (fun answer t₁ h₁ => ?_)
      (by simp)
    have hnow : t₁.nowMs = t.nowMs := (sealed_of_sealing h₁.2).now
    refine (flushLoop_sealing _ t₁).imp fun r t' hrest _ => ?_
    obtain heq | heq := (sealed_of_sealing hrest).sent
    · rw [heq, h₁.1 answer rfl, hnow]
    · rw [heq, hnow]

theorem startHandshake_ticking (h : Ticking t nowMs) (hbound : nowMs < 2 ^ 62) (wall : Wall) :
    Ends (startHandshake wall) t fun r t' => r = .ok () →
      Ticking t' nowMs ∧ t'.live = t.live ∧ RetryLater t' ∧ t'.handshake ≠ none := by
  refine (startHandshake_spec wall t).imp fun r t' hspec hok => ?_
  subst hok
  obtain ⟨entropy, outgoing, handshake, mac1, jitterMs, -, -, rfl⟩ := hspec
  refine ⟨⟨h.now, { h.stamped with }, h.young, h.timeout⟩, rfl, ?_, some_ne_none _⟩
  rintro inFlight ⟨⟩
  have hnow := h.now
  have hpos := h.timeout
  simp only [saturatingAdd64]
  omega

theorem retryHandshakeIfDue_ticking (h : Ticking t nowMs) (hbound : nowMs < 2 ^ 62) (wall : Wall) :
    Ends (retryHandshakeIfDue wall) t fun r t' => r = .ok () →
      Ticking t' nowMs ∧ t'.live = t.live ∧ RetryLater t' := by
  refine ends_retryHandshakeIfDue (fun hlater _ => ⟨h, rfl, hlater⟩) (fun _ _ => ?_) fun _ => ?_
  · exact ⟨⟨h.now, { h.stamped with }, h.young, h.timeout⟩, rfl, fun _ h => nomatch h⟩
  · refine (startHandshake_ticking h hbound wall).imp fun r t' hstarted hok => ?_
    obtain ⟨hticking, hlive, hlater, -⟩ := hstarted hok
    exact ⟨hticking, hlive, hlater⟩

theorem rekeyIfDue_ticking (h : Ticking t nowMs) (hretry : RetryLater t) (hbound : nowMs < 2 ^ 62)
    (wall : Wall) :
    Ends (rekeyIfDue wall) t fun r t' => r = .ok () →
      Ticking t' nowMs ∧ t'.live = t.live ∧ RetryLater t' ∧ RekeyLater t' ∧ ¬ Spent t' := by
  refine ends_rekeyIfDue (fun hlater hspent _ => ⟨h, rfl, hretry, hlater, hspent⟩) fun _ => ?_
  refine (startHandshake_ticking h hbound wall).imp fun r t' hstarted hok => ?_
  obtain ⟨hticking, hlive, hlater, hflight⟩ := hstarted hok
  exact ⟨hticking, hlive, hlater, fun hnone => absurd hnone hflight,
    fun hspent => hflight hspent.1⟩

theorem sendPassiveKeepaliveIfDue_sealed (t : PeerTunnel ε) :
    Ends sendPassiveKeepaliveIfDue t fun r t' => r = .ok () →
      Sealed t t' ∧ PassiveLater t' := by
  have hforgotten : ∀ {t' : PeerTunnel ε}, Sealed { t with dataReceivedMs := none } t' →
      Sealed t t' ∧ PassiveLater t' := fun hsealed =>
    ⟨(Sealed.acknowledge t).trans hsealed,
      fun _ receivedMs hreceived => nomatch hsealed.received receivedMs hreceived⟩
  exact ends_sendPassiveKeepaliveIfDue (fun hlater _ => ⟨.refl t, hlater⟩)
    (fun _ => hforgotten (.refl _)) fun _ hcan =>
      (sendEmpty_sent (t := { t with dataReceivedMs := none }) hcan).imp
        fun _ _ hsent hok => hforgotten (hsent hok).1

theorem sendKeepaliveIfDue_sealed (t : PeerTunnel ε) :
    Ends sendKeepaliveIfDue t fun r t' => r = .ok () → Sealed t t' ∧ KeepaliveLater t' := by
  refine ends_sendKeepaliveIfDue (fun hlater _ => ⟨.refl t, hlater⟩) fun _ hcan => ?_
  refine (sendEmpty_sent hcan).imp fun r t' hsent hok => ?_
  obtain ⟨hsealed, hnow⟩ := hsent hok
  refine ⟨hsealed, fun _ intervalS _ hpos => ?_⟩
  rw [hnow, hsealed.now, Nat.sub_self]
  exact Nat.mul_pos (UInt16.lt_iff_toNat_lt.mp hpos) (by decide)

/-- After a tick nothing is due. If the session is spent, it is by what was sent
in the tick. -/
theorem tick_settles (hstamped : Stamped t nowMs) (htimeout : 0 < t.timers.rekeyTimeoutMs)
    (hbound : nowMs < 2 ^ 62) (wall : Wall) :
    Ends (tick nowMs wall) t fun r t' => r = .ok () →
      Ticking t' nowMs ∧ AtRest t' nowMs ∧ (Spent t' → WornOut t t') := by
  have hfails : ∀ {P : Prop} (error : WireguardError), Except.error error = .ok () → P :=
    nofun
  rw [tick, enter, ends_modify_bind]
  have hticking := ticking_entered hstamped htimeout
  have hkept : ∀ live, (entered t nowMs).live = some live → t.live = some live :=
    fun live h => (filter_eq_some_iff.mp h).1
  refine (retryHandshakeIfDue_ticking hticking hbound wall).bind (fun _ t₁ h₁ => ?_)
    fun error _ _ => hfails error
  obtain ⟨hticking, hlive₁, hretry⟩ := h₁ rfl
  refine (rekeyIfDue_ticking hticking hretry hbound wall).bind (fun _ t₂ h₂ => ?_)
    fun error _ _ => hfails error
  obtain ⟨hticking, hlive₂, hretry, hrekey, hunspent⟩ := h₂ rfl
  refine (sendPassiveKeepaliveIfDue_sealed t₂).bind (fun _ t₃ h₃ => ?_)
    fun error _ _ => hfails error
  obtain ⟨hsealed₃, hpassive⟩ := h₃ rfl
  refine (sendKeepaliveIfDue_sealed t₃).imp fun r t' h' hok => ?_
  obtain ⟨hsealed', hkeepalive⟩ := h' hok
  have hsealed := hsealed₃.trans hsealed'
  have hticking' := hticking.sealed hsealed
  have hbound' : t'.nowMs < 2 ^ 64 - 1 := by
    rw [hticking'.now]
    omega
  refine ⟨hticking', ?_, ?_⟩
  · rw [← hticking'.now]
    exact (atRest_iff hticking'.stamped hbound').mpr ⟨hticking'.young, hretry.sealed hsealed,
      fun _ => hrekey.sealed hsealed,
      PassiveLater.sealed (hticking.sealed hsealed₃) hpassive hsealed',
      hkeepalive⟩
  · rintro ⟨hnone, live', hlive', hneeds⟩
    obtain ⟨live, hlive, -, hserial, -⟩ := hsealed.live live' hlive'
    -- before the keepalives the session had messages left, or a handshake would be in flight
    have hleft : ¬ rekeyAfterMessages ≤ live.session.sendCounter := fun hle =>
      hunspent ⟨hsealed.handshake.symm.trans hnone, live, hlive, decide_eq_true hle⟩
    exact ⟨hnone, live, live', hkept live (hlive₁ ▸ hlive₂ ▸ hlive), hlive', hserial,
      not_le.mp hleft, of_decide_eq_true hneeds⟩

/-! ## Timers -/

theorem rekeyTimeout_of_made {config : PeerConfig} (h : PeerTunnel.Made config t) :
    0 < t.timers.rekeyTimeoutMs := by
  obtain ⟨entropy, h⟩ := h
  obtain ⟨_, -, h⟩ := bind_ok_iff.mp h
  obtain ⟨identity, -, h⟩ := bind_ok_iff.mp h
  have hresolve := resolve_timeout config.settings.timers entropy
  rw [Ends] at hresolve
  split at h
  · cases h
  · next timers entropy' hexec =>
    rw [hexec] at hresolve
    cases h
    exact hresolve timers rfl

theorem rekeyTimeout_of_reach {config : PeerConfig} (h : TunnelReach config t) :
    0 < t.timers.rekeyTimeoutMs := by
  refine reach_of_changes (P := fun t => 0 < t.timers.rekeyTimeoutMs)
    (fun _ => rekeyTimeout_of_made) (fun _ _ t₁ t₂ _ hchange hpos => ?_) h
  rw [(sameConfig_of_change hchange).timers]
  exact hpos

/-- A tick before the deadline does nothing. After a tick the deadline is later,
unless the keepalives of that tick have used up the session's messages: then the
deadline is now, and with the next tick it is later. -/
theorem tick_meets_deadline {config : PeerConfig} (hreach : TunnelReach config t)
    (hstamped : Stamped t nowMs) (hbound : nowMs < 2 ^ 62) (wall : Wall) :
    (NothingDue t nowMs →
      Ends (PeerTunnel.tick nowMs wall) t fun r t' => r = .ok () ∧ Undisturbed t t') ∧
    Ends (PeerTunnel.tick nowMs wall) t fun r t' => r = .ok () →
      NothingDue t' nowMs ∨
        WornOut t t' ∧ t'.nextDeadlineMs = some nowMs ∧
          ∀ wall', Ends (PeerTunnel.tick nowMs wall') t' fun r t'' => r = .ok () →
            NothingDue t'' nowMs := by
  have htimeout := rekeyTimeout_of_reach hreach
  refine ⟨fun hdue => tick_atRest hstamped (by omega) hdue wall, ?_⟩
  refine (tick_settles hstamped htimeout hbound wall).imp fun r t' hsettles hok => ?_
  obtain ⟨hticking, hrest, hworn⟩ := hsettles hok
  have hnow := hticking.now
  by_cases hspent : Spent t'
  · refine .inr ⟨hworn hspent, ?_, fun wall' => ?_⟩
    · rw [← hnow] at hrest ⊢
      exact nextDeadlineMs_of_spent hrest hspent
    · have hstamped' : Stamped t' nowMs := hnow ▸ hticking.stamped
      refine (tick_settles hstamped' hticking.timeout hbound wall').imp fun r t'' hsettles hok => ?_
      obtain ⟨-, hrest'', hworn''⟩ := hsettles hok
      -- the session was spent before this tick, so this tick has started to replace it
      refine nothingDue_iff.mpr ⟨hrest'', fun hspent'' => ?_⟩
      obtain ⟨-, live, -, hlive, -, -, hlt, -⟩ := hworn'' hspent''
      obtain ⟨-, live', hlive', hneeds⟩ := hspent
      cases hlive.symm.trans hlive'
      exact absurd (of_decide_eq_true hneeds) (not_le.mpr hlt)
  · exact .inl (nothingDue_iff.mpr ⟨hrest, fun h => absurd h hspent⟩)

/-! ## Messages without end -/

theorem obfuscateOwned_plain (hamnezia : t.amnezia = {}) {message : Bytes} {kind : UInt8}
    (hkind : AmneziaParams.classify message = .ok kind) :
    (obfuscateOwned message).exec t = (.ok (t.stampReserved message), t) := by
  rw [obfuscateOwned, exec_get_bind, hamnezia, hkind]
  rfl

/-- Without obfuscation nothing is drawn to send an empty packet. -/
theorem sealNow_plain (hciphers : ReliableCiphers) (hamnezia : t.amnezia = {})
    (hkey : t.headerProtectionKey = none) (hlive : t.live = some live)
    (hcounter : live.session.sendCounter < rejectAfterMessages) (ticket : Option Nat) :
    ∃ t', (sealNow ⟨[], ticket⟩).exec t = (.ok .sealed, t') ∧
      t'.live = some { live with session := advanced live.session } ∧ t'.pending = t.pending := by
  have hfits : ∀ n, (none : Option Nat) = some n → ([] : Bytes).length + n < 2 ^ 64 :=
    nofun
  obtain ⟨message, hseal⟩ := sealAs_ok hciphers hcounter hfits
  obtain ⟨zeros, hof, -⟩ := sealAs_message hseal
  have hminimum : (add64 t.amnezia.transportJunkSize.toNat (transportHeaderLen + tagLen)).bind
      (add64 · ([] : Bytes).length) = some 32 := by
    rw [hamnezia]
    decide
  rw [sealNow, exec_get_bind]
  rw [hminimum]
  have hpadding : ∀ (available : Nat) (t' : PeerTunnel ε),
      (contentPadding t.amnezia available).exec t' = (.ok none, t') := by
    rw [hamnezia]
    exact fun _ _ => rfl
  rw [exec_modify_bind, exec_bind_of_exec (hpadding _ _), exec_bind_of_exec (sealLive_ok ?_ hseal),
    exec_bind_of_exec (obfuscateOwned_plain ?_ (classify_message hof)), protectMessage, hkey]
  · exact ⟨_, rfl, rfl, rfl⟩
  · exact hamnezia
  · exact hlive

/-- A keepalive from an empty queue. -/
theorem sendEmpty_plain (hciphers : ReliableCiphers) (hamnezia : t.amnezia = {})
    (hkey : t.headerProtectionKey = none) (hlive : t.live = some live) (hcan : t.canSeal = true)
    (hpending : t.pending = []) :
    ∃ t', sendEmpty.exec t = (.ok (), t') ∧
      t'.live = some { live with session := advanced live.session } := by
  have hcounter : live.session.sendCounter < rejectAfterMessages := by
    rw [canSeal_of_live hlive, Live.canSend, Bool.and_eq_true] at hcan
    exact of_decide_eq_true hcan.2
  rw [sendEmpty, exec_modify_bind, flushPending, exec_get_bind, hpending,
    nil_append, length_singleton, flushLoop, exec_get_bind]
  dsimp only
  rw [if_pos (show canSeal { t with pending := [⟨[], none⟩] } = true from hcan),
    exec_modify_bind]
  obtain ⟨t', hexec, hlive', -⟩ := sealNow_plain (t := { t with pending := [] }) hciphers hamnezia
    hkey hlive hcounter none
  rw [exec_bind_of_exec hexec]
  exact ⟨t', rfl, hlive'⟩

end

namespace DeadlineExample

open TunnelExample

def config : PeerConfig where
  settings :=
    { privateKey := Block.zero 32, peerPublicKey := Block.zero 32, persistentKeepaliveS := some 25 }

def made : Except WireguardError (PeerTunnel (List Bool)) := PeerTunnel.new config []

theorem made_isSome : made.toOption.isSome = true := by decide +kernel

/-- A session that has sent one packet. -/
def begun : PeerTunnel (List Bool) :=
  [PeerTunnel.Action.sendPacket [] 0 wall, .receiveDatagram response 0].foldl PeerTunnel.apply
    (made.toOption.get made_isSome)

theorem begun_reach : TunnelReach config begun :=
  Reach.run (.start ⟨[], eq_ok_get made_isSome⟩) (admissible_any _ _ _)

/-- A tunnel with a session that has sent so many packets, all at time zero. -/
structure Steady (count : Nat) (t : PeerTunnel (List Bool)) : Prop where
  amnezia : t.amnezia = {}
  key : t.headerProtectionKey = none
  interval : t.persistentKeepaliveS = some 25
  timers : t.timers = ⟨5000, 120000, 180000, 10000, 18⟩
  now : t.nowMs = 0
  sent : t.lastSentMs = 0
  live : ∃ live, t.live = some live ∧ live.establishedMs = 0 ∧ live.session.sendCounter = count
  previous : t.previous = none
  handshake : t.handshake = none
  received : t.dataReceivedMs = none
  pending : t.pending = []

theorem begun_steady : Steady 1 begun := by
  refine ⟨by decide +kernel, by decide +kernel, by decide +kernel, by decide +kernel,
    by decide +kernel, by decide +kernel, ?_, by decide +kernel, ?_, by decide +kernel,
    by decide +kernel⟩
  · have hsession : (begun.live.map fun live => (live.establishedMs, live.session.sendCounter)) =
        some (0, 1) := by decide +kernel
    obtain ⟨live, hlive, heq⟩ := map_eq_some_iff.mp hsession
    exact ⟨live, hlive, congrArg Prod.fst heq, congrArg Prod.snd heq⟩
  · have hnone : begun.handshake.isNone = true := by decide +kernel
    exact isNone_iff_eq_none.mp hnone

variable {t : PeerTunnel (List Bool)}

variable (h : Steady count t)

include h

theorem Steady.seals (hcount : count < rejectAfterMessages) (ticket : Option Nat) :
    ∃ t', (sealNow ⟨[], ticket⟩).exec t = (.ok .sealed, t') ∧ Steady (count + 1) t' := by
  obtain ⟨live, hlive, hestablished, rfl⟩ := h.live
  obtain ⟨t', hexec, hlive', hpending⟩ :=
    sealNow_plain RefusalExample.reliableCiphers h.amnezia h.key hlive hcount ticket
  refine ⟨t', hexec, ?_⟩
  have hsealing := sealNow_sealing ⟨[], ticket⟩ t
  have hsent := sealNow_sent ⟨[], ticket⟩ t
  rw [Ends, hexec] at hsealing hsent
  have hsealed := sealed_of_sealing hsealing
  have hconfig := sameConfig_of_changes
    (Relation.ReflTransGen.mono (fun _ _ => Change.sealing) _ _ hsealing :
      Relation.ReflTransGen (Change none) _ _)
  exact
    { amnezia := hconfig.amnezia.trans h.amnezia
      key := hconfig.key.trans h.key
      interval := hconfig.keepalive.trans h.interval
      timers := hconfig.timers.trans h.timers
      now := hsealed.now.trans h.now
      sent := (hsent _ rfl).trans (hsealed.now.trans h.now)
      live := ⟨_, hlive', hestablished, rfl⟩
      previous := hsealed.previous.trans h.previous
      handshake := hsealed.handshake.trans h.handshake
      received := eq_none_iff_forall_ne_some.mpr fun receivedMs heq =>
        Option.some_ne_none _ ((hsealed.received receivedMs heq).symm.trans h.received)
      pending := hpending.trans h.pending }

theorem Steady.stamped (latestMs : Nat) : Stamped t latestMs := by
  refine ⟨by rw [h.now]; exact Nat.zero_le _, by rw [h.sent]; exact Nat.zero_le _, ?_, ?_, ?_⟩
  · intro live hlive
    obtain ⟨live', hlive', hestablished, -⟩ := h.live
    cases hlive.symm.trans hlive'
    rw [hestablished]
    exact Nat.zero_le _
  · exact fun _ heq => nomatch h.previous.symm.trans heq
  · exact fun _ heq => nomatch h.received.symm.trans heq

theorem Steady.young {nowMs : Nat} (hlt : nowMs < 180000) : Young { t with nowMs } := by
  obtain ⟨live, hlive, hestablished, -⟩ := h.live
  rintro live' (hlive' | hprevious)
  · cases hlive.symm.trans hlive'
    show decide (t.timers.rejectAfterTimeMs ≤ nowMs - live.establishedMs) = false
    rw [h.timers, hestablished, decide_eq_false_iff_not]
    show ¬ 180000 ≤ nowMs - 0
    omega
  · cases h.previous.symm.trans hprevious

theorem Steady.canSeal {nowMs : Nat} (hlt : nowMs < 180000) (hcount : count < rejectAfterMessages) :
    canSeal { t with nowMs } = true := by
  obtain ⟨live, hlive, -, hcounter⟩ := h.live
  have hyoung := h.young hlt live (.inl hlive)
  rw [canSeal_of_live (show PeerTunnel.live { t with nowMs } = some live from hlive), Live.canSend,
    hyoung, TransportSession.canSend, hcounter, decide_eq_true hcount]
  rfl

theorem Steady.sends (hcount : count < rejectAfterMessages) :
    Steady (count + 1) (t.apply (.sendPacket [] 0 wall)) := by
  have hnow : ({ t with nowMs := 0 } : PeerTunnel (List Bool)) = t := by rw [← h.now]
  have hcan := h.canSeal (show 0 < 180000 by decide) hcount
  have henter := entered_of_young (h.young (show 0 < 180000 by decide))
  rw [hnow] at hcan henter
  have hlog : Steady count { t with log := t.log ++ [.accepted []] } := { h with }
  obtain ⟨t', hexec, hsteady⟩ := hlog.seals hcount (some (accepted t.log).length)
  show Steady (count + 1) ((sendPacket [] 0 wall).exec t).2
  rw [sendPacket, enter, exec_modify_bind]
  show Steady (count + 1) (exec _ (entered t 0)).2
  have hready : (t.pending.isEmpty && t.canSeal) = true := by
    rw [h.pending, hcan]
    rfl
  rw [henter, exec_get_bind, exec_modify_bind, if_pos hready, hexec]
  exact hsteady

omit h in
theorem exists_steady (count : Nat) (hpos : 1 ≤ count) (hcount : count ≤ rejectAfterMessages) :
    ∃ t, TunnelReach config t ∧ Steady count t := by
  induction count, hpos using Nat.le_induction with
  | base => exact ⟨begun, begun_reach, begun_steady⟩
  | succ count _ ih =>
    obtain ⟨t, hreach, hsteady⟩ := ih (by omega)
    exact ⟨_, .step hreach trivial, hsteady.sends hcount⟩

omit h in
/-- The keepalive is the last message before the session has to be replaced. -/
theorem Steady.ticks (h : Steady (rekeyAfterMessages - 1) t) :
    Ends (tick 25000 wall) t fun r t' => r = .ok () ∧ Spent t' := by
  obtain ⟨live, hlive, hestablished, hcounter⟩ := h.live
  have hcan := h.canSeal (show 25000 < 180000 by decide) (by decide)
  have hretry : RetryLater { t with nowMs := 25000 } := fun _ hflight =>
    nomatch h.handshake.symm.trans hflight
  have hrekey : RekeyLater { t with nowMs := 25000 } := by
    intro _ live' hlive'
    cases hlive.symm.trans hlive'
    dsimp only
    rw [hestablished, h.timers]
    decide
  have hunspent : ¬ Spent { t with nowMs := 25000 } := by
    rintro ⟨-, live', hlive', hneeds⟩
    cases hlive.symm.trans hlive'
    rw [TransportSession.needsRekey, hcounter] at hneeds
    exact absurd hneeds (by decide)
  have hpassive : PassiveLater { t with nowMs := 25000 } := fun _ _ hreceived =>
    nomatch h.received.symm.trans hreceived
  obtain ⟨received, hexec⟩ := sendPassiveKeepaliveIfDue_later hpassive
  rw [tick, enter, ends_modify_bind]
  show Ends _ (entered t 25000) _
  rw [entered_of_young (h.young (by decide)),
    ends_bind_of_exec (retryHandshakeIfDue_later hretry wall),
    ends_bind_of_exec (rekeyIfDue_later hrekey hunspent wall), ends_bind_of_exec hexec]
  refine ends_sendKeepaliveIfDue (fun hlater => ?_) fun _ _ => ?_
  · have hlt := hlater hcan 25 h.interval (by decide)
    dsimp only at hlt
    rw [h.sent] at hlt
    exact absurd hlt (by decide)
  · have hsealing := sendEmpty_sealing { t with nowMs := 25000, dataReceivedMs := received }
    obtain ⟨t', hexec, hlive'⟩ := sendEmpty_plain
      (t := { t with nowMs := 25000, dataReceivedMs := received }) RefusalExample.reliableCiphers
      h.amnezia h.key hlive hcan h.pending
    rw [Ends, hexec] at hsealing ⊢
    refine ⟨rfl, (sealed_of_sealing hsealing).handshake.trans h.handshake, _, hlive', ?_⟩
    show decide (rekeyAfterMessages ≤ live.session.sendCounter + 1) = true
    rw [hcounter]
    decide

theorem Steady.deadline (hcount : count < rekeyAfterMessages) : t.nextDeadlineMs = some 25000 := by
  obtain ⟨live, hlive, hestablished, rfl⟩ := h.live
  have hlarge : rekeyAfterMessages ≤ rejectAfterMessages := by decide
  have hneeds : live.session.needsRekey = false :=
    decide_eq_false_iff_not.mpr (not_le.mpr hcount)
  have hcan : live.canSend 0 180000 = true := by
    have hsend : live.session.canSend = true := decide_eq_true (lt_of_lt_of_le hcount hlarge)
    rw [Live.canSend, Live.isExpired, hestablished, hsend]
    rfl
  rw [nextDeadlineMs, deadlines, h.handshake, hlive, h.previous, h.received,
    h.interval, h.timers, h.now, h.sent]
  dsimp only [Option.elim]
  rw [hneeds, hcan, hestablished]
  decide

end DeadlineExample

open TunnelExample DeadlineExample in
/-- A keepalive is due at 25 seconds and not before. -/
theorem first_keepalive_at_deadline :
    begun.nextDeadlineMs = some 25000 ∧
    (Ends (PeerTunnel.tick 24999 wall) begun fun r t' => r = .ok () ∧ Undisturbed begun t') ∧
    ((PeerTunnel.tick 25000 wall).exec begun).1 = .ok () ∧
    NothingDue ((PeerTunnel.tick 25000 wall).exec begun).2 25000 := by
  have hdeadline : begun.nextDeadlineMs = some 25000 := by decide +kernel
  have hdue : NothingDue begun 24999 := fun deadlineMs h => by
    cases hdeadline.symm.trans h
    decide
  have hok : ((PeerTunnel.tick 25000 wall).exec begun).1 = .ok () := by decide +kernel
  have hcounter : (((PeerTunnel.tick 25000 wall).exec begun).2.live.map (·.session.sendCounter)) =
      some 2 := by decide +kernel
  have hmet := tick_meets_deadline begun_reach (begun_steady.stamped 24999) (by decide) wall
  refine ⟨hdeadline, hmet.1 hdue, hok, ?_⟩
  obtain hlater | ⟨⟨-, live, live', -, hlive', -, -, hworn⟩, -⟩ :=
    (tick_meets_deadline begun_reach (begun_steady.stamped 25000) (by decide) wall).2 hok
  · exact hlater
  · rw [hlive', map_some, Option.some.injEq] at hcounter
    rw [hcounter] at hworn
    exact absurd hworn (by decide)

open TunnelExample DeadlineExample in
/-- The tunnel wants to be called again at the time it has just been called. -/
theorem keepalive_leaves_deadline_due :
    ∃ t : PeerTunnel (List Bool), TunnelReach DeadlineExample.config t ∧ Stamped t 25000 ∧
      t.nextDeadlineMs = some 25000 ∧ Ends (PeerTunnel.tick 25000 wall) t fun r t' =>
        r = .ok () ∧ t'.nextDeadlineMs = some 25000 := by
  obtain ⟨t, hreach, hsteady⟩ := exists_steady (rekeyAfterMessages - 1) (by decide) (by decide)
  have hstamped := hsteady.stamped 25000
  refine ⟨t, hreach, hstamped, hsteady.deadline (by decide), ?_⟩
  refine (hsteady.ticks.and (tick_settles hstamped (rekeyTimeout_of_reach hreach) (by decide)
    wall)).imp ?_
  rintro _ t' ⟨⟨rfl, hspent⟩, hsettles⟩
  obtain ⟨hticking, hrest, -⟩ := hsettles rfl
  refine ⟨rfl, ?_⟩
  rw [← hticking.now] at hrest ⊢
  exact nextDeadlineMs_of_spent hrest hspent

end Foxcore.Proofs
