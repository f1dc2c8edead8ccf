import Foxcore.Spec.Link

/-!
# What every run of a link keeps

Two invariants. `Keyed` is about keys: the counter of the session in use is above
all the counters its messages carry. `Queueing` is about packets: what was
queued, followed by what waits, comes from the packets handed in, in order. It
also bounds the queue. There the bound is one lower while a packet may be
sealed, which leaves room for the empty packets that join the queue unasked.
-/

namespace Foxcore.Proofs

open Lib Ref Ref.Wireguard Spec List Option

variable {l l' : Link} {held : Held} {ok : Bool} {packet : Bytes}
  (log : List Event) (event : Event)

/-! ## Reading a history -/

@[simp] theorem accepted_concat :
    accepted (log ++ [event]) =
      accepted log ++ match event with | .accepted packet => [packet] | _ => [] := by
  cases event <;> simp [accepted]

@[simp] theorem established_concat :
    established (log ++ [event]) =
      established log ++ match event with | .established atMs => [atMs] | _ => [] := by
  cases event <;> simp [established]

@[simp] theorem seals_concat :
    seals (log ++ [event]) =
      seals log ++
        match event with | .sealed serial message _ _ => [(serial, message)] | _ => [] := by
  cases event <;> simp [seals]

@[simp] theorem sealedPackets_concat :
    sealedPackets (log ++ [event]) =
      sealedPackets log ++ match event with | .sealed _ _ held _ => [held] | _ => [] := by
  cases event <;> simp [sealedPackets]

@[simp] theorem queued_concat :
    queued (log ++ [event]) =
      queued log ++ match event with | .queued held _ => [held] | _ => [] := by
  cases event <;> simp [queued]

/-! ## Keys -/

@[simp] theorem next_serial (key : SessionKey) : key.next.serial = key.serial := rfl
@[simp] theorem next_sinceMs (key : SessionKey) : key.next.sinceMs = key.sinceMs := rfl
@[simp] theorem next_counter (key : SessionKey) : key.next.counter = key.counter + 1 := rfl

structure Keyed (l : Link) : Prop where
  log : Throughout (RightfulUse l.rejectAfterMs) l.log
  newest : ∀ key, l.live = some key → (established l.log).length = key.serial + 1
  live : ∀ key, l.live = some key → (established l.log)[key.serial]? = some key.sinceMs
  previous : ∀ key, l.previous = some key → (established l.log)[key.serial]? = some key.sinceMs
  known : ∀ made ∈ seals l.log, made.1 < (established l.log).length
  used : ∀ key, l.live = some key → ∀ made ∈ seals l.log, made.1 = key.serial →
    ∃ counter < key.counter, counterOf made.2 = some counter

section

variable (h : Keyed l)

include h

/-- The queues have no part in it. -/
theorem Keyed.queues (pending : List Held) (transmit : List Outgoing) :
    Keyed { l with pending, transmit } :=
  ⟨h.log, h.newest, h.live, h.previous, h.known, h.used⟩

/-- An entry that is neither a session nor a message. -/
theorem Keyed.concat (event : Event) (hrightful : RightfulUse l.rejectAfterMs l.log event)
    (hestablished : established (l.log ++ [event]) = established l.log)
    (hseals : seals (l.log ++ [event]) = seals l.log) :
    Keyed { l with log := l.log ++ [event] } where
  log := throughout_concat.mpr ⟨h.log, hrightful⟩
  newest := hestablished ▸ h.newest
  live := hestablished ▸ h.live
  previous := hestablished ▸ h.previous
  known := hestablished ▸ hseals ▸ h.known
  used := hseals ▸ h.used

/-- The counter of the session in use advances. -/
theorem Keyed.advance {key : SessionKey} (hlive : l.live = some key) :
    Keyed { l with live := some key.next } where
  log := h.log
  newest := by
    rintro _ ⟨⟩
    exact h.newest key hlive
  live := by
    rintro _ ⟨⟩
    exact h.live key hlive
  previous := h.previous
  known := h.known
  used := by
    rintro _ ⟨⟩ made hmade hserial
    obtain ⟨counter, hcounter, heq⟩ := h.used key hlive made hmade hserial
    exact ⟨counter, Nat.lt_succ_of_lt hcounter, heq⟩

/-- A message is made under the session in use. -/
theorem Keyed.message {key : SessionKey} (hlive : l.live = some key) (hyoung : l.Young key)
    (hlimit : key.counter < rejectAfterMessages) {message : Bytes}
    (hmessage : counterOf message = some key.counter) (held : Held) :
    Keyed { l with live := some key.next
                   log := l.log ++ [.sealed key.serial message held l.nowMs] } where
  log := by
    refine throughout_concat.mpr ⟨h.log, h.newest key hlive, ?_, key.counter, hlimit, hmessage, ?_⟩
    · exact ⟨key.sinceMs, h.live key hlive, hyoung⟩
    · intro earlier hearlier hserial heq
      obtain ⟨counter, hcounter, hused⟩ := h.used key hlive earlier hearlier hserial
      rw [hused, some.injEq] at heq
      omega
  newest := by
    simpa using h.newest key hlive
  live := by
    simpa using h.live key hlive
  previous := by simpa using h.previous
  known := by
    intro made hmade
    have hnew := h.newest key hlive
    simp only [seals_concat, established_concat, append_nil, mem_append,
      mem_singleton] at hmade ⊢
    rcases hmade with hmade | rfl
    · exact h.known made hmade
    · omega
  used := by
    rintro _ ⟨⟩ made hmade hserial
    simp only [seals_concat, mem_append, mem_singleton] at hmade
    rcases hmade with hmade | rfl
    · obtain ⟨counter, hcounter, heq⟩ := h.used key hlive made hmade hserial
      exact ⟨counter, Nat.lt_succ_of_lt hcounter, heq⟩
    · exact ⟨key.counter, Nat.lt_succ_self _, hmessage⟩

theorem Keyed.seals (hcan : l.CanSeal) (hstep : l.Seals held ok l') : Keyed l' := by
  obtain ⟨key, hlive, hyoung, hlimit⟩ := hcan
  cases hstep with
  | refused => exact h
  | spoiled hkey => exact h.advance hkey
  | lost hkey hmessage =>
    cases hlive.symm.trans hkey
    exact h.message hlive hyoung hlimit hmessage held
  | @queued _ message outgoing hkey hmessage =>
    cases hlive.symm.trans hkey
    have hlog := (h.message hlive hyoung hlimit hmessage held).concat (.queued held outgoing)
      trivial (by simp only [established_concat, append_nil])
      (by simp only [seals_concat, append_nil])
    exact hlog.queues l.pending (l.transmit ++ [outgoing])

omit h in
/-- Sealing changes neither the clock nor which sessions there are. -/
theorem Seals.frame (h : l.Seals held ok l') :
    l'.nowMs = l.nowMs ∧ l'.rejectAfterMs = l.rejectAfterMs ∧ l'.previous = l.previous ∧
      l'.pending = l.pending ∧
      ∀ key', l'.live = some key' → ∃ key, l.live = some key ∧ key'.serial = key.serial ∧
        key'.sinceMs = key.sinceMs ∧ key.counter ≤ key'.counter := by
  cases h with
  | refused => exact ⟨rfl, rfl, rfl, rfl, fun key' h => ⟨key', h, rfl, rfl, Nat.le_refl _⟩⟩
  | spoiled hkey | lost hkey _ | queued hkey _ =>
    refine ⟨rfl, rfl, rfl, rfl, ?_⟩
    rintro _ ⟨⟩
    exact ⟨_, hkey, rfl, rfl, Nat.le_succ _⟩

omit h in
/-- What sealing the first packet of the queue keeps, a flush keeps. -/
theorem Flushed.keeps {P : Link → Prop}
    (hseals : ∀ {l held rest ok l'}, l.CanSeal → P l →
      Link.Seals { l with pending := rest } held ok l' → P l')
    (h : P l) (hflush : l.Flushed ok l') : P l' := by
  induction hflush with
  | stop => exact h
  | fail hcan _ hseal => exact hseals hcan h hseal
  | next hcan _ hseal _ ih => exact ih (hseals hcan h hseal)

theorem Keyed.flushed (hflush : l.Flushed ok l') : Keyed l' :=
  Flushed.keeps (fun {l _ rest _ _} hcan h hseal => (h.queues rest l.transmit).seals hcan hseal)
    h hflush

theorem Keyed.enter (nowMs : Nat) : Keyed (l.enter nowMs) where
  log := h.log
  newest := fun key hkey => h.newest key (filter_eq_some_iff.mp hkey).1
  live := fun key hkey => h.live key (filter_eq_some_iff.mp hkey).1
  previous := fun key hkey => h.previous key (filter_eq_some_iff.mp hkey).1
  known := h.known
  used := fun key hkey => h.used key (filter_eq_some_iff.mp hkey).1

theorem Keyed.accept (packet : Bytes) : Keyed (l.accept packet) :=
  (h.concat (.accepted packet) trivial (by simp) (by simp)).queues _ l.transmit

omit h in
theorem getElem?_concat_of_eq_some {xs : List Nat} {i x y : Nat} (h : xs[i]? = some x) :
    (xs ++ [y])[i]? = some x := by
  rw [getElem?_append_left (List.getElem?_eq_some_iff.mp h).1]
  exact h

theorem Keyed.establish : Keyed l.establish where
  log := throughout_concat.mpr ⟨h.log, trivial⟩
  newest := by
    simp [Link.establish]
  live := by
    simp [Link.establish]
  previous := by
    intro key hkey
    simp only [Link.establish, established_concat]
    exact getElem?_concat_of_eq_some (h.live key hkey)
  known := by
    intro made hmade
    simp only [Link.establish, seals_concat, established_concat, append_nil,
      length_append] at hmade ⊢
    exact Nat.lt_add_right _ (h.known made hmade)
  used := by
    -- no message carries the new serial number yet
    rintro _ ⟨⟩ made hmade hserial
    simp only [Link.establish, seals_concat, append_nil] at hmade
    exact absurd hserial (Nat.ne_of_lt (h.known made hmade))

theorem Keyed.step (hstep : l.Step l') : Keyed l' := by
  cases hstep with
  | enter nowMs => exact h.enter nowMs
  | send _ hflush => exact (h.accept _).flushed hflush
  | hold packet => exact h.accept packet
  | keepalive _ hflush => exact (h.queues _ l.transmit).flushed hflush
  | establish hflush => exact h.establish.flushed hflush
  | abandon => exact h.queues [] l.transmit
  | emit => exact h.queues l.pending _
  | @deliver key packet hkey hyoung =>
    have hsince : (established l.log)[key.serial]? = some key.sinceMs :=
      hkey.elim (h.live key) (h.previous key)
    exact h.concat _ ⟨key.sinceMs, hsince, hyoung⟩ (by simp) (by simp)
  | poll => exact h.queues l.pending _

theorem Keyed.steps (hsteps : l.Steps l') : Keyed l' := by
  induction hsteps with
  | refl => exact h
  | tail _ hstep ih => exact ih.step hstep

end

/-! ## Packets -/

/-- What holds of the packets at every moment, also while some are being sealed. -/
structure Waiting (l : Link) : Prop where
  order : (filled (sealedPackets l.log ++ l.pending)).Sublist (ticketed (accepted l.log))
  queued : (queued l.log).Sublist (sealedPackets l.log)
  young : ∀ key, l.live = some key → 0 < l.rejectAfterMs → l.Young key
  bound : l.pending.length ≤ maxPendingPackets

/-- While a packet may be sealed the queue is not full. -/
def HasRoom (l : Link) : Prop :=
  ∀ key, l.live = some key → key.counter < rejectAfterMessages → 0 < l.rejectAfterMs →
    l.pending.length < maxPendingPackets

structure Queueing (l : Link) : Prop extends Waiting l where
  room : HasRoom l

theorem HasRoom.of_canSeal (h : HasRoom l) (hcan : l.CanSeal) :
    l.pending.length < maxPendingPackets := by
  obtain ⟨key, hlive, hyoung, hlimit⟩ := hcan
  exact h key hlive hlimit (Nat.zero_lt_of_lt hyoung)

theorem hasRoom_of_not_canSeal (h : Waiting l) (hcan : ¬ l.CanSeal) : HasRoom l :=
  fun key hlive hlimit hpos => absurd ⟨key, hlive, h.young key hlive hpos, hlimit⟩ hcan

theorem accepted_seals (h : l.Seals held ok l') : accepted l'.log = accepted l.log := by
  cases h <;> simp only [accepted_concat, append_nil]

/-- At most the packet itself is sealed, and queued only when it is sealed. -/
theorem packets_seals (h : l.Seals held ok l') :
    ∃ made sent : List Held, made.Sublist [held] ∧ sent.Sublist made ∧
      sealedPackets l'.log = sealedPackets l.log ++ made ∧
      queued l'.log = queued l.log ++ sent := by
  cases h with
  | refused | spoiled _ => exact ⟨[], [], by simp, by simp, by simp, by simp⟩
  | lost => exact ⟨[held], [], .refl _, by simp, by simp, by simp⟩
  | queued =>
    refine ⟨[held], [held], .refl _, .refl _, ?_, ?_⟩
    · simp only [sealedPackets_concat, append_nil]
    · simp only [queued_concat, append_nil]

/-- The first packet leaves the queue, whether its sealing succeeds or not. -/
theorem Waiting.seals {rest : List Held} (h : Waiting l) (hpending : l.pending = held :: rest)
    (hstep : Link.Seals { l with pending := rest } held ok l') :
    Waiting l' ∧ l'.pending = rest := by
  obtain ⟨hnow, hreject, _, hrest, hlive⟩ := Seals.frame hstep
  have hbound := h.bound
  have horder := h.order
  rw [hpending] at hbound
  rw [hpending] at horder
  obtain ⟨made, sent, hmade, hsent, hsealed, hqueued⟩ := packets_seals hstep
  refine ⟨⟨?_, ?_, ?_, ?_⟩, hrest⟩
  · rw [accepted_seals hstep, hsealed, hrest]
    refine Sublist.trans (Sublist.filter _ ?_) horder
    rw [append_assoc]
    exact Sublist.append_left (Sublist.append_right hmade rest) _
  · rw [hsealed, hqueued]
    exact Sublist.append h.queued hsent
  · intro key' hkey' hpos
    obtain ⟨key, hkey, _, hsince, _⟩ := hlive key' hkey'
    rw [hreject] at hpos
    have := h.young key hkey hpos
    simp only [Link.Young, hnow, hreject, hsince] at this ⊢
    exact this
  · rw [hrest]
    exact Nat.le_of_succ_le hbound

theorem Waiting.flushed (h : Waiting l) (hflush : l.Flushed ok l') : Queueing l' := by
  induction hflush with
  | @stop l hstop =>
    refine ⟨h, ?_⟩
    rcases hstop with hnil | hcan
    · intro _ _ _ _
      rw [hnil]
      decide
    · exact hasRoom_of_not_canSeal h hcan
  | fail hcan hpending hseal =>
    obtain ⟨hwait, hrest⟩ := h.seals hpending hseal
    refine ⟨hwait, fun _ _ _ _ => ?_⟩
    have hbound := h.bound
    rw [hpending] at hbound
    rw [hrest]
    exact hbound
  | next hcan hpending hseal _ ih => exact ih (h.seals hpending hseal).1

theorem ticketed_concat (packets : List Bytes) (packet : Bytes) :
    ticketed (packets ++ [packet]) = ticketed packets ++ [⟨packet, some packets.length⟩] := by
  simp [ticketed, zipIdx_append]

theorem filled_append (xs ys : List Held) : filled (xs ++ ys) = filled xs ++ filled ys :=
  filter_append ..

/-- A packet joins the queue when there is room for it or one is displaced. -/
theorem Waiting.accept (h : Waiting l) (packet : Bytes) : Waiting (l.accept packet) where
  order := by
    simp only [Link.accept, sealedPackets_concat, accepted_concat, append_nil, ticketed_concat]
    rw [← append_assoc, filled_append]
    refine Sublist.append ?_ filter_sublist
    refine Sublist.trans (Sublist.filter _ ?_) h.order
    split
    · exact Sublist.append_left (tail_sublist _) _
    · exact Sublist.refl _
  queued := by simpa [Link.accept] using h.queued
  young := h.young
  bound := by
    have hbound := h.bound
    simp only [Link.accept, length_append, length_singleton]
    split
    · next hfull => rw [length_tail, hfull]; decide
    · next hfull => omega

theorem Waiting.keepalive (h : Queueing l) (hcan : l.CanSeal) :
    Waiting { l with pending := l.pending ++ [⟨[], none⟩] } where
  order := by
    simpa [filled] using h.order
  queued := h.queued
  young := h.young
  bound := by
    have hroom := h.room.of_canSeal hcan
    rw [length_append]
    exact hroom

theorem Waiting.establish (h : Waiting l) : Waiting l.establish where
  order := by simpa [Link.establish] using h.order
  queued := by simpa [Link.establish] using h.queued
  young := by
    rintro _ ⟨⟩ hpos
    simpa [Link.Young, Link.establish] using hpos
  bound := h.bound

theorem Queueing.enter (h : Queueing l) (nowMs : Nat) : Queueing (l.enter nowMs) where
  order := h.order
  queued := h.queued
  young := by
    intro key hkey _
    show nowMs - key.sinceMs < l.rejectAfterMs
    exact of_decide_eq_true (filter_eq_some_iff.mp hkey).2
  bound := h.bound
  room := fun key hkey => h.room key (filter_eq_some_iff.mp hkey).1

theorem Queueing.step (h : Queueing l) (hstep : l.Step l') : Queueing l' := by
  cases hstep with
  | enter nowMs => exact h.enter nowMs
  | send _ hflush => exact (h.toWaiting.accept _).flushed hflush
  | hold packet hcan =>
    exact ⟨h.toWaiting.accept packet, hasRoom_of_not_canSeal (h.toWaiting.accept packet) hcan⟩
  | keepalive hcan hflush => exact (Waiting.keepalive h hcan).flushed hflush
  | establish hflush => exact h.toWaiting.establish.flushed hflush
  | abandon =>
    refine ⟨⟨?_, h.queued, h.young, Nat.zero_le _⟩,
      fun _ _ _ _ => (by decide : 0 < maxPendingPackets)⟩
    refine Sublist.trans (Sublist.filter _ ?_) h.order
    exact Sublist.append_left (nil_sublist _) _
  | emit => exact ⟨⟨h.order, h.queued, h.young, h.bound⟩, h.room⟩
  | deliver =>
    exact ⟨⟨by simpa using h.order, by simpa using h.queued, h.young, h.bound⟩, h.room⟩
  | poll => exact ⟨⟨h.order, h.queued, h.young, h.bound⟩, h.room⟩

theorem Queueing.steps (h : Queueing l) (hsteps : l.Steps l') : Queueing l' := by
  induction hsteps with
  | refl => exact h
  | tail _ hstep ih => exact ih.step hstep

/-- No two packets that were handed in are the same. -/
theorem ticketed_nodup (packets : List Bytes) : (ticketed packets).Nodup := by
  have htickets : (ticketed packets).map Held.ticket = (List.range' 0 packets.length).map some := by
    rw [← zipIdx_map_snd 0 packets, ticketed, List.map_map, List.map_map]
    rfl
  refine List.Nodup.of_map Held.ticket ?_
  rw [htickets]
  exact List.Nodup.map (some_injective _) nodup_range'

theorem Waiting.inOrder (h : Waiting l) : PacketsInOrder l.log := by
  have hsealed : (filled (sealedPackets l.log)).Sublist (ticketed (accepted l.log)) :=
    (Sublist.filter _ (sublist_append_left _ _)).trans h.order
  exact ⟨hsealed, (ticketed_nodup _).sublist hsealed, h.queued⟩

/-! ## A flush that succeeds -/

/-- What is left waiting is the end of what waited. -/
theorem Flushed.pending_suffix (h : l.Flushed ok l') : l'.pending <:+ l.pending := by
  induction h with
  | stop => exact suffix_refl _
  | fail _ hpending hseal =>
    rw [(Seals.frame hseal).2.2.2.1, hpending]
    exact suffix_cons _ _
  | next _ hpending hseal _ ih =>
    rw [(Seals.frame hseal).2.2.2.1] at ih
    rw [hpending]
    exact ih.trans (suffix_cons _ _)

/-- A datagram with the packet was queued and is still to be sent. -/
def ToBeSent (l : Link) (held : Held) : Prop :=
  ∃ outgoing ∈ l.transmit, Event.queued held outgoing ∈ l.log

theorem ToBeSent.seals {other : Held} (h : ToBeSent l held) (hstep : l.Seals other ok l') :
    ToBeSent l' held := by
  obtain ⟨outgoing, htransmit, hlog⟩ := h
  cases hstep with
  | refused | spoiled _ => exact ⟨outgoing, htransmit, hlog⟩
  | lost => exact ⟨outgoing, htransmit, mem_append_left _ hlog⟩
  | queued =>
    exact ⟨outgoing, mem_append_left _ htransmit,
      mem_append_left _ (mem_append_left _ hlog)⟩

theorem ToBeSent.flushed (h : ToBeSent l held) (hflush : l.Flushed ok l') : ToBeSent l' held :=
  Flushed.keeps (fun {l _ rest _ _} _ h hseal =>
    ToBeSent.seals (show ToBeSent { l with pending := rest } held from h) hseal) h hflush

theorem toBeSent_of_seals (h : l.Seals held true l') : ToBeSent l' held := by
  cases h with
  | queued => exact ⟨_, mem_concat_self, mem_concat_self⟩

/-- When nothing is left waiting, every packet that waited is to be sent. -/
theorem toBeSent_of_flushed (h : l.Flushed true l') (hnil : l'.pending = []) :
    ∀ held ∈ l.pending, ToBeSent l' held := by
  generalize hok : true = ok at h
  induction h with
  | stop =>
    rw [hnil]
    exact nofun
  | fail => cases hok
  | next _ hpending hseal hflush ih =>
    subst hok
    rw [hpending]
    refine forall_mem_cons.mpr ⟨(toBeSent_of_seals hseal).flushed hflush, ?_⟩
    rw [(Seals.frame hseal).2.2.2.1] at ih
    exact ih hnil rfl

/-! ## Sending -/

/-- A packet that is sealed at once has been through the queue as far as a link goes. -/
theorem flushed_accept (hcan : l.CanSeal) (hpending : l.pending = [])
    (h : Link.Seals { l with log := l.log ++ [.accepted packet] }
      ⟨packet, some (accepted l.log).length⟩ ok l') : (l.accept packet).Flushed ok l' := by
  have hqueue : (l.accept packet).pending = [⟨packet, some (accepted l.log).length⟩] := by
    simp [Link.accept, hpending]
  have hbefore : { l.accept packet with pending := [] } =
      { l with log := l.log ++ [.accepted packet] } := by
    rw [← hpending]
    rfl
  rw [← hbefore] at h
  cases ok with
  | false => exact .fail hcan hqueue h
  | true => exact .next hcan hqueue h (.stop (.inl (Seals.frame h).2.2.2.1))

theorem Flushed.canSeal (h : l.Flushed false l') : l.CanSeal := by
  cases h with
  | fail hcan | next hcan => exact hcan

theorem Flushed.eq_of_not_canSeal (h : l.Flushed ok l') (hcan : ¬ l.CanSeal) :
    l' = l ∧ ok = true := by
  cases h with
  | stop => exact ⟨rfl, rfl⟩
  | fail hcan' | next hcan' => exact absurd hcan' hcan

/-- Sealing what waits is all that is done with a packet that joined the queue. -/
theorem sent_of_flushed {r : Except WireguardError Queued}
    (hflush : (l.accept packet).Flushed r.isOk l') (hanswer : ∀ answer, r = .ok answer →
      ∃ displaced, answer = PeerTunnel.queuedAs l'.pending displaced) : l.Sent packet r l' := by
  by_cases hcan : l.CanSeal
  · exact .flushed hcan hflush hanswer
  · obtain ⟨rfl, -⟩ := Flushed.eq_of_not_canSeal hflush hcan
    have hsent := Link.Sent.held [] hcan hanswer
    rw [append_nil] at hsent
    exact hsent

theorem Sent.steps {r : Except WireguardError Queued} (h : l.Sent packet r l') : l.Steps l' := by
  cases h with
  | flushed hcan hflush => exact .single (.send hcan hflush)
  | held outgoing hcan => exact .tail (.single (.hold packet hcan)) (.emit outgoing)

theorem queuedAs_sealed_iff {pending : List Held} {displaced : Bool} :
    PeerTunnel.queuedAs pending displaced = .sealed ↔ pending = [] := by
  cases pending <;> cases displaced <;> simp [PeerTunnel.queuedAs]

theorem mem_accept_pending (l : Link) (packet : Bytes) :
    ⟨packet, some (accepted l.log).length⟩ ∈ (l.accept packet).pending := mem_concat_self

/-- The answer `sealed`: the packet is to be sent. -/
theorem Sent.sealed (h : l.Sent packet (.ok .sealed) l') :
    ToBeSent l' ⟨packet, some (accepted l.log).length⟩ := by
  cases h with
  | flushed _ hflush hanswer =>
    obtain ⟨displaced, hqueued⟩ := hanswer _ rfl
    have hnil := queuedAs_sealed_iff.mp hqueued.symm
    exact toBeSent_of_flushed hflush hnil _ (mem_accept_pending l packet)
  | held outgoing _ hanswer =>
    -- the packet itself is in the queue
    obtain ⟨displaced, hqueued⟩ := hanswer _ rfl
    have hnil := queuedAs_sealed_iff.mp hqueued.symm
    have hmem := mem_accept_pending l packet
    rw [hnil] at hmem
    exact nomatch hmem

/-- Any other answer: the packet waits. -/
theorem Sent.waits {answer : Queued} (h : l.Sent packet (.ok answer) l')
    (hanswer : answer ≠ .sealed) : ⟨packet, some (accepted l.log).length⟩ ∈ l'.pending := by
  cases h with
  | flushed _ hflush hqueued =>
    obtain ⟨displaced, rfl⟩ := hqueued _ rfl
    have hsome : l'.pending ≠ [] := fun hnil => hanswer (queuedAs_sealed_iff.mpr hnil)
    -- a nonempty end of the queue has its last packet
    obtain ⟨before, hbefore⟩ := Flushed.pending_suffix hflush
    have hlast := congrArg List.getLast? hbefore
    simp only [Link.accept, getLast?_append, getLast?_singleton, some_or] at hlast
    cases hpending : l'.pending.getLast? with
    | none => exact absurd (getLast?_eq_none_iff.mp hpending) hsome
    | some =>
      rw [hpending, some_or, some.injEq] at hlast
      rw [← hlast]
      exact mem_of_getLast? hpending
  | held => exact mem_accept_pending l packet

/-! ## Sessions that are not too old -/

/-- No session is too old. -/
def AllYoung (l : Link) : Prop := ∀ key, l.live = some key ∨ l.previous = some key → l.Young key

theorem allYoung_enter (l : Link) (nowMs : Nat) : AllYoung (l.enter nowMs) := by
  intro key hkey
  show nowMs - key.sinceMs < l.rejectAfterMs
  rcases hkey with hkey | hkey <;> exact of_decide_eq_true (filter_eq_some_iff.mp hkey).2

theorem AllYoung.seals (h : AllYoung l) (hstep : l.Seals held ok l') : AllYoung l' := by
  obtain ⟨hnow, hreject, hprevious, _, hlive⟩ := Seals.frame hstep
  intro key hkey
  rw [Link.Young, hnow, hreject]
  rcases hkey with hkey | hkey
  · obtain ⟨old, hold, _, hsince, _⟩ := hlive key hkey
    rw [hsince]
    exact h old (.inl hold)
  · rw [hprevious] at hkey
    exact h key (.inr hkey)

theorem AllYoung.flushed (h : AllYoung l) (hflush : l.Flushed ok l') : AllYoung l' :=
  Flushed.keeps (fun {l _ rest _ _} _ h hseal =>
    AllYoung.seals (show AllYoung { l with pending := rest } from h) hseal) h hflush

/-- A new session that could seal is not too old. -/
theorem AllYoung.establish (h : AllYoung l) (hcan : l.establish.CanSeal) :
    AllYoung l.establish := by
  rintro key (hkey | hkey)
  · obtain ⟨other, hother, hyoung, _⟩ := hcan
    cases hkey.symm.trans hother
    exact hyoung
  · exact h key (.inl hkey)

end Foxcore.Proofs
