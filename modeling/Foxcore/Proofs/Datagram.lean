import Foxcore.Spec.Datagram

/-!
# Datagrams through a byte stream

A read of no bytes is the end of the stream, and a write of no bytes is never made. With no
empty payload in either direction each payload is read whole by one call and written by one
call, and the flow is only left from outside.
-/

namespace Foxcore.Proofs.Datagram

open Lib Ref.Netstack Ref.Datagram Spec.Datagram List DatagramFlow World

variable {payload : List UInt8}

/-! ## What never changes about a flow -/

/-- Two states of one flow. -/
structure SameFlow (flow flow' : DatagramFlow) : Prop where
  src : flow'.srcAddr = flow.srcAddr
  dst : flow'.dstAddr = flow.dstAddr
  mtu : flow'.mtu = flow.mtu

variable {flow flow' : DatagramFlow} {w : World}

theorem SameFlow.maxPayload (h : SameFlow flow flow') : flow'.maxPayload = flow.maxPayload := by
  simp only [DatagramFlow.maxPayload, h.dst, h.mtu]

theorem SameFlow.answer (h : SameFlow flow flow') (payload : List UInt8) :
    answer flow' payload = answer flow payload := by
  simp only [Spec.Datagram.answer, h.dst, h.src]

theorem SameFlow.refl (flow : DatagramFlow) : SameFlow flow flow := ⟨rfl, rfl, rfl⟩

theorem resetTimeout_same (flow : DatagramFlow) (now : Nat) :
    SameFlow flow (flow.resetTimeout now) := ⟨rfl, rfl, rfl⟩

theorem header_le (flow : DatagramFlow) : ipHeader flow.dstAddr.ip + udpHeader < flow.mtu := by
  have hmtu := flow.mtu_ge
  have : ipHeader flow.dstAddr.ip ≤ 40 := by
    cases flow.dstAddr.ip <;> simp [ipHeader]
  simp only [minMtu, udpHeader] at *
  omega

theorem answer_fits (h : payload.length ≤ flow.maxPayload) :
    (answer flow payload).length ≤ flow.mtu := by
  have := header_le flow
  simp only [answer, RevPacket.length, maxPayload] at *
  omega

/-! ## Reading -/

/-- Every waiting payload can be read whole by one call. -/
structure Readable (flow : DatagramFlow) : Prop where
  offset : flow.readOffset = 0
  filled : ∀ payload ∈ waiting flow, payload ≠ []
  short : ∀ payload ∈ waiting flow, payload.length ≤ flow.maxPayload

theorem readPendingPayload_whole (flow : DatagramFlow) {remaining : Nat}
    (hoffset : flow.readOffset = 0) (hpayload : flow.readPayload = some payload)
    (hshort : payload.length ≤ remaining) :
    flow.readPendingPayload remaining =
      (payload, { flow with readPayload := none, readOffset := 0 }) := by
  have hlast : min (0 + remaining) payload.length = payload.length := by omega
  simp only [readPendingPayload, hpayload, hlast, hoffset, if_true,
    take_length, drop_zero]

/-- A read returns the first waiting payload, or it is late or nothing waits. -/
theorem pollRead_cases (h : Readable flow) (now : Nat) :
    (∃ payload rest flow', waiting flow = payload :: rest ∧
      flow.pollRead now flow.maxPayload = (.ready payload, flow') ∧
      waiting flow' = rest ∧ flow'.readOffset = 0 ∧ SameFlow flow flow') ∨
    flow.pollRead now flow.maxPayload = (.timedOut, flow) ∧ flow.deadline ≤ now ∨
    flow.pollRead now flow.maxPayload = (.pending, flow.resetTimeout now) ∧
      waiting flow = [] := by
  have hpos : flow.maxPayload ≠ 0 := (Nat.sub_pos_of_lt (header_le flow)).ne'
  unfold pollRead
  rw [if_neg hpos]
  cases hread : flow.readPayload with
  | some payload =>
    refine .inl ⟨payload, flow.queue.map (·.getD []),
      { flow with readPayload := none, readOffset := 0 }, ?_, ?_, ?_, rfl, ⟨rfl, rfl, rfl⟩⟩
    · simp [waiting, hread]
    · have hshort := h.short payload (by simp [waiting, hread])
      simp [readPendingPayload_whole flow h.offset hread hshort]
    · simp [waiting]
  | none =>
    simp only [Option.isSome_none, Bool.false_eq_true, if_false]
    by_cases hdue : flow.deadline ≤ now
    · rw [if_pos hdue]
      exact .inr (.inl ⟨rfl, hdue⟩)
    · rw [if_neg hdue]
      cases hqueue : flow.queue with
      | nil =>
        simp [resetTimeout, hqueue, waiting, hread]
      | cons entry rest =>
        have hmem : entry.getD [] ∈ waiting flow := by simp [waiting, hqueue]
        -- A queue entry without a payload would be an empty payload that waits.
        obtain ⟨payload, rfl⟩ : ∃ payload, entry = some payload := by
          cases entry with
          | none => exact absurd rfl (h.filled _ hmem)
          | some payload => exact ⟨payload, rfl⟩
        refine .inl ⟨payload, rest.map (·.getD []),
          { flow with
            deadline := now + flow.timeoutInterval, queue := rest, readPayload := none,
            readOffset := 0 }, ?_, ?_, ?_, rfl, ⟨rfl, rfl, rfl⟩⟩
        · simp [waiting, hread, hqueue]
        · have hshort := h.short _ hmem
          have hwhole := readPendingPayload_whole { flow with
              deadline := now + flow.timeoutInterval, queue := rest
              readPayload := some payload } h.offset rfl hshort
          simp only [resetTimeout, hqueue, hwhole]
        · simp [waiting]

theorem read_forwards (h : Readable w.flow) (now : Nat) (payload : List UInt8)
    (rest : List (List UInt8)) (hgoing : w.relay.ending = none) (hin : now < w.flow.deadline)
    (hwaiting : waiting w.flow = payload :: rest) :
    (w.step (.read now none)).relay.forwarded = w.relay.forwarded ++ [payload] ∧
      waiting (w.step (.read now none)).flow = rest := by
  have hstep : w.step (.read now none) = { w with relay := w.relay.read now none } := by
    simp [step, hgoing]
  obtain ⟨_, _, flow, hfirst, hread, hrest, -, -⟩ | ⟨-, hlate⟩ | ⟨-, hnone⟩ := pollRead_cases h now
  · cases hwaiting.symm.trans hfirst
    have hne : payload.length ≠ 0 := by simpa using h.filled payload (by simp [hwaiting])
    rw [hstep, Relay.read, show w.relay.flow.pollRead now w.relay.flow.maxPayload = _ from hread]
    simp only [World.flow, if_neg hne, hrest, and_self]
  · omega
  · cases hwaiting.symm.trans hnone

/-! ## Writing -/

theorem createRevPacket_answer (h : payload.length ≤ flow.maxPayload) :
    flow.createRevPacket payload = .ok (answer flow payload) := by
  have hshort : ¬ flow.mtu - (ipHeader flow.dstAddr.ip + udpHeader) < payload.length :=
    not_lt_of_ge h
  unfold createRevPacket
  rw [if_neg (not_not_intro flow.sameFamily.symm), if_neg hshort]
  rfl

/-- One write is one packet, or the payload is too long and there is none. -/
theorem writeAll_packets (flow : DatagramFlow) (hne : payload ≠ []) (now : Nat)
    (delivery : SessionPacketDelivery) :
    (writeAll now delivery payload.length flow payload).2 =
      (if payload.length ≤ flow.maxPayload then [answer flow payload] else [],
        flow.resetTimeout now) := by
  obtain ⟨rounds, hrounds⟩ := Nat.exists_eq_succ_of_ne_zero (length_pos_iff.mpr hne).ne'
  have hempty : payload.isEmpty = false := by simpa using hne
  have hmax : (flow.resetTimeout now).maxPayload = flow.maxPayload := rfl
  rw [hrounds]
  simp only [writeAll, hempty, pollWrite, hmax]
  by_cases hshort : payload.length ≤ flow.maxPayload
  · rw [if_neg (not_lt_of_ge hshort), createRevPacket_answer (hmax ▸ hshort), ← hrounds,
      if_pos hshort]
    cases delivery with
    | closed => rfl
    | delivered | dropped =>
      -- The whole payload is written, and there is no second round.
      simp only [hrounds]
      rw [← hrounds, drop_length]
      cases rounds <;> rfl
  · rw [if_pos (lt_of_not_ge hshort), ← hrounds, if_neg hshort]
    rfl

/-! ## One step -/

structure Whole (w : World) : Prop where
  readable : Readable w.flow
  preserves : Preserves w

section

variable (h : Whole w)

include h

/-- What a step may do: take datagrams from the waiting ones to the forwarded ones, accept one
that can be read, and emit packets for the answers that came. -/
theorem Whole.next {w' : World} (hsame : SameFlow w.flow w'.flow) (hoffset : w'.flow.readOffset = 0)
    (hwaiting : ∀ p ∈ waiting w'.flow, p ∈ waiting w.flow ∨ p ≠ [] ∧ p.length ≤ w.flow.maxPayload)
    (hforwarded : w'.relay.forwarded ++ waiting w'.flow = w'.accepted)
    (hend : w'.relay.ending ≠ some .endOfFile) {m : List (List UInt8)}
    (hanswered : w'.answered = w.answered ++ m)
    (hemitted : w'.relay.emitted = w.relay.emitted ++ m.map (answer w.flow))
    (hfits : ∀ p ∈ m, p.length ≤ w.flow.maxPayload) : Whole w' := by
  have hreadable : Readable w'.flow := by
    refine ⟨hoffset, fun p hp => ?_, fun p hp => ?_⟩
    · exact (hwaiting p hp).elim (h.readable.filled p) And.left
    · rw [hsame.maxPayload]
      exact (hwaiting p hp).elim (h.readable.short p) And.right
  refine ⟨hreadable, ⟨hforwarded, read_forwards hreadable, hend, ?_, ?_⟩⟩
  · rw [hemitted, hanswered, h.preserves.answered, funext hsame.answer, map_append]
  · rw [hsame.mtu, hemitted, forall_mem_append, forall_mem_map]
    exact ⟨h.preserves.fits, fun p hp => answer_fits (hfits p hp)⟩

/-- Only the flow's timer moves, and the loop may be left. -/
theorem Whole.left {ending : Option Ending} (hflow : SameFlow w.flow flow)
    (hwaiting : waiting flow = waiting w.flow) (hoffset : flow.readOffset = 0)
    (hend : ending ≠ some .endOfFile) : Whole { w with relay := { w.relay with flow, ending } } :=
  h.next hflow hoffset (fun _ hp => .inl (hwaiting ▸ hp))
    ((congrArg _ hwaiting).trans h.preserves.forwarded) hend (append_nil _).symm
    (append_nil _).symm (by simp)

theorem whole_arrive (hne : payload ≠ []) : Whole (w.step (.arrive payload)) := by
  simp only [step, accept]
  by_cases hfits : payload.length ≤ w.flow.maxPayload
  · by_cases hroom : w.flow.queue.length < udpSessionChannelDepth
    · have hparsed : parsedPayload payload = some payload := by simp [parsedPayload, hne]
      have hwaiting : waiting { w.flow with queue := w.flow.queue ++ [parsedPayload payload] } =
          waiting w.flow ++ [payload] := by
        simp [waiting, hparsed]
      simp only [if_pos hfits, if_pos hroom, if_true]
      refine h.next ⟨rfl, rfl, rfl⟩ h.readable.offset (fun p hp => ?_) ?_ h.preserves.goesOn
        (append_nil _).symm (append_nil _).symm (by simp)
      · obtain hp | hp := mem_append.mp (hwaiting ▸ hp)
        · exact .inl hp
        · exact .inr (mem_singleton.mp hp ▸ ⟨hne, hfits⟩)
      · show w.relay.forwarded ++ waiting { w.flow with queue := _ } = _
        rw [hwaiting, ← append_assoc, h.preserves.forwarded]
    · simp only [if_pos hfits, if_neg hroom]
      exact h
  · simpa only [if_neg hfits] using h

theorem whole_read (now : Nat) (sent : Option Ending) : Whole (w.step (.read now sent)) := by
  simp only [step]
  split
  · exact h
  · next hgo =>
    simp only [Bool.or_eq_true, decide_eq_true_eq, not_or] at hgo
    have hpoll := pollRead_cases h.readable now
    simp only [Relay.read]
    obtain ⟨payload, rest, flow, hwaiting, hread, hrest, hoffset, hsame⟩ | ⟨hread, -⟩ |
      ⟨hread, -⟩ := hpoll
    · have hne : payload.length ≠ 0 := by
        simpa using h.readable.filled payload (by simp [hwaiting])
      rw [show w.relay.flow.pollRead now w.relay.flow.maxPayload = _ from hread]
      simp only [if_neg hne]
      refine h.next hsame hoffset (fun p hp => .inl ?_) ?_ hgo.2
        (append_nil _).symm (append_nil _).symm (by simp)
      · rw [hwaiting]
        exact mem_cons_of_mem _ (hrest ▸ hp)
      · simp only [World.flow, hrest]
        rw [append_assoc, singleton_append, ← hwaiting]
        exact h.preserves.forwarded
    · rw [show w.relay.flow.pollRead now w.relay.flow.maxPayload = _ from hread]
      exact h.left (.refl _) rfl h.readable.offset (by decide)
    · rw [show w.relay.flow.pollRead now w.relay.flow.maxPayload = _ from hread]
      exact h.left (resetTimeout_same _ now) rfl h.readable.offset h.preserves.goesOn

theorem whole_receive (now : Nat) (hne : payload ≠ []) (delivery : SessionPacketDelivery) :
    Whole (w.step (.receive now payload delivery)) := by
  simp only [step]
  split
  · exact h
  · have hwrite := writeAll_packets w.flow hne now delivery
    simp only [flow] at hwrite ⊢
    simp only [Relay.receive, hwrite]
    refine h.next (resetTimeout_same _ now) h.readable.offset (fun _ hp => .inl hp)
      h.preserves.forwarded ?_
      (m := if payload.length ≤ w.flow.maxPayload then [payload] else []) ?_ ?_ ?_
    · dsimp only
      split
      · exact h.preserves.goesOn
      · decide
    all_goals by_cases hfits : payload.length ≤ w.relay.flow.maxPayload <;>
      simp [flow, hfits]

theorem whole_stop (ending : Ending) : Whole (w.step (.stop ending)) := by
  simp only [step]
  split
  · exact h
  · next hgo =>
    refine h.left (.refl _) rfl h.readable.offset ?_
    rintro ⟨⟩
    exact hgo (by simp [outside])

theorem whole_step {a : Action} (ha : Filled a) : Whole (w.step a) := by
  cases a with
  | arrive => exact whole_arrive h ha
  | read now sent => exact whole_read h now sent
  | receive now payload delivery => exact whole_receive h now ha delivery
  | stop ending => exact whole_stop h ending

end

/-! ## Whole runs -/

theorem whole_initial (h : w.Initial) (hne : ∀ payload ∈ w.accepted, payload ≠ []) : Whole w := by
  obtain ⟨flow, first, hshort, hqueue, hoffset, hread, rfl⟩ := h
  have hfirst : first ≠ [] := hne first (by simp)
  have hparsed : parsedPayload first = some first := by simp [parsedPayload, hfirst]
  have hwaiting : waiting flow = [first] := by simp [waiting, hqueue, hread, hparsed]
  have hreadable : Readable flow := by
    refine ⟨hoffset, ?_, ?_⟩
    · rw [hwaiting]
      exact forall_mem_singleton.mpr hfirst
    · rw [hwaiting]
      exact forall_mem_singleton.mpr hshort
  refine ⟨hreadable, ⟨?_, read_forwards hreadable, by simp, rfl, by simp⟩⟩
  show [] ++ waiting flow = [first]
  rw [hwaiting]
  rfl

/-- With no empty payload, every accepted packet is forwarded as one datagram in its turn, by the
next read in time, no payload ends the flow, and every answer that fits becomes one packet. -/
theorem datagrams_preserved
    (h : Reach (fun w => w.Initial ∧ ∀ payload ∈ w.accepted, payload ≠ []) World.step
      (fun _ a => Filled a) w) : Preserves w :=
  (h.invariant (P := Whole) (fun _ h => whole_initial h.1 h.2)
    (fun _ _ h ha => whole_step h ha)).preserves

/-! ## A flow of its own -/

def loopback : SocketAddr := { ip := .v4 0x7f000001, port := 5000 }
def resolver : SocketAddr := { ip := .v4 0x08080808, port := 53 }

/-- A flow of a first packet with this payload. -/
def openFlow (first : List UInt8) : World where
  relay :=
    { flow :=
        { srcAddr := loopback, dstAddr := resolver, mtu := 1500, timeoutInterval := 30
          deadline := 30, readPayload := some ((parsedPayload first).getD [])
          mtu_ge := by decide, sameFamily := rfl } }
  accepted := [first]

theorem openFlow_initial {first : List UInt8} (h : first.length ≤ 1472) :
    (openFlow first).Initial :=
  ⟨(openFlow first).flow, first, h, rfl, rfl, rfl, rfl⟩

def exchange : List Action :=
  [.read 1 none, .arrive [2, 3], .read 2 none, .receive 3 [9] .delivered]

theorem exchange_preserved :
    let w := exchange.foldl World.step (openFlow [1])
    w.relay.forwarded = [[1], [2, 3]] ∧ w.relay.emitted = [answer w.flow [9]] ∧ Preserves w :=
  ⟨by decide, by decide, datagrams_preserved
    (Reach.run (.start ⟨openFlow_initial (by decide), by decide⟩) (by decide))⟩

/-- An empty datagram ends the flow before the one behind it, and an empty answer is no packet. -/
theorem empty_not_preserved :
    (∃ w, Reach World.Initial World.step anyAction w ∧ w.accepted = [[1], [], [2]] ∧
      w.relay.forwarded = [[1]] ∧ w.relay.ending = some .endOfFile ∧ ¬ Preserves w) ∧
    (∃ w, Reach World.Initial World.step anyAction w ∧ w.answered = [[]] ∧
      w.relay.emitted = [] ∧ ¬ Preserves w) := by
  have hstart : (openFlow [1]).Initial := openFlow_initial (by decide)
  refine ⟨⟨[.arrive [], .arrive [2], .read 1 none, .read 2 none].foldl step (openFlow [1]),
      .run (.start hstart) (admissible_any _ _ _), rfl, rfl, rfl, fun h => h.goesOn rfl⟩,
    ⟨[.receive 1 [] .delivered].foldl step (openFlow [1]),
      .run (.start hstart) (admissible_any _ _ _), rfl, rfl, fun h => ?_⟩⟩
  have := congrArg List.length h.answered
  exact absurd this (by decide)

end Foxcore.Proofs.Datagram
