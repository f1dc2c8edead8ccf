import Foxcore.Proofs.NetstackStep

/-!
# What the stack holds is bounded

Every effect of a step is followed through `Bounded`. Admission is the only one that
charges, and it checks each limit first; publication turns a permit into a flow of the
accept queue; reaping gives back what the session was charged. A task that ends removes
the session it was started with, since a tuple gets no new session while it has one.
-/

namespace Foxcore.Proofs.Netstack

open Lib Ref.Netstack Ref.Netstack.Actor Spec.Netstack List HashMap

variable {Socket : Type} {S : Smoltcp Socket} {parse : List UInt8 → Option NetworkPacket}
  {w : Actor Socket}
variable {tuple : NetworkTuple}

variable {egress : List (List UInt8)}

/-! ## Queues -/

section

variable (h : Bounded w)

include h

/-- The interface may do anything to its sockets; what it sends has to fit. -/
theorem bounded_egress (sockets : List (Option Socket)) (hle : egress.length ≤ packetQueueDepth) :
    Bounded { w with sockets, egress } :=
  { h with egress := hle }

/-- Commands, and what a flow shares with the application, are charged through sessions. -/
theorem bounded_flows (flows : List TcpFlow) (commands : List (NetworkTuple × Nat))
    (pending sending : List Nat) : Bounded { w with flows, commands, pending, sending } :=
  { h with }

omit h in
theorem length_append_toList (answer : Option (List UInt8)) (h : egress.length < packetQueueDepth) :
    (egress ++ answer.toList).length ≤ packetQueueDepth := by
  rw [length_append]
  have hone : answer.toList.length ≤ 1 := by cases answer <;> simp
  omega

omit h in
theorem length_pollEgress (S : Smoltcp Socket) (now : Nat) (sockets : List (Option Socket))
    (h : egress.length ≤ packetQueueDepth) :
    (pollEgress S now sockets egress).2.length ≤ packetQueueDepth := by
  induction sockets generalizing egress with
  | nil => exact h
  | cons slot rest ih =>
    cases slot with
    | none => exact ih h
    | some =>
      unfold pollEgress
      split
      · next hlt => exact ih (length_append_toList _ hlt)
      · exact h

theorem bounded_deliver (hroom : w.canEnqueueEgress = true) (now : Nat) (packet : IngressPacket) :
    Bounded (deliver S parse now w packet) := by
  have hlt : w.egress.length < packetQueueDepth := of_decide_eq_true hroom
  fun_cases deliver S parse now w packet with
  | case1 => exact h
  | _ => exact bounded_egress h _ (length_append_toList _ hlt)

/-! ## Admission -/

omit h in
theorem lt_of_not_full (h : w.sessionsFull = false) :
    w.tcpFlows.len + w.udpSessions.len < w.config.maxSessions := by
  have hlt := not_le.mp (of_decide_eq_false h)
  have hle := w.config.maxSessions_le
  unfold saturatingAdd at hlt
  omega

theorem bounded_withSession (hnew : w.tcpFlows.lookup tuple = none) (hfull : w.sessionsFull = false)
    (hmay : w.mayAdmit tuple = true) (now : Nat) (socket : Socket) :
    Bounded (w.withSession tuple now socket) := by
  have hlen := fun session : TcpSession => len_insert_of_none hnew session
  simp only [mayAdmit, Bool.and_eq_true, Bool.not_eq_true', decide_eq_false_iff_not,
    not_le] at hmay
  obtain ⟨⟨htcp, hmemory⟩, -⟩ := hmay
  have hsessions := lt_of_not_full hfull
  have hbudget := h.budget
  -- the budget is far below the end of the counter
  have hsum : saturatingAdd w.tcpMemoryBytes (memoryBytesFor tuple w.config) =
      w.tcpMemoryBytes + memoryBytesFor tuple w.config := by
    have hsmall : tcpMemoryBudgetBytes ≤ usizeMax := by decide
    unfold saturatingAdd
    omega
  refine { h with
    charged := ?_, budget := ?_, tcpSessions := ?_, sessions := ?_, owns := ?_, permits := ?_ }
  · show saturatingAdd _ _ = total _ (w.tcpFlows.insert tuple _)
    rw [hsum, total_insert_of_none hnew, ← h.charged, add_comm]
  · show saturatingAdd _ _ ≤ _
    omega
  · show (w.tcpFlows.insert tuple _).keys.length ≤ _
    rw [hlen]
    exact htcp
  · show (w.tcpFlows.insert tuple _).keys.length + _ ≤ _
    rw [hlen]
    show w.tcpFlows.len + 1 + w.udpSessions.len ≤ w.config.maxSessions
    omega
  · intro tuple' session
    grind [withSession, lookup_insert, h.owns tuple' session]
  · show w.accept.permits + 1 = total _ (w.tcpFlows.insert tuple _)
    rw [total_insert_of_none hnew, ← h.permits, add_comm]
    rfl

/-! ## UDP sessions and their tasks -/

theorem bounded_opened
    (hnone : w.udpSessions.lookup tuple = none) (hfull : w.sessionsFull = false) :
    Bounded
      { w with
        sessionTasks := w.sessionTasks ++ [{ tuple, serial := w.udpSerial }]
        udpSessions := w.udpSessions.insert tuple w.udpSerial
        udpSerial := w.udpSerial + 1
        accept := w.accept.trySend (.udp w.udpSerial) } := by
  -- no task of the tuple is left, since each has its session
  have hfree : ∀ task ∈ w.sessionTasks, task.tuple ≠ tuple := by
    intro task hmem heq
    have := h.current task hmem
    rw [heq, hnone] at this
    cases this
  refine { h with
    sessions := ?_, permits := (permits_trySend _ _).trans h.permits, task := ?_, current := ?_ }
  · show w.tcpFlows.len + (w.udpSessions.insert tuple _).keys.length ≤ _
    rw [len_insert_of_none hnone]
    exact lt_of_not_full hfull
  · intro tuple' serial hlook
    have hlook' : (w.udpSessions.insert tuple w.udpSerial).lookup tuple' = some serial := hlook
    rw [lookup_insert] at hlook'
    rw [filter_append, map_append]
    split at hlook'
    · next heq =>
      cases hlook'
      rw [filter_eq_nil_iff.mpr fun task hmem => by simpa [heq] using hfree task hmem]
      simp [heq]
    · next hne =>
      rw [h.task tuple' serial hlook']
      simp [Ne.symm hne]
  · intro task
    grind [lookup_insert, h.current task]

theorem bounded_joined {index : Nat} {task : SessionTask}
    (htask : w.sessionTasks[index]? = some task) : Bounded
      { w with
        sessionTasks := w.sessionTasks.eraseIdx index
        udpSessions := w.udpSessions.erase task.tuple } := by
  have hlook := h.current task (mem_of_getElem? htask)
  have hlen := len_erase_of_some hlook
  have hsessions := h.sessions
  -- the task of the tuple is the only one, so what is left has other tuples
  have hone := h.task task.tuple task.serial hlook
  have hperm : List.Perm w.sessionTasks (task :: w.sessionTasks.eraseIdx index) := by
    obtain ⟨hlt, rfl⟩ := List.getElem?_eq_some_iff.mp htask
    exact (getElem_cons_eraseIdx_perm hlt).symm
  have hrest : ∀ other ∈ w.sessionTasks.eraseIdx index, other.tuple ≠ task.tuple := by
    intro other hother heq
    have hcount := congrArg List.length hone
    rw [length_map, length_singleton,
      (hperm.filter fun t => t.tuple = task.tuple).length_eq, filter_cons_of_pos (by simp),
      length_cons] at hcount
    have hin : other ∈ (w.sessionTasks.eraseIdx index).filter
        fun t => t.tuple = task.tuple := mem_filter.mpr ⟨hother, by simpa using heq⟩
    have hpos := length_pos_of_mem hin
    omega
  refine { h with sessions := ?_, task := ?_, current := ?_ }
  · show w.tcpFlows.len + len (w.udpSessions.erase task.tuple) ≤ w.config.maxSessions
    omega
  · intro tuple serial hlook'
    have hkept : (w.udpSessions.erase task.tuple).lookup tuple = some serial := hlook'
    rw [lookup_erase] at hkept
    split at hkept
    · cases hkept
    · next hne =>
      have htuple := h.task tuple serial hkept
      have hfilter := (hperm.filter fun t => t.tuple = tuple).map SessionTask.serial
      rw [filter_cons_of_neg (by simpa using Ne.symm hne), htuple] at hfilter
      exact (perm_singleton.mp hfilter.symm)
  · intro other hother
    rw [lookup_erase, if_neg (hrest other hother)]
    exact h.current other (mem_of_mem_eraseIdx hother)

/-- A `DatagramFlow` that is dropped only marks its task. -/
theorem bounded_udpDropped (serial : Nat) : Bounded (w.apply S parse (.udpDropped serial)) := by
  let mark : SessionTask → SessionTask := fun task =>
    if task.serial = serial then { task with finished := true } else task
  have htuple : ∀ task, (mark task).tuple = task.tuple := by grind
  have hserial : ∀ task, (mark task).serial = task.serial := by grind
  refine { h with task := ?_, current := ?_ }
  · intro tuple number hlook
    show ((w.sessionTasks.map mark).filter _).map _ = _
    rw [filter_map, map_map, ← h.task tuple number hlook]
    have hfilter : ((fun task : SessionTask => decide (task.tuple = tuple)) ∘ mark) =
        fun task => decide (task.tuple = tuple) := funext fun task => by
      rw [Function.comp_apply, htuple]
    have hmap : SessionTask.serial ∘ mark = SessionTask.serial := funext hserial
    rw [hfilter, hmap]
  · intro task hmem
    obtain ⟨task', hmem', rfl⟩ := mem_map.mp hmem
    rw [htuple, hserial]
    exact h.current task' hmem'

/-! ## Service -/

/-- A session that is put back with the same charge; its permit is used up when it is
published. -/
theorem bounded_served {p q : Served Socket} {accept : AcceptQueue}
    {publications : List Publication} (hserved : w.served tuple = some p)
    (hserves : Serves S w p q accept publications) : Bounded
      { w with
        sockets := w.sockets.set q.session.handle (some q.socket)
        tcpFlows := w.tcpFlows.insert tuple q.session
        flows := w.flows.set q.session.control q.flow
        accept
        publications } := by
  obtain ⟨hlook, -, -⟩ := served_eq_some hserved
  have howns := h.owns tuple p.session hlook
  have hmemory := hserves.memoryBytes
  have hlen := len_insert_of_some hlook q.session
  have hcharged := total_insert_of_some hlook q.session TcpSession.memoryBytes
  have hpermits := total_insert_of_some hlook q.session unpublished
  have hold := h.charged
  have hcount := h.permits
  -- what publication does to the permit of this session and to those of the queue
  have hpublish : q.session.acceptPermit = !q.session.published ∧
      accept.permits + unpublished p.session = w.accept.permits + unpublished q.session := by
    rcases hserves.published with ⟨hsame, hpermit, rfl, -⟩ |
      ⟨-, -, -, hnot, hyes, hpermit, rfl, -⟩
    · rw [hpermit, unpublished, unpublished, hsame]
      exact ⟨howns, rfl⟩
    · have hpos := total_erase hlook unpublished
      simp only [unpublished, hnot, Bool.false_eq_true, if_false] at hpos
      rw [hpermit, unpublished, unpublished, hnot, hyes]
      refine ⟨rfl, ?_⟩
      show w.accept.permits - 1 + 1 = w.accept.permits + 0
      omega
  refine { h with
    charged := ?_, tcpSessions := hlen.trans_le h.tcpSessions, sessions := ?_, owns := ?_,
    permits := ?_ }
  · show w.tcpMemoryBytes = total _ (w.tcpFlows.insert tuple q.session)
    omega
  · show (w.tcpFlows.insert tuple q.session).keys.length + _ ≤ _
    rw [hlen]
    exact h.sessions
  · intro tuple' session
    grind [lookup_insert, h.owns tuple' session]
  · show accept.permits = total _ (w.tcpFlows.insert tuple q.session)
    omega

theorem bounded_reap (tuple : NetworkTuple) : Bounded (w.reap tuple) := by
  fun_cases reap w tuple with
  | case1 => exact h
  | case2 session hlook =>
    have howns := h.owns tuple session hlook
    have hlen := len_erase_of_some hlook
    have hcharged := total_erase hlook TcpSession.memoryBytes
    have hpermits := total_erase hlook unpublished
    have hold := h.charged
    have hcount := h.permits
    have hbudget := h.budget
    have htcp := h.tcpSessions
    have hsessions := h.sessions
    refine { h with
      charged := ?_, budget := ?_, tcpSessions := ?_, sessions := ?_, owns := ?_, permits := ?_ }
    · show w.tcpMemoryBytes - session.memoryBytes = total _ (w.tcpFlows.erase tuple)
      omega
    · show w.tcpMemoryBytes - session.memoryBytes ≤ tcpMemoryBudgetBytes
      omega
    · show len (w.tcpFlows.erase tuple) ≤ w.config.maxTcpSessions
      omega
    · show len (w.tcpFlows.erase tuple) + w.udpSessions.len ≤ w.config.maxSessions
      omega
    · intro tuple' session'
      grind [lookup_erase, h.owns tuple' session']
    · cases hpub : session.published <;> grind [unpublished, AcceptQueue.release]

/-! ## Steps and runs -/

theorem bounded_beginService (tuple : NetworkTuple) : Bounded (w.beginService tuple) := by
  unfold beginService
  split
  · exact h
  · exact bounded_flows h _ w.commands w.pending w.sending

theorem bounded_entry {x : Actor Socket} (hx : Entry S parse w x) : Bounded x := by
  cases hx with
  | none => exact h
  | @delivered packet rest left now _ room heq =>
    have hle := h.ingress
    rw [heq, length_cons] at hle
    have hrest : Bounded { w with ingress := rest } :=
      { h with ingress := show rest.length ≤ _ by omega }
    exact bounded_deliver hrest room now packet
  | admitted now _ hnew hfull hmay => exact bounded_withSession h hnew hfull hmay now _

omit h in
theorem bounded_effect {x y : Actor Socket} (h : Bounded x) (hy : Effect S x y) : Bounded y := by
  cases hy with
  | queues hin hout hpermits =>
    exact { h with
      ingress := hin h.ingress, egress := hout h.egress, permits := hpermits.trans h.permits }
  | polled now => exact bounded_egress h _ (length_pollEgress S now x.sockets h.egress)
  | command => exact bounded_beginService (bounded_flows h x.flows _ x.pending x.sending) _
  | served hserved hserves => exact bounded_served h hserved hserves
  | reaped tuple => exact bounded_reap h tuple
  | opened hnone hfull => exact bounded_opened h hnone hfull
  | joined htask => exact bounded_joined h htask

theorem bounded_advance (input : Input) : Bounded (w.advance S parse input) :=
  (advance_steps S parse w input).keeps (bounded_entry h) bounded_effect fun hy => { hy with }

theorem bounded_swapScheduled (id : Nat) : Bounded (w.swapScheduled id) := by
  fun_cases swapScheduled w id with
  | case3 | case4 => exact bounded_flows h _ _ _ _
  | _ => exact h

theorem bounded_trySendCommand (id : Nat) : Bounded (w.trySendCommand id) := by
  fun_cases trySendCommand w id with
  | case3 | case4 => exact bounded_flows h _ _ _ _
  | _ => exact h

theorem bounded_call (id : Nat) (call : Call) : Bounded (w.call id call) := by
  fun_cases Actor.call w id call with
  | case3 => exact bounded_flows h _ _ _ _
  | _ => exact h

theorem bounded_apply (a : Action) : Bounded (w.apply S parse a) := by
  cases a with
  | advance input => exact bounded_advance h input
  | call id call => exact unless_stopped h (bounded_call h id call)
  | swap id => exact unless_stopped h (bounded_swapScheduled h id)
  | send id => exact unless_stopped h (bounded_trySendCommand h id)
  | uplinkUdp _ | uplinkRaw _ | accepted | acceptorGone => exact { h with }
  | udpDropped serial => exact bounded_udpDropped h serial

end

theorem bounded_initial (h : w.Initial) : Bounded w := by
  obtain ⟨config, capacity, rfl⟩ := h
  exact ⟨rfl, Nat.zero_le _, Nat.zero_le _, Nat.zero_le _, Nat.zero_le _, Nat.zero_le _, nofun,
    rfl, nofun, nofun⟩

/-- In every run the stack stays within its bounds. -/
theorem stack_bounded (h : Reach Actor.Initial (Actor.apply S parse) anyAction w) : Bounded w :=
  Reach.invariant (fun _ => bounded_initial) (fun _ a hw _ => bounded_apply hw a) h

/-- A session is admitted, its handshake is completed and its flow is published. -/
def handshake : List Actor.Action :=
  idleRound ++ packetRounds [1, 7, 9, 1] ++ packetRounds [1, 7, 9, 2]

theorem handshake_bounded :
    ((handshake.foldl (Actor.apply plain plainParse) started).accept.queue = [.tcp 0] ∧
      (handshake.foldl (Actor.apply plain plainParse) started).tcpMemoryBytes = 35444) ∧
      Bounded (handshake.foldl (Actor.apply plain plainParse) started) :=
  ⟨by decide +kernel, stack_bounded (Reach.run (.start ⟨_, _, rfl⟩) (admissible_any _ _ _))⟩

end Foxcore.Proofs.Netstack
