import Foxcore.Proofs.Netstack

/-!
# What the actor can do

The invariants of the stack are kept by the same few moves, so these are told apart once.
`Follows` is what serving a session leaves alone: who it is, what it was charged, and the
flags its flow shares with the application; its socket goes through operations of smoltcp
(`Moves`). A step of the loop may begin with an `Entry`, which an invariant may hold against
it; then it has some `Effect`s on queues, sockets and tables, and moves on in the loop
(`advance_steps`).
-/

namespace Foxcore.Proofs.Netstack

open Lib Ref.Netstack Ref.Netstack.Actor Option

variable {Socket : Type} {S : Smoltcp Socket}

/-! ## Serving a session -/

/-- The operations that serving a session performs on its socket. -/
inductive Moves (S : Smoltcp Socket) (first : Socket) : Socket → Prop
  | refl : Moves S first first
  | abort {socket : Socket} : Moves S first socket → Moves S first (S.abort socket)
  | close {socket : Socket} : Moves S first socket → Moves S first (S.close socket)
  | recv {socket next : Socket} {n : Nat} {bytes : List UInt8} : Moves S first socket →
      S.recvSlice socket n = some (bytes, next) → Moves S first next
  | send {socket next : Socket} {n : Nat} {bytes : List UInt8} : Moves S first socket →
      S.sendSlice socket bytes = some (n, next) → Moves S first next

theorem Moves.trans {first middle last : Socket} (h : Moves S first middle)
    (h' : Moves S middle last) : Moves S first last := by
  induction h' with
  | refl => exact h
  | abort _ ih => exact .abort ih
  | close _ ih => exact .close ih
  | recv _ hrecv ih => exact .recv ih hrecv
  | send _ hsend ih => exact .send ih hsend

/-- The application does nothing once the actor has stopped. -/
theorem unless_stopped {P : Actor Socket → Prop} {w x : Actor Socket} (h : P w) (hx : P x) :
    P (if w.stage = .stopped then w else x) := by
  split
  · exact h
  · exact hx

/-- A flow further on, with the same flag and not newly dropped. -/
structure Same (flow next : TcpFlow) : Prop where
  tuple : next.control.tuple = flow.control.tuple
  scheduled : next.control.scheduled = flow.control.scheduled
  dropped : (flow.control.dropped = true → flow.gone = true) →
    next.control.dropped = true → next.gone = true

theorem Same.refl (flow : TcpFlow) : Same flow flow := ⟨rfl, rfl, id⟩

theorem Same.trans {flow next last : TcpFlow} (h : Same flow next) (h' : Same next last) :
    Same flow last :=
  ⟨h'.tuple.trans h.tuple, h'.scheduled.trans h.scheduled,
    fun hflow => h'.dropped (h.dropped hflow)⟩

theorem same_callFlow (flow : TcpFlow) (call : Call) : Same flow (callFlow flow call).1 := by
  have hconsume : ∀ (flow : TcpFlow) remaining,
      Same flow (consumeCurrent flow remaining).1 := by
    intro flow remaining
    fun_cases consumeCurrent flow remaining <;> exact ⟨rfl, rfl, id⟩
  cases call with
  | read remaining =>
    show Same flow (pollRead flow remaining).1
    have hfirst := hconsume flow remaining
    fun_cases pollRead flow remaining with
    | case1 => exact .refl flow
    | case2 _ _ _ heq =>
      rw [heq] at hfirst
      exact hfirst
    | case3 _ _ _ heq =>
      rw [heq] at hfirst
      exact hfirst
    | case4 _ flow' _ heq bytes _ _ _ _ heq' =>
      rw [heq] at hfirst
      have hsecond := hconsume
        { flow' with readRx := none, readCurrent := bytes, readOffset := 0 } remaining
      rw [heq'] at hsecond
      exact hfirst.trans ⟨hsecond.tuple, hsecond.scheduled, hsecond.dropped⟩
  | write buf =>
    show Same flow (pollWrite flow buf).1
    fun_cases pollWrite flow buf <;> exact ⟨rfl, rfl, id⟩
  | shutdown =>
    show Same flow (pollShutdown flow).1
    fun_cases pollShutdown flow <;> exact ⟨rfl, rfl, id⟩
  | reset =>
    show Same flow (reset flow).1
    fun_cases reset flow <;> exact ⟨rfl, rfl, id⟩
  | drop =>
    show Same flow (dropFlow flow).1
    fun_cases dropFlow flow <;> exact ⟨rfl, rfl, fun _ _ => rfl⟩

/-- The same session and the same flow, further on. -/
structure Follows (S : Smoltcp Socket) (p q : Actor.Served Socket) : Prop where
  handle : q.session.handle = p.session.handle
  control : q.session.control = p.session.control
  memoryBytes : q.session.memoryBytes = p.session.memoryBytes
  published : q.session.published = p.session.published
  acceptPermit : q.session.acceptPermit = p.session.acceptPermit
  same : Same p.flow q.flow
  moves : Moves S p.socket q.socket

namespace Follows

variable {p q r : Served Socket}

theorem refl (p : Served Socket) : Follows S p p :=
  ⟨rfl, rfl, rfl, rfl, rfl, ⟨rfl, rfl, id⟩, .refl⟩

theorem trans (h : Follows S p q) (h' : Follows S q r) : Follows S p r where
  handle := h'.handle.trans h.handle
  control := h'.control.trans h.control
  memoryBytes := h'.memoryBytes.trans h.memoryBytes
  published := h'.published.trans h.published
  acceptPermit := h'.acceptPermit.trans h.acceptPermit
  same := h.same.trans h'.same
  moves := h.moves.trans h'.moves

/-- Only the socket has moved. -/
theorem socket {socket : Socket} (h : Moves S p.socket socket) : Follows S p { p with socket } :=
  ⟨rfl, rfl, rfl, rfl, rfl, ⟨rfl, rfl, id⟩, h⟩

variable (p)

theorem expire (config : TcpConfig) (now : Nat) : Follows S p (p.expire S config now) := by
  refine ⟨rfl, rfl, rfl, rfl, rfl, ⟨rfl, rfl, id⟩, ?_⟩
  dsimp only [Served.expire]
  split
  · exact .abort .refl
  · exact .refl

theorem receive (mtu : Nat) : Follows S p (p.receive S mtu) := by
  fun_cases Served.receive S mtu p with
  | case1 => exact socket (.abort .refl)
  | case4 _ _ _ _ hrecv => exact socket (.recv .refl hrecv)
  | case5 _ _ _ _ _ hrecv => exact ⟨rfl, rfl, rfl, rfl, rfl, ⟨rfl, rfl, id⟩, .recv .refl hrecv⟩
  | _ => exact refl p

theorem nextWrite : Follows S p p.nextWrite := by
  unfold Served.nextWrite
  split
  · exact ⟨rfl, rfl, rfl, rfl, rfl, ⟨rfl, rfl, id⟩, .refl⟩
  · exact refl p

theorem send (rounds : Nat) (p : Served Socket) : Follows S p (p.send S rounds) := by
  induction rounds generalizing p with
  | zero => exact refl p
  | succ rounds ih =>
    unfold Served.send
    split
    · exact refl p
    · dsimp only
      refine (nextWrite p).trans ?_
      generalize p.nextWrite = p'
      split
      · exact refl p'
      · split
        · exact socket (.abort .refl)
        · next hsend => exact socket (.send .refl hsend)
        · next hsend =>
          refine trans ?_ (ih _)
          exact ⟨rfl, rfl, rfl, rfl, rfl, ⟨rfl, rfl, id⟩, .send .refl hsend⟩

theorem finishClose : Follows S p (p.finishClose S) := by
  unfold Served.finishClose
  split
  · exact socket (.close .refl)
  · exact refl p

theorem note (now : Nat) : Follows S p (p.note S now) :=
  ⟨rfl, rfl, rfl, rfl, rfl, ⟨rfl, rfl, id⟩, .refl⟩

theorem work (mtu now : Nat) : Follows S p (p.work S mtu now) :=
  (((receive p mtu).trans (send 4 _)).trans (finishClose _)).trans (note _ now)

end Follows

theorem served_eq_some {w : Actor Socket} {tuple : NetworkTuple} {p : Served Socket}
    (h : w.served tuple = some p) :
    w.tcpFlows.lookup tuple = some p.session ∧
      getSocket w.sockets p.session.handle = some p.socket ∧
      w.flows[p.session.control]? = some p.flow := by
  obtain ⟨session, hsession, h⟩ := bind_eq_some_iff.mp h
  obtain ⟨socket, hsocket, h⟩ := bind_eq_some_iff.mp h
  obtain ⟨flow, hflow, h⟩ := bind_eq_some_iff.mp h
  cases h
  exact ⟨hsession, hsocket, hflow⟩

/-! ## What a step does -/

/-- What a session that was served comes to, and what becomes of a flow that was due. -/
structure Serves (S : Smoltcp Socket) (w : Actor Socket) (p q : Served Socket)
    (accept : AcceptQueue) (publications : List Publication) : Prop where
  handle : q.session.handle = p.session.handle
  control : q.session.control = p.session.control
  memoryBytes : q.session.memoryBytes = p.session.memoryBytes
  same : Same p.flow q.flow
  moves : Moves S p.socket q.socket
  published :
    (q.session.published = p.session.published ∧
      q.session.acceptPermit = p.session.acceptPermit ∧ accept = w.accept ∧
      publications = w.publications) ∨
    ∃ socket, Moves S p.socket socket ∧ S.state socket = .established ∧
      p.session.published = false ∧ q.session.published = true ∧
      q.session.acceptPermit = false ∧ accept = w.accept.redeem (.tcp p.session.control) ∧
      publications = w.publications ++
        [⟨p.flow.control.tuple, S.localEndpoint socket, S.remoteEndpoint socket⟩]

theorem Serves.of_follows {w : Actor Socket} {p alive worked : Served Socket}
    (halive : Follows S p alive) (hworked : Follows S (alive.publish S) worked) :
    Serves S w p worked (w.announce S alive).accept (w.announce S alive).publications := by
  unfold Served.publish at hworked
  unfold announce
  cases hpub : alive.publishes S with
  | false =>
    rw [hpub] at hworked
    have h := halive.trans hworked
    exact ⟨h.handle, h.control, h.memoryBytes, h.same, h.moves,
      .inl ⟨h.published, h.acceptPermit, rfl, rfl⟩⟩
  | true =>
    rw [hpub] at hworked
    simp only [Served.publishes, Bool.and_eq_true, decide_eq_true_eq, Bool.not_eq_true'] at hpub
    refine ⟨hworked.handle.trans halive.handle, hworked.control.trans halive.control,
      hworked.memoryBytes.trans halive.memoryBytes, halive.same.trans hworked.same,
      halive.moves.trans hworked.moves, .inr ⟨alive.socket, halive.moves, hpub.1.1.1,
        halive.published.symm.trans hpub.1.1.2, hworked.published, hworked.acceptPermit, ?_, ?_⟩⟩
    · rw [← halive.control]
      rfl
    · rw [← halive.same.tuple]
      rfl

/-- What a step does to queues, sockets and tables. -/
inductive Effect (S : Smoltcp Socket) (w : Actor Socket) : Actor Socket → Prop
  | queues {ingress : List IngressPacket} {egress : List (List UInt8)} {accept : AcceptQueue}
      (hin : w.ingress.length ≤ packetQueueDepth → ingress.length ≤ packetQueueDepth)
      (hout : w.egress.length ≤ packetQueueDepth → egress.length ≤ packetQueueDepth)
      (hpermits : accept.permits = w.accept.permits) :
      Effect S w { w with ingress, egress, accept }
  | polled (now : Nat) :
      Effect S w
        { w with
          sockets := (pollEgress S now w.sockets w.egress).1
          egress := (pollEgress S now w.sockets w.egress).2 }
  | command {tuple : NetworkTuple} {id : Nat} {rest : List (NetworkTuple × Nat)}
      (h : w.commands = (tuple, id) :: rest) :
      Effect S w ({ w with commands := rest }.beginService tuple)
  | served {tuple : NetworkTuple} {p q : Served Socket} {accept : AcceptQueue}
      {publications : List Publication} (hserved : w.served tuple = some p)
      (h : Serves S w p q accept publications) :
      Effect S w
        { w with
          sockets := w.sockets.set q.session.handle (some q.socket)
          tcpFlows := w.tcpFlows.insert tuple q.session
          flows := w.flows.set q.session.control q.flow
          accept
          publications }
  | reaped (tuple : NetworkTuple) : Effect S w (w.reap tuple)
  | opened {tuple : NetworkTuple} (hnone : w.udpSessions.lookup tuple = none)
      (hfull : w.sessionsFull = false) :
      Effect S w
        { w with
          sessionTasks := w.sessionTasks ++ [{ tuple, serial := w.udpSerial }]
          udpSessions := w.udpSessions.insert tuple w.udpSerial
          udpSerial := w.udpSerial + 1
          accept := w.accept.trySend (.udp w.udpSerial) }
  | joined {index : Nat} {task : SessionTask} (h : w.sessionTasks[index]? = some task) :
      Effect S w
        { w with
          sessionTasks := w.sessionTasks.eraseIdx index
          udpSessions := w.udpSessions.erase task.tuple }

/-- What a step may begin with. -/
inductive Entry (S : Smoltcp Socket) (parse : List UInt8 → Option NetworkPacket)
    (w : Actor Socket) : Actor Socket → Prop
  | none : Entry S parse w w
  | delivered {packet : IngressPacket} {rest : List IngressPacket} {left : Nat} (now : Nat)
      (stage : w.stage = .receiving (left + 1)) (room : w.canEnqueueEgress = true)
      (h : w.ingress = packet :: rest) :
      Entry S parse w (deliver S parse now { w with ingress := rest } packet)
  | admitted {tuple : NetworkTuple} {socket : Socket} {receiveBytes transmitBytes : Nat} (now : Nat)
      (stage : w.stage = .waiting) (hnew : w.tcpFlows.lookup tuple = none)
      (hfull : w.sessionsFull = false) (hmay : w.mayAdmit tuple = true)
      (hlisten : S.listen receiveBytes transmitBytes tuple.dst = some socket) :
      Entry S parse w (w.withSession tuple now socket)

/-- The actor elsewhere in its loop. -/
def paced (w : Actor Socket) (stage : Ref.Netstack.Stage) (didWork scanTcp : Bool)
    (scanQueue : List NetworkTuple) (nextTcpDeadline : Option Nat) (readErrors : Nat)
    (udpUp rawUp : List (List UInt8)) : Actor Socket :=
  { w with stage, didWork, scanTcp, scanQueue, nextTcpDeadline, readErrors, udpUp, rawUp }

abbrev Effects (S : Smoltcp Socket) : Actor Socket → Actor Socket → Prop :=
  Relation.ReflTransGen (Effect S)

/-- A step, up to where it is in the loop. -/
def Steps (S : Smoltcp Socket) (parse : List UInt8 → Option NetworkPacket)
    (w w' : Actor Socket) : Prop :=
  ∃ x y, Entry S parse w x ∧ Effects S x y ∧
    ∃ stage didWork scanTcp scanQueue deadline readErrors udpUp rawUp,
      w' = paced y stage didWork scanTcp scanQueue deadline readErrors udpUp rawUp

section Loop

variable {parse : List UInt8 → Option NetworkPacket} {w w' x y : Actor Socket}

/-- What is kept by everything a step consists of is kept by the step. -/
theorem Steps.keeps {P : Actor Socket → Prop} (h : Steps S parse w w')
    (hentry : ∀ {x}, Entry S parse w x → P x) (heffect : ∀ {x y}, P x → Effect S x y → P y)
    (hpaced : ∀ {y stage didWork scanTcp scanQueue deadline readErrors udpUp rawUp}, P y →
      P (paced y stage didWork scanTcp scanQueue deadline readErrors udpUp rawUp)) : P w' := by
  obtain ⟨x, y, hx, heffects, _, _, _, _, _, _, _, _, rfl⟩ := h
  refine hpaced ?_
  induction heffects with
  | refl => exact hentry hx
  | tail _ hstep ih => exact heffect ih hstep

theorem Entry.steps (h : Entry S parse w x) (heffects : Effects S x y) (stage : Ref.Netstack.Stage)
    (didWork scanTcp : Bool) (scanQueue : List NetworkTuple) (deadline : Option Nat)
    (readErrors : Nat) (udpUp rawUp : List (List UInt8)) :
    Steps S parse w (paced y stage didWork scanTcp scanQueue deadline readErrors udpUp rawUp) :=
  ⟨x, y, h, heffects, stage, didWork, scanTcp, scanQueue, deadline, readErrors, udpUp, rawUp, rfl⟩

theorem Effect.queued (bytes : List UInt8) (tuple : NetworkTuple) :
    Effects S w (w.enqueueIngress bytes tuple).2 := by
  unfold enqueueIngress
  split
  · exact .refl
  · split
    · exact .refl
    · next hroom =>
      rw [Bool.not_eq_true', Bool.not_eq_false] at hroom
      have hlt : w.ingress.length < packetQueueDepth := of_decide_eq_true hroom
      refine .single (.queues (fun _ => ?_) id rfl)
      rw [List.length_append]
      exact hlt

theorem permits_trySend (accept : AcceptQueue) (flow : StackFlow) :
    (accept.trySend flow).permits = accept.permits := by
  unfold AcceptQueue.trySend
  split <;> rfl

theorem Effect.offered (flow : StackFlow) :
    Effects S w { w with accept := w.accept.trySend flow } :=
  .single (.queues id id (permits_trySend _ _))

theorem reportTcpRefusal_effects (tuple : NetworkTuple) :
    Effects S w (w.reportTcpRefusal tuple) := by
  unfold reportTcpRefusal
  split
  · exact .refl
  · exact Effect.offered _

theorem processTcp_entry (stage : w.stage = .waiting) (bytes : List UInt8) (tuple : NetworkTuple)
    (header : TcpHeader) (now : Nat) :
    ∃ x, Entry S parse w x ∧ Effects S x (w.processTcp S bytes tuple header now).2 := by
  have hrefused := (reportTcpRefusal_effects (S := S) (w := w) tuple).trans
    (Effect.queued bytes tuple)
  unfold processTcp
  split
  · next hopens =>
    rw [Bool.and_eq_true, isNone_iff_eq_none] at hopens
    cases hfull : w.sessionsFull with
    | true => exact ⟨w, .none, hrefused⟩
    | false =>
      rcases admitTcpFlow_cases S w tuple now with
        ⟨-, heq⟩ | ⟨-, -, heq⟩ | ⟨hmay, socket, hlisten, heq⟩
      · rw [heq]
        exact ⟨w, .none, hrefused⟩
      · rw [heq]
        exact ⟨w, .none, .refl⟩
      · rw [heq]
        exact ⟨_, .admitted now stage hopens.1 hfull hmay hlisten, Effect.queued bytes tuple⟩
  · exact ⟨w, .none, Effect.queued bytes tuple⟩

theorem processUdp_effects (tuple : NetworkTuple) : Effects S w (w.processUdp tuple) := by
  fun_cases processUdp w tuple with
  | case4 hnone hfull =>
    exact .single (.opened (not_isSome_iff_eq_none.mp hnone) (Bool.not_eq_true _ ▸ hfull))
  | _ => exact .refl

theorem processIngressPacket_entry (stage : w.stage = .waiting) (bytes : List UInt8) (now : Nat) :
    ∃ x, Entry S parse w x ∧ Effects S x (w.processIngressPacket S parse bytes now).2 := by
  unfold processIngressPacket
  split
  · exact ⟨w, .none, Effect.offered _⟩
  · split
    · exact processTcp_entry stage bytes _ _ now
    · exact ⟨w, .none, processUdp_effects _⟩
    · exact ⟨w, .none, Effect.offered _⟩

/-- A session is not served at all, or it is brought up to its publication, announced and
then worked on. -/
theorem serviceTcpFlow_effects (S : Smoltcp Socket) (w : Actor Socket) (tuple : NetworkTuple)
    (now : Nat) : Effects S w (w.serviceTcpFlow S tuple now).2 := by
  unfold serviceTcpFlow
  cases hserved : w.served tuple with
  | none => exact .refl
  | some p =>
    dsimp only
    have hserves := Serves.of_follows (w := w) (.expire (S := S) p w.config.tcpConfig now)
      (.work _ w.config.mtu now)
    generalize p.expire S w.config.tcpConfig now = alive at hserves ⊢
    generalize (alive.publish S).work S w.config.mtu now = worked at hserves ⊢
    have hput : (w.announce S alive).putBack tuple worked =
        { w with
          sockets := w.sockets.set worked.session.handle (some worked.socket)
          tcpFlows := w.tcpFlows.insert tuple worked.session
          flows := w.flows.set worked.session.control worked.flow
          accept := (w.announce S alive).accept
          publications := (w.announce S alive).publications } := by
      unfold announce
      split <;> rfl
    rw [hput]
    exact .single (.served hserved hserves)

/-- Only the deadline may differ besides. -/
theorem serviceAndReap_effects (S : Smoltcp Socket) (w : Actor Socket) (tuple : NetworkTuple)
    (now : Nat) : ∃ x deadline, Effects S w x ∧
      w.serviceAndReapTcpFlow S tuple now = { x with nextTcpDeadline := deadline } := by
  have hserved := serviceTcpFlow_effects S w tuple now
  unfold serviceAndReapTcpFlow
  dsimp only
  split
  · exact ⟨_, _, hserved.tail (.reaped tuple), rfl⟩
  · split
    · exact ⟨_, _, hserved, rfl⟩
    · exact ⟨_, _, hserved, rfl⟩

/-! ## One step of the loop -/

theorem Entry.serves (h : Entry S parse w x) (tuple : NetworkTuple) (now : Nat)
    (stage : Ref.Netstack.Stage) (didWork scanTcp : Bool) (scanQueue : List NetworkTuple)
    (readErrors : Nat) (udpUp rawUp : List (List UInt8)) :
    Steps S parse w (paced (x.serviceAndReapTcpFlow S tuple now) stage didWork scanTcp scanQueue
      (x.serviceAndReapTcpFlow S tuple now).nextTcpDeadline readErrors udpUp rawUp) := by
  obtain ⟨y, deadline, heffects, heq⟩ := serviceAndReap_effects S x tuple now
  rw [heq]
  exact h.steps heffects ..

theorem joinTask_effect {index : Nat} (h : w.joinTask index = some x) : Effects S w x := by
  obtain ⟨task, htask, h⟩ := bind_eq_some_iff.mp h
  split at h
  · cases h
    exact .single (.joined htask)
  · cases h

theorem Effect.written {packet : List UInt8} {rest : List (List UInt8)}
    (h : w.egress = packet :: rest) : Effects S w { w with egress := rest } := by
  refine .single (.queues id (fun hle => ?_) rfl)
  rw [h, List.length_cons] at hle
  omega

theorem Effect.uplink (packet : List UInt8) (room : w.canEnqueueEgress = true) :
    Effects S w { w with egress := w.egress ++ [packet] } := by
  have hlt : w.egress.length < packetQueueDepth := of_decide_eq_true room
  refine .single (.queues id (fun _ => ?_) rfl)
  rw [List.length_append]
  exact hlt

variable (S) (parse w)

theorem select_steps (hstage : w.stage = .waiting) (input : Input) :
    Steps S parse w (w.select S parse input) := by
  have hread : ∀ {bytes : List UInt8} {r w'},
      w.processIngressPacket S parse bytes input.now = (r, w') →
      ∃ x, Entry S parse w x ∧ Effects S x w' := by
    intro bytes r w' heq
    obtain ⟨x, hentry, heffects⟩ : ∃ x, Entry S parse w x ∧
        Effects S x (w.processIngressPacket S parse bytes input.now).2 :=
      processIngressPacket_entry hstage bytes input.now
    rw [heq] at heffects
    exact ⟨x, hentry, heffects⟩
  fun_cases Actor.select S parse w input with
  | case5 _ _ _ h => exact Entry.none.steps (Effect.written h) ..
  | case9 _ _ _ _ heq =>
    obtain ⟨x, hentry, heffects⟩ := hread heq
    exact hentry.steps heffects ..
  | case10 _ _ _ _ _ heq =>
    obtain ⟨x, hentry, heffects⟩ := hread heq
    exact hentry.steps heffects ..
  | case15 _ _ _ _ h => exact Entry.none.steps (.single (.command h)) ..
  | case17 _ packet _ _ hroom => exact Entry.none.steps (Effect.uplink packet hroom) ..
  | case20 _ packet _ _ hroom => exact Entry.none.steps (Effect.uplink packet hroom) ..
  | case22 _ _ _ h => exact Entry.none.steps (joinTask_effect h) ..
  | _ => exact Entry.none.steps .refl ..

theorem advance_steps (input : Input) : Steps S parse w (w.advance S parse input) := by
  have hpolled : Effect S w { w with
      sockets := (pollEgress S input.now w.sockets w.egress).1
      egress := (pollEgress S input.now w.sockets w.egress).2 } := .polled input.now
  fun_cases Actor.advance S parse w input with
  | case5 _ _ _ _ h => exact Entry.none.steps (Effect.written h) ..
  | case10 _ _ _ _ _ h => exact Entry.none.steps (.single (.command h)) ..
  | case11 => exact Entry.none.serves _ input.now ..
  | case13 _ _ _ h => exact Entry.none.steps (joinTask_effect h) ..
  | case16 _ packet _ _ hroom => exact Entry.none.steps (Effect.uplink packet hroom) ..
  | case19 _ packet _ _ hroom => exact Entry.none.steps (Effect.uplink packet hroom) ..
  | case24 _ hstage hroom _ _ h =>
    rw [Bool.not_eq_true', Bool.not_eq_false] at hroom
    exact (Entry.delivered input.now hstage hroom h).serves _ input.now ..
  | case27 _ _ _ _ _ heq | case28 _ _ _ _ _ heq =>
    rw [heq] at hpolled
    exact Entry.none.steps (.single hpolled) ..
  | case35 => exact Entry.none.serves _ input.now ..
  | case36 hstage => exact select_steps S parse w hstage input
  | case37 => exact Entry.none.serves _ input.now ..
  | _ => exact Entry.none.steps .refl ..

end Loop

end Foxcore.Proofs.Netstack
