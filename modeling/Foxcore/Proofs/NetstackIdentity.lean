import Foxcore.Lib.Calls
import Foxcore.Proofs.NetstackStep

/-!
# Which connection a flow is

Every session has a socket of its own, in a slot no other session has, and that socket is
unconnected or connected as the session's tuple says (`Own`). Serving a session and polling
the interface make no connections, so this is lost only where a segment reaches a socket:
there a listening socket becomes a connection of the segment's sender. The interface tries
the slots from the lowest, so the socket that takes a SYN is the first that listens on its
destination, and the condition is that this one is the session of the SYN.
-/

namespace Foxcore.Proofs.Netstack

open Lib Ref.Netstack Ref.Netstack.Actor Spec.Netstack List Option

variable {Socket : Type} {S : Smoltcp Socket} {parse : List UInt8 → Option NetworkPacket}
  {w w' : Actor Socket}

variable {slot : Nat} {socket : Socket} {tuple : NetworkTuple}

/-! ## Slots -/

section Slots

variable {sockets : List (Option Socket)}

theorem getSocket_eq_some :
    getSocket sockets slot = some socket ↔ sockets[slot]? = some (some socket) := by
  unfold getSocket
  cases sockets[slot]? <;> simp

theorem getSocket_set_self (h : getSocket sockets slot = some socket) (next : Option Socket) :
    getSocket (sockets.set slot next) slot = next := by
  obtain ⟨hlt, -⟩ := List.getElem?_eq_some_iff.mp (getSocket_eq_some.mp h)
  unfold getSocket
  rw [getElem?_set_self hlt]
  rfl

theorem getSocket_set_ne {other : Nat} (h : other ≠ slot) (next : Option Socket) :
    getSocket (sockets.set slot next) other = getSocket sockets other := by
  unfold getSocket
  rw [getElem?_set_ne (Ne.symm h)]

/-- A new socket gets a slot that was free, and the others stay where they are. -/
theorem addSocket_spec (sockets : List (Option Socket)) (socket : Socket) :
    getSocket sockets (addSocket sockets socket).1 = none ∧
    getSocket (addSocket sockets socket).2 (addSocket sockets socket).1 = some socket ∧
    ∀ slot, slot ≠ (addSocket sockets socket).1 →
      getSocket (addSocket sockets socket).2 slot = getSocket sockets slot := by
  unfold addSocket
  split
  · next slot hfind =>
    obtain ⟨hlt, hnone, -⟩ := findIdx?_eq_some_iff_getElem.mp hfind
    refine ⟨?_, ?_, fun other hne => getSocket_set_ne hne _⟩
    · rw [getSocket, getElem?_eq_getElem hlt, isNone_iff_eq_none.mp hnone]
      rfl
    · rw [getSocket, getElem?_set_self hlt]
      rfl
  · simp only [getSocket]
    grind

/-- Polling the interface leaves every socket in its slot. -/
theorem getSocket_pollEgress (hS : Endpoints S) (now : Nat) (sockets : List (Option Socket))
    (egress : List (List UInt8)) (h : getSocket sockets slot = some socket) :
    ∃ next, getSocket (pollEgress S now sockets egress).1 slot = some next ∧
      (next = socket ∨ Keeps S socket next) := by
  rw [getSocket_eq_some] at h
  suffices hslot : ∃ next, (pollEgress S now sockets egress).1[slot]? = some (some next) ∧
      (next = socket ∨ Keeps S socket next) by
    obtain ⟨next, hnext, hkeeps⟩ := hslot
    exact ⟨next, getSocket_eq_some.mpr hnext, hkeeps⟩
  induction sockets generalizing egress slot with
  | nil => cases h
  | cons entry rest ih =>
    cases entry with
    | none =>
      cases slot with
      | zero => cases h
      | succ => exact ih egress h
    | some first =>
      unfold pollEgress
      split
      · cases slot with
        | zero =>
          obtain rfl := some.inj (some.inj h)
          exact ⟨_, rfl, .inr (hS.dispatch first now)⟩
        | succ => exact ih _ h
      · exact ⟨socket, h, .inl rfl⟩

/-- The socket that takes a SYN, if it listens, is the first that listens there. -/
theorem firstListener_of_acceptor (hS : Endpoints S) {segment : Segment}
    (hacceptor : acceptor S sockets segment = some slot)
    (hsocket : getSocket sockets slot = some socket) (hstate : S.state socket = .listen)
    (hlisten : S.listenEndpoint socket = some segment.dst) (hsyn : segment.header.syn = true)
    (hack : segment.header.ack = false) : firstListener S sockets segment.dst = some slot := by
  obtain ⟨hlt, -, hbefore⟩ := findIdx?_eq_some_iff_getElem.mp hacceptor
  refine findIdx?_eq_some_iff_getElem.mpr ⟨hlt, ?_, ?_⟩
  · have hentry := getSocket_eq_some.mp hsocket
    rw [getElem?_eq_getElem hlt] at hentry
    rw [some.inj hentry]
    exact decide_eq_true ⟨hstate, hlisten⟩
  · intro other hother
    have hrefused := hbefore other hother
    -- a listener before it would have taken the SYN
    cases hentry : sockets[other] with
    | none => exact Bool.false_ne_true
    | some =>
      rw [hentry] at hrefused
      intro hlistens
      obtain ⟨hst, hend⟩ := of_decide_eq_true hlistens
      exact hrefused (hS.takes hst hend hsyn hack)

end Slots

/-! ## The socket of a session -/

/-- Unconnected, or the connection of the tuple; and it listens nowhere else. -/
structure Own (S : Smoltcp Socket) (tuple : NetworkTuple) (socket : Socket) : Prop where
  connection : S.remoteEndpoint socket = none ∨
    S.remoteEndpoint socket = some tuple.src ∧ S.localEndpoint socket = some tuple.dst
  listening : S.listenEndpoint socket = none ∨ S.listenEndpoint socket = some tuple.dst

theorem Own.keeps {next : Socket} (h : Own S tuple socket) (hkeeps : Keeps S socket next) :
    Own S tuple next := by
  obtain ⟨hconnection, hlistening⟩ := h
  obtain ⟨hconnection', hlistening'⟩ := hkeeps
  constructor <;> grind

theorem Own.moves (hS : Endpoints S) {first last : Socket} (h : Own S tuple first)
    (hmoves : Moves S first last) : Own S tuple last := by
  induction hmoves with
  | refl => exact h
  | abort _ ih => exact ih.keeps (hS.abort _)
  | close _ ih => exact ih.keeps (hS.close _)
  | recv _ hrecv ih => exact ih.keeps (hS.recv hrecv)
  | send _ hsend ih => exact ih.keeps (hS.send hsend)

def names (flows : List TcpFlow) : List NetworkTuple := flows.map fun flow => flow.control.tuple

structure Bound (S : Smoltcp Socket) (w : Actor Socket) : Prop where
  named : ∀ tuple session, w.tcpFlows.lookup tuple = some session →
    (names w.flows)[session.control]? = some tuple
  housed : ∀ tuple session, w.tcpFlows.lookup tuple = some session →
    ∃ socket, getSocket w.sockets session.handle = some socket ∧ Own S tuple socket
  apart : ∀ tuple tuple' session session', w.tcpFlows.lookup tuple = some session →
    w.tcpFlows.lookup tuple' = some session' → session.handle = session'.handle →
    tuple = tuple'
  published : ∀ publication ∈ w.publications,
    publication.localEndpoint = some publication.tuple.dst ∧
      publication.remoteEndpoint = some publication.tuple.src

theorem Bound.congr (h : Bound S w) (hsockets : w'.sockets = w.sockets)
    (htable : w'.tcpFlows = w.tcpFlows) (hnames : names w'.flows = names w.flows)
    (hpublications : w'.publications = w.publications) : Bound S w' := by
  obtain ⟨hnamed, hhoused, hapart, hpublished⟩ := h
  constructor <;> grind

theorem names_set {flows : List TcpFlow} {id : Nat} {flow next : TcpFlow}
    (h : flows[id]? = some flow) (hsame : next.control.tuple = flow.control.tuple) :
    names (flows.set id next) = names flows := by
  refine ext_getElem? fun i => ?_
  simp only [names]
  grind

theorem names_modify (flows : List TcpFlow) (id : Nat) (f : TcpFlow → TcpFlow)
    (hsame : ∀ flow, (f flow).control.tuple = flow.control.tuple) :
    names (flows.modify id f) = names flows := by
  refine ext_getElem? fun i => ?_
  simp only [names]
  grind

/-! ## Service -/

theorem bound_served (hS : Endpoints S) (h : Bound S w) {p q : Served Socket} {accept : AcceptQueue}
    {publications : List Publication} (hserved : w.served tuple = some p)
    (hserves : Serves S w p q accept publications) :
    Bound S
      { w with
        sockets := w.sockets.set q.session.handle (some q.socket)
        tcpFlows := w.tcpFlows.insert tuple q.session
        flows := w.flows.set q.session.control q.flow
        accept
        publications } := by
  obtain ⟨hlook, hsocket, hflow⟩ := served_eq_some hserved
  obtain ⟨socket, hsocket', hown⟩ := h.housed tuple p.session hlook
  cases hsocket'.symm.trans hsocket
  have hname : p.flow.control.tuple = tuple := by
    have hnamed := h.named tuple p.session hlook
    unfold names at hnamed
    rw [getElem?_map, hflow] at hnamed
    exact some.inj hnamed
  -- a session that is found now has the slot and the flow it had before
  have hback : ∀ tuple' session',
      (w.tcpFlows.insert tuple q.session).lookup tuple' = some session' →
      ∃ before, w.tcpFlows.lookup tuple' = some before ∧
        session'.handle = before.handle ∧ session'.control = before.control := by
    grind [HashMap.lookup_insert, hserves.handle, hserves.control]
  refine ⟨?_, ?_, ?_, ?_⟩
  · intro tuple' session' hfound
    obtain ⟨before, hbefore, -, hsamecontrol⟩ := hback tuple' session' hfound
    rw [hserves.control, names_set hflow hserves.same.tuple, hsamecontrol]
    exact h.named tuple' before hbefore
  · intro tuple' session' hfound
    obtain ⟨before, hbefore, hsamehandle, -⟩ := hback tuple' session' hfound
    rw [hserves.handle, hsamehandle]
    by_cases heq : before.handle = p.session.handle
    · obtain rfl := h.apart tuple' tuple before p.session hbefore hlook heq
      rw [heq]
      exact ⟨q.socket, getSocket_set_self hsocket _, hown.moves hS hserves.moves⟩
    · rw [getSocket_set_ne heq]
      exact h.housed tuple' before hbefore
  · intro tuple₁ tuple₂ session₁ session₂ hfound₁ hfound₂ heq
    obtain ⟨before₁, hbefore₁, hhandle₁, -⟩ := hback tuple₁ session₁ hfound₁
    obtain ⟨before₂, hbefore₂, hhandle₂, -⟩ := hback tuple₂ session₂ hfound₂
    exact h.apart tuple₁ tuple₂ before₁ before₂ hbefore₁ hbefore₂
      (hhandle₁.symm.trans (heq.trans hhandle₂))
  · rcases hserves.published with ⟨-, -, -, rfl⟩ | ⟨alive, hmoves, hstate, -, -, -, -, rfl⟩
    · exact h.published
    · intro publication hmem
      rcases mem_append.mp hmem with hold | hnew
      · exact h.published publication hold
      · obtain rfl := mem_singleton.mp hnew
        rcases (hown.moves hS hmoves).connection with hnone | ⟨hremote, hlocal⟩
        · exact absurd hnone (hS.established hstate)
        · exact ⟨hname ▸ hlocal, hname ▸ hremote⟩

theorem bound_reap (h : Bound S w) (tuple : NetworkTuple) : Bound S (w.reap tuple) := by
  fun_cases reap w tuple with
  | case1 => exact h
  | case2 session hlook =>
    have hnames := names_modify w.flows session.control
      (fun flow =>
        { flow with control := { flow.control with closed := true, socketReadBytes := 0 } })
      fun _ => rfl
    have hback : ∀ tuple' session', (w.tcpFlows.erase tuple).lookup tuple' = some session' →
        tuple' ≠ tuple ∧ w.tcpFlows.lookup tuple' = some session' := by
      grind [HashMap.lookup_erase]
    refine ⟨?_, ?_, ?_, h.published⟩
    · intro tuple' session' hfound
      rw [hnames]
      exact h.named tuple' session' (hback tuple' session' hfound).2
    · intro tuple' session' hfound
      obtain ⟨hne, hfound'⟩ := hback tuple' session' hfound
      have hslot : session'.handle ≠ session.handle := fun heq =>
        hne (h.apart tuple' tuple session' session hfound' hlook heq)
      rw [getSocket_set_ne hslot]
      exact h.housed tuple' session' hfound'
    · intro tuple₁ tuple₂ session₁ session₂ hfound₁ hfound₂ heq
      exact h.apart tuple₁ tuple₂ session₁ session₂ (hback _ _ hfound₁).2
        (hback _ _ hfound₂).2 heq

/-! ## Admission and delivery -/

theorem bound_withSession (hS : Endpoints S) (h : Bound S w) {receiveBytes transmitBytes : Nat}
    (hlisten : S.listen receiveBytes transmitBytes tuple.dst = some socket) (now : Nat) :
    Bound S (w.withSession tuple now socket) := by
  obtain ⟨hfree, hadded, hothers⟩ := addSocket_spec w.sockets socket
  obtain ⟨hremote, hlistening⟩ := hS.listen hlisten
  -- the slot of an earlier session was not free
  have hslot : ∀ tuple' session', w.tcpFlows.lookup tuple' = some session' →
      session'.handle ≠ (addSocket w.sockets socket).1 := by
    intro tuple' session' hfound heq
    obtain ⟨other, hother, -⟩ := h.housed tuple' session' hfound
    rw [heq, hfree] at hother
    cases hother
  have hcases : ∀ tuple' session',
      (w.withSession tuple now socket).tcpFlows.lookup tuple' = some session' →
      (tuple' = tuple ∧ session'.handle = (addSocket w.sockets socket).1 ∧
        session'.control = w.flows.length) ∨
      (tuple' ≠ tuple ∧ w.tcpFlows.lookup tuple' = some session') := by
    grind [withSession, HashMap.lookup_insert]
  refine ⟨?_, ?_, ?_, h.published⟩
  · intro tuple' session' hfound
    show (names (w.flows ++ [_]))[session'.control]? = _
    unfold names
    rw [map_append]
    rcases hcases tuple' session' hfound with ⟨rfl, -, hcontrol⟩ | ⟨-, hold⟩
    · rw [hcontrol, ← length_map]
      exact getElem?_concat_length
    · exact getElem?_concat_of_some (h.named tuple' session' hold)
  · intro tuple' session' hfound
    show ∃ other, getSocket (addSocket w.sockets socket).2 session'.handle = some other ∧ _
    rcases hcases tuple' session' hfound with ⟨rfl, hhandle, -⟩ | ⟨-, hold⟩
    · rw [hhandle]
      exact ⟨socket, hadded, .inl hremote, .inr hlistening⟩
    · rw [hothers _ (hslot tuple' session' hold)]
      exact h.housed tuple' session' hold
  · intro tuple₁ tuple₂ session₁ session₂ hfound₁ hfound₂ heq
    have hapart := h.apart tuple₁ tuple₂ session₁ session₂
    rcases hcases tuple₁ session₁ hfound₁ with ⟨rfl, hhandle₁, -⟩ | ⟨-, hold₁⟩ <;>
      rcases hcases tuple₂ session₂ hfound₂ with ⟨rfl, hhandle₂, -⟩ | ⟨-, hold₂⟩ <;> grind

/-- A segment that reaches a socket leaves it the connection of its session, if a SYN
reaches the listener of its own session. -/
theorem bound_deliver (hS : Endpoints S) (h : Bound S w) (now : Nat) (packet : IngressPacket)
    (hfirst : FindsOwn S parse w packet) : Bound S (deliver S parse now w packet) := by
  fun_cases deliver S parse now w packet with
  | case1 => exact h
  | case3 segment hsegment hvalid slot socket hfound =>
    rw [Bool.not_eq_true', Bool.not_eq_false] at hvalid
    obtain ⟨slot', hacceptor, hmap⟩ := bind_eq_some_iff.mp hfound
    obtain ⟨socket', hsocket, hpair⟩ := map_eq_some_iff.mp hmap
    cases hpair
    have haccepts : S.accepts socket segment = true := by
      obtain ⟨hlt, hyes, -⟩ := findIdx?_eq_some_iff_getElem.mp hacceptor
      have hentry := getSocket_eq_some.mp hsocket
      rw [getElem?_eq_getElem hlt] at hentry
      rw [some.inj hentry] at hyes
      exact hyes
    have hends : segment.src = packet.tuple.src ∧ segment.dst = packet.tuple.dst := by
      unfold segmentOf at hsegment
      split at hsegment <;> cases hsegment
      exact ⟨rfl, rfl⟩
    -- the session whose socket this is keeps it as its own
    have hnext : ∀ tuple session, w.tcpFlows.lookup tuple = some session →
        session.handle = slot → Own S tuple socket →
        Own S tuple (S.process socket now segment).1 := by
      intro tuple session hlook hhandle hown
      rcases hS.process now haccepts with
        hkeeps | ⟨hstate, hlisten, hsyn, hack, hremote, hlocal, hlistening⟩
      · exact hown.keeps hkeeps
      · obtain ⟨session', hlook', hhandle'⟩ := hfirst segment hsegment hvalid hsyn hack
          slot (firstListener_of_acceptor hS hacceptor hsocket hstate hlisten hsyn hack)
        obtain rfl := h.apart tuple packet.tuple session session' hlook hlook'
          (hhandle.trans hhandle'.symm)
        exact ⟨.inr ⟨hends.1 ▸ hremote, hends.2 ▸ hlocal⟩, by grind⟩
    refine ⟨h.named, ?_, h.apart, h.published⟩
    intro tuple session hlook
    obtain ⟨before, hbefore, hown⟩ := h.housed tuple session hlook
    by_cases heq : session.handle = slot
    · rw [heq] at hbefore ⊢
      cases hbefore.symm.trans hsocket
      exact ⟨_, getSocket_set_self hsocket _, hnext tuple session hlook heq hown⟩
    · rw [getSocket_set_ne heq]
      exact ⟨before, hbefore, hown⟩
  | _ => exact h.congr rfl rfl rfl rfl

/-! ## Steps and runs -/

theorem bound_beginService (h : Bound S w) (tuple : NetworkTuple) :
    Bound S (w.beginService tuple) := by
  unfold beginService
  split
  · exact h
  · exact h.congr rfl rfl (names_modify _ _ _ fun _ => rfl) rfl

theorem bound_entry (hS : Endpoints S) (h : Bound S w) (input : Input)
    (hok : OwnListener S parse w (.advance input)) {x : Actor Socket} (hx : Entry S parse w x) :
    Bound S x := by
  cases hx with
  | none => exact h
  | @delivered packet rest left now hstage _ heq =>
    have hrest : Bound S { w with ingress := rest } := h.congr rfl rfl rfl rfl
    have hown : FindsOwn S parse w packet := by
      refine hok packet ?_
      unfold nextDelivery
      rw [hstage, heq]
      rfl
    exact bound_deliver hS hrest now packet hown
  | admitted now _ _ _ _ hlisten => exact bound_withSession hS h hlisten now

theorem bound_effect (hS : Endpoints S) {x y : Actor Socket} (h : Bound S x) (hy : Effect S x y) :
    Bound S y := by
  cases hy with
  | queues => exact h.congr rfl rfl rfl rfl
  | polled now =>
    refine ⟨h.named, ?_, h.apart, h.published⟩
    intro tuple session hlook
    obtain ⟨socket, hsocket, hown⟩ := h.housed tuple session hlook
    obtain ⟨next, hnext, hkept⟩ := getSocket_pollEgress hS now x.sockets x.egress hsocket
    refine ⟨next, hnext, ?_⟩
    rcases hkept with rfl | hkeeps
    · exact hown
    · exact hown.keeps hkeeps
  | @command tuple id rest =>
    have hrest : Bound S { x with commands := rest } := h.congr rfl rfl rfl rfl
    exact bound_beginService hrest tuple
  | served hserved hserves => exact bound_served hS h hserved hserves
  | reaped tuple => exact bound_reap h tuple
  | opened _ _ | joined _ => exact h.congr rfl rfl rfl rfl

theorem bound_swapScheduled (h : Bound S w) (id : Nat) : Bound S (w.swapScheduled id) := by
  fun_cases swapScheduled w id with
  | case3 => exact h.congr rfl rfl rfl rfl
  | case4 flow hflow => exact h.congr rfl rfl (names_set hflow rfl) rfl
  | _ => exact h

theorem bound_trySendCommand (h : Bound S w) (id : Nat) : Bound S (w.trySendCommand id) := by
  fun_cases trySendCommand w id with
  | case3 => exact h.congr rfl rfl rfl rfl
  | case4 flow hflow => exact h.congr rfl rfl (names_set hflow rfl) rfl
  | _ => exact h

theorem bound_call (h : Bound S w) (id : Nat) (call : Call) : Bound S (w.call id call) := by
  fun_cases Actor.call w id call with
  | case3 flow hflow =>
    exact h.congr rfl rfl (names_set hflow (same_callFlow flow call).tuple) rfl
  | _ => exact h

theorem bound_apply (hS : Endpoints S) (h : Bound S w) (a : Action)
    (hok : OwnListener S parse w a) : Bound S (w.apply S parse a) := by
  cases a with
  | advance input =>
    exact (advance_steps S parse w input).keeps (bound_entry hS h input hok) (bound_effect hS)
      fun hy => hy.congr rfl rfl rfl rfl
  | call id call => exact unless_stopped h (bound_call h id call)
  | swap id => exact unless_stopped h (bound_swapScheduled h id)
  | send id => exact unless_stopped h (bound_trySendCommand h id)
  | uplinkUdp _ | uplinkRaw _ | accepted | acceptorGone | udpDropped _ =>
    exact h.congr rfl rfl rfl rfl

theorem bound_initial (h : w.Initial) : Bound S w := by
  obtain ⟨config, capacity, rfl⟩ := h
  have hempty : ∀ tuple session, (∅ : HashMap NetworkTuple TcpSession).lookup tuple ≠
      some session := by
    intro tuple session hfound
    cases hfound
  refine ⟨fun tuple session hfound => absurd hfound (hempty tuple session),
    fun tuple session hfound => absurd hfound (hempty tuple session),
    fun tuple _ session _ hfound => absurd hfound (hempty tuple session), ?_⟩
  intro publication hmem
  cases hmem

/-- In every run in which a SYN only ever finds the listener of its own session first, each
flow is the connection it claims to be. -/
theorem flows_genuine (hS : Endpoints S)
    (h : Reach Actor.Initial (Actor.apply S parse) (OwnListener S parse) w) : Genuine S w := by
  have hbound : Bound S w :=
    Reach.invariant (fun _ => bound_initial) (fun _ a hw hok => bound_apply hS hw a hok) h
  refine ⟨hbound.published, fun tuple session socket remote hlook hsocket hremote => ?_⟩
  obtain ⟨socket', hsocket', hown⟩ := hbound.housed tuple session hlook
  cases hsocket'.symm.trans hsocket
  rcases hown.connection with hnone | ⟨hsrc, hdst⟩
  · rw [hnone] at hremote
    cases hremote
  · exact ⟨some.inj (hremote.symm.trans hsrc), hdst⟩

/-! ## The small smoltcp keeps to its endpoints -/

theorem plain_keeps_refl (socket : PlainSocket) : Keeps plain socket socket :=
  ⟨.inr ⟨rfl, rfl⟩, .inr rfl⟩

theorem plain_keeps_closed (socket : PlainSocket) : Keeps plain socket .closed :=
  ⟨.inl rfl, .inl rfl⟩

theorem plain_endpoints : Endpoints plain where
  listen := by
    intro receiveBytes transmitBytes endpoint socket h
    have hsome : (if endpoint.port = 0 then none else some (PlainSocket.listening endpoint)) =
      some socket := h
    split at hsome
    · cases hsome
    · cases hsome
      exact ⟨rfl, rfl⟩
  established := by
    intro socket hstate
    cases socket with
    | closed | listening endpoint => cases hstate
    | connected => exact nofun
  abort := plain_keeps_closed
  close := by
    intro socket
    cases socket <;> exact ⟨.inr ⟨rfl, rfl⟩, .inr rfl⟩
  recv := by
    intro socket n bytes next h
    cases h
    cases socket <;> exact ⟨.inr ⟨rfl, rfl⟩, .inr rfl⟩
  send := by
    intro socket bytes n next h
    cases h
    exact plain_keeps_refl _
  dispatch := fun socket _ => plain_keeps_refl socket
  takes := by
    intro socket segment hstate hlisten hsyn hack
    cases socket with
    | closed => cases hstate
    | listening =>
      cases hlisten
      show (decide (segment.dst = segment.dst) && segment.header.syn && !segment.header.ack) = _
      rw [hsyn, hack, decide_eq_true rfl]
      rfl
    | connected established closing =>
      cases established <;> cases closing <;> cases hstate
  process := by
    intro socket segment now haccepts
    cases socket with
    | closed => cases haccepts
    | listening endpoint =>
      have hyes : (decide (endpoint = segment.dst) && segment.header.syn &&
        !segment.header.ack) = true := haccepts
      simp only [Bool.and_eq_true, decide_eq_true_eq, Bool.not_eq_true'] at hyes
      obtain ⟨⟨rfl, hsyn⟩, hack⟩ := hyes
      exact .inr ⟨rfl, rfl, hsyn, hack, rfl, rfl, .inr rfl⟩
    | connected =>
      left
      show Keeps plain _ (if segment.header.rst then PlainSocket.closed else _)
      split
      · exact plain_keeps_closed _
      · exact ⟨.inr ⟨rfl, rfl⟩, .inr rfl⟩

/-- Two connections to one destination, one after the other. -/
def inTurn : List Actor.Action :=
  idleRound ++ packetRounds [1, 7, 9, 1] ++ packetRounds [1, 8, 9, 1] ++
    packetRounds [1, 8, 9, 2] ++ packetRounds [1, 7, 9, 2]

theorem inTurn_genuine :
    ((inTurn.foldl (Actor.apply plain plainParse) started).publications.map
        fun publication => publication.tuple.src.port) = [8, 7] ∧
      Genuine plain (inTurn.foldl (Actor.apply plain plainParse) started) :=
  ⟨by decide +kernel, flows_genuine plain_endpoints
    (Reach.run (.start ⟨_, _, rfl⟩) (by decide +kernel))⟩

/-! ## A SYN that finds another session's listener -/

/-- The stack with room for one flow in its accept queue. -/
def oneAccept : Actor PlainSocket := { started with accept := { capacity := 1 } }

/-- A step while the writer takes nothing. -/
def stalled : Actor.Action := .advance { writer := .full }

/-- The egress queue fills up and stays full, so nothing is taken from the ingress queue. A
packet that does not parse fills the accept queue; the SYN of 7 is refused for that but
queued. After the acceptor has taken a flow, the SYN of 8 to the same destination is
admitted. -/
def twoQueued : List Actor.Action :=
  List.replicate 256 (.uplinkRaw [0]) ++ List.replicate 276 stalled ++
    .advance { writer := .full, arm := .read [] } :: List.replicate 10 stalled ++
    .advance { writer := .full, arm := .read [1, 7, 9, 1] } :: List.replicate 10 stalled ++
    [.accepted, .advance { writer := .full, arm := .read [1, 8, 9, 1] }]

/-- The writer goes on. The SYN of 7 reaches the listener made for 8, the ACK of 7 completes
that connection, and the timer has it published. -/
def crossed : List Actor.Action :=
  twoQueued ++ List.replicate 278 (.advance {}) ++ packetRounds [1, 7, 9, 2] ++
    .advance { arm := .timer } :: List.replicate 11 (.advance {})

/-- The flow of 8 is published on a socket that is the connection of 7. -/
theorem crossed_not_genuine :
    Endpoints plain ∧
    Reach Actor.Initial (Actor.apply plain plainParse) anyAction
      (crossed.foldl (Actor.apply plain plainParse) oneAccept) ∧
    (crossed.foldl (Actor.apply plain plainParse) oneAccept).publications =
      [{ tuple := ⟨⟨.v4 1, 8⟩, ⟨.v4 2, 9⟩, true⟩
         localEndpoint := some ⟨.v4 2, 9⟩
         remoteEndpoint := some ⟨.v4 1, 7⟩ }] ∧
    ¬Genuine plain (crossed.foldl (Actor.apply plain plainParse) oneAccept) := by
  have hpublished : (crossed.foldl (Actor.apply plain plainParse) oneAccept).publications =
      [{ tuple := ⟨⟨.v4 1, 8⟩, ⟨.v4 2, 9⟩, true⟩
         localEndpoint := some ⟨.v4 2, 9⟩
         remoteEndpoint := some ⟨.v4 1, 7⟩ }] := by decide +kernel
  refine ⟨plain_endpoints, Reach.run (.start ⟨_, _, rfl⟩) (admissible_any _ _ _), hpublished,
    fun hgenuine => ?_⟩
  have hwrong := (hgenuine.published _ (by rw [hpublished]; exact mem_singleton.mpr rfl)).2
  revert hwrong
  decide

end Foxcore.Proofs.Netstack
