import Foxcore.Lib.Calls
import Foxcore.Proofs.NetstackStep

/-!
# The queue of commands

A flow has at most one command under way, in the queue or about to be sent, and its flag is
set while it has. So the sessions could never fill a queue with a place for each of them; it
is commands that outlive their session that might. `Orderly` counts them with the sessions:
together they are never more than there are places.

A session that ends may leave one command behind, which keeps the sum. A new session adds
one, so it must not be admitted while such a command is in the queue, and this is what the
loop sees to (`Calm`): packets are read only after a round that did no work, and that round
found the queue empty and ended no session after it.
-/

namespace Foxcore.Proofs.Netstack

open Lib Ref.Netstack Ref.Netstack.Actor Spec.Netstack List HashMap

variable {Socket : Type} {S : Smoltcp Socket} {parse : List UInt8 → Option NetworkPacket}
  {w w' : Actor Socket}

variable {id : Nat} {tuple : NetworkTuple}

/-- The commands that have outlived their session. -/
def stale (table : HashMap NetworkTuple TcpSession) (commands : List (NetworkTuple × Nat)) :
    List (NetworkTuple × Nat) :=
  commands.filter fun command => (table.lookup command.1).isNone

/-- The flows that have a command under way. -/
def underWay (w : Actor Socket) : List Nat := w.commands.map Prod.snd ++ w.sending

structure Orderly (w : Actor Socket) : Prop where
  owned : ∀ tuple session, w.tcpFlows.lookup tuple = some session →
    ∃ flow, w.flows[session.control]? = some flow ∧ flow.control.tuple = tuple ∧
      (flow.control.dropped = true → flow.gone = true)
  once : (underWay w).Nodup
  flagged : ∀ id ∈ underWay w, ∃ flow, w.flows[id]? = some flow ∧ flow.control.scheduled = true
  addressed : ∀ command ∈ w.commands, ∀ session,
    w.tcpFlows.lookup command.1 = some session → session.control = command.2
  count : w.tcpFlows.len + (stale w.tcpFlows w.commands).length ≤ w.config.maxTcpSessions

/-! ## Room -/

theorem live_iff :
    Live w id ↔ ∃ tuple session, w.tcpFlows.lookup tuple = some session ∧
      session.control = id := by
  simp only [Live, mem_values]
  grind

/-- The tuples of the commands that have a session are pairwise different. -/
theorem Orderly.nodup_tuples (h : Orderly w) :
    ((w.commands.filter fun command => (w.tcpFlows.lookup command.1).isSome).map
      Prod.fst).Nodup := by
  have hids : (w.commands.map Prod.snd).Nodup := (nodup_append.mp h.once).1
  have hcommands : w.commands.Nodup := List.Nodup.of_map _ hids
  refine (hcommands.filter _).map_on ?_
  rintro ⟨tuple, id⟩ hmem ⟨tuple', id'⟩ hmem' heq
  obtain rfl : tuple = tuple' := heq
  obtain ⟨hin, hsome⟩ := mem_filter.mp hmem
  obtain ⟨session, hlook⟩ := Option.isSome_iff_exists.mp hsome
  have hid : id = id' := (h.addressed _ hin session hlook).symm.trans
    (h.addressed _ (mem_filter.mp hmem').1 session hlook)
  rw [hid]

/-- A session without a command in the queue finds room there. -/
theorem Orderly.room (h : Orderly w) {session : TcpSession}
    (hlook : w.tcpFlows.lookup tuple = some session) (hnone : ∀ id, (tuple, id) ∉ w.commands) :
    w.commands.length < w.config.maxTcpSessions := by
  let fresh := (w.commands.filter fun command => (w.tcpFlows.lookup command.1).isSome).map
    Prod.fst
  have hkeys : ∀ key, key ∈ w.tcpFlows.keys ↔ (w.tcpFlows.lookup key).isSome := fun key => by
    rw [AList.lookup_isSome, AList.mem_keys]
  -- with the tuple itself they are still pairwise different keys of the table
  have hnodup : (tuple :: fresh).Nodup := by
    refine nodup_cons.mpr ⟨fun hmem => ?_, h.nodup_tuples⟩
    obtain ⟨⟨tuple', id⟩, hin, rfl⟩ := mem_map.mp hmem
    exact hnone id (mem_filter.mp hin).1
  have hsubset : tuple :: fresh ⊆ w.tcpFlows.keys := by
    intro key hmem
    rcases mem_cons.mp hmem with rfl | hin
    · rw [hkeys, hlook]
      rfl
    · obtain ⟨command, hin', rfl⟩ := mem_map.mp hin
      exact (hkeys _).mpr (mem_filter.mp hin').2
  have hle : (tuple :: fresh).length ≤ w.tcpFlows.len :=
    (subperm_of_subset hnodup hsubset).length_le
  have hsplit : w.commands.length = fresh.length + (stale w.tcpFlows w.commands).length := by
    have hboth := length_eq_length_filter_add (l := w.commands)
      fun command => (w.tcpFlows.lookup command.1).isSome
    rw [length_map]
    simp only [Option.not_isSome] at hboth
    exact hboth
  have hcount := h.count
  rw [length_cons] at hle
  omega

/-! ## Flows and tables that stay in order -/

def SameFlows (flows next : List TcpFlow) : Prop :=
  ∀ (id : Nat) flow, flows[id]? = some flow → ∃ flow', next[id]? = some flow' ∧ Same flow flow'

theorem SameFlows.refl (flows : List TcpFlow) : SameFlows flows flows :=
  fun _ flow h => ⟨flow, h, .refl flow⟩

theorem SameFlows.set {flows : List TcpFlow} {flow next : TcpFlow} (hflow : flows[id]? = some flow)
    (hsame : Same flow next) : SameFlows flows (flows.set id next) := by
  intro id' flow' hflow'
  by_cases heq : id' = id
  · subst heq
    cases hflow.symm.trans hflow'
    exact ⟨next, getElem?_set_of_some hflow, hsame⟩
  · exact ⟨flow', (getElem?_set_ne (Ne.symm heq)).trans hflow', .refl flow'⟩

theorem SameFlows.modify (flows : List TcpFlow) (id : Nat) {f : TcpFlow → TcpFlow}
    (hf : ∀ flow, Same flow (f flow)) : SameFlows flows (flows.modify id f) := by
  intro id' flow hflow
  refine ⟨if id = id' then f flow else flow, ?_, ?_⟩
  · rw [getElem?_modify, hflow]
    rfl
  · split
    · exact hf flow
    · exact .refl flow

theorem SameFlows.owned {flows next : List TcpFlow} (hflows : SameFlows flows next)
    (h : ∃ flow, flows[id]? = some flow ∧ flow.control.tuple = tuple ∧
      (flow.control.dropped = true → flow.gone = true)) :
    ∃ flow, next[id]? = some flow ∧ flow.control.tuple = tuple ∧
      (flow.control.dropped = true → flow.gone = true) := by
  obtain ⟨flow, hflow, htuple, hdropped⟩ := h
  obtain ⟨flow', hflow', hsame⟩ := hflows id flow hflow
  exact ⟨flow', hflow', hsame.tuple.trans htuple, hsame.dropped hdropped⟩

theorem SameFlows.flagged {flows next : List TcpFlow} {ids : List Nat}
    (hflows : SameFlows flows next)
    (h : ∀ id ∈ ids, ∃ flow, flows[id]? = some flow ∧ flow.control.scheduled = true) :
    ∀ id ∈ ids, ∃ flow, next[id]? = some flow ∧ flow.control.scheduled = true := by
  intro id hmem
  obtain ⟨flow, hflow, hflag⟩ := h id hmem
  obtain ⟨flow', hflow', hsame⟩ := hflows id flow hflow
  exact ⟨flow', hflow', hsame.scheduled.trans hflag⟩

section

variable (h : Orderly w)

include h

/-- Nothing about the commands changes, and every session keeps its flow. -/
theorem Orderly.of_table (hflows : SameFlows w.flows w'.flows)
    (hcommands : w'.commands = w.commands) (hsending : w'.sending = w.sending)
    (hconfig : w'.config = w.config) (hlen : w'.tcpFlows.len = w.tcpFlows.len)
    (hback : ∀ tuple session, w'.tcpFlows.lookup tuple = some session →
      ∃ before, w.tcpFlows.lookup tuple = some before ∧ session.control = before.control)
    (hnone : ∀ tuple, (w'.tcpFlows.lookup tuple).isNone = (w.tcpFlows.lookup tuple).isNone) :
    Orderly w' := by
  have hunder : underWay w' = underWay w := by
    unfold underWay
    rw [hcommands, hsending]
  refine ⟨?_, hunder ▸ h.once, hunder ▸ hflows.flagged h.flagged, ?_, ?_⟩
  · intro tuple session hlook
    obtain ⟨before, hbefore, hcontrol⟩ := hback tuple session hlook
    exact hcontrol ▸ hflows.owned (h.owned tuple before hbefore)
  · intro command hmem session hlook
    obtain ⟨before, hbefore, hcontrol⟩ := hback command.1 session hlook
    exact hcontrol.trans (h.addressed command (hcommands ▸ hmem) before hbefore)
  · have hstale : stale w'.tcpFlows w'.commands = stale w.tcpFlows w.commands := by
      rw [hcommands]
      exact congrArg (List.filter · w.commands) (funext fun command => hnone command.1)
    rw [hlen, hstale, hconfig]
    exact h.count

/-- Neither the table nor the commands change. -/
theorem Orderly.of_flows (hflows : SameFlows w.flows w'.flows) (htable : w'.tcpFlows = w.tcpFlows)
    (hcommands : w'.commands = w.commands) (hsending : w'.sending = w.sending)
    (hconfig : w'.config = w.config) : Orderly w' :=
  h.of_table hflows hcommands hsending hconfig (by rw [htable])
    (fun tuple session hlook => ⟨session, htable ▸ hlook, rfl⟩) (fun tuple => by rw [htable])

theorem Orderly.congr (hflows : w'.flows = w.flows) (htable : w'.tcpFlows = w.tcpFlows)
    (hcommands : w'.commands = w.commands) (hsending : w'.sending = w.sending)
    (hconfig : w'.config = w.config) : Orderly w' :=
  h.of_flows (hflows ▸ .refl w.flows) htable hcommands hsending hconfig

/-! ## Service -/

theorem orderly_served {p q : Served Socket} {accept : AcceptQueue}
    {publications : List Publication} (hserved : w.served tuple = some p)
    (hserves : Serves S w p q accept publications) : Orderly
      { w with
        sockets := w.sockets.set q.session.handle (some q.socket)
        tcpFlows := w.tcpFlows.insert tuple q.session
        flows := w.flows.set q.session.control q.flow
        accept
        publications } := by
  obtain ⟨hlook, -, hflow⟩ := served_eq_some hserved
  refine h.of_table ?_ rfl rfl rfl (len_insert_of_some hlook _) ?_ ?_
  · rw [hserves.control]
    exact .set hflow hserves.same
  · have hcontrol := hserves.control
    grind [lookup_insert]
  · grind [lookup_insert]

/-- A session that ends leaves at most one command behind. -/
theorem orderly_reap (tuple : NetworkTuple) : Orderly (w.reap tuple) := by
  fun_cases reap w tuple with
  | case1 => exact h
  | case2 session hlook =>
    have hback : ∀ tuple' session', (w.tcpFlows.erase tuple).lookup tuple' = some session' →
        w.tcpFlows.lookup tuple' = some session' := by grind [lookup_erase]
    have hflows := SameFlows.modify w.flows session.control
      (f := fun flow =>
        { flow with control := { flow.control with closed := true, socketReadBytes := 0 } })
      fun flow => ⟨rfl, rfl, id⟩
    refine ⟨?_, h.once, hflows.flagged h.flagged, ?_, ?_⟩
    · intro tuple' session' hfound
      exact hflows.owned (h.owned tuple' session' (hback _ _ hfound))
    · intro command hmem session' hfound
      exact h.addressed command hmem session' (hback _ _ hfound)
    · show len (w.tcpFlows.erase tuple) +
        (stale (w.tcpFlows.erase tuple) w.commands).length ≤ w.config.maxTcpSessions
      have hlen := len_erase_of_some hlook
      have hcount := h.count
      have hnodup : w.commands.Nodup := List.Nodup.of_map _ (nodup_append.mp h.once).1
      -- what is stale now was so before, or is the command of this session
      have hsubset : stale (w.tcpFlows.erase tuple) w.commands ⊆
          (tuple, session.control) :: stale w.tcpFlows w.commands := by
        rintro ⟨tuple', id⟩ hmem
        obtain ⟨hin, -⟩ := mem_filter.mp hmem
        have hid := h.addressed _ hin session
        grind [lookup_erase, stale]
      have hle := (subperm_of_subset (hnodup.filter _) hsubset).length_le
      rw [length_cons] at hle
      unfold stale at hle hcount ⊢
      omega

/-- A command that is taken clears the flag of the flow that sent it, and of no other. -/
theorem orderly_command {rest : List (NetworkTuple × Nat)}
    (hcommands : w.commands = (tuple, id) :: rest) :
    Orderly ({ w with commands := rest }.beginService tuple) := by
  have hunder : underWay w = id :: underWay { w with commands := rest } := by
    unfold underWay
    rw [hcommands]
    rfl
  have honce := h.once
  rw [hunder, nodup_cons] at honce
  have hrest : ∀ command ∈ rest, command ∈ w.commands := fun command hmem => by
    rw [hcommands]
    exact mem_cons_of_mem _ hmem
  have hstale : (stale w.tcpFlows rest).length ≤ (stale w.tcpFlows w.commands).length := by
    rw [hcommands]
    exact ((sublist_cons_self _ rest).filter _).length_le
  have hcount := h.count
  have hpopped : Orderly { w with commands := rest } := by
    refine ⟨h.owned, honce.2, ?_, ?_, ?_⟩
    · intro id' hmem
      exact h.flagged id' (hunder ▸ mem_cons_of_mem _ hmem)
    · intro command hmem
      exact h.addressed command (hrest command hmem)
    · show w.tcpFlows.len + (stale w.tcpFlows rest).length ≤ w.config.maxTcpSessions
      omega
  unfold beginService
  split
  · exact hpopped
  · next session hlook =>
    have hid : session.control = id :=
      h.addressed (tuple, id) (by rw [hcommands]; exact mem_cons_self) session hlook
    refine ⟨?_, hpopped.once, ?_, hpopped.addressed, hpopped.count⟩
    · intro tuple' session' hfound
      obtain ⟨flow, hflow, htuple, hdropped⟩ := h.owned tuple' session' hfound
      rw [getElem?_modify, hflow]
      exact ⟨_, rfl, by grind⟩
    · intro id' hmem
      obtain ⟨flow, hflow, hflag⟩ := hpopped.flagged id' hmem
      have hne : session.control ≠ id' := fun heq => honce.1 ((hid.symm.trans heq) ▸ hmem)
      exact ⟨flow, (getElem?_modify_ne _ _ hne).trans hflow, hflag⟩

/-! ## Admission -/

theorem orderly_withSession (hnew : w.tcpFlows.lookup tuple = none) (hmay : w.mayAdmit tuple = true)
    (hcalm : stale w.tcpFlows w.commands = []) (now : Nat) (socket : Socket) :
    Orderly (w.withSession tuple now socket) := by
  have hlen := fun session : TcpSession => len_insert_of_none hnew session
  simp only [mayAdmit, Bool.and_eq_true, Bool.not_eq_true', decide_eq_false_iff_not,
    Nat.not_le] at hmay
  have hsome : ∀ command ∈ w.commands, command.1 ≠ tuple := by
    intro command hmem heq
    have hstale : command ∈ stale w.tcpFlows w.commands :=
      mem_filter.mpr ⟨hmem, by rw [heq, hnew]; rfl⟩
    rw [hcalm] at hstale
    cases hstale
  have hold : ∀ id flow, w.flows[id]? = some flow →
      (w.withSession tuple now socket).flows[id]? = some flow := fun id flow hflow =>
    getElem?_concat_of_some hflow
  have hcases : ∀ tuple' session,
      (w.withSession tuple now socket).tcpFlows.lookup tuple' = some session →
      (tuple' = tuple ∧ session.control = w.flows.length) ∨
        (tuple' ≠ tuple ∧ w.tcpFlows.lookup tuple' = some session) := by
    grind [withSession, lookup_insert]
  refine ⟨?_, h.once, ?_, ?_, ?_⟩
  · intro tuple' session hfound
    rcases hcases tuple' session hfound with ⟨heq, hcontrol⟩ | ⟨-, hfound'⟩
    · refine ⟨{ control := { tuple }, writeChunkBytes := max w.config.mtu 1 }, ?_, heq.symm,
        fun hdropped => ?_⟩
      · rw [hcontrol]
        exact getElem?_concat_length
      · cases hdropped
    · obtain ⟨flow, hflow, hrest⟩ := h.owned tuple' session hfound'
      exact ⟨flow, hold _ flow hflow, hrest⟩
  · intro id hmem
    obtain ⟨flow, hflow, hflag⟩ := h.flagged id hmem
    exact ⟨flow, hold id flow hflow, hflag⟩
  · intro command hmem session hfound
    rcases hcases command.1 session hfound with ⟨heq, -⟩ | ⟨-, hfound'⟩
    · exact absurd heq (hsome command hmem)
    · exact h.addressed command hmem session hfound'
  · have hstale : stale (w.withSession tuple now socket).tcpFlows w.commands = [] := by
      refine filter_eq_nil_iff.mpr fun command hmem hnone => ?_
      have hbefore : (w.tcpFlows.lookup command.1).isNone = true := by
        have hafter : ((w.tcpFlows.insert tuple _).lookup command.1).isNone = true := hnone
        rw [lookup_insert, if_neg (hsome command hmem)] at hafter
        exact hafter
      exact filter_eq_nil_iff.mp hcalm command hmem hbefore
    show (w.tcpFlows.insert tuple _).keys.length +
      (stale (w.withSession tuple now socket).tcpFlows w.commands).length ≤
        w.config.maxTcpSessions
    rw [hstale, hlen]
    exact hmay.1.1

theorem orderly_deliver (now : Nat) (packet : IngressPacket) :
    Orderly (deliver S parse now w packet) := by
  fun_cases deliver S parse now w packet with
  | case1 => exact h
  | _ => exact h.congr rfl rfl rfl rfl rfl

theorem orderly_entry (hcalm : w.stage = .waiting → stale w.tcpFlows w.commands = [])
    {x : Actor Socket} (hx : Entry S parse w x) : Orderly x := by
  cases hx with
  | none => exact h
  | @delivered packet rest left now =>
    have hrest : Orderly { w with ingress := rest } := h.congr rfl rfl rfl rfl rfl
    exact orderly_deliver hrest now packet
  | admitted now hstage hnew _ hmay => exact orderly_withSession h hnew hmay (hcalm hstage) now _

omit h in
theorem orderly_effect {x y : Actor Socket} (h : Orderly x) (hy : Effect S x y) : Orderly y := by
  cases hy with
  | queues _ _ _ | polled _ => exact h.congr rfl rfl rfl rfl rfl
  | command heq => exact orderly_command h heq
  | served hserved hserves => exact orderly_served h hserved hserves
  | reaped tuple => exact orderly_reap h tuple
  | opened _ _ | joined _ => exact h.congr rfl rfl rfl rfl rfl

/-! ## The application's calls -/

theorem orderly_call (id : Nat) (call : Call) : Orderly (w.call id call) := by
  fun_cases Actor.call w id call with
  | case3 flow hflow => exact h.of_flows (.set hflow (same_callFlow flow call)) rfl rfl rfl rfl
  | _ => exact h

/-- A flow whose flag is clear has no command under way. -/
theorem orderly_swapScheduled (id : Nat) : Orderly (w.swapScheduled id) := by
  fun_cases swapScheduled w id with
  | case3 => exact h.congr rfl rfl rfl rfl rfl
  | case4 flow hflow _ hflag =>
    have hnot : id ∉ underWay w := by
      intro hmem
      obtain ⟨flow', hflow', hflag'⟩ := h.flagged id hmem
      cases hflow.symm.trans hflow'
      exact hflag hflag'
    refine ⟨?_, ?_, ?_, h.addressed, h.count⟩
    · intro tuple session hlook
      obtain ⟨flow', hflow', htuple, hdropped⟩ := h.owned tuple session hlook
      grind
    · show (w.commands.map Prod.snd ++ (w.sending ++ [id])).Nodup
      rw [← append_assoc, ← concat_eq_append]
      exact h.once.concat hnot
    · intro x hmem
      have hmem : x ∈ w.commands.map Prod.snd ++ (w.sending ++ [id]) := hmem
      rw [← append_assoc, mem_append, mem_singleton] at hmem
      rcases hmem with hold | rfl
      · obtain ⟨flow', hflow', hflag'⟩ := h.flagged x hold
        have hne : id ≠ x := fun heq => hnot (heq ▸ hold)
        exact ⟨flow', (getElem?_set_ne hne).trans hflow', hflag'⟩
      · exact ⟨_, getElem?_set_of_some hflow, rfl⟩
  | _ => exact h

/-- A live flow about to send has no command in the queue. -/
theorem Orderly.sending_room (hmem : id ∈ w.sending) (hlive : Live w id) :
    w.commands.length < w.config.maxTcpSessions := by
  obtain ⟨tuple, session, hlook, hcontrol⟩ := live_iff.mp hlive
  refine h.room hlook fun id' hin => ?_
  have hid : session.control = id' := h.addressed _ hin session hlook
  have hqueued : id ∈ w.commands.map Prod.snd :=
    mem_map.mpr ⟨_, hin, hid.symm.trans hcontrol⟩
  exact (nodup_append.mp h.once).2.2 id hqueued id hmem rfl

theorem orderly_trySendCommand (id : Nat) (hlive : id ∈ w.sending → Live w id) :
    Orderly (w.trySendCommand id) ∧
      stale (w.trySendCommand id).tcpFlows (w.trySendCommand id).commands =
        stale w.tcpFlows w.commands := by
  unfold trySendCommand
  split
  · exact ⟨h, rfl⟩
  · next flow hflow =>
    split
    · exact ⟨h, rfl⟩
    · next hmem =>
      rw [Decidable.not_not] at hmem
      have hroom := h.sending_room hmem (hlive hmem)
      obtain ⟨tuple, session, hlook, hcontrol⟩ := live_iff.mp (hlive hmem)
      obtain ⟨flow', hflow', htuple, -⟩ := h.owned tuple session hlook
      rw [hcontrol] at hflow'
      cases hflow.symm.trans hflow'
      rw [if_pos hroom]
      have hstale : stale w.tcpFlows (w.commands ++ [(flow.control.tuple, id)]) =
          stale w.tcpFlows w.commands := by
        unfold stale
        rw [htuple]
        simp [hlook]
      -- the command only moves from the call to the queue
      have hperm : ((w.commands ++ [(flow.control.tuple, id)]).map Prod.snd ++
          w.sending.erase id).Perm (underWay w) := by
        rw [map_append, append_assoc]
        exact .append_left _ (perm_cons_erase hmem).symm
      refine ⟨⟨h.owned, hperm.symm.nodup h.once, fun x hx => h.flagged x (hperm.mem_iff.mp hx), ?_,
        hstale ▸ h.count⟩, hstale⟩
      intro command hin session'
      grind [h.addressed command]

end

/-! ## Rounds of the loop -/

/-- The stages of a round after its commands. -/
def pastCommands : Ref.Netstack.Stage → Bool
  | .joins _ | .uplinkUdp | .uplinkRaw | .receiving _ | .sending _ | .scanStart | .scanning _
  | .waiting => true
  | _ => false

structure Calm (w : Actor Socket) : Prop where
  waiting : w.stage = .waiting → w.didWork = false
  /-- A round that has taken a command has done work. -/
  taken : ∀ left, w.stage = .commands left → w.didWork = false → left = tcpCommandsPerTick
  calm : pastCommands w.stage = true → w.didWork = false → stale w.tcpFlows w.commands = []

theorem Calm.busy (hwork : w.didWork = true) (hstage : w.stage ≠ .waiting) : Calm w := by
  constructor <;> grind

/-- A stage before the commands, or after the end. -/
theorem Calm.early (hpast : pastCommands w.stage = false)
    (hstage : ∀ left, w.stage ≠ .commands left) : Calm w := by
  constructor <;> grind [pastCommands]

theorem Calm.starts (h : w.stage = .commands tcpCommandsPerTick) : Calm w := by
  constructor <;> grind [pastCommands]

/-- The round goes on after its commands without having worked since. -/
theorem Calm.on (h : Calm w) (hbefore : pastCommands w.stage = true)
    (hafter : pastCommands w'.stage = true) (hwork : w'.didWork = w.didWork)
    (htable : w'.tcpFlows = w.tcpFlows) (hcommands : w'.commands = w.commands)
    (hwaiting : w'.stage = .waiting → w.didWork = false) : Calm w' := by
  have hcalm := h.calm hbefore
  constructor <;> grind [pastCommands]

/-- The first stage after the commands. -/
theorem Calm.past (hafter : pastCommands w.stage = true) (hwaiting : w.stage ≠ .waiting)
    (h : w.didWork = false → stale w.tcpFlows w.commands = []) : Calm w := by
  constructor <;> grind [pastCommands]

theorem calm_top : Calm (w.goTo .top) := .early rfl nofun

theorem calm_stopped : Calm (w.goTo .stopped) := .early rfl nofun

/-- What `select!` does starts a new round, or nothing was ready. -/
theorem calm_select (h : Calm w) (input : Input) : Calm (w.select S parse input) := by
  fun_cases Actor.select S parse w input with
  | case1 | case2 | case3 | case10 | case12 => exact calm_stopped
  | case5 | case7 | case9 | case13 | case17 | case20 | case22 | case24 => exact calm_top
  | case15 => exact .early rfl (by simp [Actor.goTo])
  | _ => exact h

theorem calm_advance (h : Calm w) (input : Input) : Calm (w.advance S parse input) := by
  have hon : ∀ {w' : Actor Socket}, pastCommands w.stage = true → pastCommands w'.stage = true →
      w'.stage ≠ .waiting → w'.didWork = w.didWork → w'.tcpFlows = w.tcpFlows →
      w'.commands = w.commands → Calm w' :=
    fun hbefore hafter hnot hwork htable hcommands =>
      h.on hbefore hafter hwork htable hcommands fun heq => absurd heq hnot
  fun_cases Actor.advance S parse w input with
  | case1 | case7 => exact calm_stopped
  | case2 | case5 | case10 => exact .early rfl (by simp [Actor.goTo])
  | case3 | case4 | case6 => exact .starts rfl
  | case8 hstage =>
    -- the round has taken as many commands as it may
    refine .past rfl (by simp [Actor.goTo]) fun hidle => ?_
    have hnone := h.taken 0 hstage hidle
    cases hnone
  | case9 left _ hempty =>
    refine .past rfl (by simp [Actor.goTo]) fun _ => ?_
    show stale w.tcpFlows w.commands = []
    rw [hempty]
    rfl
  | case11 | case13 | case24 | case28 | case35 => exact .busy rfl (by simp [Actor.goTo])
  | case16 hstage | case19 hstage =>
    exact .busy rfl (by show w.stage ≠ .waiting; simp [hstage])
  | case31 | case33 | case37 => exact calm_top
  | case32 hstage hidle =>
    exact h.on (by rw [hstage]; rfl) rfl rfl rfl rfl fun _ => Bool.not_eq_true _ ▸ hidle
  | case34 left hstage _ hidle =>
    exact h.on (by rw [hstage]; rfl) rfl rfl rfl rfl fun _ => Bool.not_eq_true _ ▸ hidle
  | case36 => exact calm_select h input
  | case38 => exact h
  | _ => exact hon (by simp only [*, pastCommands]) rfl (by simp [Actor.goTo]) rfl rfl rfl

/-- The application changes nothing the round has seen. -/
theorem Calm.congr (h : Calm w) (hstage : w'.stage = w.stage) (hwork : w'.didWork = w.didWork)
    (hstale : stale w'.tcpFlows w'.commands = stale w.tcpFlows w.commands) : Calm w' := by
  obtain ⟨hwaiting, htaken, hcalm⟩ := h
  constructor <;> grind

theorem calm_call (h : Calm w) (id : Nat) (call : Call) : Calm (w.call id call) := by
  fun_cases Actor.call w id call with
  | case3 => exact h.congr rfl rfl rfl
  | _ => exact h

theorem calm_swapScheduled (h : Calm w) (id : Nat) : Calm (w.swapScheduled id) := by
  fun_cases swapScheduled w id with
  | case3 | case4 => exact h.congr rfl rfl rfl
  | _ => exact h

theorem trySendCommand_stage (w : Actor Socket) (id : Nat) :
    (w.trySendCommand id).stage = w.stage ∧ (w.trySendCommand id).didWork = w.didWork := by
  fun_cases trySendCommand w id <;> exact ⟨rfl, rfl⟩

/-! ## Runs -/

theorem orderly_apply (h : Orderly w ∧ Calm w) (a : Action) (hok : SendsLive w a) :
    Orderly (w.apply S parse a) ∧ Calm (w.apply S parse a) := by
  obtain ⟨horderly, hcalm⟩ := h
  have hrun : ∀ {x : Actor Socket}, Orderly x → Calm x →
      Orderly (if w.stage = .stopped then w else x) ∧
        Calm (if w.stage = .stopped then w else x) := fun hx hx' =>
    ⟨unless_stopped horderly hx, unless_stopped hcalm hx'⟩
  cases a with
  | advance input =>
    refine ⟨?_, calm_advance hcalm input⟩
    have hwaiting : w.stage = .waiting → stale w.tcpFlows w.commands = [] := fun hstage =>
      hcalm.calm (by rw [hstage]; rfl) (hcalm.waiting hstage)
    exact (advance_steps S parse w input).keeps (orderly_entry horderly hwaiting) orderly_effect
      fun hy => hy.congr rfl rfl rfl rfl rfl
  | call id call => exact hrun (orderly_call horderly id call) (calm_call hcalm id call)
  | swap id => exact hrun (orderly_swapScheduled horderly id) (calm_swapScheduled hcalm id)
  | send id =>
    obtain ⟨hsent, hstale⟩ := orderly_trySendCommand horderly id fun hmem => hok id hmem rfl
    obtain ⟨hstage, hwork⟩ := trySendCommand_stage w id
    exact hrun hsent (hcalm.congr hstage hwork hstale)
  | uplinkUdp _ | uplinkRaw _ | accepted | acceptorGone | udpDropped _ =>
    exact ⟨horderly.congr rfl rfl rfl rfl rfl, hcalm.congr rfl rfl rfl⟩

theorem orderly_initial (h : w.Initial) : Orderly w ∧ Calm w := by
  obtain ⟨config, capacity, rfl⟩ := h
  refine ⟨⟨?_, nodup_nil, ?_, ?_, Nat.zero_le _⟩, .early rfl nofun⟩
  · intro tuple session hfound
    cases hfound
  · intro id hmem
    cases hmem
  · intro command hmem
    cases hmem

/-- In every run in which only flows with a session send commands, a live flow finds room
for its own, and is dropped by no one but its owner. -/
theorem live_flows_unharmed (h : Reach Actor.Initial (Actor.apply S parse) SendsLive w) :
    Unharmed w := by
  let Both : Actor Socket → Prop := fun w => Orderly w ∧ Calm w
  have hboth : Both w := Reach.invariant (fun _ hinit => orderly_initial hinit)
    (fun _ a hw hok => orderly_apply hw a hok) h
  have horderly := hboth.1
  refine ⟨fun id hmem hlive => horderly.sending_room hmem hlive, ?_⟩
  intro id flow hflow hlive hdropped
  obtain ⟨tuple, session, hlook, hcontrol⟩ := live_iff.mp hlive
  obtain ⟨flow', hflow', -, hgone⟩ := horderly.owned tuple session hlook
  rw [hcontrol] at hflow'
  cases hflow.symm.trans hflow'
  exact hgone hdropped

/-- The stack with room for one TCP session. -/
def oneSession : Actor PlainSocket :=
  { started with config := { started.config with maxTcpSessions := 1 } }

/-- A call with both halves of `schedule`. -/
def wholeCall (id : Nat) (call : Actor.Call) : List Actor.Action :=
  [.call id call, .swap id, .send id]

/-- A connection is made, and its flow is read from and written to. -/
def served : List Actor.Action :=
  idleRound ++ packetRounds [1, 7, 9, 1] ++ packetRounds [1, 7, 9, 2] ++
    packetRounds [1, 7, 9, 2, 5] ++ wholeCall 0 (.read 10) ++ wholeCall 0 (.write [6])

theorem served_unharmed :
    ((served.foldl (Actor.apply plain plainParse) oneSession).commands.length = 1 ∧
      Live (served.foldl (Actor.apply plain plainParse) oneSession) 0) ∧
      Unharmed (served.foldl (Actor.apply plain plainParse) oneSession) :=
  ⟨by decide +kernel, live_flows_unharmed (Reach.run (.start ⟨_, _, rfl⟩) (by decide +kernel))⟩

/-- The first connection is reset with a chunk still unread, and a second one takes its
place. The first flow reads its chunk, and its command fills the queue; the second writes. -/
def outlived : List Actor.Action :=
  idleRound ++ packetRounds [1, 7, 9, 1] ++ packetRounds [1, 7, 9, 2] ++
    packetRounds [1, 7, 9, 2, 5] ++ packetRounds [1, 7, 9, 4] ++
    packetRounds [1, 8, 9, 1] ++ packetRounds [1, 8, 9, 2] ++
    wholeCall 0 (.read 10) ++ [.call 1 (.write [6]), .swap 1]

/-- The second flow is live and was not dropped by its owner, but finds no room and has its
flag set. -/
theorem outlived_harmed :
    Reach Actor.Initial (Actor.apply plain plainParse) anyAction
      (outlived.foldl (Actor.apply plain plainParse) oneSession) ∧
    ¬Unharmed (outlived.foldl (Actor.apply plain plainParse) oneSession) ∧
    Live (Actor.apply plain plainParse
      (outlived.foldl (Actor.apply plain plainParse) oneSession) (.send 1)) 1 ∧
    ((Actor.apply plain plainParse
      (outlived.foldl (Actor.apply plain plainParse) oneSession) (.send 1)).flows[1]?.map
      fun flow => (flow.control.dropped, flow.gone)) = some (true, false) := by
  refine ⟨Reach.run (.start ⟨_, _, rfl⟩) (admissible_any _ _ _), fun hunharmed => ?_,
    by decide +kernel, by decide +kernel⟩
  have hroom := hunharmed.room 1 (by decide +kernel) (by decide +kernel)
  revert hroom
  decide +kernel

end Foxcore.Proofs.Netstack
