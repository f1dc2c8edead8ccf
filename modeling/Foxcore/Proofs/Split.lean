import Foxcore.Spec.Split

/-!
# Verdicts and rows stay in step

Every handle in the splitter's table is bound under the key of its entry. So
dropping handles releases exactly the five-tuples whose entries go, whichever
operation drops them; and since a miss has removed the old entry before the new
row is bound, an insertion finds no entry under its own key and the new binding
survives what the insertion drops.
-/

namespace Foxcore.Proofs.Split

open Lib Ref.Split Spec.Split List Option HashMap World

variable {i : Ingress} {key : FlowKey} {s : PacketSplitter} {nowMs : Nat} {decision : Decision}
  {w : World}

/-! ## Releasing what is dropped -/

/-- Handles are bound under the key of their entry. -/
def Keyed (decisions : HashMap FlowKey Decision) : Prop :=
  ∀ key decision handle, decisions.lookup key = some decision → decision.flow = some handle →
    handle.packetKey = some key

/-- The row of an entry. -/
def rowOf (decision : Option Decision) : Option Nat :=
  (decision.bind Decision.flow).map FlowHandle.flow

theorem mem_dropped {before after : HashMap FlowKey Decision} {handle : FlowHandle} :
    handle ∈ dropped before after ↔ ∃ key decision, before.lookup key = some decision ∧
      after.lookup key = none ∧ decision.flow = some handle := by
  simp [dropped, mem_entries, and_assoc]

theorem lookup_release (table : PacketAccounting) (handle : FlowHandle) (key : FlowKey) :
    (table.release handle).lookup key =
      if handle.packetKey = some key then none else table.lookup key := by
  unfold PacketAccounting.release
  cases handle.packetKey with
  | none => rw [if_neg nofun]
  | some =>
    rw [lookup_erase]
    simp [eq_comm]

theorem lookup_foldl_release (handles : List FlowHandle) (table : PacketAccounting)
    (key : FlowKey) :
    (handles.foldl PacketAccounting.release table).lookup key =
      if ∃ handle ∈ handles, handle.packetKey = some key then none else table.lookup key := by
  induction handles generalizing table with
  | nil => simp
  | cons handle handles ih =>
    rw [foldl_cons, ih, lookup_release]
    by_cases hhead : handle.packetKey = some key
    · simp [hhead]
    · simp [hhead]

/-- Replacing the splitter's table releases the five-tuples of the entries that go
and hold a row, and no other. -/
theorem lookup_replace (hkeyed : Keyed i.splitter.decisions) (s : PacketSplitter) (key : FlowKey) :
    (i.replace s).table.lookup key =
      if s.decisions.lookup key = none ∧ (rowOf (i.splitter.decisions.lookup key)).isSome then none
      else i.table.lookup key := by
  show ((dropped i.splitter.decisions s.decisions).foldl PacketAccounting.release i.table).lookup
    key = _
  rw [lookup_foldl_release]
  refine if_congr ?_ rfl rfl
  constructor
  · rintro ⟨handle, hmem, hkey⟩
    obtain ⟨k, decision, hlook, hgone, hflow⟩ := mem_dropped.mp hmem
    rw [hkeyed k decision handle hlook hflow] at hkey
    cases hkey
    exact ⟨hgone, by simp [rowOf, hlook, hflow]⟩
  · rintro ⟨hgone, hrow⟩
    unfold rowOf at hrow
    rw [isSome_map] at hrow
    obtain ⟨handle, hbind⟩ := isSome_iff_exists.mp hrow
    obtain ⟨decision, hlook, hflow⟩ := bind_eq_some_iff.mp hbind
    exact ⟨handle, mem_dropped.mpr ⟨key, decision, hlook, hgone, hflow⟩,
      hkeyed key decision handle hlook hflow⟩

/-- The table of rows agrees with the splitter's, except perhaps at some keys. -/
def BoundAt (i : Ingress) (key : FlowKey) : Prop :=
  i.table.lookup key = rowOf (i.splitter.decisions.lookup key)

theorem boundAt_replace (hkeyed : Keyed i.splitter.decisions) (hbound : BoundAt i key)
    (hsame : s.decisions.lookup key = none ∨
      rowOf (s.decisions.lookup key) = rowOf (i.splitter.decisions.lookup key)) :
    BoundAt (i.replace s) key := by
  unfold BoundAt at hbound ⊢
  rw [lookup_replace hkeyed]
  show _ = rowOf (s.decisions.lookup key)
  have hnone : rowOf none = none := rfl
  grind [not_isSome_iff_eq_none]

/-! ## What the operations of the splitter leave -/

theorem isIdle_eq_false :
    s.isIdle nowMs decision = false ↔ nowMs ≤ decision.lastSeenMs + s.idleTimeoutMs := by
  unfold PacketSplitter.isIdle
  rw [decide_eq_false_iff_not]
  omega

theorem isVoid_eq_false {cancelled revoked : List Nat} :
    decision.isVoid cancelled revoked = false ↔
      (∀ token, decision.voidedBy = some token → token ∉ cancelled) ∧
        ∀ handle, decision.flow = some handle → handle.flow ∉ revoked := by
  unfold Decision.isVoid
  rw [Bool.or_eq_false_iff]
  refine and_congr ?_ ?_
  · cases decision.voidedBy <;> simp
  · cases decision.flow <;> simp

/-- The three things a lookup can do. -/
theorem lookup_cases (s : PacketSplitter) (cancelled revoked : List Nat) (key : FlowKey)
    (nowMs : Nat) :
    (s.decisions.lookup key = none ∧ s.lookup cancelled revoked key nowMs = (none, s)) ∨
    (∃ decision, s.decisions.lookup key = some decision ∧
      ¬Usable s cancelled revoked decision.lastSeenMs nowMs decision ∧
      s.lookup cancelled revoked key nowMs =
        (none, { s with decisions := s.decisions.erase key })) ∨
    ∃ decision, s.decisions.lookup key = some decision ∧
      Usable s cancelled revoked decision.lastSeenMs nowMs decision ∧
      s.lookup cancelled revoked key nowMs = (some decision.route,
        { s with decisions := s.decisions.insert key { decision with lastSeenMs := nowMs } }) := by
  have husable : ∀ decision,
      (s.isIdle nowMs decision || decision.isVoid cancelled revoked) = false ↔
      Usable s cancelled revoked decision.lastSeenMs nowMs decision := by
    intro decision
    rw [Bool.or_eq_false_iff, isIdle_eq_false, isVoid_eq_false]
    exact ⟨fun h => ⟨h.1, h.2.1, h.2.2⟩, fun h => ⟨h.recent, h.policy, h.flow⟩⟩
  fun_cases PacketSplitter.lookup s cancelled revoked key nowMs with
  | case1 hlook => exact .inl ⟨hlook, rfl⟩
  | case2 decision hlook hstale =>
    refine .inr (.inl ⟨decision, hlook, fun h => ?_, rfl⟩)
    rw [(husable decision).mpr h] at hstale
    cases hstale
  | case3 decision hlook hfresh =>
    exact .inr (.inr ⟨decision, hlook, (husable decision).mp (Bool.eq_false_iff.mpr hfresh), rfl⟩)

@[simp] theorem makeRoom_capacity (s : PacketSplitter) (nowMs : Nat) :
    (s.makeRoom nowMs).capacity = s.capacity := by
  fun_cases PacketSplitter.makeRoom s nowMs <;> rfl

theorem lookup_makeRoom (h : (s.makeRoom nowMs).decisions.lookup key = some decision) :
    s.decisions.lookup key = some decision := by
  unfold PacketSplitter.makeRoom at h
  split at h
  · have hlive := lookup_evict (show (evict _ _ _).lookup key = _ from h)
    rw [lookup_retain] at hlive
    exact (filter_eq_some_iff.mp hlive).1
  · exact h

theorem makeRoom_absent (h : s.decisions.lookup key = none) :
    (s.makeRoom nowMs).decisions.lookup key = none := by
  cases hroom : (s.makeRoom nowMs).decisions.lookup key with
  | none => rfl
  | some =>
    rw [lookup_makeRoom hroom] at h
    cases h

/-- There is room for one more. -/
theorem makeRoom_len (s : PacketSplitter) (nowMs : Nat) :
    (s.makeRoom nowMs).decisions.len < s.capacity := by
  have hpos := s.capacity_pos
  unfold PacketSplitter.makeRoom
  split
  · have hlen := (evict_spec Decision.lastSeenMs (s.capacity - 1)
      (s.decisions.retain fun _ decision => !s.isIdle nowMs decision)).1
    show len (evict _ _ _) < _
    omega
  · omega

/-- What goes though it is not idle leaves the table just short of full, and was
seen no later than anything that stays. -/
theorem makeRoom_drops (hlook : s.decisions.lookup key = some decision)
    (hgone : (s.makeRoom nowMs).decisions.lookup key = none)
    (hlive : nowMs ≤ decision.lastSeenMs + s.idleTimeoutMs) :
    (s.makeRoom nowMs).decisions.len + 1 = s.capacity ∧
      ∀ key' decision', (s.makeRoom nowMs).decisions.lookup key' = some decision' →
        decision.lastSeenMs ≤ decision'.lastSeenMs := by
  have hpos := s.capacity_pos
  unfold PacketSplitter.makeRoom at hgone ⊢
  split at hgone
  · next hfull =>
    rw [if_pos hfull]
    have hkept : (s.decisions.retain fun _ decision => !s.isIdle nowMs decision).lookup key =
        some decision := by
      rw [lookup_retain, hlook]
      simp [isIdle_eq_false.mpr hlive]
    generalize hm : (s.decisions.retain fun _ decision => !s.isIdle nowMs decision) = m at hkept
    have heq : (s.evict nowMs).decisions = m.evict Decision.lastSeenMs (s.capacity - 1) := by
      rw [← hm]
      rfl
    rw [heq] at hgone ⊢
    obtain ⟨hlen, hleast⟩ := evict_spec Decision.lastSeenMs (s.capacity - 1) m
    refine ⟨?_, fun key' decision' hstays => hleast key decision key' decision' hkept hgone hstays⟩
    -- with room for everything that is live nothing live would have gone
    by_cases hroom : m.len ≤ s.capacity - 1
    · have hnone : m.evict Decision.lastSeenMs (s.capacity - 1) = m := by
        unfold evict
        rw [Nat.sub_eq_zero_of_le hroom]
        rfl
      rw [hnone, hkept] at hgone
      cases hgone
    · omega
  · rw [hlook] at hgone
    cases hgone

/-- An insertion under a key that is not there. -/
theorem spares_insert (habsent : s.decisions.lookup key = none) (entry : Decision) :
    Spares s key nowMs (s.insert key entry nowMs) := by
  have hroom : (s.makeRoom nowMs).decisions.lookup key = none := makeRoom_absent habsent
  have hlook : ∀ k, k ≠ key → (s.insert key entry nowMs).decisions.lookup k =
      (s.makeRoom nowMs).decisions.lookup k := fun k hne => AList.lookup_insert_ne hne
  refine ⟨fun k decision hne h => ?_, fun hspace k hne => ?_,
    fun k decision hne h hgone hlive => ?_,
    fun k decision hne h hgone hlive k' decision' hne' hstays => ?_⟩
  · exact lookup_makeRoom ((hlook k hne).symm.trans h)
  · rw [hlook k hne, PacketSplitter.makeRoom, if_neg (not_le.mpr hspace)]
  · have hlen : (s.insert key entry nowMs).decisions.len = (s.makeRoom nowMs).decisions.len + 1 :=
      len_insert_of_none hroom entry
    rw [hlen]
    exact (makeRoom_drops h ((hlook k hne).symm.trans hgone) hlive).1
  · exact (makeRoom_drops h ((hlook k hne).symm.trans hgone) hlive).2 k' decision'
      ((hlook k' hne').symm.trans hstays)

/-! ## The two tables together -/

/-- The tables agree, and handles are bound under the keys of their entries. -/
structure Paired (i : Ingress) : Prop where
  keyed : Keyed i.splitter.decisions
  bound : ∀ key, BoundAt i key

theorem Paired.erase (h : Paired i) (key : FlowKey) :
    Paired (i.replace { i.splitter with decisions := i.splitter.decisions.erase key }) := by
  refine ⟨fun k decision handle hk hflow => ?_, fun k => boundAt_replace h.keyed (h.bound k) ?_⟩
  · rw [show (i.replace _).splitter.decisions.lookup k = _ from lookup_erase ..] at hk
    grind [h.keyed k decision handle]
  · grind [lookup_erase]

/-- An entry is seen again. -/
theorem Paired.touch (h : Paired i) (hlook : i.splitter.decisions.lookup key = some decision)
    (nowMs : Nat) :
    Paired (i.replace { i.splitter with
      decisions := i.splitter.decisions.insert key { decision with lastSeenMs := nowMs } }) := by
  refine ⟨fun k d handle hk hflow => ?_, fun k => boundAt_replace h.keyed (h.bound k) (.inr ?_)⟩
  · rw [show (i.replace _).splitter.decisions.lookup k = _ from lookup_insert ..] at hk
    grind [h.keyed k decision handle, h.keyed k d handle]
  · rw [show AList.lookup k (i.splitter.decisions.insert key _) = _ from lookup_insert ..]
    grind [rowOf]

theorem Paired.lookup (h : Paired i) (cancelled : List Nat) (key : FlowKey) (nowMs : Nat) :
    Paired (i.lookup cancelled key nowMs).2 := by
  unfold Ingress.lookup
  rcases lookup_cases i.splitter cancelled i.revoked key nowMs with
    ⟨-, heq⟩ | ⟨decision, -, -, heq⟩ | ⟨decision, hlook, -, heq⟩
  · rw [heq]
    exact ⟨h.keyed, fun k => boundAt_replace h.keyed (h.bound k) (.inr rfl)⟩
  · rw [heq]
    exact h.erase key
  · rw [heq]
    exact h.touch hlook nowMs

/-- A verdict that is used may be used. -/
theorem usable_of_hit {cancelled : List Nat} {route : PacketRoute}
    (h : (i.lookup cancelled key nowMs).1 = some route) :
    ∃ decision, i.splitter.decisions.lookup key = some decision ∧ decision.route = route ∧
      Usable i.splitter cancelled i.revoked decision.lastSeenMs nowMs decision := by
  unfold Ingress.lookup at h
  rcases lookup_cases i.splitter cancelled i.revoked key nowMs with
    ⟨-, heq⟩ | ⟨decision, -, -, heq⟩ | ⟨decision, hlook, husable, heq⟩
  · rw [heq] at h
    cases h
  · rw [heq] at h
    cases h
  · rw [heq] at h
    exact ⟨decision, hlook, Option.some.inj h, husable⟩

/-- The entry an insertion makes. -/
def entryOf (i : Ingress) (key : FlowKey) (decision : PacketDecision) (nowMs : Nat) : Decision :=
  { route := decision.route, lastSeenMs := nowMs, flow := (i.openFlow key decision.flow).1,
    voidedBy := decision.voidedBy }

@[simp] theorem openFlow_splitter (i : Ingress) (key : FlowKey) (label : Option FlowLabel) :
    (i.openFlow key label).2.splitter = i.splitter := by
  cases label <;> rfl

/-- The new row is bound under the packet's key and nothing else changes. -/
theorem openFlow_spec (i : Ingress) (key : FlowKey) (label : Option FlowLabel) :
    (∀ handle, (i.openFlow key label).1 = some handle →
      handle.packetKey = some key ∧ handle.flow = i.flows.length) ∧
    (∀ k, k ≠ key → (i.openFlow key label).2.table.lookup k = i.table.lookup k) ∧
    (i.table.lookup key = none → (i.openFlow key label).2.table.lookup key =
      (i.openFlow key label).1.map FlowHandle.flow) ∧
    (i.openFlow key label).2.flows = i.flows ++ label.toList.map fun l => { label := l } := by
  cases label with
  | none => exact ⟨nofun, fun _ _ => rfl, id, (append_nil _).symm⟩
  | some =>
    refine ⟨fun handle h => ?_, fun k hne => AList.lookup_insert_ne hne,
      fun _ => AList.lookup_insert _, rfl⟩
    cases h
    exact ⟨rfl, rfl⟩

theorem insert_splitter (i : Ingress) (key : FlowKey) (decision : PacketDecision) (nowMs : Nat) :
    (i.insert key decision nowMs).splitter =
      i.splitter.insert key (entryOf i key decision nowMs) nowMs := by
  show PacketSplitter.insert (i.openFlow key decision.flow).2.splitter key _ nowMs = _
  rw [openFlow_splitter]
  rfl

theorem lookup_splitter_insert (s : PacketSplitter) (key k : FlowKey) (entry : Decision)
    (nowMs : Nat) :
    (s.insert key entry nowMs).decisions.lookup k =
      if k = key then some entry else (s.makeRoom nowMs).decisions.lookup k :=
  lookup_insert ..

theorem Paired.insert (h : Paired i) (habsent : i.splitter.decisions.lookup key = none)
    (decision : PacketDecision) (nowMs : Nat) : Paired (i.insert key decision nowMs) := by
  obtain ⟨hhandle, hother, hnew, -⟩ := openFlow_spec i key decision.flow
  have hroom : (i.splitter.makeRoom nowMs).decisions.lookup key = none := makeRoom_absent habsent
  -- no entry goes under the packet's own key, so its binding is not released
  have htable : ∀ k, (i.insert key decision nowMs).table.lookup k =
      ((i.openFlow key decision.flow).2.replace
        ((i.openFlow key decision.flow).2.splitter.makeRoom nowMs)).table.lookup k := by
    intro k
    unfold Ingress.insert
    have hnone : ((i.openFlow key decision.flow).2.replace
        ((i.openFlow key decision.flow).2.splitter.makeRoom nowMs)).splitter.decisions.lookup key =
          none := by
      rw [openFlow_splitter]
      exact hroom
    simp only [hnone]
    rfl
  have hkeyed : Keyed (i.openFlow key decision.flow).2.splitter.decisions := by
    rw [openFlow_splitter]
    exact h.keyed
  refine ⟨fun k d handle hk hflow => ?_, fun k => ?_⟩
  · rw [insert_splitter, lookup_splitter_insert] at hk
    grind [entryOf, h.keyed k d handle, lookup_makeRoom]
  · unfold BoundAt
    rw [htable, lookup_replace hkeyed, insert_splitter, lookup_splitter_insert, openFlow_splitter]
    have hbound : ∀ k, i.table.lookup k = rowOf (i.splitter.decisions.lookup k) := h.bound
    by_cases hkey : k = key
    · have hempty : i.table.lookup key = none := by
        rw [hbound, habsent]
        rfl
      rw [if_pos hkey, hkey, habsent, if_neg (by simp [rowOf]), hnew hempty]
      rfl
    · rw [if_neg hkey, hother k hkey, hbound]
      cases hstays : (i.splitter.makeRoom nowMs).decisions.lookup k with
      | none => cases rowOf (i.splitter.decisions.lookup k) <;> simp [rowOf]
      | some => rw [if_neg fun hcon => absurd hcon.1 nofun, lookup_makeRoom hstays]

/-! ## The loop -/

theorem carried_cons (h : Handed) (handed : List Handed) (flow : Nat) :
    carried (h :: handed) flow =
      (if h.route = .tunnel ∧ h.owner = some flow then h.length else 0) + carried handed flow := by
  unfold carried
  by_cases hcounts : h.route = .tunnel ∧ h.owner = some flow
  · simp [hcounts]
  · simp [hcounts]

/-- What every run keeps. -/
structure Fits (w : World) : Prop where
  paired : Paired w.ingress
  bounded : w.ingress.splitter.decisions.len ≤ w.ingress.splitter.capacity
  rows : ∀ key flow, w.owner key = some flow → flow < w.ingress.flows.length
  tunnels : ∀ key decision, w.ingress.splitter.decisions.lookup key = some decision →
    decision.route = .tunnel → decision.flow.isSome
  seen : ∀ key decision, w.ingress.splitter.decisions.lookup key = some decision →
    w.seen key = some decision.lastSeenMs
  absent : ∀ key length nowMs, w.phase = .deciding key length nowMs →
    w.ingress.splitter.decisions.lookup key = none ∧ w.seen key = some nowMs
  owned : ∀ h ∈ w.handed, h.route = .tunnel →
    ∃ flow, h.owner = some flow ∧ flow < w.ingress.flows.length
  counted : ∀ flow row, w.ingress.flows[flow]? = some row →
    row.bytesUp = carried w.handed flow % 2 ^ 64
  unopened : ∀ flow, w.ingress.flows.length ≤ flow → carried w.handed flow = 0

theorem owner_eq (w : World) (key : FlowKey) :
    w.owner key = rowOf (w.ingress.splitter.decisions.lookup key) := rfl

theorem owner_eq_some {flow : Nat} : w.owner key = some flow ↔ ∃ decision handle,
    w.ingress.splitter.decisions.lookup key = some decision ∧ decision.flow = some handle ∧
      handle.flow = flow := by
  rw [owner_eq, rowOf]
  simp only [map_eq_some_iff, bind_eq_some_iff]
  grind

/-- Counting changes rows only. -/
theorem countUp_frame (i : Ingress) (key : FlowKey) (bytes : Nat) :
    (i.countUp key bytes).splitter = i.splitter ∧ (i.countUp key bytes).table = i.table := by
  fun_cases Ingress.countUp i key bytes <;> exact ⟨rfl, rfl⟩

theorem handOver_frame (w : World) (key : FlowKey) (length : Nat) (route : PacketRoute) :
    (w.handOver key length route).ingress.splitter = w.ingress.splitter ∧
      (w.handOver key length route).ingress.table = w.ingress.table := by
  unfold handOver
  split
  · exact countUp_frame w.ingress key length
  · exact ⟨rfl, rfl⟩

/-- Handing a packet over: one that goes to the tunnel is counted in the row its entry
holds. -/
theorem fits_handOver (h : Fits w) (key : FlowKey) (length : Nat) {route : PacketRoute}
    (hroute : route = .tunnel → (w.owner key).isSome) : Fits (w.handOver key length route) := by
  obtain ⟨hsplitter, htable⟩ := handOver_frame w key length route
  have hflows : (w.handOver key length route).ingress.flows =
      if route = .tunnel then (w.owner key).elim w.ingress.flows fun flow =>
        w.ingress.flows.modify flow fun f => f.addUp length
      else w.ingress.flows := by
    unfold handOver Ingress.countUp
    have hbound : w.ingress.table.lookup key = w.owner key := h.paired.bound key
    rw [hbound]
    cases w.owner key <;> split <;> rfl
  have hlen : (w.handOver key length route).ingress.flows.length = w.ingress.flows.length := by
    rw [hflows]
    cases w.owner key <;> grind
  have howner : ∀ k, (w.handOver key length route).owner k = w.owner k := by
    intro k
    rw [owner_eq, owner_eq, hsplitter]
  refine ⟨⟨?_, fun k => ?_⟩, ?_, fun k flow hk => ?_, ?_, ?_, nofun, fun g hg hgroute => ?_,
    fun flow row hrow => ?_, fun flow hflow => ?_⟩
  · exact hsplitter ▸ h.paired.keyed
  · unfold BoundAt
    rw [hsplitter, htable]
    exact h.paired.bound k
  · exact hsplitter ▸ h.bounded
  · exact hlen ▸ h.rows k flow ((howner k).symm.trans hk)
  · exact hsplitter ▸ h.tunnels
  · exact hsplitter ▸ h.seen
  · rw [hlen]
    rcases mem_cons.mp hg with rfl | hg
    · obtain ⟨flow, hflow⟩ := isSome_iff_exists.mp (hroute hgroute)
      exact ⟨flow, hflow, h.rows key flow hflow⟩
    · exact h.owned g hg hgroute
  · show row.bytesUp = carried (_ :: w.handed) flow % 2 ^ 64
    rw [carried_cons]
    rw [hflows] at hrow
    by_cases htunnel : route = .tunnel
    · rw [if_pos htunnel] at hrow
      obtain ⟨owner, howns⟩ := isSome_iff_exists.mp (hroute htunnel)
      rw [howns, elim_some, getElem?_modify] at hrow
      obtain ⟨old, hold, rfl⟩ := map_eq_some_iff.mp hrow
      have hcount := h.counted flow old hold
      by_cases hsame : owner = flow
      · rw [if_pos hsame, if_pos ⟨htunnel, by rw [howns, hsame]⟩]
        show (old.bytesUp + length) % 2 ^ 64 = _
        rw [hcount, Nat.mod_add_mod, add_comm]
      · rw [if_neg hsame, if_neg (by grind), zero_add]
        exact hcount
    · grind [h.counted flow row]
  · rw [hlen] at hflow
    show carried (_ :: w.handed) flow = 0
    rw [carried_cons, h.unopened flow hflow, if_neg]
    rintro ⟨-, hcon⟩
    have := h.rows key flow hcon
    omega

/-- A lookup touches the entry of its own key only: it goes, or it is seen again. -/
theorem lookup_spec (i : Ingress) (cancelled : List Nat) (key : FlowKey) (nowMs : Nat) :
    (∀ k, k ≠ key → (i.lookup cancelled key nowMs).2.splitter.decisions.lookup k =
      i.splitter.decisions.lookup k) ∧
    (i.lookup cancelled key nowMs).2.splitter.decisions.len ≤ i.splitter.decisions.len ∧
    (i.lookup cancelled key nowMs).2.splitter.capacity = i.splitter.capacity ∧
    (((i.lookup cancelled key nowMs).1 = none ∧
        (i.lookup cancelled key nowMs).2.splitter.decisions.lookup key = none) ∨
      ∃ decision, i.splitter.decisions.lookup key = some decision ∧
        (i.lookup cancelled key nowMs).1 = some decision.route ∧
        (i.lookup cancelled key nowMs).2.splitter.decisions.lookup key =
          some { decision with lastSeenMs := nowMs }) := by
  unfold Ingress.lookup
  rcases lookup_cases i.splitter cancelled i.revoked key nowMs with
    ⟨hnone, heq⟩ | ⟨decision, hlook, -, heq⟩ | ⟨decision, hlook, -, heq⟩
  · rw [heq]
    exact ⟨fun _ _ => rfl, le_rfl, rfl, .inl ⟨rfl, hnone⟩⟩
  · rw [heq]
    have hlen := len_erase_of_some hlook
    exact ⟨fun k hne => AList.lookup_erase_ne hne, le_of_lt (by
      show len (i.splitter.decisions.erase key) < _
      omega), rfl, .inl ⟨rfl, AList.lookup_erase _ _⟩⟩
  · rw [heq]
    exact ⟨fun k hne => AList.lookup_insert_ne hne,
      le_of_eq (len_insert_of_some hlook _),
      rfl, .inr ⟨decision, hlook, rfl, AList.lookup_insert _⟩⟩

/-- The part of an iteration before the verdict is used or reached. -/
def afterLookup (w : World) (key : FlowKey) (nowMs : Nat) : World :=
  { w with
    ingress := (w.ingress.lookup w.cancelled key nowMs).2
    seen := Function.update w.seen key (some nowMs) }

theorem fits_lookup (h : Fits w) (hphase : w.phase = .waiting) (key : FlowKey) (nowMs : Nat) :
    Fits (afterLookup w key nowMs) := by
  obtain ⟨hother, hlen, hcap, hown⟩ := lookup_spec w.ingress w.cancelled key nowMs
  -- an entry that is there afterwards was there before
  have hback : ∀ k decision, (afterLookup w key nowMs).ingress.splitter.decisions.lookup k =
      some decision → ∃ old, w.ingress.splitter.decisions.lookup k = some old ∧
        decision.route = old.route ∧ decision.flow = old.flow ∧
        (afterLookup w key nowMs).seen k = some decision.lastSeenMs := by
    intro k decision hk
    by_cases hkey : k = key
    · subst hkey
      rcases hown with ⟨-, hnone⟩ | ⟨old, hold, -, hnew⟩
      · exact absurd (hnone.symm.trans hk) nofun
      · cases hnew.symm.trans hk
        exact ⟨old, hold, rfl, rfl, Function.update_self ..⟩
    · have hold := (hother k hkey).symm.trans hk
      exact ⟨decision, hold, rfl, rfl,
        (Function.update_of_ne hkey _ _).trans (h.seen k decision hold)⟩
  refine ⟨h.paired.lookup w.cancelled key nowMs, ?_, fun k flow hk => ?_, fun k decision hk => ?_,
    fun k decision hk => ?_, fun k length now hdec => ?_, h.owned, h.counted, h.unopened⟩
  · exact le_trans hlen (le_trans h.bounded (le_of_eq hcap.symm))
  · obtain ⟨decision, handle, hlook, hhandle, hflow⟩ := owner_eq_some.mp hk
    obtain ⟨old, hold, -, hsame, -⟩ := hback k decision hlook
    exact h.rows k flow (owner_eq_some.mpr ⟨old, handle, hold, hsame ▸ hhandle, hflow⟩)
  · obtain ⟨old, hold, hroute, hflow, -⟩ := hback k decision hk
    rw [hroute, hflow]
    exact h.tunnels k old hold
  · exact (hback k decision hk).choose_spec.2.2.2
  · exact absurd (hphase.symm.trans hdec) nofun

/-- The verdict of the packet in hand is entered. -/
def afterInsert (w : World) (key : FlowKey) (decision : PacketDecision) (nowMs : Nat) : World :=
  { w with ingress := w.ingress.insert key decision nowMs, phase := .waiting }

theorem fits_insert (h : Fits w) {length : Nat} (hphase : w.phase = .deciding key length nowMs)
    (decision : PacketDecision) : Fits (afterInsert w key decision nowMs) := by
  obtain ⟨habsent, hseen⟩ := h.absent key length nowMs hphase
  obtain ⟨hhandle, -, -, hflows⟩ := openFlow_spec w.ingress key decision.flow
  have hsplitter := insert_splitter w.ingress key decision nowMs
  change (w.ingress.insert key decision nowMs).flows = _ at hflows
  have hlook : ∀ k, (afterInsert w key decision nowMs).ingress.splitter.decisions.lookup k =
      if k = key then some (entryOf w.ingress key decision nowMs)
      else (w.ingress.splitter.makeRoom nowMs).decisions.lookup k := by
    intro k
    show (w.ingress.insert key decision nowMs).splitter.decisions.lookup k = _
    rw [hsplitter, lookup_splitter_insert]
  have hlen : w.ingress.flows.length ≤ (afterInsert w key decision nowMs).ingress.flows.length := by
    show _ ≤ (w.ingress.insert key decision nowMs).flows.length
    rw [hflows, length_append]
    exact Nat.le_add_right _ _
  refine ⟨h.paired.insert habsent decision nowMs, ?_, fun k flow hk => ?_, fun k d hk => ?_,
    fun k d hk => ?_, nofun, fun g hg hroute => ?_, fun flow row hrow => ?_, fun flow hflow => ?_⟩
  · show len (w.ingress.insert key decision nowMs).splitter.decisions ≤
      (w.ingress.insert key decision nowMs).splitter.capacity
    rw [hsplitter]
    have hone : len (w.ingress.splitter.insert key
        (entryOf w.ingress key decision nowMs) nowMs).decisions =
          (w.ingress.splitter.makeRoom nowMs).decisions.len + 1 :=
      len_insert_of_none (makeRoom_absent habsent) _
    have hcap : (w.ingress.splitter.insert key (entryOf w.ingress key decision nowMs)
        nowMs).capacity = w.ingress.splitter.capacity := makeRoom_capacity _ _
    have hroom := makeRoom_len w.ingress.splitter nowMs
    omega
  · obtain ⟨d, handle, hd, hhas, rfl⟩ := owner_eq_some.mp hk
    rw [hlook] at hd
    split at hd
    · -- the new entry holds the row just opened
      cases hd
      obtain ⟨-, hnew⟩ := hhandle handle hhas
      show handle.flow < (w.ingress.insert key decision nowMs).flows.length
      rw [hnew, hflows, length_append]
      cases hlabel : decision.flow with
      | none =>
        rw [entryOf, hlabel] at hhas
        cases hhas
      | some => exact Nat.lt_succ_self _
    · exact lt_of_lt_of_le
        (h.rows k _ (owner_eq_some.mpr ⟨d, handle, lookup_makeRoom hd, hhas, rfl⟩)) hlen
  · rw [hlook] at hk
    split at hk
    · cases hk
      intro hroute
      obtain ⟨label, hlabel⟩ := isSome_iff_exists.mp (decision.tunnels hroute)
      show (w.ingress.openFlow key decision.flow).1.isSome
      rw [hlabel]
      rfl
    · exact h.tunnels k d (lookup_makeRoom hk)
  · rw [hlook] at hk
    split at hk
    · next heq =>
      cases hk
      exact heq ▸ hseen
    · exact h.seen k d (lookup_makeRoom hk)
  · obtain ⟨flow, howner, hlt⟩ := h.owned g hg hroute
    exact ⟨flow, howner, lt_of_lt_of_le hlt hlen⟩
  · change (w.ingress.insert key decision nowMs).flows[flow]? = some row at hrow
    rw [hflows] at hrow
    rcases lt_or_ge flow w.ingress.flows.length with hlt | hge
    · rw [getElem?_append_left hlt] at hrow
      exact h.counted flow row hrow
    · -- nothing has been counted in a row just opened
      rw [getElem?_append_right hge] at hrow
      obtain ⟨label, -, rfl⟩ := mem_map.mp (mem_of_getElem? hrow)
      show 0 = carried w.handed flow % 2 ^ 64
      rw [h.unopened flow hge, Nat.zero_mod]
  · exact h.unopened flow (le_trans hlen hflow)

/-- What a packet can do: its flow has a verdict that is used, it has none, or the
packet is not looked at. -/
theorem apply_packet (w : World) (bytes : Ref.Packet) (nowMs : Nat) :
    (w.phase = .waiting ∧ ∃ key, FlowKey.fromPacket bytes = some key ∧
      ((∃ route, (w.ingress.lookup w.cancelled key nowMs).1 = some route ∧
          w.apply (.packet bytes nowMs) =
            (afterLookup w key nowMs).handOver key bytes.length route) ∨
        ((w.ingress.lookup w.cancelled key nowMs).1 = none ∧ w.apply (.packet bytes nowMs) =
          { afterLookup w key nowMs with phase := .deciding key bytes.length nowMs }))) ∨
    w.apply (.packet bytes nowMs) = w := by
  cases hphase : w.phase with
  | deciding => exact .inr (by simp only [apply, hphase])
  | waiting =>
    cases hkey : FlowKey.fromPacket bytes with
    | none => exact .inr (by simp [apply, hkey])
    | some key =>
      refine .inl ⟨rfl, key, rfl, ?_⟩
      cases hfound : (w.ingress.lookup w.cancelled key nowMs).1 with
      | none => exact .inr ⟨rfl, by simp only [apply, hphase, hkey, hfound]; rfl⟩
      | some route =>
        exact .inl ⟨route, rfl, by simp only [apply, hphase, hkey, hfound]; rfl⟩

theorem fits_packet (h : Fits w) (bytes : Ref.Packet) (nowMs : Nat) :
    Fits (w.apply (.packet bytes nowMs)) := by
  rcases apply_packet w bytes nowMs with ⟨hphase, key, -, happly⟩ | heq
  · have hlooked := fits_lookup h hphase key nowMs
    obtain ⟨-, -, -, hown⟩ := lookup_spec w.ingress w.cancelled key nowMs
    rcases happly with ⟨route, hhit, heq⟩ | ⟨hmiss, heq⟩
    · rw [heq]
      refine fits_handOver hlooked key bytes.length fun hroute => ?_
      rcases hown with ⟨hmiss, -⟩ | ⟨old, hold, hfound, hnew⟩
      · exact absurd (hmiss.symm.trans hhit) nofun
      · cases hfound.symm.trans hhit
        show (rowOf ((w.ingress.lookup w.cancelled key nowMs).2.splitter.decisions.lookup
          key)).isSome
        rw [hnew]
        unfold rowOf
        rw [isSome_map]
        exact h.tunnels key old hold hroute
    · rw [heq]
      refine ⟨hlooked.paired, hlooked.bounded, hlooked.rows, hlooked.tunnels, hlooked.seen,
        fun k length now hdec => ?_, hlooked.owned, hlooked.counted, hlooked.unopened⟩
      obtain ⟨rfl, -, rfl⟩ := Phase.deciding.inj hdec
      rcases hown with ⟨-, hgone⟩ | ⟨_, _, hfound, _⟩
      · exact ⟨hgone, Function.update_self ..⟩
      · exact absurd (hmiss.symm.trans hfound) nofun
  · rw [heq]
    exact h

theorem fits_decided (h : Fits w) (decision : PacketDecision) :
    Fits (w.apply (.decided decision)) := by
  cases hphase : w.phase with
  | waiting => simpa only [apply, hphase] using h
  | deciding key length nowMs =>
    have hentered := fits_insert h hphase decision
    have heq : w.apply (.decided decision) =
        (afterInsert w key decision nowMs).handOver key length decision.route := by
      simp only [apply, hphase]
      rfl
    rw [heq]
    refine fits_handOver hentered key length fun hroute => ?_
    have hentry : (afterInsert w key decision nowMs).ingress.splitter.decisions.lookup key =
        some (entryOf w.ingress key decision nowMs) := by
      show (w.ingress.insert key decision nowMs).splitter.decisions.lookup key = _
      rw [insert_splitter, lookup_splitter_insert, if_pos rfl]
    rw [owner_eq, hentry]
    unfold rowOf
    rw [isSome_map]
    exact hentered.tunnels key _ hentry hroute

theorem fits_apply (h : Fits w) (a : Action) : Fits (w.apply a) := by
  cases a with
  | packet bytes nowMs => exact fits_packet h bytes nowMs
  | decided decision => exact fits_decided h decision
  | cancelPolicy =>
    exact ⟨h.paired, h.bounded, h.rows, h.tunnels, h.seen, h.absent, h.owned, h.counted, h.unopened⟩
  | revokeFlow =>
    exact ⟨⟨h.paired.keyed, h.paired.bound⟩, h.bounded, h.rows, h.tunnels, h.seen, h.absent,
      h.owned, h.counted, h.unopened⟩

theorem fits_initial (h : w.Initial) : Fits w := by
  obtain ⟨capacity, idleTimeoutMs, cancelled, rfl⟩ := h
  have hnone : ∀ {key : FlowKey} {decision : Decision},
      (PacketSplitter.new capacity idleTimeoutMs).decisions.lookup key ≠ some decision :=
    some_ne_none _ ∘ Eq.symm
  exact ⟨⟨fun _ _ _ h => absurd h hnone, fun _ => rfl⟩, Nat.zero_le _, nofun,
    fun _ _ h => absurd h hnone, fun _ _ h => absurd h hnone, nofun, nofun, nofun, fun _ _ => rfl⟩

/-- A cached verdict is used exactly when it may be. -/
theorem used_iff (h : Fits w) (key : FlowKey) (nowMs : Nat) (route : PacketRoute) :
    (w.ingress.lookup w.cancelled key nowMs).1 = some route ↔
      ∃ decision previous, w.ingress.splitter.decisions.lookup key = some decision ∧
        decision.route = route ∧ w.seen key = some previous ∧
        Usable w.ingress.splitter w.cancelled w.ingress.revoked previous nowMs decision := by
  constructor
  · intro hhit
    obtain ⟨decision, hlook, hroute, husable⟩ := usable_of_hit hhit
    exact ⟨decision, decision.lastSeenMs, hlook, hroute, h.seen key decision hlook, husable⟩
  · rintro ⟨decision, previous, hlook, hroute, hseen, husable⟩
    cases hseen.symm.trans (h.seen key decision hlook)
    unfold Ingress.lookup
    rcases lookup_cases w.ingress.splitter w.cancelled w.ingress.revoked key nowMs with
      ⟨hnone, -⟩ | ⟨old, hold, hunusable, -⟩ | ⟨old, hold, -, heq⟩
    · exact absurd (hnone.symm.trans hlook) nofun
    · cases hold.symm.trans hlook
      exact absurd husable hunusable
    · cases hold.symm.trans hlook
      rw [heq]
      exact congrArg some hroute

/-- The splitter's table and the table of rows stay in step in every run. -/
theorem split_accounting_in_step {w : World} (h : Reach World.Initial World.apply anyAction w) :
    Spec.Split.InStep w := by
  have hfits : Fits w := h.invariant (fun _ => fits_initial) fun _ a hw _ => fits_apply hw a
  refine ⟨hfits.bounded, hfits.paired.bound, fun _ => used_iff hfits, ?_, hfits.owned,
    hfits.counted⟩
  intro key length nowMs decision hphase
  rw [insert_splitter]
  exact spares_insert (hfits.absent key length nowMs hphase).1 _

/-- The first bytes of a TCP segment to one of two hosts. -/
def segment (host : UInt8) : Ref.Packet :=
  [0x45, 0, 0, 24, 0, 0, 0, 0, 64, 6, 0, 0, 10, 0, 0, 2, 93, 184, 216, host, 0x9c, 0x40, 0x01, 0xbb]

/-- A verdict for the tunnel. -/
def tunnelled : PacketDecision where
  route := .tunnel
  flow := some ⟨.tcp, ⟨[], 443⟩, [], [], none⟩
  voidedBy := some 0
  tunnels := fun _ => rfl

def oneEntry : World where
  ingress := { splitter := PacketSplitter.new 1 1000 }

/-- With room for one flow only: a verdict is reached and used again, a second flow
takes its place, and the policy's token is cancelled before the next packet. -/
def crowded : List Action :=
  [.packet (segment 1) 0, .decided tunnelled, .packet (segment 1) 900, .packet (segment 2) 901,
    .decided tunnelled, .cancelPolicy 0, .packet (segment 2) 902, .decided tunnelled]

theorem crowded_in_step :
    ((crowded.foldl World.apply oneEntry).handed.map Handed.owner =
      [some 2, some 1, some 0, some 0]) ∧
      Spec.Split.InStep (crowded.foldl World.apply oneEntry) :=
  ⟨by decide +kernel, split_accounting_in_step
    (Reach.run (.start ⟨1, 1000, [], rfl⟩) (admissible_any _ _ _))⟩

end Foxcore.Proofs.Split
