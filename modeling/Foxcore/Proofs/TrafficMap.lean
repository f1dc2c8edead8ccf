import Foxcore.Spec.TrafficMap

/-!
# What snapshots report

A flow is counted where it is: in the settled totals, in its row, or nowhere
while it has lost its row and is not settled. `Accounts` says what the settled
totals hold, `Following` what a snapshot has added up so far. From these two the
number a snapshot reports is the sum over the flows that were not in between, cut
off at the largest number a counter can hold (`reported_of_reach`), and it is the
right one exactly when that leaves nothing out. What flows have carried only
grows, so reports that are right grow too.
-/

namespace Foxcore.Proofs.Traffic

open Lib Ref.Traffic Spec.Traffic Function List World Report

variable {packages : List String} {flow : LiveFlow} {w : World} {id : Nat} {sight : Sight}

/-! ## Totals -/

def maxCount : Nat := 2 ^ 64 - 1

def amount (totals : PackageTotals) (column : Column) : Nat :=
  match column.lane with
  | none => pick totals.total column.direction
  | some lane => pick (totals.lanes lane) column.direction

/-- What the totals hold for a package. -/
def owned (totals : Totals) (package : String) (column : Column) : Nat :=
  amount ((totals.lookup package).getD {}) column

theorem pick_add (bytes : Bytes) (up down : Nat) (direction : Direction) :
    pick (bytes.add up down) direction =
      min (pick bytes direction + pick ⟨up, down⟩ direction) maxCount := by
  cases direction <;> rfl

theorem amount_add (totals : PackageTotals) (lane : FlowLane) (up down : Nat) (column : Column) :
    amount (totals.add lane up down) column =
      if column.covers lane then
        min (amount totals column + pick ⟨up, down⟩ column.direction) maxCount
      else amount totals column := by
  obtain ⟨own, direction⟩ := column
  cases own with
  | none => exact pick_add totals.total up down direction
  | some =>
    simp only [amount, PackageTotals.add, Column.covers, Option.all_some, decide_eq_true_eq]
    split
    · next h =>
      rw [h]
      exact pick_add (totals.lanes lane) up down direction
    · rfl

theorem owned_upsert (totals : Totals) (package other : String) (lane : FlowLane) (up down : Nat)
    (column : Column) :
    owned (totals.upsert package fun entry => (entry.getD {}).add lane up down) other column =
      if other = package ∧ column.covers lane then
        min (owned totals other column + pick ⟨up, down⟩ column.direction) maxCount
      else owned totals other column := by
  rw [owned, HashMap.lookup_upsert]
  by_cases h : other = package
  · subst h
    rw [if_pos rfl, Option.getD_some, amount_add]
    simp only [true_and]
    rfl
  · rw [if_neg h, if_neg fun h' => h h'.1]
    rfl

/-- A flow's bytes are added once for each package. -/
theorem owned_credit (hnodup : packages.Nodup) (totals : Totals) (lane : FlowLane) (up down : Nat)
    (package : String) (column : Column) :
    owned (totals.credit packages lane up down) package column =
      if package ∈ packages ∧ column.covers lane then
        min (owned totals package column + pick ⟨up, down⟩ column.direction) maxCount
      else owned totals package column := by
  induction packages generalizing totals with
  | nil => simp [Totals.credit]
  | cons first rest ih =>
    obtain ⟨hfirst, hrest⟩ := nodup_cons.mp hnodup
    have hstep : totals.credit (first :: rest) lane up down =
        Totals.credit (totals.upsert first fun entry => (entry.getD {}).add lane up down) rest lane
          up down := rfl
    rw [hstep, ih hrest, owned_upsert]
    by_cases heq : package = first
    · subst heq
      simp [hfirst]
    · simp [heq]

/-- What the counters of a flow say. -/
def counted (flow : LiveFlow) : Bytes := ⟨flow.up, flow.down⟩

/-- The bytes of one more flow. -/
theorem owned_credit_sum {totals : Totals} (hnodup : flow.packages.Nodup) {package : String}
    {column : Column} {sum : Nat} (h : owned totals package column = min sum maxCount) :
    owned (totals.credit flow.packages flow.lane flow.up flow.down) package column =
      min (sum + share flow (counted flow) package column) maxCount := by
  rw [owned_credit hnodup, h, share]
  split
  · show min (min sum maxCount + pick (counted flow) column.direction) maxCount = _
    omega
  · rfl

/-! ## What a snapshot shows -/

theorem mem_allLanes (lane : FlowLane) : lane ∈ allLanes := by cases lane <;> decide

theorem find_split (totals : PackageTotals) (package : String) (lane : FlowLane)
    (direction : Direction) :
    (match (packageTraffic package totals).lanes.find? (·.lane = lane) with
      | none => 0
      | some split => pick ⟨split.bytesUp, split.bytesDown⟩ direction) =
      pick (totals.lanes lane) direction := by
  have hmem : ∀ split, split ∈ (packageTraffic package totals).lanes ↔
      ((totals.lanes split.lane).up ≠ 0 ∨ (totals.lanes split.lane).down ≠ 0) ∧
        (⟨split.bytesUp, split.bytesDown⟩ : Bytes) = totals.lanes split.lane := by
    intro split
    simp only [packageTraffic, mem_filterMap]
    constructor
    · rintro ⟨own, -, h⟩
      split at h
      · cases h
        exact ⟨‹_›, rfl⟩
      · cases h
    · rintro ⟨hbytes, heq⟩
      refine ⟨split.lane, mem_allLanes _, ?_⟩
      rw [if_pos hbytes, ← heq]
  split
  · next hnone =>
    -- a lane that is left out has no bytes
    rw [find?_eq_none] at hnone
    have hzero := hnone ⟨lane, (totals.lanes lane).up, (totals.lanes lane).down⟩
    cases direction <;> grind [pick]
  · next found hfound =>
    have hlane := of_decide_eq_true (find?_some hfound :)
    rw [((hmem found).mp (mem_of_find?_eq_some hfound)).2, hlane]

theorem find_package (rows : Nat) (totals : Totals) (connections : List ConnectionRow)
    (counters : FlowLane → LaneCounters) (package : String) :
    (render rows totals connections counters).packages.find? (·.package = package) =
      (totals.lookup package).map (packageTraffic package) := by
  have hmem : ∀ traffic, traffic ∈ (render rows totals connections counters).packages ↔
      ∃ name entry, totals.lookup name = some entry ∧ packageTraffic name entry = traffic := by
    simp [render, HashMap.mem_entries]
  cases hlookup : totals.lookup package with
  | none =>
    refine find?_eq_none.mpr fun traffic htraffic heq => ?_
    obtain ⟨name, entry, hentry, rfl⟩ := (hmem traffic).mp htraffic
    rw [show name = package from of_decide_eq_true heq, hlookup] at hentry
    cases hentry
  | some entry =>
    have hthere := (hmem _).mpr ⟨package, entry, hlookup, rfl⟩
    cases hfind :
      (render rows totals connections counters).packages.find? (·.package = package) with
    | none => exact absurd (decide_eq_true rfl) (find?_eq_none.mp hfind _ hthere)
    | some traffic =>
      obtain ⟨name, entry', hentry, rfl⟩ := (hmem traffic).mp (mem_of_find?_eq_some hfind)
      have hname : name = package := of_decide_eq_true (find?_some hfind :)
      subst hname
      cases hlookup.symm.trans hentry
      rfl

theorem reported_render (rows : Nat) (totals : Totals) (connections : List ConnectionRow)
    (counters : FlowLane → LaneCounters) (package : String) (column : Column) :
    reported (render rows totals connections counters) package column =
      owned totals package column := by
  rw [reported, find_package, owned]
  cases totals.lookup package with
  | none =>
    obtain ⟨own, direction⟩ := column
    cases own <;> cases direction <;> rfl
  | some entry =>
    obtain ⟨own, direction⟩ := column
    cases own with
    | none => cases direction <;> rfl
    | some lane => exact find_split entry package lane direction

/-! ## The settled totals -/

/-- What the settled flows add up to. -/
def settledSum (w : World) (package : String) (column : Column) : Nat :=
  ∑ id ∈ Finset.range w.nextId,
    if w.stage id = .settled then share (w.flows id) (counted (w.flows id)) package column else 0

/-- The counters of a flow hold what it has carried as far as they can. -/
def CountsRight (sight : Sight) : Prop :=
  sight.flow.up = sight.carried.up % 2 ^ 64 ∧ sight.flow.down = sight.carried.down % 2 ^ 64

structure Accounts (w : World) : Prop where
  counts : ∀ id, CountsRight (w.lookAt id)
  nodup : ∀ id, (w.flows id).packages.Nodup
  unborn : ∀ id, w.nextId ≤ id → w.stage id = .unborn
  idle : ∀ id, w.stage id = .unborn ∨ w.stage id = .opening → counted (w.flows id) = {}
  removed : ∀ id up down, w.stage id = .removed up down → counted (w.flows id) = ⟨up, down⟩
  rows : ∀ id, id ∈ w.live ↔ w.stage id = .live ∨ w.stage id = .dropping
  distinct : w.live.Nodup
  settled : ∀ package column,
    owned w.closed package column = min (settledSum w package column) maxCount

/-- What the accounts say of one flow. -/
structure FlowOk (sight : Sight) (stage : Ref.Traffic.Stage) (row born : Prop) : Prop where
  counts : CountsRight sight
  nodup : sight.flow.packages.Nodup
  unborn : ¬ born → stage = .unborn
  idle : stage = .unborn ∨ stage = .opening → counted sight.flow = {}
  removed : ∀ up down, stage = .removed up down → counted sight.flow = ⟨up, down⟩
  rows : row ↔ stage = .live ∨ stage = .dropping

theorem Accounts.flowOk (h : Accounts w) (id : Nat) :
    FlowOk (w.lookAt id) (w.stage id) (id ∈ w.live) (id < w.nextId) where
  counts := h.counts id
  nodup := h.nodup id
  unborn hborn := h.unborn id (not_lt.mp hborn)
  idle := h.idle id
  removed := h.removed id
  rows := h.rows id

theorem accounts_of_flowOk
    (h : ∀ id, FlowOk (w.lookAt id) (w.stage id) (id ∈ w.live) (id < w.nextId))
    (hdistinct : w.live.Nodup) (hsettled : ∀ package column,
      owned w.closed package column = min (settledSum w package column) maxCount) : Accounts w where
  counts id := (h id).counts
  nodup id := (h id).nodup
  unborn id hid := (h id).unborn (not_lt.mpr hid)
  idle id := (h id).idle
  removed id := (h id).removed
  rows id := (h id).rows
  distinct := hdistinct
  settled := hsettled

/-- A sum in which one number has changed. -/
theorem sum_change {n i : Nat} (hi : i < n) {f g : Nat → Nat} (h : ∀ j, j ≠ i → g j = f j) :
    ∑ j ∈ Finset.range n, g j + f i = ∑ j ∈ Finset.range n, f j + g i := by
  have hmem : i ∈ Finset.range n := Finset.mem_range.mpr hi
  rw [← Finset.add_sum_erase _ g hmem, ← Finset.add_sum_erase _ f hmem]
  have hrest : ∑ j ∈ (Finset.range n).erase i, g j = ∑ j ∈ (Finset.range n).erase i, f j :=
    Finset.sum_congr rfl fun j hj => h j (Finset.ne_of_mem_erase hj)
  rw [hrest]
  ring

theorem accounts_new (rows : Nat) : Accounts (new rows) where
  counts _ := ⟨rfl, rfl⟩
  nodup _ := nodup_nil
  unborn _ _ := rfl
  idle _ _ := rfl
  removed _ _ _ h := nomatch h
  rows id := by simp [new]
  distinct := nodup_nil
  settled package column := by
    obtain ⟨own, direction⟩ := column
    cases own <;> cases direction <;> rfl

/-- Those who look later see every flow of the earlier, and at least as many bytes. -/
def Before (opened : Nat) (looked : Nat → Sight) (opened' : Nat) (looked' : Nat → Sight) : Prop :=
  opened ≤ opened' ∧ ∀ id < opened, ∀ package column,
    Sight.share (looked id) package column ≤ Sight.share (looked' id) package column

theorem Before.refl (opened : Nat) (looked : Nat → Sight) : Before opened looked opened looked :=
  ⟨le_rfl, fun _ _ _ _ => le_rfl⟩

theorem Before.trans {n n' n'' : Nat} {l l' l'' : Nat → Sight} (h : Before n l n' l')
    (h' : Before n' l' n'' l'') : Before n l n'' l'' :=
  ⟨h.1.trans h'.1, fun id hid package column =>
    (h.2 id hid package column).trans (h'.2 id (lt_of_lt_of_le hid h.1) package column)⟩

/-- What is left alone by everything but a snapshot, and what only grows. -/
structure Kept (w w' : World) : Prop where
  reader : w'.reader = w.reader
  reports : w'.reports = w.reports
  before : Before w.nextId w.lookAt w'.nextId w'.lookAt

/-- What is done beside the snapshots. -/
structure Onward (w w' : World) : Prop extends Kept w w' where
  accounts : Accounts w'

section

variable (h : Accounts w)

include h

theorem Onward.refl : Onward w w := ⟨⟨rfl, rfl, .refl _ _⟩, h⟩

/-- A flow that changes while its handle is held changes no settled total. -/
theorem onward_setFlow (hlive : w.stage id = .live) {carried : Bytes}
    (hcounts : CountsRight ⟨flow, carried⟩) (hnodup : flow.packages.Nodup)
    (hmore : ∀ package column,
      share (w.flows id) (w.carried id) package column ≤ share flow carried package column)
    (counters : FlowLane → LaneCounters) : Onward w
      { w with
        flows := update w.flows id flow, carried := update w.carried id carried
        counters } := by
  refine ⟨⟨rfl, rfl, le_rfl, fun other _ package column => ?_⟩,
    accounts_of_flowOk (fun other => ?_) h.distinct fun package column => ?_⟩
  · simp only [Sight.share, lookAt]
    grind
  · have hother := h.flowOk other
    by_cases heq : other = id
    · subst heq
      simp only [lookAt, update_self]
      exact { hother with
        counts := hcounts, nodup := hnodup, idle := by simp [hlive], removed := by simp [hlive] }
    · simpa only [lookAt, update_of_ne heq] using hother
  · rw [h.settled package column]
    congr 1
    refine Finset.sum_congr rfl fun other _ => ?_
    simp only [update_apply]
    grind

/-- A flow that exists comes to another stage. -/
theorem onward_move {stage : Ref.Traffic.Stage} {live : List Nat} {closed : Totals}
    {counters : FlowLane → LaneCounters} (hborn : w.stage id ≠ .unborn)
    (hopen : w.stage id ≠ .settled) (hstage : stage ≠ .unborn ∧ stage ≠ .opening)
    (hremoved : ∀ up down, stage = .removed up down → counted (w.flows id) = ⟨up, down⟩)
    (hrows : ∀ other, other ∈ live ↔
      if other = id then stage = .live ∨ stage = .dropping else other ∈ w.live)
    (hdistinct : live.Nodup) (hclosed : ∀ package column, owned closed package column =
      min (settledSum w package column +
        if stage = .settled then share (w.flows id) (counted (w.flows id)) package column else 0)
        maxCount) :
    Onward w { w with live, closed, counters, stage := update w.stage id stage } := by
  have hid : id < w.nextId := by
    by_contra hge
    exact hborn (h.unborn id (not_lt.mp hge))
  refine ⟨⟨rfl, rfl, .refl _ _⟩,
    accounts_of_flowOk (fun other => ?_) hdistinct fun package column => ?_⟩
  · have hother := h.flowOk other
    by_cases heq : other = id
    · subst heq
      simp only [update_self]
      exact { hother with
        unborn := fun hunborn => absurd hid hunborn
        idle := fun hidle => (hidle.elim hstage.1 hstage.2).elim
        removed := hremoved
        rows := by rw [hrows, if_pos rfl] }
    · simp only [update_of_ne heq]
      exact { hother with rows := by rw [hrows, if_neg heq, hother.rows] }
  · rw [hclosed package column]
    congr 1
    have hsum := sum_change hid
      (g := fun other => if update w.stage id stage other = .settled then
        share (w.flows other) (counted (w.flows other)) package column else 0)
      fun other hne => by rw [update_of_ne hne]
    simp only [hopen, update_self] at hsum
    exact hsum.symm

theorem onward_openFlow (lane : FlowLane) (hnodup : packages.Nodup) (uid : Option Nat) :
    Onward w (w.openFlow lane packages uid) := by
  have hnew := h.flowOk w.nextId
  have hunborn := hnew.unborn (lt_irrefl _)
  have hstage : ∀ other, (w.openFlow lane packages uid).stage other =
      if other = w.nextId then .opening else w.stage other := fun other => update_apply ..
  have hflow : ∀ other, (w.openFlow lane packages uid).flows other =
      if other = w.nextId then { lane, packages, uid } else w.flows other :=
    fun other => update_apply ..
  have hlook : ∀ other, other ≠ w.nextId →
      (w.openFlow lane packages uid).lookAt other = w.lookAt other := by
    intro other hne
    rw [lookAt, hflow, if_neg hne]
    rfl
  refine ⟨⟨rfl, rfl, Nat.le_succ _, fun other hother package column => ?_⟩,
    accounts_of_flowOk (fun other => ?_) h.distinct fun package column => ?_⟩
  · rw [hlook other (ne_of_lt hother)]
  · by_cases heq : other = w.nextId
    · subst heq
      rw [lookAt, hflow, hstage, if_pos rfl, if_pos rfl]
      -- nothing has been carried by a flow that was not there
      have hidle := hnew.idle (.inl hunborn)
      exact
        { counts := ⟨(congrArg Bytes.up hidle).symm.trans hnew.counts.1,
            (congrArg Bytes.down hidle).symm.trans hnew.counts.2⟩
          nodup := hnodup
          unborn := fun hold => absurd (Nat.lt_succ_self _) hold
          idle := fun _ => rfl
          removed := nofun
          rows := hnew.rows.trans (by simp [hunborn]) }
    · rw [hlook other heq, hstage, if_neg heq]
      exact { h.flowOk other with
        unborn := fun hold =>
          h.unborn other (not_lt.mp fun hlt => hold (Nat.lt_succ_of_lt hlt)) }
  · show owned w.closed package column = _
    rw [h.settled package column]
    congr 1
    show settledSum w package column = ∑ other ∈ Finset.range (w.nextId + 1), _
    rw [Finset.sum_range_succ, hstage, if_pos rfl, if_neg (nofun)]
    refine Finset.sum_congr rfl fun other hother => ?_
    have hne : other ≠ w.nextId := ne_of_lt (Finset.mem_range.mp hother)
    rw [hstage, hflow, if_neg hne, if_neg hne]

theorem onward_insertRow (id : Nat) : Onward w (w.insertRow id) := by
  fun_cases insertRow w id with
  | case1 hready =>
    rw [Bool.and_eq_true, decide_eq_true_eq] at hready
    have hout : id ∉ w.live := by simp [h.rows, hready.2]
    refine onward_move h (by simp [hready.2]) (by simp [hready.2]) (by decide)
      (nofun) (fun other => ?_) ?_ h.settled
    · split <;> simp [*]
    · exact (perm_orderedInsert _ _ _).nodup_iff.mpr (nodup_cons.mpr ⟨hout, h.distinct⟩)
  | case2 => exact .refl h

theorem onward_drop (id : Nat) : Onward w (w.drop id) := by
  fun_cases drop w id with
  | case1 hlive =>
    have hmem : id ∈ w.live := (h.rows id).mpr (.inl hlive)
    refine onward_move h (by simp [hlive]) (by simp [hlive]) (by decide) (nofun)
      (fun other => ?_) h.distinct h.settled
    split <;> simp [*]
  | case2 => exact .refl h

omit h in
/-- A flow without bytes has no share. -/
theorem share_zero (flow : LiveFlow) (package : String) (column : Column) :
    share flow {} package column = 0 := by
  cases hdirection : column.direction <;> grind [share, pick]

theorem onward_removeRow (id : Nat) : Onward w (w.removeRow id) := by
  fun_cases removeRow w id with
  | case1 hready =>
    rw [Bool.and_eq_true, decide_eq_true_eq] at hready
    refine onward_move h (by simp [hready.2]) (by simp [hready.2]) (by split <;> simp)
      (fun up down => ?_) (fun other => ?_) (h.distinct.erase id) fun package column => ?_
    · split
      · exact nofun
      · rintro ⟨⟩
        rfl
    · show other ∈ w.live.erase id ↔ _
      rw [h.distinct.mem_erase_iff]
      split_ifs <;> simp [*]
    · split
      · next hzero =>
        rw [counted, hzero.1, hzero.2, share_zero]
        exact h.settled package column
      · exact h.settled package column
  | case2 => exact .refl h

theorem onward_settle (id : Nat) : Onward w (w.settle id) := by
  fun_cases settle w id with
  | case1 up down hstage =>
    obtain ⟨rfl, rfl⟩ := Bytes.mk.inj (h.removed id up down hstage)
    have hout : id ∉ w.live := by simp [h.rows, hstage]
    refine onward_move h (by simp [hstage]) (by simp [hstage]) (by decide) (nofun)
      (fun other => ?_) h.distinct fun package column => ?_
    · split <;> simp [*]
    · exact owned_credit_sum (h.nodup id) (h.settled package column)
  | case2 => exact .refl h

omit h in
theorem share_mono {flow' : LiveFlow} {bytes bytes' : Bytes}
    (hpackages : flow'.packages = flow.packages) (hlane : flow'.lane = flow.lane)
    (hup : bytes.up ≤ bytes'.up) (hdown : bytes.down ≤ bytes'.down) (package : String)
    (column : Column) : share flow bytes package column ≤ share flow' bytes' package column := by
  rw [share, share]
  cases hdirection : column.direction <;> grind [pick]

theorem onward_addUp (hlive : w.stage id = .live) (bytes : Nat) : Onward w (w.addUp id bytes) := by
  have hcounts : CountsRight ⟨(w.flows id).addUp bytes,
      ⟨(w.carried id).up + bytes, (w.carried id).down⟩⟩ := by
    refine ⟨?_, (h.counts id).2⟩
    show ((w.lookAt id).flow.up + bytes) % 2 ^ 64 = ((w.lookAt id).carried.up + bytes) % 2 ^ 64
    rw [(h.counts id).1, Nat.mod_add_mod]
  exact onward_setFlow h hlive hcounts (h.nodup id)
    (share_mono rfl rfl (Nat.le_add_right _ _) (Nat.le_refl _)) _

theorem onward_addDown (hlive : w.stage id = .live) (bytes : Nat) :
    Onward w (w.addDown id bytes) := by
  have hcounts : CountsRight ⟨(w.flows id).addDown bytes,
      ⟨(w.carried id).up, (w.carried id).down + bytes⟩⟩ := by
    refine ⟨(h.counts id).1, ?_⟩
    show ((w.lookAt id).flow.down + bytes) % 2 ^ 64 = ((w.lookAt id).carried.down + bytes) % 2 ^ 64
    rw [(h.counts id).2, Nat.mod_add_mod]
  exact onward_setFlow h hlive hcounts (h.nodup id)
    (share_mono rfl rfl (Nat.le_refl _) (Nat.le_add_right _ _)) _

/-- A flow that gets an owner had none. -/
theorem onward_setIdentity (hlive : w.stage id = .live) (uid : Option Nat)
    (hnodup : packages.Nodup) : Onward w (w.setIdentity id uid packages) := by
  have hset : CountsRight ⟨(w.flows id).setIdentity uid packages, w.carried id⟩ ∧
      ((w.flows id).setIdentity uid packages).packages.Nodup ∧
      ∀ package column, share (w.flows id) (w.carried id) package column ≤
        share ((w.flows id).setIdentity uid packages) (w.carried id) package column := by
    rw [LiveFlow.setIdentity]
    split
    · next hempty =>
      rw [Bool.and_eq_true, List.isEmpty_iff] at hempty
      refine ⟨h.counts id, hnodup, fun package column => ?_⟩
      rw [share, hempty.1]
      exact Nat.zero_le _
    · exact ⟨h.counts id, h.nodup id, fun _ _ => le_rfl⟩
  have honward := onward_setFlow h hlive hset.1 hset.2.1 hset.2.2 w.counters
  rwa [update_eq_self] at honward

/-- A snapshot has nothing to do with the action. -/
def Aside : World.Action → Prop
  | .lockLive | .cloneClosed | .visit | .finish => False
  | _ => True

theorem onward_apply {action : World.Action} (hok : w.Proper action) (haside : Aside action) :
    Onward w (w.apply action) := by
  cases action with
  | openFlow lane packages uid => exact onward_openFlow h lane hok uid
  | insertRow id => exact onward_insertRow h id
  | addUp id bytes => exact onward_addUp h hok bytes
  | addDown id bytes => exact onward_addDown h hok bytes
  | setIdentity id uid => exact onward_setIdentity h hok.1 uid hok.2
  | drop id => exact onward_drop h id
  | removeRow id => exact onward_removeRow h id
  | settle id => exact onward_settle h id
  | lockLive | cloneClosed | visit | finish => exact haside.elim

end

/-- The runs that are looked at. -/
def TrafficReach (rows : Nat) (w : World) : Prop :=
  Reach (· = new rows) apply World.Proper w

/-! ## Snapshots -/

/-- What a snapshot has added up when it has come to the flows that it does not
skip. -/
def seenSum (opened : Nat) (looked : Nat → Sight) (skipped : Nat → Bool) (package : String)
    (column : Column) : Nat :=
  ∑ id ∈ Finset.range opened,
    if skipped id then 0 else share (looked id).flow (counted (looked id).flow) package column

structure Following (progress : Progress) : Prop where
  rows : ∀ id ∈ progress.remaining, id < progress.opened ∧ progress.between id = false
  distinct : progress.remaining.Nodup
  counts : ∀ id, CountsRight (progress.looked id)
  totals : ∀ package column, owned progress.totals package column =
    min (seenSum progress.opened progress.looked
      (fun id => progress.between id || decide (id ∈ progress.remaining)) package column) maxCount

structure Told (report : Report) : Prop where
  counts : ∀ id, CountsRight (report.looked id)
  totals : ∀ package column, reported report.snapshot package column =
    min (seenSum report.opened report.looked report.between package column) maxCount

structure Telling (w : World) : Prop where
  following : ∀ progress, w.reader = .reading progress → Following progress ∧
    Before progress.opened progress.looked w.nextId w.lookAt ∧
    ∀ report ∈ w.reports, Before report.opened report.looked progress.opened progress.looked
  told : ∀ report ∈ w.reports, Told report ∧
    Before report.opened report.looked w.nextId w.lookAt
  ordered : w.reports.Pairwise fun earlier later =>
    Before earlier.opened earlier.looked later.opened later.looked

theorem Telling.kept {w' : World} (h : Telling w) (hkept : Kept w w') : Telling w' where
  following progress hreading := by
    rw [hkept.reader] at hreading
    rw [hkept.reports]
    obtain ⟨hfollowing, hbefore, hreports⟩ := h.following progress hreading
    exact ⟨hfollowing, hbefore.trans hkept.before, hreports⟩
  told report hreport := by
    rw [hkept.reports] at hreport
    exact ⟨(h.told report hreport).1, (h.told report hreport).2.trans hkept.before⟩
  ordered := by
    rw [hkept.reports]
    exact h.ordered

/-- When the totals are copied, what is in them is what is neither in a row nor in
between. -/
theorem following_clone (haccounts : Accounts w) :
    Following
      { totals := w.closed, connections := [], remaining := w.live, opened := w.nextId,
        looked := w.lookAt, between := fun id => w.stage id matches .removed _ _ } where
  rows id hid := by
    have hstage := (haccounts.rows id).mp hid
    constructor
    · by_contra hge
      have hunborn := haccounts.unborn id (not_lt.mp hge)
      simp [hunborn] at hstage
    · obtain hstage | hstage := hstage <;> simp [hstage]
  distinct := haccounts.distinct
  counts := haccounts.counts
  totals package column := by
    rw [haccounts.settled package column]
    congr 1
    refine Finset.sum_congr rfl fun id hid => ?_
    have hidle : w.stage id = .unborn ∨ w.stage id = .opening →
        share (w.flows id) (counted (w.flows id)) package column = 0 := by
      intro hstage
      rw [haccounts.idle id hstage, share_zero]
    have hrows := haccounts.rows id
    show _ = if ((w.stage id matches .removed _ _) || decide (id ∈ w.live)) = true then 0
      else share (w.flows id) (counted (w.flows id)) package column
    cases hstage : w.stage id with
    | unborn => simp [hidle (.inl hstage)]
    | opening => simp [hidle (.inr hstage)]
    | live | dropping => simp [hstage, hrows]
    | removed => simp
    | settled => simp [hstage, hrows]

/-- A row is added to what has been added up. -/
theorem following_visit (haccounts : Accounts w) {progress : Progress} (h : Following progress)
    {rest : List Nat} (hremaining : progress.remaining = id :: rest) :
    Following
      { progress with
        totals := progress.totals.credit (w.flows id).packages (w.flows id).lane (w.flows id).up
          (w.flows id).down
        connections := progress.connections ++ [(w.flows id).snapshot id], remaining := rest
        looked := update progress.looked id (w.lookAt id) } := by
  have hrows := h.rows
  have hdistinct := h.distinct
  rw [hremaining] at hrows hdistinct
  obtain ⟨hout, hrest⟩ := nodup_cons.mp hdistinct
  obtain ⟨hid, hbetween⟩ := hrows id mem_cons_self
  constructor
  case rows => exact fun other hother => hrows other (mem_cons_of_mem _ hother)
  case distinct => exact hrest
  case counts =>
    exact (forall_update_iff _ fun _ sight => CountsRight sight).mpr
      ⟨haccounts.counts id, fun other _ => h.counts other⟩
  case totals =>
    intro package column
    rw [owned_credit_sum (haccounts.nodup id) (h.totals package column), hremaining]
    congr 1
    have hsum := sum_change hid
      (f := fun other => if (progress.between other || decide (other ∈ id :: rest)) = true then 0
        else
          share (progress.looked other).flow (counted (progress.looked other).flow) package column)
      (g := fun other => if (progress.between other || decide (other ∈ rest)) = true then 0
        else share (update progress.looked id (w.lookAt id) other).flow
          (counted (update progress.looked id (w.lookAt id) other).flow) package column)
      fun other hne => by simp [hne]
    simp only [hbetween, hout, mem_cons_self, update_self] at hsum
    exact hsum.symm

/-- What holds of every state of a run. -/
structure Sound (w : World) : Prop extends Telling w where
  accounts : Accounts w

theorem sound_visit (h : Sound w) : Sound w.visit := by
  fun_cases visit
  case case2 progress hreader id rest hremaining row =>
    refine { h with following := fun progress' hreading => ?_, accounts := { h.accounts with } }
    cases hreading
    obtain ⟨hfollowing, hbefore, hreports⟩ := h.following progress hreader
    -- the flow is looked at again, and has carried no less than when it was looked at first
    have hmore : Before progress.opened progress.looked progress.opened
        (update progress.looked id (w.lookAt id)) :=
      ⟨le_rfl, (forall_update_iff _ fun other sight => other < progress.opened →
        ∀ package column, Sight.share (progress.looked other) package column ≤
          Sight.share sight package column).mpr
        ⟨hbefore.2 id, fun other _ _ _ _ => le_rfl⟩⟩
    refine ⟨following_visit h.accounts hfollowing hremaining, ⟨hbefore.1, ?_⟩,
      fun report hreport => (hreports report hreport).trans hmore⟩
    exact (forall_update_iff _ fun other sight => other < progress.opened →
      ∀ package column, Sight.share sight package column ≤
        Sight.share (w.lookAt other) package column).mpr
      ⟨fun _ _ _ => le_rfl, fun other _ => hbefore.2 other⟩
  all_goals exact h

theorem sound_finish (h : Sound w) : Sound w.finish := by
  fun_cases finish
  case case1 progress hreader hremaining =>
    obtain ⟨hfollowing, hbefore, hreports⟩ := h.following progress hreader
    refine ⟨⟨nofun, fun report hreport => ?_, ?_⟩, { h.accounts with }⟩
    · obtain hreport | hreport := mem_append.mp hreport
      · exact h.told report hreport
      · obtain rfl := mem_singleton.mp hreport
        refine ⟨⟨hfollowing.counts, fun package column => ?_⟩, hbefore⟩
        rw [reported_render, hfollowing.totals package column, hremaining]
        simp
    · refine pairwise_append.mpr ⟨h.ordered, pairwise_singleton _ _, ?_⟩
      intro earlier hearlier later hlater
      obtain rfl := mem_singleton.mp hlater
      exact hreports earlier hearlier
  all_goals exact h

theorem sound_apply (h : Sound w) {action : World.Action} (hok : w.Proper action) :
    Sound (w.apply action) := by
  have haside : Aside action → Sound (w.apply action) := fun haside =>
    have honward := onward_apply h.accounts hok haside
    ⟨h.kept honward.toKept, honward.accounts⟩
  cases action with
  | lockLive =>
    simp only [apply]
    fun_cases lockLive w with
    | case1 => exact { h with following := nofun, accounts := { h.accounts with } }
    | case2 => exact h
  | cloneClosed =>
    simp only [apply]
    fun_cases cloneClosed w with
    | case1 =>
      refine { h with following := fun progress hreading => ?_, accounts := { h.accounts with } }
      cases hreading
      exact ⟨following_clone h.accounts, .refl _ _, fun report hreport => (h.told report hreport).2⟩
    | case2 => exact h
  | visit => exact sound_visit h
  | finish => exact sound_finish h
  | _ => exact haside trivial

theorem telling_of_reach {rows : Nat} (h : TrafficReach rows w) : Telling w := by
  refine (h.invariant ?_ fun _ _ hw hok => sound_apply hw hok : Sound w).toTelling
  rintro _ rfl
  exact ⟨⟨nofun, nofun, .nil⟩, accounts_new rows⟩

/-! ## Exactness -/

/-- A counter shows no more than what was carried. -/
theorem share_counted_le (h : CountsRight sight) (package : String) (column : Column) :
    share sight.flow (counted sight.flow) package column ≤ Sight.share sight package column := by
  obtain ⟨hup, hdown⟩ := h
  exact share_mono rfl rfl (le_trans (le_of_eq hup) (Nat.mod_le _ _))
    (le_trans (le_of_eq hdown) (Nat.mod_le _ _)) package column

/-- A counter that has not overflowed shows what was carried. -/
theorem share_counted_eq (h : CountsRight sight) {package : String} {column : Column}
    (hfits : Sight.share sight package column < 2 ^ 64) :
    share sight.flow (counted sight.flow) package column = Sight.share sight package column := by
  obtain ⟨hup, hdown⟩ := h
  rw [Sight.share] at hfits ⊢
  cases hdirection : column.direction <;> grind [share, pick, counted]

/-- The number in a report is right if nothing is left out and it fits, and only
then. -/
theorem exact_iff {report : Report} (h : Told report) (package : String) (column : Column) :
    reported report.snapshot package column = due report package column ↔
      Report.Complete report package column := by
  have hle : ∀ id ∈ Finset.range report.opened,
      (if report.between id then 0
        else share (report.looked id).flow (counted (report.looked id).flow) package column) ≤
      Sight.share (report.looked id) package column := by
    intro id _
    split
    · exact Nat.zero_le _
    · exact share_counted_le (h.counts id) package column
  have hsum : seenSum report.opened report.looked report.between package column ≤
      due report package column := Finset.sum_le_sum hle
  rw [h.totals package column, maxCount]
  constructor
  · intro heq
    have hfits : due report package column < 2 ^ 64 := by omega
    have hall : seenSum report.opened report.looked report.between package column =
        due report package column := by omega
    refine ⟨fun id hid hbetween => ?_, hfits⟩
    have hterm := (Finset.sum_eq_sum_iff_of_le hle).mp hall id (Finset.mem_range.mpr hid)
    rw [if_pos hbetween] at hterm
    exact hterm.symm
  · rintro ⟨hnone, hfits⟩
    have hall : seenSum report.opened report.looked report.between package column =
        due report package column := by
      refine Finset.sum_congr rfl fun id hid => ?_
      split
      · next hbetween => exact (hnone id (Finset.mem_range.mp hid) hbetween).symm
      · have hone :
            Sight.share (report.looked id) package column ≤ due report package column :=
          Finset.single_le_sum (f := fun id => Sight.share (report.looked id) package column)
            (fun _ _ => Nat.zero_le _) hid
        exact share_counted_eq (h.counts id) (lt_of_le_of_lt hone hfits)
    omega

theorem due_mono {earlier later : Report}
    (h : Before earlier.opened earlier.looked later.opened later.looked) (package : String)
    (column : Column) : due earlier package column ≤ due later package column := by
  calc due earlier package column
      ≤ ∑ id ∈ Finset.range earlier.opened, Sight.share (later.looked id) package column :=
        Finset.sum_le_sum fun id hid => h.2 id (Finset.mem_range.mp hid) package column
    _ ≤ due later package column :=
        Finset.sum_le_sum_of_subset (Finset.range_subset_range.mpr h.1)

/-- A snapshot reports the bytes of all flows of a package exactly when none of
them was between losing its row and being settled. Of two snapshots that do, the
later reports no less. -/
theorem reports_exact_iff {rows : Nat} {w : World} (hreach : TrafficReach rows w) :
    (∀ report ∈ w.reports, ∀ package column,
      reported report.snapshot package column = Report.due report package column ↔
        Report.Complete report package column) ∧
    w.reports.Pairwise fun earlier later => ∀ package column,
      Report.Complete earlier package column → Report.Complete later package column →
        reported earlier.snapshot package column ≤ reported later.snapshot package column := by
  have htelling := telling_of_reach hreach
  refine ⟨fun report hreport => exact_iff (htelling.told report hreport).1, ?_⟩
  refine htelling.ordered.imp_of_mem ?_
  intro earlier later hearlier hlater hbefore package column hcomplete hcomplete'
  rw [(exact_iff (htelling.told earlier hearlier).1 package column).mpr hcomplete,
    (exact_iff (htelling.told later hlater).1 package column).mpr hcomplete']
  exact due_mono hbefore package column

namespace Example

/-- A flow of one package carries five bytes, is looked at, and is dropped. -/
def dropped : List World.Action :=
  [.openFlow .vpn ["com.example"] none, .insertRow 1, .addUp 1 5, .lockLive, .cloneClosed, .visit,
   .finish, .drop 1, .removeRow 1]

def look : List World.Action := [.lockLive, .cloneClosed, .finish]

/-- The second look is after the flow is settled. -/
def patient : World := (dropped ++ .settle 1 :: look).foldl apply (new 8)

/-- The second look is before. -/
def hasty : World := (dropped ++ look).foldl apply (new 8)

end Example

open Example in
theorem settled_flow_reported :
    (∀ report ∈ patient.reports, Report.Complete report "com.example" ⟨none, .up⟩) ∧
    patient.reports.map (reported ·.snapshot "com.example" ⟨none, .up⟩) = [5, 5] := by
  have hreach : TrafficReach 8 patient := Reach.run (.start rfl) (by decide +kernel)
  have hreported :
      patient.reports.map (reported ·.snapshot "com.example" ⟨none, .up⟩) = [5, 5] := by
    decide +kernel
  have hdue : patient.reports.map (due · "com.example" ⟨none, .up⟩) = [5, 5] := by
    decide +kernel
  refine ⟨fun report hreport => ?_, hreported⟩
  have hexact := map_inj_left.mp (hreported.trans hdue.symm) report hreport
  exact ((reports_exact_iff hreach).1 report hreport _ _).mp hexact

open Example in
/-- The flow has lost its row and is in no total yet. -/
theorem bytes_vanish_in_between :
    TrafficReach 8 hasty ∧
    hasty.reports.map (reported ·.snapshot "com.example" ⟨none, .up⟩) = [5, 0] ∧
    hasty.reports.map (Report.due · "com.example" ⟨none, .up⟩) = [5, 5] :=
  ⟨Reach.run (.start rfl) (by decide +kernel), by decide +kernel, by decide +kernel⟩

end Foxcore.Proofs.Traffic
