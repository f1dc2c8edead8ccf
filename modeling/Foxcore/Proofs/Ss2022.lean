import Foxcore.Spec.Ss2022

/-!
# Nothing is sent or delivered twice

A window is right about which of the last 1024 numbers were accepted (`Tracks`). As
long as the relay runs, what was accepted was delivered.
-/

namespace Foxcore.Proofs.Ss2022

open Lib Ref.Ss2022 Spec.Ss2022 List

variable {w : ReplayWindow} {S : Set Nat} {packet top : Nat} {r : Relay}

/-! ## A window -/

/-- The window knows what was accepted of its last numbers. -/
structure Tracks (w : ReplayWindow) (S : Set Nat) : Prop where
  fresh : w.highest = none → w.seen = Vector.replicate replayBits 0 ∧ S = ∅
  highest : ∀ h ∈ w.highest, h ∈ S ∧ (∀ k ∈ S, k ≤ h) ∧ w.seen.Shows h S

/-- What the answer to a number says. -/
def Answers (w : ReplayWindow) (S : Set Nat) (packet : Nat) (answer : Bool × ReplayWindow) : Prop :=
  (packet ∉ S ∧ answer.1 = true ∧ Tracks answer.2 (insert packet S)) ∨
    ((packet ∈ S ∨ ∃ k ∈ S, packet + replayBits ≤ k) ∧ answer = (false, w))

/-- A number is recorded once in a ring that is right up to it. -/
theorem record_spec (hshows : w.seen.Shows top S)
    (htop : w.highest.elim packet (max · packet) = top) (hmem : top ∈ insert packet S)
    (hmax : ∀ k ∈ insert packet S, k ≤ top) (hlow : top < packet + replayBits) :
    Answers w S packet (w.record packet) := by
  have hblock : packet / 1 ≤ top ∧ top < packet / 1 + replayBits := by
    rw [Nat.div_one]
    exact ⟨hmax packet (Set.mem_insert _ _), hlow⟩
  have htest := hshows packet hblock.1 hblock.2
  by_cases hin : packet ∈ S
  · exact .inr ⟨.inl hin, if_pos (htest.mpr hin)⟩
  · rw [ReplayWindow.record, if_neg (htest.not.mpr hin), htop]
    refine .inl ⟨hin, rfl, nofun, ?_⟩
    rintro _ ⟨⟩
    exact ⟨hmem, hmax, BitRing.shows_mark Nat.one_pos hshows hblock.1 hblock.2⟩

/-- A number above all others. -/
theorem record_above {w' : ReplayWindow} (hshows : w.seen.Shows packet S)
    (hhighest : w.highest.elim packet (max · packet) = packet) (h : ∀ k ∈ S, k < packet) :
    Answers w' S packet (w.record packet) := by
  have hnew : packet ∉ S := fun hin => lt_irrefl _ (h packet hin)
  have hfar : ¬ ∃ k ∈ S, packet + replayBits ≤ k := fun ⟨k, hk, hle⟩ =>
    not_le.mpr (Nat.lt_add_right _ (h k hk)) hle
  refine (record_spec hshows hhighest (Set.mem_insert _ _)
    (Set.forall_mem_insert.mpr ⟨le_rfl, fun k hk => (h k hk).le⟩)
    (Nat.lt_add_of_pos_right (by decide))).imp_right fun hold => ?_
  exact (hold.1.elim hnew hfar).elim

/-- A number is accepted if it is new and less than 1024 behind the highest. -/
theorem accept_spec (h : Tracks w S) (packet : Nat) : Answers w S packet (w.accept packet) := by
  fun_cases ReplayWindow.accept
  case case1 hnone =>
    obtain ⟨hseen, rfl⟩ := h.fresh hnone
    refine record_above ?_ (by rw [hnone]; rfl) nofun
    rw [hseen]
    exact BitRing.shows_cleared nofun
  case case2 highest hhighest hlt hjump =>
    obtain ⟨-, hmax, -⟩ := h.highest highest hhighest
    refine record_above (BitRing.shows_cleared fun k hk => ?_) ?_
      fun k hk => (hmax k hk).trans_lt hlt
    · have hle := hmax k hk
      omega
    · rw [hhighest]
      exact Nat.max_eq_right hlt.le
  case case3 highest hhighest hlt hjump =>
    obtain ⟨-, hmax, hshows⟩ := h.highest highest hhighest
    have hadvance := BitRing.shows_advance hshows
      (fun k hk => (Nat.div_one k).trans_le (hmax k hk)) hlt.le
    rw [Nat.min_eq_left (by omega)] at hadvance
    refine record_above hadvance ?_ fun k hk => (hmax k hk).trans_lt hlt
    rw [hhighest]
    exact Nat.max_eq_right hlt.le
  case case4 highest hhighest hle hfar =>
    refine .inr ⟨.inr ⟨highest, (h.highest highest hhighest).1, ?_⟩, rfl⟩
    omega
  case case5 highest hhighest hle hnear =>
    obtain ⟨hin, hmax, hshows⟩ := h.highest highest hhighest
    have hle := not_lt.mp hle
    exact record_spec hshows (by rw [hhighest]; exact Nat.max_eq_left hle) (.inr hin)
      (Set.forall_mem_insert.mpr ⟨hle, hmax⟩) (by omega)

/-! ## A session -/

/-- The numbers of a server session among some replies. -/
def numbersOf (replies : List Control) (server : Nat) : Set Nat :=
  {p | (server, p) ∈ replies.map reply}

theorem numbersOf_cons (c : Control) (replies : List Control) (server : Nat) :
    numbersOf (c :: replies) server = if server = c.serverSessionId then
      insert c.packetId (numbersOf replies server) else numbersOf replies server := by
  ext p
  by_cases h : server = c.serverSessionId <;> simp [numbersOf, reply, h]

structure Sound (r : Relay) : Prop extends Exact r where
  reserved : ∀ p ∈ r.sent, p.control.clientSessionId = r.state.clientSessionId ∧
    ∀ next ∈ r.state.nextPacketId, p.control.packetId < next
  tracks : r.running = true → ∀ server,
    Tracks (r.state.window server) (numbersOf r.delivered server)

theorem Sound.stop (h : Sound r) : Sound { r with running := false } := { h with tracks := nofun }

theorem window_insert (s : UdpState) (window : ReplayWindow) (c server : Nat) :
    { s with replies := s.replies.insert c window }.window server =
      if server = c then window else s.window server := by
  rw [UdpState.window, HashMap.lookup_insert]
  split <;> rfl

/-- What a reply does: it is not for this session, or there is no room for its server's, or
the window of its server's session decides. -/
theorem acceptReply_cases (s : UdpState) (c : Control) :
    (c.clientSessionId ≠ s.clientSessionId ∧ s.acceptReply c = (some false, s)) ∨
    ((s.replies.lookup c.serverSessionId = none ∧ maxServerSessions ≤ s.replies.len) ∧
      s.acceptReply c = (none, s)) ∨
    (c.clientSessionId = s.clientSessionId ∧ ∃ accepted window,
      (s.window c.serverSessionId).accept c.packetId = (accepted, window) ∧
      s.acceptReply c =
        (some accepted, { s with replies := s.replies.insert c.serverSessionId window }) ∧
      (s.replies.len ≤ maxServerSessions →
        HashMap.len (s.replies.insert c.serverSessionId window) ≤ maxServerSessions)) := by
  fun_cases UdpState.acceptReply
  case case1 hother => exact .inl ⟨hother, rfl⟩
  case case2 hfull => exact .inr (.inl ⟨hfull, rfl⟩)
  case case3 hown hroom accepted window haccept =>
    refine .inr (.inr ⟨not_not.mp hown, accepted, window, haccept, rfl, fun hlen => ?_⟩)
    cases hknown : s.replies.lookup c.serverSessionId with
    | none =>
      have hless := not_le.mp fun hfull => hroom ⟨hknown, hfull⟩
      exact (HashMap.len_insert_of_none hknown window).trans_le hless
    | some => exact (HashMap.len_insert_of_some hknown window).trans_le hlen

/-- A reply keeps the session sound and every window, and is delivered if it is due. -/
theorem Sound.received (h : Sound r) (hrun : r.running = true) (c : Control) (taken : Bool) :
    Sound (r.step (.received (some c) taken)) ∧
      Retains r.state (r.step (.received (some c) taken)).state ∧
      (taken = true → Due r c → c ∈ (r.step (.received (some c) taken)).delivered) := by
  rw [Relay.step, if_neg (ne_true_of_eq_false · hrun)]
  obtain ⟨hother, heq⟩ | ⟨hfull, heq⟩ | ⟨hown, accepted, window, haccept, heq, hlen⟩ :=
    acceptReply_cases r.state c
  · rw [heq]
    exact ⟨h, fun _ => id, fun _ hdue => absurd hdue.own hother⟩
  · rw [heq]
    refine ⟨h.stop, fun _ => id, fun _ hdue => ?_⟩
    rcases hdue.room with hknown | hless
    · exact absurd hfull.1 hknown
    · exact absurd hfull.2 (not_le.mpr hless)
  · have hkept : Retains r.state
        { r.state with replies := r.state.replies.insert c.serverSessionId window } := by
      intro server hserver
      rw [HashMap.lookup_insert]
      split
      · nofun
      · exact hserver
    have hspec := accept_spec (h.tracks hrun c.serverSessionId) c.packetId
    rw [haccept] at hspec
    rw [heq]
    obtain ⟨hnew, rfl, htracks⟩ | ⟨hrefused, hsame⟩ := hspec
    · cases taken with
      | false => exact ⟨{ h with windows := hlen h.windows, tracks := nofun }, hkept, nofun⟩
      | true =>
        refine ⟨{ h with
          deliveredOnce := nodup_cons.mpr ⟨hnew, h.deliveredOnce⟩
          own := forall_mem_cons.mpr ⟨hown, h.own⟩
          windows := hlen h.windows
          tracks := fun _ server => ?_ }, hkept, fun _ _ => mem_cons_self⟩
        rw [if_pos rfl, window_insert, numbersOf_cons]
        split
        · next hserver => exact hserver ▸ htracks
        · exact h.tracks hrun server
    · cases hsame
      refine ⟨{ h with windows := hlen h.windows, tracks := fun _ server => ?_ }, hkept,
        fun _ hdue => ?_⟩
      · rw [window_insert]
        split
        · next hserver => exact hserver ▸ h.tracks hrun c.serverSessionId
        · exact h.tracks hrun server
      · rcases hrefused with hin | ⟨k, hk, hfar⟩
        · exact absurd hin hdue.fresh
        · obtain ⟨d, hd, hreply⟩ := mem_map.mp hk
          obtain ⟨hserver, rfl⟩ := Prod.mk.inj hreply
          exact absurd (hdue.near d hd hserver) (not_lt.mpr hfar)

/-- A number that is reserved is above all that were. -/
theorem Sound.uplink (h : Sound r) (hrun : r.running = true) (outgoing : Datagram)
    (succeeds : Bool) :
    Sound (r.step (.uplink outgoing succeeds)) ∧
      (r.step (.uplink outgoing succeeds)).state.replies = r.state.replies := by
  rw [Relay.step, if_neg (ne_true_of_eq_false · hrun)]
  cases hnext : r.state.nextPacketId with
  | none =>
    simp only [UdpState.reservePacket, hnext]
    exact ⟨h.stop, trivial⟩
  | some id =>
    have hbelow : ∀ p ∈ r.sent, p.control.packetId < id := fun p hp => (h.reserved p hp).2 id hnext
    have hnew : ∀ next ∈ (if id + 1 < 2 ^ 64 then some (id + 1) else none), id < next := by
      intro next hin
      split at hin
      · exact Option.some.inj hin ▸ Nat.lt_succ_self id
      · cases hin
    have hfresh : (r.state.clientSessionId, id) ∉
        r.sent.map fun p => (p.control.clientSessionId, p.control.packetId) := by
      intro hin
      obtain ⟨p, hp, heq⟩ := mem_map.mp hin
      exact (hbelow p hp).ne (Prod.mk.inj heq).2
    have hreserved : ∀ p ∈ r.sent, p.control.clientSessionId = r.state.clientSessionId ∧
        ∀ next ∈ (if id + 1 < 2 ^ 64 then some (id + 1) else none), p.control.packetId < next :=
      fun p hp => ⟨(h.reserved p hp).1, fun next hin => (hbelow p hp).trans (hnew next hin)⟩
    simp only [UdpState.reservePacket, hnext]
    refine ⟨{ h with
      sentOnce := nodup_cons.mpr ⟨hfresh, h.sentOnce⟩
      reserved := forall_mem_cons.mpr ⟨⟨rfl, hnew⟩, hreserved⟩
      tracks := fun _ => h.tracks hrun }, trivial⟩

theorem Sound.step (h : Sound r) (a : Action) :
    Sound (r.step a) ∧ Retains r.state (r.step a).state := by
  cases hrun : r.running with
  | false =>
    rw [Relay.step.eq_def, if_pos hrun]
    exact ⟨h, fun _ => id⟩
  | true =>
    have hstop : ∀ {a}, r.step a = { r with running := false } →
        Sound (r.step a) ∧ Retains r.state (r.step a).state :=
      fun heq => heq ▸ ⟨h.stop, fun _ => id⟩
    have hneg : ¬ r.running = false := (ne_true_of_eq_false · hrun)
    cases a with
    | received control taken =>
      cases control with
      | none => exact hstop (if_neg hneg)
      | some c =>
        obtain ⟨hsound, hkept, -⟩ := h.received hrun c taken
        exact ⟨hsound, hkept⟩
    | uplink outgoing succeeds =>
      obtain ⟨hsound, hsame⟩ := h.uplink hrun outgoing succeeds
      exact ⟨hsound, fun _ => hsame ▸ id⟩
    | cancel | uplinkClosed | receiveFailed => exact hstop (if_neg hneg)

/-- In every run of a session no two packets go out under one number, no reply is
delivered twice or for another session, and what is due is delivered; no window is
forgotten, and there are no more than 64. -/
theorem ss2022_exact {client : Nat} {destination : Ref.Destination}
    (h : Reach (· = { state := { clientSessionId := client }, defaultDestination := destination })
      Relay.step anyAction r) :
    Exact r ∧ (r.running = true → ∀ c, Due r c →
        c ∈ (r.step (.received (some c) true)).delivered) ∧
      ∀ a, Retains r.state (r.step a).state := by
  have hsound : Sound r := by
    refine h.invariant ?_ fun _ a hs _ => (hs.step a).1
    rintro _ rfl
    exact ⟨⟨.nil, .nil, nofun, Nat.zero_le _⟩, nofun,
      fun _ _ => ⟨fun _ => ⟨rfl, Set.eq_empty_of_forall_notMem nofun⟩, nofun⟩⟩
  exact ⟨hsound.toExact, fun hrun c hdue => (hsound.received hrun c true).2.2 rfl hdue,
    fun a => (hsound.step a).2⟩

/-- A reply 1023 behind the highest, its duplicate and one of another session. -/
theorem ss2022_exact_late :
    let replies : List Control := [⟨7, 1, 1023⟩, ⟨7, 1, 0⟩, ⟨7, 1, 0⟩, ⟨8, 1, 1⟩]
    let r := (replies.map fun c => Action.received (some c) true).foldl Relay.step
      { state := { clientSessionId := 7 }, defaultDestination := ⟨[], 0⟩ }
    r.delivered = [⟨7, 1, 0⟩, ⟨7, 1, 1023⟩] ∧ Exact r :=
  ⟨by decide +kernel, (ss2022_exact (Reach.run (.start rfl) (admissible_any _ _ _))).1⟩

end Foxcore.Proofs.Ss2022
