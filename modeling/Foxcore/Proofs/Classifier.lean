import Foxcore.Proofs.PacketPath
import Foxcore.Proofs.Split
import Foxcore.Spec.Classifier

/-!
# The kill switch and verdicts under way

A verdict is voided by a token that was taken before the policy it was reached under was
loaded. A token that has been replaced never comes into force again, so where the two
snapshots disagree on the token, or the policy in force disagrees with the loaded one on
the switch, the token is not the one in force; and when no call is under way every such
token is cancelled. That covers every verdict that is used again, in every run.

A verdict just reached is used without a look at its token. Under `Undivided` the policy
it was reached under and the one in force agree that the switch is off.
-/

namespace Foxcore.Proofs.Classifier

open Lib Ref Ref.Engine Ref.Classifier PacketWorld
open Ref.Split (FlowKey PacketRoute Ingress PacketSplitter Decision)
open Spec.Classifier
open Proofs.Split (lookup_spec usable_of_hit insert_splitter entryOf lookup_splitter_insert
  lookup_makeRoom countUp_frame)

section

variable {ν π₄ π₆ α : Type}

variable {p : Policies ν π₄ π₆ α} {w : PacketWorld ν π₄ π₆ α}

/-! ## What a step of the store does to tokens -/

/-- One state of the store after another: snapshots and cancellations stay, and a token
that was replaced stays replaced. -/
structure Advances (p p' : Policies ν π₄ π₆ α) : Prop where
  published : ∀ s ∈ p.published, s ∈ p'.published
  cancelled : ∀ t ∈ p.cancelled, t ∈ p'.cancelled
  replaced : ∀ s ∈ p.published, s.revocation ≠ p.current.revocation →
    s.revocation ≠ p'.current.revocation

/-- Nothing is published, and nothing that was cancelled comes back. -/
def Quiet (p p' : Policies ν π₄ π₆ α) : Prop :=
  p'.published = p.published ∧ p'.current = p.current ∧ ∀ t ∈ p.cancelled, t ∈ p'.cancelled

theorem Quiet.advances {p' : Policies ν π₄ π₆ α} (h : Quiet p p') : Advances p p' := by
  obtain ⟨hpub, hcurrent, hcan⟩ := h
  exact ⟨by rw [hpub]; exact fun _ hs => hs, hcan, by rw [hcurrent]; exact fun _ _ hne => hne⟩

/-- A snapshot is published. -/
def Publishes (p p' : Policies ν π₄ π₆ α) : Prop :=
  ∃ s rest, p.acts = .store s :: rest ∧
    p' = { p with acts := rest, current := s, published := s :: p.published }

theorem act_cases (w : World ν π₄ π₆ α) :
    Quiet w.policies w.act.policies ∨ Publishes w.policies w.act.policies := by
  fun_cases World.act w with
  | case4 _ _ hacts => exact .inr ⟨_, _, hacts, rfl⟩
  | case5 => exact .inl ⟨rfl, rfl, fun _ ht => .tail _ ht⟩
  | _ => exact .inl ⟨rfl, rfl, fun _ ht => ht⟩

variable [RuleSetVerifier α]

/-- Only an act of a call publishes. -/
theorem apply_cases (w : World ν π₄ π₆ α) (action : Action ν π₄ π₆) :
    Quiet w.policies (w.apply action).policies ∨
      action = .act ∧ Publishes w.policies (w.apply action).policies := by
  fun_cases World.apply w action with
  | case1 call clock =>
    refine .inl ?_
    fun_cases World.takeLock w call clock <;> exact ⟨rfl, rfl, fun _ ht => ht⟩
  | case2 => exact (act_cases w).imp_right fun h => ⟨rfl, h⟩
  | _ => exact .inl ⟨rfl, rfl, fun _ ht => ht⟩

theorem advances_apply {w : World ν π₄ π₆ α} (h : Revocation w.policies) (action : Action ν π₄ π₆) :
    Advances w.policies (w.apply action).policies := by
  rcases apply_cases w action with hquiet | ⟨-, s, rest, hacts, heq⟩
  · exact hquiet.advances
  · rw [heq]
    refine ⟨fun x hx => .tail _ hx, fun _ ht => ht, fun x hx hne => ?_⟩
    obtain ⟨-, -, ⟨hsame, -, -⟩ | ⟨hfresh, -, -⟩, -⟩ := h.stage.storing hacts
    · rw [hsame]
      exact hne
    · exact hfresh x hx

/-! ## Verdicts and their tokens -/

/-- What is known of a verdict, or of one under way, from the snapshots behind it. -/
structure Sound (p : Policies ν π₄ π₆ α) (armed : Bool) (cleared : Nat)
    (o : Origin ν π₄ π₆) : Prop where
  captured : o.captured ∈ p.published
  loaded : o.loaded ∈ p.published
  token : o.captured.revocation = o.loaded.revocation ∨
    o.captured.revocation ≠ p.current.revocation
  armed : armed = true → o.loaded.routes.killSwitch = false →
    o.captured.revocation ∈ p.cancelled
  cleared : o.loaded.routes.killSwitch = true →
    o.cleared = cleared ∨ o.captured.revocation ∈ p.cancelled

omit [RuleSetVerifier α] in
/-- With no call under way, a verdict on the other side of the switch is void. -/
theorem cancelled_of_idle (h : Revocation p) (hidle : p.acts = []) {o : Origin ν π₄ π₆}
    (hcaptured : o.captured ∈ p.published) (hloaded : o.loaded ∈ p.published)
    (htoken : o.captured.revocation = o.loaded.revocation ∨
      o.captured.revocation ≠ p.current.revocation)
    (hswitch : o.loaded.routes.killSwitch ≠ p.current.routes.killSwitch) :
    o.captured.revocation ∈ p.cancelled := by
  refine (h.stage.idle hidle).1 o.captured hcaptured ?_ nofun
  rcases htoken with hsame | hne
  · rw [hsame]
    exact fun hforce => hswitch (h.same_kill o.loaded hloaded hforce)
  · exact hne

theorem Sound.step (h : Revocation w.world.policies) {o : Origin ν π₄ π₆}
    (ho : Sound w.world.policies w.armed w.cleared o) (action : Action ν π₄ π₆) :
    Sound (w.stepPolicy action).world.policies (w.stepPolicy action).armed
      (w.stepPolicy action).cleared o := by
  have hadv := advances_apply h action
  have hrev := revocation_apply h action
  have hcaptured := hadv.published _ ho.captured
  have hloaded := hadv.published _ ho.loaded
  have htoken : o.captured.revocation = o.loaded.revocation ∨
      o.captured.revocation ≠ (w.world.apply action).policies.current.revocation :=
    ho.token.imp_right (hadv.replaced _ ho.captured)
  refine ⟨hcaptured, hloaded, htoken, fun harmed hoff => ?_, fun hon => ?_⟩
  · have harmed' : ((w.world.apply action).policies.current.routes.killSwitch &&
        ((w.world.apply action).policies.acts.isEmpty || w.armed)) = true := harmed
    rw [Bool.and_eq_true, Bool.or_eq_true] at harmed'
    obtain ⟨hswitch, hidle | hwas⟩ := harmed'
    · refine cancelled_of_idle hrev (List.isEmpty_iff.mp hidle) hcaptured hloaded htoken ?_
      rw [hoff, hswitch]
      exact nofun
    · exact hadv.cancelled _ (ho.armed hwas hoff)
  · show o.cleared = (if _ then w.cleared + 1 else w.cleared) ∨ _
    split
    · next hreturned =>
      obtain ⟨-, hidle, hswitch⟩ := hreturned
      refine .inr (cancelled_of_idle hrev hidle hcaptured hloaded htoken ?_)
      rw [hon, hswitch]
      exact nofun
    · exact (ho.cleared hon).imp_right (hadv.cancelled _)

/-! ## The classifier -/

omit [RuleSetVerifier α] in
/-- What is known of the verdict under way. -/
def PhaseFits (p : Policies ν π₄ π₆ α) (armed : Bool) (cleared : Nat) : Phase ν π₄ π₆ → Prop
  | .captured _ _ _ captured => captured ∈ p.published
  | .deciding _ _ _ origin begun =>
    Sound p armed cleared origin ∧
    (origin.loaded.routes.killSwitch = false → p.current.routes.killSwitch = false) ∧
    (origin.loaded.routes.killSwitch = true → ∃ verdict, begun = .inl verdict ∧
      verdict.route = .block)
  | _ => True

/-- An entry of the splitter and where it comes from. -/
structure EntryFits (p : Policies ν π₄ π₆ α) (armed : Bool) (cleared : Nat) (d : Decision)
    (o : Origin ν π₄ π₆) : Prop where
  sound : Sound p armed cleared o
  token : d.voidedBy = some o.captured.revocation
  tunnel : d.route = .tunnel → o.loaded.routes.killSwitch = false
  taken : o.armed = true → o.loaded.routes.killSwitch = true

/-- What every run keeps that meets the condition. -/
structure Guarded (w : PacketWorld ν π₄ π₆ α) : Prop where
  revocation : Revocation w.world.policies
  armed : w.armed = true → w.current.routes.killSwitch = true
  entries : ∀ key d, w.ingress.splitter.decisions.lookup key = some d →
    ∃ o, w.origins key = some o ∧ EntryFits w.world.policies w.armed w.cleared d o
  phase : PhaseFits w.world.policies w.armed w.cleared w.phase
  settled : KillSwitchHolds w

theorem guarded_initial (h : w.Initial) : Guarded w := by
  obtain ⟨world, capacity, idleTimeoutMs, hworld, rfl⟩ := h
  have hreach : Reach World.Initial World.apply anyAction world := .start hworld
  refine ⟨revocation_of_reach hreach, fun harmed => ?_, fun _ _ hlook => ?_, trivial,
    fun _ hs => ?_⟩
  · cases harmed
  · cases hlook
  · cases hs

theorem guarded_policy (h : Guarded w) (action : Action ν π₄ π₆)
    (hok : Undivided w (.policy action)) : Guarded (w.stepPolicy action) := by
  refine ⟨revocation_apply h.revocation action, fun harmed => (Bool.and_eq_true_iff.mp harmed).1,
    fun key d hlook => ?_, ?_, h.settled⟩
  · obtain ⟨o, ho, hfits⟩ := h.entries key d hlook
    exact ⟨o, ho, hfits.sound.step h.revocation action, hfits.token, hfits.tunnel, hfits.taken⟩
  · have hphase := h.phase
    show PhaseFits _ _ _ w.phase
    cases hp : w.phase with
    | waiting | missed key length nowMs | settled key length route => trivial
    | captured =>
      rw [hp] at hphase
      exact (advances_apply h.revocation action).published _ hphase
    | deciding =>
      rw [hp] at hphase
      obtain ⟨hsound, hoff, hon⟩ := hphase
      refine ⟨hsound.step h.revocation action, fun hloaded => ?_, hon⟩
      show (w.world.apply action).policies.current.routes.killSwitch = false
      rcases apply_cases w.world action with ⟨-, hcurrent, -⟩ | ⟨rfl, s, rest, hacts, heq⟩
      · rw [hcurrent]
        exact hoff hloaded
      · -- a snapshot is published while the verdict is under way
        have hdivided : (publishesArmed w.world.policies && decidesUnarmed w.phase) = false := hok
        rw [heq]
        rw [hp] at hdivided
        simpa [publishesArmed, hacts, decidesUnarmed, hloaded] using hdivided

omit [RuleSetVerifier α] in
/-- A verdict that is used again obeys the switch. -/
theorem obeys_of_hit (h : Guarded w) {key : FlowKey} {nowMs : Nat} {route : PacketRoute}
    (hhit : (w.ingress.lookup w.world.policies.cancelled key nowMs).1 = some route) :
    Obeys (⟨route, w.armed, w.cleared, w.origins key⟩ : Ref.Classifier.Settled ν π₄ π₆) := by
  obtain ⟨d, hlook, hroute, husable⟩ := usable_of_hit hhit
  obtain ⟨o, ho, hfits⟩ := h.entries key d hlook
  have halive := husable.policy _ hfits.token
  refine ⟨fun harmed htunnel => ?_, fun origin horigin htaken => ?_⟩
  · exact halive (hfits.sound.armed harmed (hfits.tunnel (hroute.trans htunnel)))
  · cases ho.symm.trans horigin
    have hon : o.loaded.routes.killSwitch = true := htaken.elim id hfits.taken
    exact (hfits.sound.cleared hon).resolve_right halive

variable [IpNet ν] [Ipv4Net π₄] [Ipv6Net π₆]

omit [RuleSetVerifier α] [IpNet ν] [Ipv4Net π₄] [Ipv6Net π₆] in
/-- An entry that is there after a lookup comes from one that was there before. -/
theorem entries_lookup (h : Guarded w) (cancelled : List Nat) (key : FlowKey) (nowMs : Nat) :
    ∀ k d, (w.ingress.lookup cancelled key nowMs).2.splitter.decisions.lookup k = some d →
      ∃ o, w.origins k = some o ∧ EntryFits w.world.policies w.armed w.cleared d o := by
  obtain ⟨hother, -, -, hown⟩ := lookup_spec w.ingress cancelled key nowMs
  intro k d hlook
  by_cases hk : k = key
  · subst hk
    rcases hown with ⟨-, hnone⟩ | ⟨old, hold, -, hnew⟩
    · exact absurd (hnone.symm.trans hlook) nofun
    · cases hnew.symm.trans hlook
      obtain ⟨o, ho, hfits⟩ := h.entries k old hold
      exact ⟨o, ho, hfits.sound, hfits.token, hfits.tunnel, hfits.taken⟩
  · exact h.entries k d ((hother k hk).symm.trans hlook)

theorem guarded_decide (h : Guarded w) (answer : Answer) {key : FlowKey} {length nowMs : Nat}
    {origin : Origin ν π₄ π₆} {begun : Verdict ⊕ FlowContext}
    (hp : w.phase = .deciding key length nowMs origin begun) :
    Guarded (w.apply (.decide answer)) := by
  have hphase := h.phase
  rw [hp] at hphase
  obtain ⟨hsound, hoff, hon⟩ := hphase
  have htunnel : (w.complete key origin.loaded answer begun).route = .tunnel →
      origin.loaded.routes.killSwitch = false := by
    intro hroute
    rw [← Bool.not_eq_true]
    intro harmed
    obtain ⟨verdict, rfl, hblock⟩ := hon harmed
    exact absurd (hblock.symm.trans hroute) nofun
  -- the policy in force agrees with the loaded one
  have htaken : w.armed = true → origin.loaded.routes.killSwitch = true := by
    intro harmed
    rw [← Bool.not_eq_false]
    exact fun hloaded => absurd ((hoff hloaded).symm.trans (h.armed harmed)) nofun
  simp only [apply, hp]
  refine ⟨h.revocation, h.armed, fun k d hlook => ?_, trivial,
    List.forall_mem_cons.mpr ⟨⟨fun harmed hroute => ?_, fun _ hnone => ?_⟩, h.settled⟩⟩
  · rw [insert_splitter, lookup_splitter_insert] at hlook
    split at hlook
    · next hk =>
      subst hk
      cases hlook
      exact ⟨_, Function.update_self .., ⟨hsound.captured, hsound.loaded, hsound.token,
        hsound.armed, hsound.cleared⟩, rfl, htunnel, htaken⟩
    · next hk =>
      obtain ⟨o, ho, hfits⟩ := h.entries k d (lookup_makeRoom hlook)
      exact ⟨o, (Function.update_of_ne hk _ _).trans ho, hfits⟩
  · exact absurd ((htaken harmed).symm.trans (htunnel hroute)) nofun
  · cases hnone

theorem guarded_apply (h : Guarded w) (a : PacketAction ν π₄ π₆) (hok : Undivided w a) :
    Guarded (w.apply a) := by
  fun_cases apply w a with
  | case1 action => exact guarded_policy h action hok
  | case2 bytes nowMs key hkey hp found route hfound =>
    exact ⟨h.revocation, h.armed, entries_lookup h _ key nowMs, trivial,
      List.forall_mem_cons.mpr ⟨obeys_of_hit h hfound, h.settled⟩⟩
  | case3 bytes nowMs key =>
    exact ⟨h.revocation, h.armed, entries_lookup h _ key nowMs, trivial, h.settled⟩
  | case5 => exact ⟨h.revocation, h.armed, h.entries, h.revocation.current_mem, h.settled⟩
  | case7 fake key length nowMs captured hp =>
    have hphase := h.phase
    rw [hp] at hphase
    refine ⟨h.revocation, h.armed, h.entries, ⟨⟨hphase, h.revocation.current_mem, ?_,
      fun harmed hoff => ?_, fun _ => .inl rfl⟩, id, fun hon => ?_⟩, h.settled⟩
    · exact eq_or_ne _ _
    · exact absurd (hoff.symm.trans (h.armed harmed)) nofun
    · exact ⟨_, if_pos hon, rfl⟩
  | case9 answer key length nowMs origin begun hp =>
    have hdecide := guarded_decide h answer hp
    rw [apply, hp] at hdecide
    exact hdecide
  | case11 key length route =>
    have hsplitter : (if route = .tunnel then w.ingress.countUp key length
        else w.ingress).splitter = w.ingress.splitter := by
      split
      · exact (countUp_frame w.ingress key length).1
      · rfl
    refine ⟨h.revocation, h.armed, fun k d hlook => h.entries k d ?_, trivial, h.settled⟩
    rw [← hsplitter]
    exact hlook
  | case13 => exact ⟨h.revocation, h.armed, h.entries, h.phase, h.settled⟩
  | _ => exact h

/-- In every run in which no policy with the switch on is published while a verdict is being
reached under one without it, nothing goes to the tunnel while the switch is on for good,
and no verdict reached while it was on is used after it is off. -/
theorem kill_switch_holds {w : PacketWorld ν π₄ π₆ α}
    (h : Reach PacketWorld.Initial PacketWorld.apply Undivided w) : KillSwitchHolds w :=
  (Reach.invariant (P := Guarded) (fun _ => guarded_initial)
    (fun _ a hw hok => guarded_apply hw a hok) h).settled

end

/-! ## A policy that changes while a verdict is being reached -/

/-- A store and a classifier just made, with everything bound for the primary outbound. -/
def tunnelWorld : PacketWorld Cidr (Subnet 32) (Subnet 128) Unit where
  world :=
    { policies :=
        { current := ⟨1, PacketPath.primaryRoutes, plainConfig, 0, some 0, 0⟩
          store := {}
          nextToken := 1
          published := [⟨1, PacketPath.primaryRoutes, plainConfig, 0, some 0, 0⟩] }
      resolvers := Resolvers.makeProxy
        { caches := [(DnsCache.new 4096, {})]
          proxies := [], exchanges := [], served := [], changes := 0, now := 0 } plainConfig 0 [] }
  ingress := { splitter := PacketSplitter.new 16 60000 }

theorem tunnelWorld_initial : tunnelWorld.Initial :=
  ⟨_, 16, 60000, ⟨PacketPath.primaryRoutes, plainConfig, {}, [], DnsCache.new 4096, 0, .inl rfl,
    rfl, rfl⟩, rfl⟩

/-- A reload to the same policy with the switch on or off, up to its return. -/
def reloading (routes : RouteTable Cidr) : List (PacketAction Cidr (Subnet 32) (Subnet 128)) :=
  .policy (.call (.reload none routes plainConfig) (some 0)) :: List.replicate 7 (.policy .act)

/-- The platform's answer is not asked for. -/
def noAnswer : Answer where
  continuity := PacketPath.askingGate

/-- The first half of a verdict: the packet misses, and both loads are made. -/
def beginning (nowMs : Nat) : List (PacketAction Cidr (Subnet 32) (Subnet 128)) :=
  [.packet (Split.segment 1) nowMs, .capture, .load {}]

/-- The switch is turned on, by a reload that returns, between the load of the policy and the
verdict: the packet goes to the tunnel. -/
theorem armed_packet_tunnelled :
    ∃ w : PacketWorld Cidr (Subnet 32) (Subnet 128) Unit,
      Reach PacketWorld.Initial PacketWorld.apply anyAction w ∧ ¬KillSwitchHolds w := by
  let run := beginning 0 ++ reloading PacketPath.primaryRoutes.withEmergencyBlock ++
    [.decide noAnswer]
  refine ⟨run.foldl apply tunnelWorld,
    Reach.run (.start tunnelWorld_initial) (admissible_any _ _ _), fun h => ?_⟩
  have hsettled : (run.foldl apply tunnelWorld).settled.map
      (fun s => (s.route, s.armed)) = [(.tunnel, true)] := by decide +kernel
  obtain ⟨s, hs, heq⟩ := List.mem_map.mp
    (hsettled ▸ List.mem_singleton_self (PacketRoute.tunnel, true))
  obtain ⟨hroute, harmed⟩ := Prod.mk.inj heq
  exact (h s hs).blocked harmed hroute

/-- The switch is turned on and off between packets. -/
def toggled : List (PacketAction Cidr (Subnet 32) (Subnet 128)) :=
  beginning 0 ++ [.decide noAnswer, .handOver] ++
    reloading PacketPath.primaryRoutes.withEmergencyBlock ++
    beginning 1 ++ [.decide noAnswer, .handOver] ++ [.packet (Split.segment 1) 2, .handOver] ++
    reloading PacketPath.primaryRoutes ++ beginning 3 ++ [.decide noAnswer, .handOver]

theorem toggled_kill_switch_holds :
    (toggled.foldl PacketWorld.apply tunnelWorld).settled.map (fun s => (s.route, s.armed)) =
        [(.tunnel, false), (.block, true), (.block, true), (.tunnel, false)] ∧
      KillSwitchHolds (toggled.foldl PacketWorld.apply tunnelWorld) :=
  ⟨by decide +kernel, kill_switch_holds
    (Reach.run (.start tunnelWorld_initial) (by decide +kernel))⟩

end Foxcore.Proofs.Classifier
