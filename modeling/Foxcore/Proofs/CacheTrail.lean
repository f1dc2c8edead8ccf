import Foxcore.Proofs.HintTable
import Foxcore.Ref.Runtime

/-!
# Where what a cache holds stems from

The trail of a cache lists what was stored in it and what it was taught since
it was last flushed. `Traced` says that the trail accounts for everything the
cache holds: a response is the one last stored under its key, and a name was
taught by one of the lessons. Each operation of the cache keeps it so, and what
is read from a traced cache can be looked up in the trail.
-/

namespace Foxcore.Proofs

open Lib Ref DnsCache HashMap

variable {c : DnsCache} {t : Trail} {now : Nat} {table : HintsByKey} {key : DnsIdentity × IpAddr}
  {name : Str}

/-- The table records a name under a key. -/
def Known (table : HintsByKey) (key : DnsIdentity × IpAddr) (name : Str) : Prop :=
  ∃ hints expiry, table.lookup key = some hints ∧ hints.names.lookup name = some expiry

structure Traced (c : DnsCache) (t : Trail) : Prop where
  stored : ∀ {key entry}, c.state.responses.lookup key = some entry →
    ∃ s, (t.stored.find? fun s => s.key = key) = some s ∧ entry.packet = zeroId s.response
  taught : ∀ {identity address name}, Known c.state.routeHints (identity, address) name →
    ∃ l origin, (l, origin) ∈ t.taught ∧ l.identity = identity ∧ (address, name) ∈ l.names

/-- A cache that holds no more than another, under the same trail. -/
theorem Traced.of_sub {c' : DnsCache} (h : Traced c t)
    (hresponses : ∀ {key entry}, c'.state.responses.lookup key = some entry →
      ∃ old, c.state.responses.lookup key = some old ∧ entry.packet = old.packet)
    (hhints : ∀ {key name}, Known c'.state.routeHints key name →
      Known c.state.routeHints key name) : Traced c' t := by
  constructor
  · intro key entry hentry
    obtain ⟨old, hold, hpacket⟩ := hresponses hentry
    rw [hpacket]
    exact h.stored hold
  · intro identity address name hknown
    exact h.taught (hhints hknown)

/-- A cache that holds neither responses nor names. -/
theorem traced_of_empty (hresponses : c.state.responses = ∅) (hhints : c.state.routeHints = ∅)
    (t : Trail) : Traced c t := by
  constructor
  · rw [hresponses]
    exact nofun
  · rintro identity address name ⟨hints, expiry, hlook, -⟩
    rw [hhints] at hlook
    cases hlook

/-! ## Responses -/

theorem observeAnswers_frame (capacity now : Nat) (answers : List AddressAnswer)
    (state : CacheState) :
    (answers.foldl (observeAnswer capacity now) state).responses = state.responses ∧
      (answers.foldl (observeAnswer capacity now) state).routeHints =
        state.routeHints := by
  induction answers generalizing state with
  | nil => exact ⟨rfl, rfl⟩
  | cons a rest ih =>
    have hone : (observeAnswer capacity now state a).responses = state.responses ∧
        (observeAnswer capacity now state a).routeHints = state.routeHints := by
      fun_cases observeAnswer capacity now state a <;> exact ⟨rfl, rfl⟩
    rw [List.foldl_cons, (ih _).1, (ih _).2]
    exact hone

theorem traced_observe (h : Traced c t) (now : Nat) (packet : Packet) :
    Traced (c.observeResponse now packet) t := by
  rw [observeResponse]
  split
  · exact h
  · refine h.of_sub ?_ ?_
    · intro key entry hentry
      rw [(observeAnswers_frame _ _ _ _).1] at hentry
      exact ⟨entry, hentry, rfl⟩
    · intro key name hknown
      rw [(observeAnswers_frame _ _ _ _).2] at hknown
      exact hknown

theorem traced_insert (h : Traced c t) (now : Nat) (key : ResponseKey) (response : Packet)
    (metadata : ResponseMetadata) (origin : Nat) :
    Traced (c.insertResponse now key response metadata)
      { t with stored := ⟨key, response, origin⟩ :: t.stored } := by
  refine ⟨?_, h.taught⟩
  intro key' entry hentry
  have hentry := lookup_evict hentry
  rw [lookup_insert] at hentry
  rw [List.find?_cons]
  split at hentry
  · next heq =>
    rw [heq, decide_eq_true rfl]
    exact ⟨_, rfl, by rw [← Option.some.inj hentry]⟩
  · next hne =>
    have hne : ¬ key = key' := fun heq => hne heq.symm
    rw [decide_eq_false hne]
    exact h.stored hentry

/-- What `cached_response` leaves behind, and what it found. -/
theorem traced_cachedResponse (h : Traced c t) (now : Nat) (query : Packet) (allowStale : Bool)
    (scope : Option DnsResponseScope) :
    Traced (c.cachedResponse now query allowStale scope).2 t ∧
      ∀ packet, (c.cachedResponse now query allowStale scope).1 = some packet →
        ∃ question s, queryKey query = some question ∧
          (t.stored.find? fun s => s.key = ⟨question, scope⟩) = some s := by
  fun_cases cachedResponse c now query allowStale scope with
  | case3 =>
    refine ⟨h.of_sub (fun {key found} hfound => ⟨found, ?_, rfl⟩) id, by simp⟩
    grind [lookup_erase]
  | case5 question hkey _ _ _ entry hlook =>
    refine ⟨h.of_sub (fun {key found} hfound => ?_) id, fun packet _ => ?_⟩
    · grind [lookup_insert]
    · obtain ⟨s, hs, -⟩ := h.stored hlook
      exact ⟨question, s, hkey, hs⟩
  | _ => exact ⟨⟨h.stored, h.taught⟩, by simp⟩

/-! ## Names -/

theorem known_pruneHints (h : Known (pruneHints now table) key name) :
    Known table key name := by
  obtain ⟨found, expiry, hfound, hname⟩ := h
  obtain ⟨hints, hlook, rfl, -⟩ := (pruneHints_lookup _ _ _ _).mp hfound
  exact ⟨hints, expiry, hlook, ((prune_lookup _ _ _ _).mp hname).1⟩

theorem known_learnAnswer {capacity : Nat} {identity : DnsIdentity} {a : AddressAnswer}
    (h : Known (learnAnswer capacity now identity table a) key name) :
    Known table key name ∨ key = (identity, a.address) ∧ a.ttl ≠ 0 ∧ name = a.domain := by
  revert h
  fun_cases learnAnswer capacity now identity table a with
  | case3 hpos =>
    rintro ⟨found, expiry, hfound, hname⟩
    rw [lookup_upsert] at hfound
    split at hfound
    · next heq =>
      rw [← Option.some.inj hfound] at hname
      rcases record_sound hname with hold | ⟨rfl, -⟩
      · cases hlook : table.lookup (identity, a.address) with
        | none =>
          rw [hlook] at hold
          cases hold
        | some hints =>
          rw [hlook] at hold
          rw [heq]
          exact .inl ⟨hints, expiry, hlook, hold⟩
      · exact .inr ⟨heq, hpos, rfl⟩
    · exact .inl ⟨found, expiry, hfound, hname⟩
  | _ => exact .inl

theorem known_learnAnswers {capacity : Nat} {identity : DnsIdentity} (answers : List AddressAnswer)
    (h : Known (answers.foldl (learnAnswer capacity now identity) table) key name) :
    Known table key name ∨
      ∃ a ∈ answers, key = (identity, a.address) ∧ a.ttl ≠ 0 ∧ name = a.domain := by
  induction answers generalizing table with
  | nil => exact .inl h
  | cons a rest ih =>
    rcases ih h with hone | ⟨b, hb, hnew⟩
    · rcases known_learnAnswer hone with hold | hnew
      · exact .inl hold
      · exact .inr ⟨a, .head _, hnew⟩
    · exact .inr ⟨b, .tail _ hb, hnew⟩

theorem traced_learn (h : Traced c t) (l : Lesson) (origin : Nat) :
    Traced (c.learnRouteHints l.learnedAt l.query l.response l.identity)
      { t with taught := (l, origin) :: t.taught } := by
  have hkeep : ∀ {identity address name}, Known c.state.routeHints (identity, address) name →
      ∃ l' origin', (l', origin') ∈ (l, origin) :: t.taught ∧ l'.identity = identity ∧
        (address, name) ∈ l'.names := by
    intro identity address name hknown
    obtain ⟨l', origin', hin, hl'⟩ := h.taught hknown
    exact ⟨l', origin', .tail _ hin, hl'⟩
  rw [learnRouteHints]
  split
  · next metadata answers hmeta hanswers =>
    refine ⟨h.stored, ?_⟩
    intro identity address name hknown
    rcases known_learnAnswers answers hknown with hold | ⟨a, ha, hkey, hpos, rfl⟩
    · exact hkeep (known_pruneHints hold)
    · cases hkey
      refine ⟨l, origin, .head _, rfl, ?_⟩
      simp only [Lesson.names, hmeta, hanswers]
      exact List.mem_map.mpr ⟨a, List.mem_filter.mpr ⟨ha, decide_eq_true hpos⟩, rfl⟩
  · exact ⟨h.stored, hkeep⟩

theorem known_insert_prune {key' : DnsIdentity × IpAddr} {hints : RouteHints}
    (hlook : table.lookup key = some hints)
    (h : Known (table.insert key (hints.prune now)) key' name) : Known table key' name := by
  obtain ⟨found, expiry, hfound, hname⟩ := h
  rw [lookup_insert] at hfound
  split at hfound
  · next heq =>
    rw [← Option.some.inj hfound] at hname
    rw [heq]
    exact ⟨hints, expiry, hlook, ((prune_lookup _ _ _ _).mp hname).1⟩
  · exact ⟨found, expiry, hfound, hname⟩

/-- What `route_hints` leaves behind, and the names it found. -/
theorem traced_routeHints (h : Traced c t) (now : Nat) (identity : DnsIdentity) (address : IpAddr) :
    Traced (c.routeHints now identity address).2 t ∧
      ∀ names, (c.routeHints now identity address).1 = some names →
        ∀ name ∈ names, ∃ l origin, (l, origin) ∈ t.taught ∧ l.identity = identity ∧
          (address, name) ∈ l.names := by
  refine ⟨?_, fun names hnames name hname => ?_⟩
  · fun_cases routeHints c now identity address with
    | case1 | case2 => exact h
    | case3 hints hlook | case4 hints hlook =>
      exact h.of_sub (fun hentry => ⟨_, hentry, rfl⟩) (known_insert_prune hlook)
  · obtain ⟨hints, hlook, -, hiff⟩ := routeHints_some hnames
    obtain ⟨expiry, hexpiry, -⟩ := (hiff name).mp hname
    exact h.taught ⟨hints, expiry, hlook, hexpiry⟩

end Foxcore.Proofs
