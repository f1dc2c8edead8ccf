import Foxcore.Spec.Outline

/-!
# The first write of an Outline stream

The first write reports all of its buffer, whatever the writer has sealed of the address
and the buffer together. From then on the stream reports what was sealed. So the stream
carries every byte as long as the writer takes all of the first write (`Stage.step`).
-/

namespace Foxcore.Proofs.Outline

open Lib Ref Ref.Outline Ref.Outline.PrefixedProxyStream Spec.Outline List
open Ref.Outline.Shadowsocks (EncryptedWriter Socket pollWriteEncrypted sealed)
open Ref.ServerFirst (Bytes Polled)

theorem prefixedSalt_chosen {method : CipherKind} {drawn : Nat → UInt8} {chosen salt : Bytes}
    (h : prefixedSalt method chosen drawn = .ok salt) : chosen <+: salt := by
  rw [prefixedSalt] at h
  split at h
  · cases h
  · split at h
    · cases h
    · cases h
      exact prefix_append _ _

section

variable [Shadowsocks] {address key chosen : Bytes} {w : World} {c : Call}

inductive Stage (address : Bytes) : World → Prop
  | connect {writer : EncryptedWriter} {a : Address} (hnone : sealed writer = [])
    (h : Shadowsocks.writeToBuf a = address) : Stage address ⟨⟨writer, .connect a⟩, [], none⟩
  | connecting {writer : EncryptedWriter} {buffer : Bytes} (hnone : sealed writer = []) :
    Stage address ⟨⟨writer, .connecting (address ++ buffer)⟩, [], some buffer⟩
  | connected {writer : EncryptedWriter} {accepted : Bytes} {repeating : Option Bytes}
    (hsealed : sealed writer = address ++ accepted) :
    Stage address ⟨⟨writer, .connected⟩, accepted, repeating⟩

variable {writer : EncryptedWriter}

theorem Stage.carried (h : Stage address w) : Carried address w := by
  cases h with
  | connect hnone | connecting hnone => exact ⟨hnone, rfl⟩
  | connected hsealed => exact hsealed

/-- The first write is reported as a whole, and so is carried if it is sealed as a whole. -/
theorem connecting_step (hnone : sealed writer = []) (buffer : Bytes) (socket : Socket) :
    let w : World := ⟨⟨writer, .connecting (address ++ buffer)⟩, [], some buffer⟩
    (Whole address w ⟨buffer, socket⟩ → Stage address (w.step ⟨buffer, socket⟩)) ∧
      (Carried address (w.step ⟨buffer, socket⟩) ↔ Whole address w ⟨buffer, socket⟩) := by
  intro w
  rcases hpoll : pollWriteEncrypted writer (address ++ buffer) socket with ⟨answer, writer'⟩
  have hwhole : Whole address w ⟨buffer, socket⟩ ↔
      ∀ n, answer = .ready n → n = (address ++ buffer).length := by
    simp [Whole, w, hpoll]
  rw [hwhole]
  cases answer with
  | pending | failed =>
    have hstep : w.step ⟨buffer, socket⟩ =
        ⟨⟨writer', .connecting (address ++ buffer)⟩, [], some buffer⟩ := by
      simp [w, World.step, pollWrite, pollConnecting, hpoll]
    have hwait := (Shadowsocks.waits hpoll rfl).trans hnone
    rw [hstep]
    exact ⟨fun _ => .connecting hwait, fun _ _ => nofun, fun _ => ⟨hwait, rfl⟩⟩
  | ready n =>
    have hstep : w.step ⟨buffer, socket⟩ = ⟨⟨writer', .connected⟩, buffer, none⟩ := by
      simp [w, World.step, pollWrite, pollConnecting, hpoll]
    obtain ⟨hle, -, hsealed⟩ := Shadowsocks.seals hpoll
    rw [hnone, nil_append] at hsealed
    have hcarried : Carried address ⟨⟨writer', .connected⟩, buffer, none⟩ ↔
        n = (address ++ buffer).length := by
      show sealed writer' = address ++ buffer ↔ _
      rw [hsealed, take_eq_self_iff]
      exact ⟨fun h => Nat.le_antisymm hle h, fun h => h.ge⟩
    rw [hstep, hcarried]
    refine ⟨fun h => .connected (hcarried.mpr (h n rfl)), fun h _ heq => ?_, fun h => h n rfl⟩
    rwa [← Polled.ready.inj heq]

theorem connected_step {accepted : Bytes} (repeating : Option Bytes)
    (hsealed : sealed writer = address ++ accepted) (buffer : Bytes) (socket : Socket) :
    Stage address (World.step ⟨⟨writer, .connected⟩, accepted, repeating⟩ ⟨buffer, socket⟩) := by
  rcases hpoll : pollWriteEncrypted writer buffer socket with ⟨answer, writer'⟩
  simp only [World.step, pollWrite, hpoll]
  cases answer with
  | pending | failed => exact .connected ((Shadowsocks.waits hpoll rfl).trans hsealed)
  | ready =>
    obtain ⟨-, -, hmore⟩ := Shadowsocks.seals hpoll
    exact .connected (by rw [hmore, hsealed, append_assoc])

theorem Stage.step (h : Stage address w) (hrepeated : Repeated w c) :
    (Whole address w c → Stage address (w.step c)) ∧
      (Carried address (w.step c) ↔ Whole address w c) := by
  obtain ⟨buffer, socket⟩ := c
  cases h with
  | @connect writer a hnone h =>
    subst h
    -- a poll that connects does what one does that is connecting
    have hfirst : Whole (Shadowsocks.writeToBuf a) ⟨⟨writer, .connect a⟩, [], none⟩
        ⟨buffer, socket⟩ ↔ Whole (Shadowsocks.writeToBuf a)
        ⟨⟨writer, .connecting (Shadowsocks.writeToBuf a ++ buffer)⟩, [], some buffer⟩
        ⟨buffer, socket⟩ := by
      simp [Whole]
    rw [hfirst]
    exact connecting_step hnone buffer socket
  | connecting hnone =>
    obtain rfl := hrepeated _ rfl
    exact connecting_step hnone _ socket
  | @connected _ _ repeating hsealed =>
    have hstage := connected_step repeating hsealed buffer socket
    exact ⟨fun _ => hstage, fun _ h => absurd rfl h, fun _ => hstage.carried⟩

theorem connecting_writer (s : PrefixedProxyStream) (first buffer : Bytes) (socket : Socket) :
    (s.pollConnecting first buffer socket).2.writer =
      (pollWriteEncrypted s.writer first socket).2 := by
  rw [pollConnecting]
  split <;> simp_all

/-- A call polls the writer once. -/
theorem step_writer (w : World) (c : Call) : ∃ buffer, (w.step c).stream.writer =
    (pollWriteEncrypted w.stream.writer buffer c.socket).2 := by
  have hstream : (w.step c).stream = (w.stream.pollWrite c.buffer c.socket).2 := by
    rw [World.step]
    split <;> simp_all
  rw [hstream, pollWrite]
  split
  · exact ⟨_, connecting_writer _ _ _ _⟩
  · exact ⟨_, connecting_writer _ _ _ _⟩
  · exact ⟨_, rfl⟩

theorem opened_step (h : Opened key chosen w.stream) (c : Call) :
    Opened key chosen (w.step c).stream := by
  obtain ⟨buffer, hwriter⟩ := step_writer w c
  obtain ⟨hsalt, hkey⟩ := Shadowsocks.kept w.stream.writer buffer c.socket
  rw [← hwriter] at hsalt hkey
  exact ⟨hsalt ▸ h.chosen, by rw [hkey, hsalt, h.derived], Shadowsocks.opens _⟩

/-- As long as the writer takes all of the first write, the stream carries every byte, and
a call after which it does not is one of which the writer has taken less. -/
theorem outline_carried {method : CipherKind} {drawn : Nat → UInt8} {destination : Destination}
    (haddress : Shadowsocks.writeToBuf (toAddress destination) = address)
    (h : Reach (fun w => World.connect method key chosen drawn destination = .ok w) World.step
      (fun w c => Repeated w c ∧ Whole address w c) w) :
    Opened key chosen w.stream ∧ Carried address w ∧
      ∀ c, Repeated w c → (Carried address (w.step c) ↔ Whole address w c) := by
  have hinv := h.invariant (P := fun w => Stage address w ∧ Opened key chosen w.stream) ?_
    fun w c hw hc => ⟨(hw.1.step hc.1).1 hc.2, opened_step hw.2 c⟩
  · exact ⟨hinv.2, hinv.1.carried, fun c hc => (hinv.1.step hc).2⟩
  · intro w hw
    rw [World.connect] at hw
    cases hsalt : prefixedSalt method chosen drawn with
    | error =>
      rw [hsalt] at hw
      cases hw
    | ok salt =>
      rw [hsalt] at hw
      cases hw
      obtain ⟨hgiven, hderived, hnone⟩ := Shadowsocks.made key salt
      refine ⟨.connect hnone haddress, ?_, ?_, Shadowsocks.opens _⟩
      · exact hgiven.symm ▸ prefixedSalt_chosen hsalt
      · exact hderived.trans (congrArg _ hgiven.symm)

end

namespace OutlineExample

/-- A writer that changes nothing, over a stream that takes all it is given or nothing. -/
structure Plain where
  salt : Bytes
  sealed : Bytes := []

instance : Shadowsocks where
  writeToBuf _ := [3]
  subkey _ salt := salt
  EncryptedWriter := Plain
  Socket := Bool
  new _ salt := { salt }
  pollWriteEncrypted w buffer taken :=
    if taken then
      (.ready (min maxChunk buffer.length), ⟨w.salt, w.sealed ++ buffer.take maxChunk⟩)
    else (.pending, w)
  salt := Plain.salt
  sealKey := Plain.salt
  sealed := Plain.sealed
  wire w := w.salt ++ w.sealed
  made _ _ := ⟨rfl, rfl, rfl⟩
  kept w buffer socket := by cases socket <;> exact ⟨rfl, rfl⟩
  seals {w buffer socket w' n} h := by
    cases socket <;> cases h
    exact ⟨min_le_right _ _, min_le_left _ _, by rw [← take_eq_take_min]⟩
  waits {w buffer socket answer w'} h hwait := by
    cases socket <;> cases h
    · rfl
    · cases hwait
  opens w _ := prefix_append _ _

def start : World := { stream := .new [] [1, 0] (toAddress ⟨[120], 80⟩) }

theorem start_connected :
    World.connect ⟨.aead, 2⟩ [] [1] (fun _ => 0) ⟨[120], 80⟩ = .ok start := rfl

end OutlineExample

open OutlineExample

/-- A write that waits, is repeated and then taken as a whole. -/
theorem outline_carried_two : ∃ w : World, w.accepted = [7, 8] ∧
    Shadowsocks.wire w.stream.writer = [1, 0, 3, 7, 8] ∧ Opened [] [1] w.stream ∧ Carried [3] w ∧
      ∀ c, Repeated w c → (Carried [3] (w.step c) ↔ Whole [3] w c) := by
  let calls : List Call := [⟨[7, 8], false⟩, ⟨[7, 8], true⟩]
  refine ⟨calls.foldl World.step start, rfl, rfl, ?_⟩
  refine outline_carried rfl (Reach.run (.start start_connected) ⟨⟨nofun, fun _ _ => nofun⟩,
    ⟨fun _ h => Option.some.inj h, ?_⟩, trivial⟩)
  rintro - _ ⟨⟩
  rfl

/-- Of a first write of 32 KiB the writer takes a chunk, and all of it is reported. -/
theorem outline_loses : ∃ w : World,
    World.connect ⟨.aead, 2⟩ [] [1] (fun _ => 0) ⟨[120], 80⟩ = .ok w ∧
      ¬ Carried [3] (w.step ⟨replicate 32768 0, true⟩) := by
  have hloses : ∀ buffer : Bytes, maxChunk < ([3] ++ buffer).length →
      ¬ Carried [3] (start.step ⟨buffer, true⟩) := by
    intro buffer hlong hcarried
    have hstage : Stage [3] start := .connect rfl rfl
    have hwhole := (hstage.step nofun).2.mp hcarried nofun _ rfl
    exact hlong.not_ge (min_eq_right_iff.mp hwhole)
  refine ⟨start, start_connected, hloses _ ?_⟩
  rw [length_append, length_replicate]
  decide

end Foxcore.Proofs.Outline
