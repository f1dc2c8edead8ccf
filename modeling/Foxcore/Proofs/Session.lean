import Foxcore.Lib.Fallible
import Foxcore.Proofs.Replay
import Foxcore.Spec.Link

/-!
# Sessions

A message carries the counter the session had before it was sealed. Sealing
fails before the counter is touched or after it has advanced; it never goes
back.
-/

namespace Foxcore.Proofs

open Lib Ref Ref.Wireguard Spec List

variable {receiverIndex counter : Nat}

/-! ## Numbers as bytes -/

theorem fromLe_toLe (width n : Nat) : fromLe (toLe width n) = n % 256 ^ width := by
  induction width generalizing n with
  | zero => simp [toLe, fromLe, Nat.mod_one]
  | succ width ih =>
    have hbyte : (UInt8.ofNat (n % 256)).toNat = n % 256 := by simp
    rw [toLe, fromLe, ih, hbyte, Nat.pow_succ', Nat.mod_mul]

/-- What stands at the length of what is before it is read back. -/
theorem readArray_append {n : Nat} (before : Bytes) {piece : Bytes} (after : Bytes)
    (h : piece.length = n) :
    readArray n (before ++ piece ++ after) before.length = .ok ⟨piece, h⟩ := by
  have hlen : before.length + n ≤ (before ++ piece ++ after).length := by
    simp only [length_append]
    omega
  rw [readArray, dif_pos hlen]
  congr 2
  rw [append_assoc, drop_left, ← h, take_left]

theorem add64_eq_some {a b sum : Nat} (h : add64 a b = some sum) : a + b = sum ∧ sum < 2 ^ 64 := by
  rw [add64] at h
  split at h
  · next hfits =>
    cases h
    exact ⟨rfl, hfits⟩
  · cases h

/-! ## Messages -/

theorem length_writeTransportHeader (receiverIndex counter : Nat) :
    (writeTransportHeader receiverIndex counter).length = transportHeaderLen := by
  rfl

theorem parseTransport_message {payload : Bytes} (hpayload : tagLen ≤ payload.length) :
    parseTransport (writeTransportHeader receiverIndex counter ++ payload) =
      .ok (receiverIndex % 2 ^ 32, counter % 2 ^ 64, payload) := by
  have hlen := length_writeTransportHeader receiverIndex counter
  have hlong : ¬ (writeTransportHeader receiverIndex counter ++ payload).length <
      transportHeaderLen + tagLen := by
    rw [length_append]
    omega
  have hkind : messageKind (writeTransportHeader receiverIndex counter ++ payload) =
      some typeTransport := rfl
  have hindex : readArray 4 (writeTransportHeader receiverIndex counter ++ payload) 4 =
      .ok ⟨toLe 4 receiverIndex, length_toLe 4 _⟩ := by
    exact readArray_append (header typeTransport) _ (length_toLe 4 _)
  have hcounter : readArray 8 (writeTransportHeader receiverIndex counter ++ payload) 8 =
      .ok ⟨toLe 8 counter, length_toLe 8 _⟩ := by
    have hread := readArray_append (header typeTransport ++ toLe 4 receiverIndex) payload
      (length_toLe 8 counter)
    exact hread
  rw [parseTransport, if_neg hlong, hindex, hcounter]
  show Except.ok _ = _
  rw [fromLe_toLe, fromLe_toLe, ← hlen]
  rfl

theorem length_of_parseTransport {datagram ciphertext : Bytes}
    (h : parseTransport datagram = .ok (receiverIndex, counter, ciphertext)) :
    ciphertext.length ≤ datagram.length := by
  rw [parseTransport] at h
  split at h
  · cases h
  · split at h
    · cases h
    · obtain ⟨_, -, h⟩ := bind_ok_iff.mp h
      obtain ⟨_, -, h⟩ := bind_ok_iff.mp h
      cases h
      rw [length_drop]
      exact Nat.sub_le _ _

/-! ## Sealing -/

section

variable [WireguardCrates]

/-- The session after one more message. -/
def advanced (t : TransportSession) : TransportSession :=
  { t with sendCounter := t.sendCounter + 1 }

/-- How sealing ends: refused, failed after the counter advanced, or with a message. -/
inductive SealedAs (t : TransportSession) : Except WireguardError Bytes × TransportSession → Prop
  | refused (error : WireguardError) : SealedAs t (.error error, t)
  | spoiled (error : WireguardError) : SealedAs t (.error error, advanced t)
  | made {message : Bytes} : counterOf message = some t.sendCounter →
      SealedAs t (.ok message, advanced t)

theorem sealPadded_cases (t : TransportSession) (packet : Bytes) (paddedLen : Nat) :
    SealedAs t (t.sealPadded packet paddedLen) := by
  rw [TransportSession.sealPadded]
  split
  · exact .refused _
  · next hlimit =>
    simp only
    split
    · next buffer tag _ =>
      refine .made ?_
      have hwidth : t.sendCounter % 2 ^ 64 = t.sendCounter :=
        Nat.mod_eq_of_lt (lt_trans (lt_of_not_ge hlimit) (by decide))
      rw [append_assoc, counterOf, parseTransport_message, hwidth]
      rw [length_append, tag.2]
      exact Nat.le_add_left _ _
    · exact .spoiled _

theorem sealAs_cases (t : TransportSession) (packet : Bytes) (padding : Option Nat) :
    SealedAs t (t.sealAs packet padding) := by
  cases padding with
  | none => exact sealPadded_cases t packet _
  | some padding =>
    show SealedAs t (t.sealWithPadding packet padding)
    rw [TransportSession.sealWithPadding]
    split
    · exact sealPadded_cases t packet _
    · exact .refused _

/-! ## Opening -/

/-- How opening ends: refused before the window is asked, refused by the window,
or with a plaintext. -/
inductive OpenedAs (t : TransportSession) (datagram : Bytes) :
    Except WireguardError Bytes × TransportSession → Prop
  | refused (error : WireguardError) : OpenedAs t datagram (.error error, t)
  | replayed {counter : Nat} {replay : ReplayWindow} :
      t.replay.accept counter = some (false, replay) →
      OpenedAs t datagram (.error .replay, { t with replay })
  | opened {plaintext : Bytes} {counter : Nat} {replay : ReplayWindow} :
      t.replay.accept counter = some (true, replay) → plaintext.length ≤ datagram.length →
      OpenedAs t datagram (.ok plaintext, { t with replay })

theorem length_of_aeadOpen {key : Key} {buffer aad plaintext : Bytes}
    (h : aeadOpen key counter buffer aad = .ok plaintext) : plaintext.length ≤ buffer.length := by
  rw [aeadOpen] at h
  split at h
  · cases h
  · dsimp only at h
    split at h
    · next data _ =>
      cases h
      rw [data.2, length_take]
      exact min_le_right _ _
    · cases h

theorem openMessage_cases (t : TransportSession) (datagram : Bytes) :
    OpenedAs t datagram (t.openMessage datagram) := by
  rw [TransportSession.openMessage]
  split
  · exact .refused _
  · next hparse =>
    split
    · exact .refused _
    · split
      · exact .refused _
      · next hopen =>
        split
        · next haccept =>
          exact .opened haccept
            (le_trans (length_of_aeadOpen hopen) (length_of_parseTransport hparse))
        · next haccept => exact .replayed haccept
        · exact .refused _

/-- Opening a message changes nothing of a session but its window. -/
theorem openMessage_session (t : TransportSession) (datagram : Bytes) :
    ∃ replay, (t.openMessage datagram).2 = { t with replay } := by
  have hcases := openMessage_cases t datagram
  generalize t.openMessage datagram = outcome at hcases ⊢
  cases hcases with
  | refused => exact ⟨t.replay, rfl⟩
  | replayed _ | opened _ _ => exact ⟨_, rfl⟩

end

end Foxcore.Proofs
