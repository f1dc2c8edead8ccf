import Foxcore.Proofs.Obfuscation
import Foxcore.Proofs.TunnelRun

/-!
# A packet gets to the other end

The datagram with a sealed packet is followed from one tunnel to the other. The
sender pads, seals, shapes and masks (`sealNow_onWire`). The receiver may try
the datagram as up to three handshake messages, each in vain, and then comes
down to the transport message that was sealed (`receive_onWire`), which opens to
the packet and the padding. The header of the packet says where it ends.
-/

namespace Foxcore.Proofs

open Lib Lib.Command Ref Ref.Wireguard Spec List Option PeerTunnel WireguardCrates
open Ref.Wireguard.PeerTunnel

variable {bytes a message datagram body : Bytes} {kind : UInt8} {zeros : Nat}
  {key : HeaderProtectionKey} {live : Live}

/-! ## The length of a packet -/

theorem be16At_append {offset value : Nat} (h : be16At bytes offset = some value) (rest : Bytes) :
    be16At (bytes ++ rest) offset = some value := by
  obtain ⟨hi, hhi, h⟩ := bind_eq_some_iff.mp h
  obtain ⟨lo, hlo, h⟩ := bind_eq_some_iff.mp h
  rw [be16At, getElem?_append_left (List.getElem?_eq_some_iff.mp hhi).1, hhi,
    getElem?_append_left (List.getElem?_eq_some_iff.mp hlo).1, hlo]
  exact h

/-- The padding is not taken for a part of the packet. -/
theorem ipPacketLen_padded {packet : Bytes} (h : IpPacket packet) (padding : Bytes) :
    ipPacketLen (packet ++ padding) = some packet.length := by
  obtain ⟨first, hfirst, hshape⟩ := h
  have hhead : (packet ++ padding).head? = some first := by
    rw [head?_append, hfirst, some_or]
  have hroom : packet.length ≤ (packet ++ padding).length := by
    rw [length_append]
    exact Nat.le_add_right _ _
  rw [ipPacketLen, hhead]
  obtain ⟨hversion, hlong, hfield⟩ | ⟨hversion, hfield⟩ := hshape
  · simp only [bind_eq_bind, bind_some, hversion, if_true,
      be16At_append hfield padding]
    rw [if_pos ⟨hlong, hroom⟩]
  · obtain ⟨payload, hpayload, hsum⟩ := map_eq_some_iff.mp hfield
    have hsix : ¬ (6 : UInt8) = 4 := by decide
    simp only [bind_eq_bind, bind_some, hversion, if_neg hsix, if_true,
      be16At_append hpayload padding, map_some, hsum]
    rw [if_pos ⟨by omega, hroom⟩]

theorem ipPacketLen_zeros (n : Nat) : ipPacketLen (List.replicate n 0) = none := by
  cases n <;> rfl

/-! ## Whatever stands in the reserved bytes -/

theorem readArray_congr {b : Bytes} (hlen : a.length = b.length) (hdrop : a.drop 4 = b.drop 4)
    {offset : Nat} (n : Nat) (hoffset : 4 ≤ offset) :
    readArray n a offset = readArray n b offset := by
  have hfrom : a.drop offset = b.drop offset := by
    have hsum : 4 + (offset - 4) = offset := by omega
    rw [← hsum, ← drop_drop, ← drop_drop, hdrop]
  simp only [readArray, hlen, hfrom]

/-- What is at the front is not changed by what follows. -/
theorem readArray_left {n : Nat} (h : n ≤ a.length) (b : Bytes) :
    readArray n (a ++ b) 0 = readArray n a 0 := by
  have hlong : 0 + n ≤ (a ++ b).length := by
    rw [length_append]
    omega
  rw [readArray, dif_pos hlong, readArray, dif_pos (by omega)]
  congr 2
  rw [drop_zero, drop_zero, take_append_of_le_length h]

theorem length_of_kind (h : messageKind bytes = some kind) : 4 ≤ bytes.length := by
  rw [messageKind.eq_def] at h
  split at h
  · simp
  · cases h

theorem head_of_kind (h : messageKind bytes = some kind) : bytes.head? = some kind := by
  rw [messageKind.eq_def] at h
  split at h
  · exact h
  · cases h

theorem parseTransport_congr {b : Bytes} (hkind : messageKind a = messageKind b)
    (hlen : a.length = b.length) (hdrop : a.drop 4 = b.drop 4) :
    parseTransport a = parseTransport b := by
  have hrest : a.drop transportHeaderLen = b.drop transportHeaderLen := by
    have hsum : transportHeaderLen = 4 + 12 := rfl
    rw [hsum, ← drop_drop, ← drop_drop, hdrop]
  simp only [parseTransport, hkind, hlen, hrest, readArray_congr hlen hdrop 4 le_rfl,
    readArray_congr hlen hdrop 8 (show 4 ≤ 8 by decide)]

/-! ## Sealing and opening -/

section

variable [WireguardCrates]

/-- A message with a packet and so many bytes of padding. -/
def MessageOf (t : TransportSession) (packet : Bytes) (zeros : Nat) (message : Bytes) : Prop :=
  t.sendCounter < rejectAfterMessages ∧ ∃ plaintext, plaintext = packet ++ List.replicate zeros 0 ∧
    ∃ buffer tag,
      encryptInPlace t.sendKey (nonce t.sendCounter) [] plaintext =
        some (buffer, tag) ∧
      message = writeTransportHeader t.remoteIndex t.sendCounter ++ (buffer.1 ++ tag.1)

theorem sealPadded_message {t t' : TransportSession} {packet : Bytes} {paddedLen : Nat}
    (hlen : packet.length ≤ paddedLen) (h : t.sealPadded packet paddedLen = (.ok message, t')) :
    MessageOf t packet (paddedLen - packet.length) message := by
  rw [TransportSession.sealPadded] at h
  split at h
  · cases h
  · next hlimit =>
    simp only [aeadSealInPlace] at h
    split at h
    · next buffer tag hseal =>
      cases h
      refine ⟨lt_of_not_ge hlimit, _, ?_, buffer, tag, ?_, append_assoc _ _ _⟩
      · rw [take_of_length_le hlen]
      split at hseal
      · next hcipher =>
        cases hseal
        exact hcipher
      · cases hseal
    · cases h

/-- How much padding there is: what was asked for, or up to the next multiple of
sixteen bytes. -/
def PaddedBy (padding : Option Nat) (zeros : Nat) : Prop :=
  match padding with
  | some padding => zeros = padding
  | none => zeros < padTo

theorem sealAs_message {t t' : TransportSession} {packet : Bytes} {padding : Option Nat}
    (h : t.sealAs packet padding = (.ok message, t')) :
    ∃ zeros, MessageOf t packet zeros message ∧ PaddedBy padding zeros := by
  cases padding with
  | some padding =>
    rw [TransportSession.sealAs, TransportSession.sealWithPadding] at h
    split at h
    · next paddedLen hsum =>
      have hpadded := (add64_eq_some hsum).1
      refine ⟨paddedLen - packet.length, sealPadded_message (by omega) h, ?_⟩
      show paddedLen - packet.length = padding
      omega
    · cases h
  | none =>
    have hpad : padTo = 16 := rfl
    refine ⟨_, sealPadded_message ?_ h, ?_⟩
    · rw [hpad]
      omega
    · show _ < padTo
      rw [hpad]
      omega

theorem length_message {t : TransportSession} {packet : Bytes}
    (h : MessageOf t packet zeros message) :
    message.length = transportHeaderLen + (packet.length + zeros + tagLen) := by
  obtain ⟨-, plaintext, hplain, buffer, tag, -, rfl⟩ := h
  rw [length_append, length_writeTransportHeader, length_append, buffer.2, tag.2, hplain,
    length_append, length_replicate]
  rfl

theorem aeadOpen_sealed (hciphers : SoundCiphers) {key : Key} {counter : Nat} {plaintext : Bytes}
    {buffer : Block plaintext.length} {tag : Block 16}
    (h : encryptInPlace key (nonce counter) [] plaintext = some (buffer, tag)) :
    aeadOpen key counter (buffer.1 ++ tag.1) [] = .ok plaintext := by
  have hopens := hciphers.opens key (nonce counter) [] plaintext buffer tag h
  have htag : tag.1.length = tagLen := tag.2
  have hsplit : (buffer.1 ++ tag.1).length - tagLen = buffer.1.length := by
    rw [length_append]
    omega
  have hlong : ¬ (buffer.1 ++ tag.1).length < tagLen := by
    rw [length_append]
    omega
  have hpieces : ∀ (b : Bytes) (t : Block 16), b = buffer.1 → t = tag →
      (decryptInPlace key (nonce counter) [] b t).map (·.1) = some plaintext := by
    rintro _ _ rfl rfl
    exact hopens
  have htake : (buffer.1 ++ tag.1).take ((buffer.1 ++ tag.1).length - tagLen) = buffer.1 := by
    rw [hsplit, take_left]
  have hdrop : (buffer.1 ++ tag.1).drop ((buffer.1 ++ tag.1).length - tagLen) = tag.1 := by
    rw [hsplit, drop_left]
  have hopened := hpieces _ ⟨_, (congrArg List.length hdrop).trans tag.2⟩ htake (Subtype.ext hdrop)
  obtain ⟨data, hdata, hvalue⟩ := map_eq_some_iff.mp hopened
  rw [aeadOpen, dif_neg hlong]
  dsimp only
  rw [hdata]
  exact congrArg Except.ok hvalue

/-- The other end opens the message to the packet and its padding. -/
theorem openMessage_message (hciphers : SoundCiphers) {mine theirs : TransportSession}
    (hmirrors : Mirrors mine theirs) {packet standard : Bytes}
    (hmessage : MessageOf mine packet zeros message) {seen : List Nat}
    (hseen : Remembers theirs.replay seen) (hfresh : fresh seen mine.sendCounter = true)
    (hkind : messageKind standard = some typeTransport) (hdrop : standard.drop 4 = message.drop 4) :
    parseTransport standard =
        .ok (theirs.localIndex, mine.sendCounter, message.drop transportHeaderLen) ∧
    ∃ replay, theirs.openMessage standard =
      (.ok (packet ++ List.replicate zeros 0), { theirs with replay }) := by
  obtain ⟨hcounter, plaintext, hplain, buffer, tag, hcipher, rfl⟩ := hmessage
  have hkind' : messageKind (writeTransportHeader mine.remoteIndex mine.sendCounter ++
      (buffer.1 ++ tag.1)) = some typeTransport := rfl
  have hlen := congrArg List.length hdrop
  rw [length_drop, length_drop] at hlen
  have hlong := length_of_kind hkind
  have hlong' := length_of_kind hkind'
  have hindex : mine.remoteIndex % 2 ^ 32 = theirs.localIndex := by
    rw [Nat.mod_eq_of_lt hmirrors.narrow, hmirrors.index]
  have hwidth : mine.sendCounter % 2 ^ 64 = mine.sendCounter :=
    Nat.mod_eq_of_lt (lt_trans hcounter (by decide))
  have hparse : parseTransport standard =
      .ok (theirs.localIndex, mine.sendCounter, buffer.1 ++ tag.1) := by
    rw [parseTransport_congr (hkind.trans hkind'.symm) (by omega) hdrop, parseTransport_message,
      hindex, hwidth]
    rw [length_append, tag.2]
    exact Nat.le_add_left _ _
  constructor
  · rw [hparse, drop_left' (length_writeTransportHeader _ _)]
  · obtain ⟨replay, haccept, -⟩ := accept_spec hseen mine.sendCounter
    rw [hfresh] at haccept
    refine ⟨replay, ?_⟩
    rw [TransportSession.openMessage, hparse]
    dsimp only
    rw [if_neg (not_not.mpr rfl), hmirrors.key, aeadOpen_sealed hciphers hcipher, haccept, hplain]

/-! ## The sender -/

variable {ε : Type}

theorem sealLive_message (held : Held) (padding : Option Nat) (t : PeerTunnel ε) :
    Ends (sealLive held padding) t fun r t' => ∀ message, r = .ok message →
      ∃ mine zeros, t.live = some mine ∧ MessageOf mine.session held.packet zeros message ∧
        PaddedBy padding zeros ∧ ∃ live log, t' = { t with live, log } := by
  rw [sealLive, ends_get_bind]
  split
  · intro _ h
    cases h
  · next mine hlive =>
    cases hsealed : mine.session.sealAs held.packet padding with
    | mk =>
      rw [ends_modify_bind, ends_give_bind]
      refine ⟨by simp, fun message hmessage => ?_⟩
      subst hmessage
      obtain ⟨zeros, hof, hzeros⟩ := sealAs_message hsealed
      intro message' h
      cases h
      exact ⟨mine, zeros, hlive, hof, hzeros, _, _, rfl⟩

variable [Entropy ε]

theorem contentPadding_le (amnezia : AmneziaParams) (available : Nat) (t : PeerTunnel ε) :
    Ends (contentPadding amnezia available) t fun r _ =>
      ∀ padding n, r = .ok padding → padding = some n → n ≤ available := by
  have hall : (answers (PeerTunnel ε) WireguardError).all
      (contentPadding amnezia available) fun padding =>
        ∀ n, padding = some n → n ≤ available := by
    generalize hA : answers (PeerTunnel ε) WireguardError = A
    have hpure {m : Nat} (hm : m ≤ available) :
        A.all (pure (some m)) fun padding => ∀ n, padding = some n → n ≤ available :=
      A.pure fun n hn => Option.some.inj hn ▸ hm
    rw [contentPadding]
    split
    · split
      · exact hpure (min_le_right _ _)
      · exact A.bind (A.of_forall fun _ => trivial) fun _ _ => hpure (min_le_right _ _)
    · split
      · split
        · exact hpure (Nat.zero_le _)
        · next hroom =>
          exact A.bind (A.of_forall fun _ => trivial) fun drawn _ =>
            hpure (le_of_lt (Nat.mod_lt _ (Nat.pos_of_ne_zero hroom)))
      · exact A.pure (by simp)
  exact (hall t).imp fun r _ h padding n hr => h padding hr n

theorem obfuscateOwned_shaped (hkind : AmneziaParams.classify message = .ok typeTransport)
    (t : PeerTunnel ε) :
    Ends (obfuscateOwned message) t fun r _ =>
      ∀ shaped, r = .ok shaped → Shaped t message shaped := by
  rw [obfuscateOwned, ends_get_bind]
  split
  · next hvanilla =>
    rw [Bool.not_eq_true'] at hvanilla
    rw [obfuscate, ends_get_bind, ends_give_bind]
    refine ⟨nofun, fun transform htransform => ?_⟩
    obtain ⟨kind, hkind', hwrapped⟩ := obfuscate_wrapped (answers _ _) htransform
    cases hkind.symm.trans hkind'
    refine (hwrapped t).bind (fun datagram t' h => ?_) fun _ _ _ _ h => nomatch h
    intro shaped hshaped
    cases hshaped
    rw [Shaped, hvanilla]
    exact ⟨_, h datagram rfl⟩
  · next hvanilla =>
    rw [Bool.not_eq_true', Bool.not_eq_false] at hvanilla
    rw [ends_give_bind]
    refine ⟨nofun, fun _ _ shaped hshaped => ?_⟩
    cases hshaped
    rw [Shaped, hvanilla]
    rfl

theorem classify_message {t : TransportSession} {packet : Bytes}
    (h : MessageOf t packet zeros message) :
    AmneziaParams.classify message = .ok typeTransport := by
  obtain ⟨-, plaintext, -, buffer, tag, -, rfl⟩ := h
  rfl

/-- What comes out of the seal path. -/
theorem sealNow_onWire (held : Held) (t : PeerTunnel ε) (hwindow : t.udpWindow < 2 ^ 64) :
    Ends (sealNow held) t fun r t' => ∀ answer, r = .ok answer →
      ∃ mine message zeros outgoing, t.live = some mine ∧
        MessageOf mine.session held.packet zeros message ∧
        t'.transmit = t.transmit ++ [outgoing] ∧ OnWire t message outgoing.datagram ∧
        t.amnezia.transportJunkSize.toNat + transportHeaderLen + (held.packet.length + zeros) <
          2 ^ 64 := by
  rw [sealNow, ends_get_bind]
  split
  · intro _ h
    cases h
  · next minimum hminimum =>
    obtain ⟨base, hbase, hminimum⟩ := bind_eq_some_iff.mp hminimum
    have hbase := add64_eq_some hbase
    have hminimum := add64_eq_some hminimum
    rw [ends_modify_bind]
    refine ((contentPadding_leaves _ _ _).and (contentPadding_le _ _ _)).bind
      (fun padding t₁ h₁ => ?_) (by simp)
    obtain ⟨h₁, hpadding⟩ := h₁
    refine (sealLive_message held padding t₁).bind (fun message t₂ h₂ => ?_) (by simp)
    obtain ⟨mine, zeros, hlive, hof, hzeros, live, log, rfl⟩ := h₂ message rfl
    refine ((obfuscateOwned_leaves message _).and
      (obfuscateOwned_shaped (classify_message hof) _)).bind (fun shaped t₃ h₃ => ?_)
      (by simp)
    rw [ends_give_bind]
    refine ⟨by simp, fun datagram hdatagram answer _ => ?_⟩
    rw [eq_of_apart h₁] at hlive h₃
    refine ⟨mine, message, zeros, ⟨datagram, held.packet.length⟩, hlive, hof, ?_,
      ⟨shaped, hdatagram, h₃.2 shaped rfl⟩, ?_⟩
    · show t₃.transmit ++ _ = _
      rw [eq_of_apart h₃.1]
    · -- what is padded stays within the window
      have htag : tagLen = 16 := rfl
      cases padding with
      | none =>
        have hzeros : zeros < 16 := hzeros
        omega
      | some padding =>
        have hfits := hpadding _ padding rfl rfl
        have hzeros : zeros = padding := hzeros
        omega

end

/-! ## Masks -/

theorem xor_cancel {stream : Bytes} (h : a.length ≤ stream.length) :
    List.zipWith (· ^^^ ·) (List.zipWith (· ^^^ ·) a stream) stream = a := by
  induction a generalizing stream with
  | nil => rfl
  | cons x a ih =>
    cases stream with
    | nil => exact absurd h (Nat.not_succ_le_zero _)
    | cons =>
      rw [zipWith_cons_cons, zipWith_cons_cons, ih (Nat.le_of_succ_le_succ h),
        UInt8.xor_assoc, UInt8.xor_self, UInt8.xor_zero]

theorem zero_xor {stream : Bytes} {n : Nat} (h : stream.length = n) :
    List.zipWith (· ^^^ ·) (List.replicate n 0) stream = stream := by
  induction stream generalizing n with
  | nil =>
    subst h
    rfl
  | cons y stream ih =>
    subst h
    rw [length_cons, replicate_succ, zipWith_cons_cons, ih rfl, UInt8.zero_xor]

theorem long_prefixes {p : AmneziaParams} (h : HeaderProtectionKey.validatePrefixes p = .ok ()) :
    12 ≤ p.transportJunkSize.toNat ∧ ∀ candidate ∈ p.candidates, 12 ≤ candidate.junk := by
  rw [HeaderProtectionKey.validatePrefixes] at h
  split at h
  · cases h
  · next hall =>
    simp only [any_cons, any_nil, Bool.or_false, Bool.or_eq_true, decide_eq_true_iff, not_or,
      UInt16.not_lt] at hall
    obtain ⟨hinit, hresponse, hcookie, htransport⟩ := hall
    refine ⟨htransport, fun candidate hmem => ?_⟩
    simp only [AmneziaParams.candidates, mem_cons, not_mem_nil, or_false] at hmem
    obtain rfl | rfl | rfl := hmem
    · exact hinit
    · exact hresponse
    · exact hcookie

/-- Transport data has no trailer. -/
theorem wrapped_transport {p : AmneziaParams} {window : Nat}
    (h : Wrapped p typeTransport window message datagram) :
    ∃ junk value, datagram = junk ++ (toLe 4 value ++ message.drop 4) ∧
      junk.length = p.transportJunkSize.toNat ∧ p.headerTransport.contains value = true := by
  obtain ⟨junk, value, trailer, hdatagram, hjunk, hvalue, htrailer⟩ := h
  have hempty : trailer = [] := by
    by_contra hne
    exact (htrailer hne).2.1 rfl
  rw [hempty, append_nil, append_assoc] at hdatagram
  exact ⟨junk, value, hdatagram, hjunk, hvalue⟩

theorem not_vanilla_of_long {p : AmneziaParams} (h : 12 ≤ p.transportJunkSize.toNat) :
    p.isVanilla = false := by
  by_contra hvanilla
  rw [(vanilla_transport (Bool.eq_true_of_not_eq_false hvanilla)).1] at h
  exact absurd h (by decide)

/-! ## Transport data on the wire -/

section

variable [WireguardCrates] {ε : Type} {t : PeerTunnel ε}

theorem stampReserved_spec (h : messageKind message = some kind) :
    messageKind (t.stampReserved message) = some kind ∧
      (t.stampReserved message).drop 4 = message.drop 4 := by
  rw [stampReserved]
  split
  · obtain ⟨⟨bytes, hbytes⟩, hreserved⟩ : ∃ r, t.reserved = r := ⟨_, rfl⟩
    rw [messageKind.eq_def] at h
    split at h
    · match bytes, hbytes with
      | [x, y, z], _ =>
        rw [hreserved]
        exact ⟨h, rfl⟩
    · cases h
  · exact ⟨h, rfl⟩

/-- With the default parameters a datagram is the message. -/
theorem receiveTransport_vanilla (hvanilla : t.amnezia.isVanilla = true)
    (hkind : messageKind datagram = some typeTransport) (refusal : Option WireguardError) :
    (receiveTransport datagram refusal).exec t =
      (acceptTransport datagram).exec t := by
  obtain ⟨hjunk, hheader⟩ := vanilla_transport hvanilla
  have htransport : t.amnezia.isTransport datagram = true := by
    have hlong := length_of_kind hkind
    have hhead : (datagram.take 4).head? = some typeTransport := by
      rw [head?_take, if_neg (by decide), head_of_kind hkind]
    simp only [AmneziaParams.isTransport, AmneziaParams.headerMatches, hvanilla, hjunk, hheader,
      UInt16.toNat_zero, drop_zero, hhead, hlong]
    rfl
  simp only [receiveTransport, exec_get_bind, htransport, hvanilla, if_true]

theorem receiveTransport_wrapped {window : Nat}
    (hvanilla : t.amnezia.isVanilla = false)
    (h : Wrapped t.amnezia typeTransport window message datagram)
    (refusal : Option WireguardError) : (receiveTransport datagram refusal).exec t =
      (acceptTransport (header typeTransport ++ message.drop 4)).exec t := by
  obtain ⟨junk, value, hdatagram, hjunk, hvalue⟩ := wrapped_transport h
  have hhead : (datagram.drop t.amnezia.transportJunkSize.toNat).take 4 = toLe 4 value := by
    rw [hdatagram, ← hjunk, drop_left, take_left' (length_toLe 4 _)]
  have hrest : datagram.drop (t.amnezia.transportJunkSize.toNat + 4) = message.drop 4 := by
    rw [hdatagram, ← hjunk, ← drop_drop, drop_left, drop_left' (length_toLe 4 _)]
  have hlong : t.amnezia.transportJunkSize.toNat + 4 ≤ datagram.length := by
    rw [hdatagram, length_append, length_append, length_toLe]
    omega
  have htransport : t.amnezia.isTransport datagram = true := by
    simp only [AmneziaParams.isTransport, AmneziaParams.headerMatches, hvanilla, hhead,
      fromLe_header hvalue, hvalue, hlong, decide_true, Bool.true_and, Bool.false_eq_true, if_false]
  have hback : t.amnezia.deobfuscateTransport datagram =
      .ok (header typeTransport ++ message.drop 4) := by
    have hshort : decide (datagram.length < t.amnezia.transportJunkSize.toNat + 4) = false :=
      decide_eq_false (not_lt.mpr hlong)
    simp only [AmneziaParams.deobfuscateTransport, htransport, hshort, hrest, Bool.not_true,
      Bool.or_false, Bool.false_eq_true, if_false]
  simp only [receiveTransport, exec_get_bind, htransport, hvanilla, if_true,
    Bool.false_eq_true, if_false, hback, exec_give_bind]

/-! ## Masked headers -/

theorem transform_ok_iff {before out : Bytes} :
    key.transform before body = .ok out ↔ ∃ nonce n, ∃ stream : Block n,
      readArray 12 before 0 = .ok nonce ∧ n = body.length ∧
      keystream key.bytes nonce n = some stream ∧
      out = List.zipWith (· ^^^ ·) body stream.1 := by
  constructor
  · intro h
    obtain ⟨nonce, hnonce, h⟩ := bind_ok_iff.mp h
    split at h
    · next stream hstream =>
      cases h
      exact ⟨nonce, _, stream, hnonce, rfl, hstream, rfl⟩
    · cases h
  · rintro ⟨nonce, _, stream, hnonce, rfl, hstream, rfl⟩
    refine bind_ok_iff.mpr ⟨nonce, hnonce, ?_⟩
    simp only [hstream]
    rfl

theorem transform_succeeds {before : Bytes}
    (hstreams : ∀ key nonce n, n ≤ initiationLen → keystream key nonce n ≠ none)
    (hfront : 12 ≤ before.length) (hshort : body.length ≤ initiationLen) :
    ∃ out, key.transform before body = .ok out := by
  obtain ⟨nonce, hnonce⟩ : ∃ nonce, readArray 12 before 0 = .ok nonce := by
    rw [readArray, dif_pos (by omega)]
    exact ⟨_, rfl⟩
  obtain ⟨stream, hstream⟩ := ne_none_iff_exists'.mp (hstreams key.bytes nonce _ hshort)
  exact ⟨_, transform_ok_iff.mpr ⟨nonce, _, stream, hnonce, rfl, hstream, rfl⟩⟩

/-- The header of a masked message is where it was, under the mask. -/
theorem protectMessage_ok {shaped : Bytes} (hkey : t.headerProtectionKey = some key)
    (hfront : 12 ≤ t.amnezia.transportJunkSize.toNat)
    (h : t.protectMessage typeTransport shaped = .ok datagram) :
    ∃ mask, key.transform datagram (List.replicate transportHeaderLen 0) = .ok mask ∧
      mask.length = transportHeaderLen ∧
      ∃ junk body rest, junk.length = t.amnezia.transportJunkSize.toNat ∧
        body.length = transportHeaderLen ∧ shaped = junk ++ (body ++ rest) ∧
        datagram = junk ++ (List.zipWith (· ^^^ ·) body mask ++ rest) := by
  rw [protectMessage, hkey] at h
  obtain ⟨⟨size, length⟩, hpart, h⟩ := bind_ok_iff.mp h
  cases hpart
  dsimp only at h
  split at h
  · cases h
  · next hlong =>
    obtain ⟨masked, hmasked, h⟩ := bind_ok_iff.mp h
    cases h
    obtain ⟨nonce, n, stream, hnonce, hn, hstream, rfl⟩ := transform_ok_iff.mp hmasked
    generalize hsize : t.amnezia.transportJunkSize.toNat = size at *
    rw [length_drop] at hlong
    have hsixteen : transportHeaderLen = 16 := rfl
    have hjunk : (shaped.take size).length = size := by
      rw [length_take]
      omega
    have hbody : ((shaped.drop size).take transportHeaderLen).length = transportHeaderLen := by
      rw [length_take, length_drop]
      omega
    have hwidth : n = transportHeaderLen := hn.trans hbody
    refine ⟨stream.1, ?_, stream.2.trans hwidth, shaped.take size,
      (shaped.drop size).take transportHeaderLen, (shaped.drop size).drop transportHeaderLen,
      hjunk, hbody, ?_, append_assoc _ _ _⟩
    · refine transform_ok_iff.mpr ⟨nonce, n, stream, ?_, ?_, hstream, ?_⟩
      · rw [append_assoc, readArray_left (by omega), hnonce]
      · rw [length_replicate, hwidth]
      · rw [← hwidth, zero_xor stream.2]
    · rw [take_append_drop, take_append_drop]

/-- Under the mask is the message. -/
theorem receiveProtectedTransport_wrapped {mask junk rest : Bytes} {window : Nat}
    (hmask : mask.length = transportHeaderLen)
    (hjunk : junk.length = t.amnezia.transportJunkSize.toNat)
    (hbody : body.length = transportHeaderLen)
    (hdatagram : datagram = junk ++ (List.zipWith (· ^^^ ·) body mask ++ rest))
    (hlong : transportHeaderLen + tagLen ≤ message.length)
    (h : Wrapped t.amnezia typeTransport window message (junk ++ (body ++ rest)))
    (refusal : Option WireguardError) :
    (receiveProtectedTransport datagram mask refusal).exec t =
      (acceptTransport (header typeTransport ++ message.drop 4)).exec t := by
  obtain ⟨junk', value, hshaped, hjunk', hvalue⟩ := wrapped_transport h
  obtain ⟨rfl, hinner⟩ := append_inj hshaped (hjunk.trans hjunk'.symm)
  have hsixteen : transportHeaderLen = 16 := rfl
  have hxor : (List.zipWith (· ^^^ ·) body mask).length = transportHeaderLen := by
    rw [length_zipWith, hbody, hmask, Nat.min_self]
  have hdrop : datagram.drop t.amnezia.transportJunkSize.toNat =
      List.zipWith (· ^^^ ·) body mask ++ rest := by
    rw [hdatagram, ← hjunk, drop_left]
  -- the first four bytes under the mask are the header
  have hheader : maskedHeader datagram t.amnezia.transportJunkSize.toNat mask = value := by
    have hfour : body.take 4 = toLe 4 value := by
      have := congrArg (List.take 4) hinner
      rwa [take_append_of_le_length (by omega)] at this
    rw [maskedHeader, hdrop, take_append_of_le_length (by omega),
      take_zipWith, xor_cancel, hfour, fromLe_header hvalue]
    rw [length_take, length_take]
    omega
  have hroom : t.amnezia.transportJunkSize.toNat + (transportHeaderLen + tagLen) ≤
      datagram.length := by
    have hlen := congrArg List.length hinner
    rw [length_append, length_append, length_toLe, length_drop] at hlen
    rw [hdatagram, length_append, length_append, hxor, hjunk]
    omega
  have hfound : (decide (t.amnezia.transportJunkSize.toNat + (transportHeaderLen + tagLen) ≤
      datagram.length) && t.amnezia.headerTransport.contains
        (maskedHeader datagram t.amnezia.transportJunkSize.toNat mask)) = true := by
    rw [hheader, hvalue, decide_eq_true hroom, Bool.and_self]
  have hback : header typeTransport ++ (List.zipWith (· ^^^ ·)
      ((datagram.drop t.amnezia.transportJunkSize.toNat).take transportHeaderLen) mask).drop 4 ++
      (datagram.drop t.amnezia.transportJunkSize.toNat).drop transportHeaderLen =
      header typeTransport ++ message.drop 4 := by
    have hfrom := congrArg (List.drop 4) hinner
    rw [drop_append_of_le_length (by omega), drop_left' (length_toLe 4 _)] at hfrom
    rw [hdrop, take_left' hxor, drop_left' hxor, xor_cancel (by omega), append_assoc,
      hfrom]
  simp only [receiveProtectedTransport, exec_get_bind]
  rw [if_pos hfound, hback]

/-- Whether a kind is in a masked datagram can always be told. -/
theorem protectedHandshakeBody_ok
    (hstreams : ∀ key nonce n, n ≤ initiationLen → keystream key nonce n ≠ none)
    (hkey : t.headerProtectionKey = some key) {candidate : Candidate}
    (hmem : candidate ∈ t.amnezia.candidates) (hfront : 12 ≤ candidate.junk)
    (datagram mask : Bytes) :
    ∃ body, t.protectedHandshakeBody datagram candidate mask = .ok body := by
  rw [protectedHandshakeBody]
  split
  · exact ⟨none, rfl⟩
  · next hfits =>
    rw [Bool.not_eq_true', Bool.not_eq_false] at hfits
    have hlong := (fits_iff.mp hfits).1
    rw [hkey]
    dsimp only
    split
    · exact ⟨none, rfl⟩
    · have hfront : 12 ≤ (datagram.take candidate.junk).length := by
        rw [length_take]
        omega
      have hshort : ((datagram.drop candidate.junk).take candidate.length).length ≤
          initiationLen := by
        have hcases := (candidate_cases hmem).1
        simp only [mem_cons, Prod.mk.injEq, not_mem_nil, or_false] at hcases
        rw [length_take]
        refine le_trans (min_le_left _ _) ?_
        obtain ⟨-, hlen⟩ | ⟨-, hlen⟩ | ⟨-, hlen⟩ := hcases <;> rw [hlen] <;> decide
      obtain ⟨out, hout⟩ := transform_succeeds hstreams hfront hshort
      rw [hout]
      exact ⟨_, rfl⟩

/-! ## The packet -/

theorem sessionFor_of_has (h : HasSession t live) :
    t.sessionFor live.session.localIndex = some live := by
  obtain hlive | ⟨hprevious, hother⟩ := h
  · simp [sessionFor, hlive]
  · have hnot : t.live.any (fun newer =>
        decide (newer.session.localIndex = live.session.localIndex)) = false := by
      cases hnewer : t.live with
      | none => rfl
      | some newer => exact decide_eq_false (hother newer hnewer)
    simp [sessionFor, hnot, hprevious]

theorem hasSession_enter {nowMs : Nat} (h : HasSession t live)
    (hyoung : live.isExpired nowMs t.timers.rejectAfterTimeMs = false) :
    HasSession (entered t nowMs) live := by
  have hkeep : (!live.isExpired nowMs t.timers.rejectAfterTimeMs) = true := by rw [hyoung]; rfl
  obtain hlive | ⟨hprevious, hother⟩ := h
  · left
    show t.live.filter _ = _
    rw [hlive]
    exact filter_some_pos hkeep
  · right
    refine ⟨?_, fun newer hnewer => hother newer (filter_eq_some_iff.mp hnewer).1⟩
    show t.previous.filter _ = _
    rw [hprevious]
    exact filter_some_pos hkeep

/-- What is handed out when a message opens. -/
theorem acceptTransport_opened {ciphertext plaintext : Bytes} {counter : Nat}
    {session : TransportSession}
    (hparse : parseTransport datagram = .ok (live.session.localIndex, counter, ciphertext))
    (hhas : HasSession t live)
    (hopen : live.session.openMessage datagram = (.ok plaintext, session))
    (hroom : t.amnezia.transportJunkSize.toNat + transportHeaderLen + plaintext.length < 2 ^ 64) :
    Ends (acceptTransport datagram) t fun r t' =>
      match ipPacketLen plaintext with
      | none => r = .ok .none ∧ t'.log = t.log
      | some length => r = .ok .packet ∧
          t'.log = t.log ++ [.delivered live.serial (plaintext.take length) t.nowMs] := by
  have hput : ∀ replaced : Live,
      (t.putSession live.session.localIndex replaced).log = t.log ∧
        (t.putSession live.session.localIndex replaced).nowMs = t.nowMs := by
    intro replaced
    rw [putSession]
    split <;> exact ⟨rfl, rfl⟩
  have hobserved : (add64 t.amnezia.transportJunkSize.toNat transportHeaderLen).bind
      (add64 · plaintext.length) =
        some (t.amnezia.transportJunkSize.toNat + transportHeaderLen + plaintext.length) := by
    rw [add64, if_pos (by omega), bind_some, add64, if_pos hroom]
  rw [acceptTransport, hparse, ends_give_bind]
  refine ⟨by simp, fun found hfound => ?_⟩
  cases hfound
  rw [ends_get_bind, sessionFor_of_has hhas]
  dsimp only
  rw [hopen, ends_modify_bind, ends_give_bind]
  refine ⟨by simp, fun found hfound => ?_⟩
  cases hfound
  rw [hobserved]
  obtain ⟨hlog, hnow⟩ := hput { live with session }
  cases ipPacketLen plaintext with
  | none => exact ⟨rfl, hlog⟩
  | some length =>
    refine ⟨rfl, ?_⟩
    show (t.putSession live.session.localIndex { live with session }).log ++
      [.delivered live.serial (plaintext.take length)
        (t.putSession live.session.localIndex { live with session }).nowMs] = _
    rw [hlog, hnow]

end

/-! ## What is tried in vain -/

section

variable [WireguardCrates] {ε : Type} [Entropy ε] {t : PeerTunnel ε}

/-- A handshake message that is not authentic is refused, and nothing is changed. -/
theorem acceptHandshake_spec (kind : UInt8) (body : Bytes) (t : PeerTunnel ε) :
    Ends (acceptHandshake kind body) t fun r t' =>
      (∃ error, (r, t') = (.error error, t)) ∨ Authentic t kind body := by
  rw [acceptHandshake]
  split
  · next hkind =>
    subst hkind
    refine ends_acceptResponse (fun error _ => .inl ⟨error, rfl⟩) fun _ hkeys => ?_
    obtain ⟨-, response, -, hdecode, -, hmac, -⟩ := hkeys
    exact .inr (.inl ⟨rfl, response, hdecode, hmac⟩)
  · split
    · next hkind =>
      subst hkind
      exact ends_acceptCookieReply (fun error => .inl ⟨error, rfl⟩)
        fun reply inFlight value hdecode hflight hvalue =>
          .inr (.inr ⟨rfl, reply, inFlight, value, hdecode, hflight, hvalue⟩)
    · exact .inl ⟨_, rfl⟩

theorem attempt_refused (h : ¬ Authentic t kind body) :
    ∃ error, ∀ f : Except WireguardError Received → TunnelM ε Received,
      (attempt (acceptHandshake kind body) >>= f).exec t = (f (.error error)).exec t := by
  obtain ⟨error, hrefused⟩ := (acceptHandshake_spec kind body t).resolve_right h
  have hexec : (acceptHandshake kind body).exec t = (.error error, t) := hrefused
  exact ⟨error, fun f => by rw [exec_attempt_bind, hexec]⟩

theorem receivePlain_transport (datagram : Bytes)
    (h : ∀ kind body, t.amnezia.handshakeBody datagram = .ok (kind, body) →
      ¬ Authentic t kind body) :
    ∃ refusal, (receivePlain datagram).exec t =
      (receiveTransport datagram refusal).exec t := by
  simp only [receivePlain, exec_get_bind]
  cases hbody : t.amnezia.handshakeBody datagram with
  | error => exact ⟨none, rfl⟩
  | ok found =>
    obtain ⟨error, hrefused⟩ := attempt_refused (h found.1 found.2 hbody)
    exact ⟨some error, hrefused _⟩

theorem tryCandidates_transport {mask : Bytes} (l : List Candidate)
    (h : ∀ candidate ∈ l, ∃ body, t.protectedHandshakeBody datagram candidate mask = .ok body ∧
      ∀ found, body = some found → ¬ Authentic t candidate.kind found)
    (refusal : Option WireguardError) :
    ∃ last, (tryCandidates datagram mask l refusal).exec t =
      (receiveProtectedTransport datagram mask last).exec t := by
  induction l generalizing refusal with
  | nil => exact ⟨refusal, rfl⟩
  | cons candidate rest ih =>
    have ih := ih fun c hc => h c (mem_cons_of_mem _ hc)
    obtain ⟨body, hbody, hrefuse⟩ := h candidate mem_cons_self
    simp only [tryCandidates, exec_get_bind, hbody, exec_give_bind]
    cases body with
    | none => exact ih refusal
    | some found =>
      obtain ⟨error, hrefused⟩ := attempt_refused (hrefuse found rfl)
      obtain ⟨last, hlast⟩ := ih (some error)
      exact ⟨last, (hrefused _).trans hlast⟩

/-! ## The receiver -/

/-- What a datagram comes down to for a receiver that tries nothing else with
success: a message with the same bytes behind the header. -/
def ComesTo (message : Bytes) (t : PeerTunnel ε)
    (outcome : Except WireguardError Received × PeerTunnel ε) : Prop :=
  ∃ standard, messageKind standard = some typeTransport ∧ standard.drop 4 = message.drop 4 ∧
    outcome = (acceptTransport standard).exec t

theorem receiveDatagram_exec (datagram : Bytes) (nowMs : Nat) :
    (receiveDatagram datagram nowMs).exec t =
      (match t.headerProtectionKey with
        | some key => receiveProtected key datagram
        | none => receivePlain datagram).exec (entered t nowMs) := rfl

/-- A datagram that carries a transport message comes down to that message. -/
theorem receive_onWire (hciphers : SoundCiphers) {ε' : Type} {sender : PeerTunnel ε'}
    (hparams : t.amnezia = sender.amnezia)
    (hkeys : t.headerProtectionKey = sender.headerProtectionKey)
    (hvalid : ValidParams sender.amnezia sender.headerProtectionKey)
    (hkind : messageKind message = some typeTransport)
    (hlong : transportHeaderLen + tagLen ≤ message.length) (hwire : OnWire sender message datagram)
    (hforeign : ∀ kind body, Offered t datagram kind body → ¬ Authentic t kind body) (nowMs : Nat) :
    ComesTo message (entered t nowMs) ((receiveDatagram datagram nowMs).exec t) := by
  obtain ⟨shaped, hprotect, hshaped⟩ := hwire
  have hstandard : messageKind (header typeTransport ++ message.drop 4) = some typeTransport := rfl
  cases hkey : t.headerProtectionKey with
  | none =>
    simp only [Offered, hkey] at hforeign
    obtain ⟨refusal, hplain⟩ :=
      receivePlain_transport datagram (t := entered t nowMs) hforeign
    rw [receiveDatagram_exec, hkey]
    rw [hkey] at hkeys
    rw [protectMessage, ← hkeys] at hprotect
    cases hprotect
    rw [Shaped] at hshaped
    split at hshaped
    · next hvanilla =>
      subst hshaped
      obtain ⟨hkind', hdrop⟩ := stampReserved_spec (t := sender) hkind
      refine ⟨_, hkind', hdrop, hplain.trans ?_⟩
      rw [← hparams] at hvanilla
      exact receiveTransport_vanilla (t := entered t nowMs) hvanilla hkind' refusal
    · next hvanilla =>
      obtain ⟨window, hwrapped⟩ := hshaped
      rw [Bool.not_eq_true, ← hparams] at hvanilla
      rw [← hparams] at hwrapped
      refine ⟨_, hstandard, rfl, hplain.trans ?_⟩
      exact receiveTransport_wrapped (t := entered t nowMs) hvanilla hwrapped refusal
  | some =>
    rw [hkey] at hkeys
    obtain ⟨hfront, hfronts⟩ := long_prefixes (hvalid.2 (by rw [← hkeys]; rfl))
    obtain ⟨mask, hmask, hwidth, junk, body, rest, hjunk, hbody, rfl, hdatagram⟩ :=
      protectMessage_ok hkeys.symm hfront hprotect
    have hbodies : ∀ candidate ∈ t.amnezia.candidates, ∃ body,
        (entered t nowMs).protectedHandshakeBody datagram candidate mask = .ok body ∧
        ∀ found, body = some found → ¬ Authentic (entered t nowMs) candidate.kind found := by
      intro candidate hmem
      obtain ⟨found, hfound⟩ := protectedHandshakeBody_ok hciphers.streams hkey hmem
        (hfronts candidate (hparams ▸ hmem)) datagram mask
      refine ⟨found, hfound, fun inner hinner => hforeign _ _ ?_⟩
      rw [Offered, hkey]
      exact ⟨mask, hmask, candidate, hmem, rfl, by rw [hfound, hinner]⟩
    obtain ⟨refusal, htried⟩ := tryCandidates_transport _ hbodies none
    have hvanilla := not_vanilla_of_long hfront
    rw [Shaped, hvanilla, ← hparams] at hshaped
    obtain ⟨window, hwrapped⟩ := hshaped
    refine ⟨_, hstandard, rfl, ?_⟩
    rw [receiveDatagram_exec, hkey]
    dsimp only
    rw [receiveProtected, hmask, exec_give_bind, exec_get_bind]
    refine htried.trans ?_
    rw [← hparams] at hjunk
    exact receiveProtectedTransport_wrapped (t := entered t nowMs) hwidth hjunk hbody hdatagram
      hlong hwrapped refusal

/-- A packet that one tunnel seals is handed out by the other, whatever is drawn
at random and whatever else the datagram looks like. An empty packet is taken
and nothing is handed out. -/
theorem sealed_packet_delivered (hciphers : SoundCiphers) {ε' : Type} [Entropy ε']
    {sender sender' : PeerTunnel ε} {receiver : PeerTunnel ε'} {mine theirs : Live}
    (hpeers : Peers sender receiver mine theirs) {packet : Bytes} {ticket : Option Nat}
    {outgoing : Outgoing}
    (hseal : (PeerTunnel.sealNow ⟨packet, ticket⟩).exec sender = (.ok .sealed, sender'))
    (hout : sender'.transmit = sender.transmit ++ [outgoing]) {nowMs : Nat}
    (hyoung : theirs.isExpired nowMs receiver.timers.rejectAfterTimeMs = false) {seen : List Nat}
    (hseen : Remembers theirs.session.replay seen)
    (hfresh : fresh seen mine.session.sendCounter = true)
    (hforeign : ∀ kind body, Offered receiver outgoing.datagram kind body →
      ¬ Authentic receiver kind body) :
    Ends (PeerTunnel.receiveDatagram outgoing.datagram nowMs) receiver fun r receiver' =>
      (IpPacket packet → r = .ok .packet ∧
        receiver'.log = receiver.log ++ [.delivered theirs.serial packet nowMs]) ∧
      (packet = [] → r = .ok .none ∧ receiver'.log = receiver.log) := by
  have hwire := sealNow_onWire ⟨packet, ticket⟩ sender hpeers.window
  rw [Ends, hseal] at hwire
  obtain ⟨mine', message, zeros, outgoing', hlive, hof, hqueued, hwire, hroom⟩ := hwire _ rfl
  cases hpeers.seals.symm.trans hlive
  cases append_cancel_left (hout.symm.trans hqueued)
  have hlength := length_message hof
  have hkind : messageKind message = some typeTransport := by
    obtain ⟨-, plaintext, -, buffer, tag, -, rfl⟩ := hof
    rfl
  obtain ⟨standard, hstandard, hdrop, houtcome⟩ := receive_onWire hciphers hpeers.params
    hpeers.key hpeers.valid hkind (by omega) hwire hforeign nowMs
  rw [Ends, houtcome]
  obtain ⟨hparse, replay, hopen⟩ :=
    openMessage_message hciphers hpeers.mirrors hof hseen hfresh hstandard hdrop
  have hopened := acceptTransport_opened hparse (hasSession_enter hpeers.opens hyoung) hopen (by
    rw [length_append, length_replicate]
    show receiver.amnezia.transportJunkSize.toNat + _ + _ < _
    rw [hpeers.params]
    exact hroom)
  constructor
  · intro hip
    rw [ipPacketLen_padded hip] at hopened
    dsimp only at hopened
    rw [take_left] at hopened
    exact hopened
  · rintro rfl
    rw [nil_append, ipPacketLen_zeros] at hopened
    exact hopened

end

namespace DeliveryExample

open TunnelExample

/-- Masked headers, random bytes before every message and after some. -/
def config : PeerConfig where
  settings :=
    { privateKey := Block.zero 32, peerPublicKey := Block.zero 32
      amnezia :=
        { initJunkSize := 12, responseJunkSize := 13, cookieJunkSize := 14, transportJunkSize := 15
          randomTrailers := true } }
  headerProtectionKey := some ⟨⟨List.replicate 32 1, rfl⟩, by decide⟩

def made : Except WireguardError (PeerTunnel (List Bool)) := new config []

theorem made_isSome : made.toOption.isSome = true := by decide +kernel

/-- A session that has sent three messages, and its mirror. -/
def mine : Live := ⟨⟨Block.zero 32, Block.zero 32, 7, 9, 3, {}⟩, 0, 0⟩
def theirs : Live := ⟨⟨Block.zero 32, Block.zero 32, 9, 7, 0, {}⟩, 0, 0⟩

def sender : PeerTunnel (List Bool) := { made.toOption.get made_isSome with live := some mine }
def receiver : PeerTunnel (List Bool) := { made.toOption.get made_isSome with live := some theirs }

def packet : Bytes := [0x45, 0, 0, 20] ++ List.replicate 16 0

def outgoing : Outgoing :=
  ⟨List.replicate 15 0 ++ writeTransportHeader 9 3 ++ packet ++ List.replicate 16 0, 20⟩

theorem soundCiphers : SoundCiphers where
  opens key nonce aad buffer sealed tag h := by
    cases h
    rfl
  streams _ _ _ _ := some_ne_none _

theorem peers : Peers sender receiver mine theirs where
  valid := ⟨by decide +kernel, fun _ => by decide +kernel⟩
  params := rfl
  key := rfl
  window := by decide +kernel
  seals := rfl
  opens := .inl rfl
  mirrors := ⟨rfl, rfl, by decide⟩

end DeliveryExample

open TunnelExample DeliveryExample in
theorem twenty_bytes_delivered :
    ((PeerTunnel.sealNow ⟨packet, none⟩).exec sender).2.transmit = [outgoing] ∧
    Ends (PeerTunnel.receiveDatagram outgoing.datagram 5) receiver fun r receiver' =>
      r = .ok .packet ∧ receiver'.log = receiver.log ++ [.delivered 0 packet 5] := by
  have hanswer : ((sealNow ⟨packet, none⟩).exec sender).1 = .ok .sealed := by
    decide +kernel
  have htransmit : ((sealNow ⟨packet, none⟩).exec sender).2.transmit = [outgoing] := by
    decide +kernel
  refine ⟨htransmit, ?_⟩
  have hforeign : ∀ candidate ∈ receiver.amnezia.candidates,
      receiver.amnezia.fits candidate outgoing.datagram = false := by decide +kernel
  have hip : IpPacket packet := ⟨0x45, rfl, .inl ⟨rfl, by decide, by decide⟩⟩
  generalize hexec : (sealNow ⟨packet, none⟩).exec sender = outcome at hanswer htransmit
  obtain ⟨answer, sender'⟩ := outcome
  cases hanswer
  refine (sealed_packet_delivered soundCiphers peers hexec htransmit (by decide +kernel)
    remembers_nil (by decide +kernel) ?_).imp fun r receiver' h => h.1 hip
  rintro kind body ⟨mask, -, candidate, hmem, rfl, hbody⟩
  rw [protectedHandshakeBody, hforeign candidate hmem] at hbody
  cases hbody

end Foxcore.Proofs
