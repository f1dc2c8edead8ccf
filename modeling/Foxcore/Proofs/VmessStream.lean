import Foxcore.Spec.VmessStream

/-!
# Chunks one to one

Both directions write frames (`send_eq`, `encodeUplink_eq`), and a frame is read back in front
of whatever follows (`nextFrame_frame`), except that a frame of nothing is the end, which the
reader tells by its length alone. A perfect cipher opens only the peer's next chunk, so what is
read from any wire is a prefix of the peer's chunks.
-/

namespace Foxcore.Proofs.Vmess

open Ref.Vmess Spec.Vmess Ref.Vmess.DataCryptor List Half

variable {h : Half} {c : DataCryptor} {payload rest : Bytes} {chunks payloads : List Bytes}
  {b : Bool}

theorem fromBe_beBytes (n : UInt16) :
    fromBe (UInt8.ofNat (n.toNat / 256)) (UInt8.ofNat n.toNat) = n := by
  have hlt := n.toNat_lt
  refine UInt16.toNat_inj.mp ?_
  simp only [fromBe, UInt16.toNat_ofNat', UInt8.toNat_ofNat']
  omega

/-! ## One frame -/

/-- A payload as the next nonce seals it. -/
def sealedBytes (c : DataCryptor) (payload : Bytes) : Bytes :=
  match c.cipher with
  | none => payload
  | some aead => aead.encrypt (DataCryptor.nonceBytes c.iv c.nextCounter) payload

/-- The cryptor after one more chunk. -/
def advanced (c : DataCryptor) : DataCryptor :=
  match c.cipher with
  | none => c
  | some _ =>
      { c with
        nextCounter := c.nextCounter + 1
        used := c.used ++ [DataCryptor.nonceBytes c.iv c.nextCounter] }

def afterChunk (h : Half) : Half := { h with cryptor := advanced h.cryptor, drawn := h.drawn + 1 }

/-- There are nonces for so many chunks. -/
def Room (c : DataCryptor) (n : Nat) : Prop := c.cipher = none ∨ c.nextCounter + n ≤ 65535

theorem advanced_cipher (c : DataCryptor) : (advanced c).cipher = c.cipher := by
  unfold advanced
  split <;> simp_all

theorem advanced_iv (c : DataCryptor) : (advanced c).iv = c.iv := by
  unfold advanced
  split <;> rfl

theorem tagLen_advanced (c : DataCryptor) : (advanced c).tagLen = c.tagLen := by
  simp only [tagLen, advanced_cipher]

theorem advanced_counter (hc : c.cipher.isSome) :
    (advanced c).nextCounter = c.nextCounter + 1 ∧
      (advanced c).used = c.used ++ [nonceBytes c.iv c.nextCounter] := by
  obtain ⟨aead, haead⟩ := Option.isSome_iff_exists.mp hc
  simp [advanced, haead]

theorem Room.mono {m n : Nat} (hroom : Room c n) (hle : m ≤ n) : Room c m :=
  hroom.imp_right fun hmany => (Nat.add_le_add_left hle _).trans hmany

theorem Room.advanced {n : Nat} (hroom : Room c (n + 1)) : Room (advanced c) n := by
  rw [Room, advanced_cipher]
  refine hroom.imp_right fun hle => ?_
  cases hc : c.cipher with
  | none =>
    simp only [Vmess.advanced, hc]
    omega
  | some aead =>
    rw [(advanced_counter (by simp [hc])).1]
    omega

theorem Perfect.advanced (hperfect : Perfect c chunks) : Perfect (advanced c) chunks := by
  rw [Spec.Vmess.Perfect, advanced_cipher, advanced_iv]
  exact hperfect

theorem length_sealedBytes (c : DataCryptor) (payload : Bytes) :
    (sealedBytes c payload).length = payload.length + c.tagLen := by
  unfold sealedBytes tagLen
  split
  · simp_all
  · simp_all [Aead.length_encrypt]

theorem nonce_ok {aead : Aead} (hc : c.cipher = some aead) (hroom : Room c 1) :
    c.nonce = .ok (nonceBytes c.iv c.nextCounter, advanced c) := by
  have hle := hroom.resolve_left (by simp [hc])
  have hlt : ¬ 65535 ≤ c.nextCounter := by omega
  simp [nonce, advanced, hc, hlt]

/-- Without a nonce nothing is sealed or opened. -/
theorem nonce_error (hroom : ¬ Room c 1) : c.cipher.isSome ∧ c.nonce = .error .nonceExhausted := by
  obtain ⟨hc, hfull⟩ := not_or.mp hroom
  refine ⟨Option.isSome_iff_ne_none.mpr hc, ?_⟩
  rw [nonce, if_pos (by omega)]

theorem sealPayload_ok (hroom : Room c 1) :
    c.sealPayload payload = .ok (sealedBytes c payload, advanced c) := by
  unfold sealPayload sealedBytes
  cases hc : c.cipher with
  | none => simp [advanced, hc]
  | some => simp [nonce_ok hc hroom]

theorem frame_ok (hroom : Room h.cryptor 1) (payload : Bytes) :
    h.frame payload = .ok (beBytes (UInt16.ofNat (payload.length + h.cryptor.tagLen) ^^^
      h.mask h.drawn) ++ sealedBytes h.cryptor payload, afterChunk h) := by
  simp only [frame, sealPayload_ok hroom, length_sealedBytes, afterChunk]

/-- The next chunk of the peer opens. -/
theorem openPayload_sealedBytes (hperfect : Perfect c chunks)
    (hnext : c.cipher.isSome → chunks[c.nextCounter]? = some payload) (hroom : Room c 1) :
    c.openPayload (sealedBytes c payload) = .ok (payload, advanced c) := by
  have hlong : ¬ (sealedBytes c payload).length < c.tagLen := by
    rw [length_sealedBytes]
    omega
  rw [openPayload, if_neg hlong]
  unfold sealedBytes
  cases hc : c.cipher with
  | none => simp [advanced, hc]
  | some aead =>
    have hle := hroom.resolve_left (by simp [hc])
    have hopen := (hperfect aead hc c.nextCounter (by omega) _ payload).mpr
      ⟨hnext (by simp [hc]), rfl⟩
    simp [nonce_ok hc hroom, hopen]

/-- A frame is read back, and a frame of nothing is the end. -/
theorem nextFrame_frame (hperfect : Perfect h.cryptor chunks)
    (hnext : h.cryptor.cipher.isSome → chunks[h.cryptor.nextCounter]? = some payload)
    (hroom : Room h.cryptor 1) (hfits : Spec.Vmess.Fits h.cryptor payload) (rest : Bytes) :
    nextFrame b h (beBytes (UInt16.ofNat (payload.length + h.cryptor.tagLen) ^^^
        h.mask h.drawn) ++ sealedBytes h.cryptor payload ++ rest) =
      if payload = [] then .finished else .data payload (afterChunk h) rest := by
  have hlen : (UInt16.ofNat (payload.length + h.cryptor.tagLen)).toNat =
      payload.length + h.cryptor.tagLen := by
    exact Nat.mod_eq_of_lt (Nat.lt_succ_of_le hfits)
  have hsealed := length_sealedBytes h.cryptor payload
  simp only [beBytes, cons_append, nil_append, nextFrame, fromBe_beBytes,
    UInt16.xor_assoc, UInt16.xor_self, UInt16.xor_zero, hlen]
  by_cases hempty : payload = []
  · simp [hempty]
  · have hpos := length_pos_iff.mpr hempty
    rw [if_neg (by omega), if_neg (by omega), ← hsealed, take_left,
      openPayload_sealedBytes hperfect hnext hroom]
    simp [hempty, afterChunk]

/-! ## Many frames -/

theorem writeAll_frame_ok (hroom : Room h.cryptor payloads.length) :
    ∃ last, (h.writeAll frame payloads).2 = .ok last := by
  induction payloads generalizing h with
  | nil => exact ⟨h, rfl⟩
  | cons payload payloads ih =>
    have hone : Room h.cryptor 1 := hroom.mono (Nat.le_add_left 1 _)
    simp only [writeAll, frame_ok hone]
    exact ih (Room.advanced hroom)

/-- Reading what was written, up to the first payload of nothing. -/
theorem readAll_writeAll (hperfect : Perfect h.cryptor chunks)
    (hchunks : h.cryptor.cipher.isSome → chunks.drop h.cryptor.nextCounter = payloads)
    (hroom : Room h.cryptor payloads.length) (hfits : ∀ p ∈ payloads, Spec.Vmess.Fits h.cryptor p)
    {n : Nat} (hrounds : (h.writeAll frame payloads).1.length ≤ n) :
    readAll b n h (h.writeAll frame payloads).1 =
      (payloads.takeWhile (· ≠ []), if [] ∈ payloads then .finished else .waiting) := by
  induction payloads generalizing h n with
  | nil =>
    cases n <;> simp [writeAll, readAll, nextFrame]
  | cons payload payloads ih =>
    have hone : Room h.cryptor 1 := hroom.mono (Nat.le_add_left 1 _)
    have hnext : h.cryptor.cipher.isSome → chunks[h.cryptor.nextCounter]? = some payload :=
      fun hc => by rw [← head?_drop, hchunks hc, head?_cons]
    simp only [writeAll, frame_ok hone] at hrounds ⊢
    obtain ⟨n, rfl⟩ : ∃ m, n = m + 1 := by
      refine Nat.exists_eq_succ_of_ne_zero ?_
      simp only [length_append, beBytes, length_cons] at hrounds
      omega
    rw [readAll, nextFrame_frame hperfect hnext hone (hfits _ (.head _))]
    by_cases hempty : payload = []
    · simp [hempty]
    · have hrest := ih (h := afterChunk h) (n := n) (Perfect.advanced hperfect)
        (fun hc => by
          have hc : h.cryptor.cipher.isSome := advanced_cipher h.cryptor ▸ hc
          rw [afterChunk, (advanced_counter hc).1, ← drop_drop, hchunks hc]
          rfl)
        (Room.advanced hroom)
        (fun p hp => by
          rw [Spec.Vmess.Fits, afterChunk, tagLen_advanced]
          exact hfits p (.tail _ hp))
        (by
          simp only [length_append, beBytes, length_cons] at hrounds
          omega)
      simp [hempty, hrest]

/-- A frame with more bytes behind it. -/
def before (more : Bytes) : Frame → Frame
  | .data payload next rest => .data payload next (rest ++ more)
  | frame => frame

theorem nextFrame_append (h : Half) (wire more : Bytes) :
    nextFrame b h wire = .needMore ∨
      nextFrame b h (wire ++ more) = before more (nextFrame b h wire) := by
  match wire with
  | [] | [_] => exact .inl rfl
  | hi :: lo :: rest =>
    simp only [nextFrame, cons_append]
    generalize (fromBe hi lo ^^^ h.mask h.drawn).toNat = frameLen
    by_cases hend : frameLen = h.cryptor.tagLen
    · simp [hend, before]
    by_cases htag : frameLen < h.cryptor.tagLen
    · simp [hend, htag, before]
    by_cases hshort : rest.length < frameLen
    · simp [hend, htag, hshort]
    have hlong := le_of_not_gt hshort
    rw [if_neg hend, if_neg hend, if_neg htag, if_neg htag, if_neg hshort,
      if_neg (by rw [length_append]; omega), take_append_of_le_length hlong,
      drop_append_of_le_length hlong]
    right
    split
    · rfl
    · split <;> rfl

/-- The end of a loop is not changed by what comes later. -/
theorem readAll_append {rounds : Nat} {wire : Bytes} (more : Bytes)
    (hend : (readAll b rounds h wire).2 ≠ .waiting) {n : Nat} (hle : rounds ≤ n) :
    readAll b n h (wire ++ more) = readAll b rounds h wire := by
  induction rounds generalizing h wire n with
  | zero => exact absurd rfl hend
  | succ rounds ih =>
    obtain ⟨n, rfl⟩ := Nat.exists_eq_succ_of_ne_zero (Nat.ne_zero_of_lt hle)
    rw [readAll] at hend ⊢
    rw [readAll]
    obtain hneed | happend := nextFrame_append (b := b) h wire more
    · simp [hneed] at hend
    · rw [happend]
      cases hframe : nextFrame b h wire with
      | needMore => simp [hframe] at hend
      | finished | failed error => rfl
      | data =>
        rw [hframe] at hend
        simp only [before, ih hend (Nat.le_of_succ_le_succ hle)]

/-! ## Datagrams -/

theorem send_eq (h : Half) (datagrams : List Bytes) (hroom : Room h.cryptor datagrams.length) :
    h.send datagrams = h.writeAll frame (fitting h.cryptor datagrams) := by
  induction datagrams generalizing h with
  | nil => rfl
  | cons datagram datagrams ih =>
    have hone : Room h.cryptor 1 := hroom.mono (Nat.le_add_left 1 _)
    have hfew : Room h.cryptor datagrams.length := hroom.mono (Nat.le_add_right _ 1)
    have hsame : fitting (afterChunk h).cryptor datagrams = fitting h.cryptor datagrams := by
      refine filter_congr fun datagram _ => decide_eq_decide.mpr ?_
      rw [Spec.Vmess.Fits, Spec.Vmess.Fits, afterChunk, tagLen_advanced]
    simp only [send] at ih ⊢
    by_cases hfits : Spec.Vmess.Fits h.cryptor datagram
    · rw [fitting, filter_cons_of_pos (by simpa using hfits), writeAll, sendDatagram,
        if_neg (not_lt.mpr hfits)]
      simp only [writeAll, frame_ok hone, ih (afterChunk h) (Room.advanced hroom), hsame]
      rfl
    · rw [fitting, filter_cons_of_neg (by simpa using hfits), writeAll, sendDatagram,
        if_pos (lt_of_not_ge hfits)]
      simp only [ih h hfew]
      rfl

/-- Datagrams arrive one to one exactly when none of them is empty. -/
theorem datagrams_one_to_one_iff (h : Half) (hstart : h.cryptor.nextCounter = 0)
    (datagrams : List Bytes) (hcount : datagrams.length < 65535)
    (hperfect : Perfect h.cryptor (fitting h.cryptor datagrams)) :
    OneToOne h datagrams ↔
      ∀ datagram ∈ datagrams, Spec.Vmess.Fits h.cryptor datagram → datagram ≠ [] := by
  have hroom : Room h.cryptor datagrams.length := .inr (by omega)
  have hfitting : Room h.cryptor (fitting h.cryptor datagrams).length := .inr (by
    have := length_filter_le (fun d => decide (Spec.Vmess.Fits h.cryptor d)) datagrams
    rw [fitting]
    omega)
  have hread := readAll_writeAll (b := false) hperfect (fun _ => by rw [hstart]; rfl) hfitting
    (fun p hp => by simpa using (mem_filter.mp hp).2) le_rfl
  rw [← send_eq h datagrams hroom] at hread
  have hmem : [] ∈ fitting h.cryptor datagrams ↔
      ¬ ∀ datagram ∈ datagrams, Spec.Vmess.Fits h.cryptor datagram → datagram ≠ [] := by
    simp [fitting]
  constructor
  · intro hone
    by_contra hnot
    have hend := hone.goesOn _ prefix_rfl
    rw [receive, hread, if_pos (hmem.mpr hnot)] at hend
    cases hend
  · intro hne
    have hnil : [] ∉ fitting h.cryptor datagrams := fun hin => hmem.mp hin hne
    refine ⟨?_, ?_, fun wire hwire => ?_⟩
    · rw [send_eq h datagrams hroom]
      exact writeAll_frame_ok hfitting
    · rw [receive, hread]
      exact takeWhile_eq_self_iff.mpr fun p hp =>
        decide_eq_true fun heq => hnil (heq ▸ hp)
    · obtain ⟨more, hmore⟩ := hwire
      by_contra hend
      have hsame := readAll_append more hend
        (n := (h.send datagrams).1.length) (by rw [← hmore, length_append]; omega)
      rw [hmore, hread, if_neg hnil] at hsame
      exact hend (congrArg Prod.snd hsame).symm

/-! ## A byte stream -/

/-- The nonces used are those of the counters so far. -/
def Counted (c : DataCryptor) : Prop :=
  c.nextCounter ≤ 65535 ∧ c.used = (List.range c.nextCounter).map (DataCryptor.nonceBytes c.iv)

theorem Counted.nodup (hcounted : Counted c) : c.used.Nodup := by
  rw [hcounted.2]
  refine nodup_range.map_on fun i hi j hj heq => ?_
  have hle := hcounted.1
  rw [mem_range] at hi hj
  simp only [nonceBytes, cons_append, List.cons.injEq, ← UInt8.toNat_inj, UInt8.toNat_ofNat'] at heq
  omega

theorem encodeChunk_error (hroom : ¬ Room h.cryptor 1) (read : Bytes) :
    h.encodeChunk read = .error .nonceExhausted := by
  obtain ⟨hc, hnonce⟩ := nonce_error hroom
  obtain ⟨aead, hc⟩ := Option.isSome_iff_exists.mp hc
  simp [encodeChunk, frame, sealPayload, hc, hnonce]

theorem counted_encodeChunk {last : Half} {read bytes : Bytes} (hcounted : Counted h.cryptor)
    (hstep : h.encodeChunk read = .ok (bytes, last)) : Counted last.cryptor := by
  by_cases hroom : Room h.cryptor 1
  · simp only [encodeChunk, frame_ok hroom] at hstep
    split at hstep
    · cases hstep
    · cases hstep
      cases hc : h.cryptor.cipher with
      | none => simpa [afterChunk, advanced, hc] using hcounted
      | some =>
        have hle := hroom.resolve_left (by simp [hc])
        obtain ⟨hcounter, hused⟩ := advanced_counter (c := h.cryptor) (by simp [hc])
        rw [Counted, afterChunk, hcounter, hused, advanced_iv, range_succ, map_append,
          hcounted.2]
        exact ⟨hle, rfl⟩
  · rw [encodeChunk_error hroom] at hstep
    cases hstep

theorem counted_writeAll {last : Half} (hcounted : Counted h.cryptor) {inputs : List Bytes}
    (hwritten : (h.writeAll encodeChunk inputs).2 = .ok last) : Counted last.cryptor := by
  induction inputs generalizing h with
  | nil =>
    cases hwritten
    exact hcounted
  | cons input inputs ih =>
    rw [writeAll] at hwritten
    split at hwritten
    · cases hwritten
    · next hstep => exact ih (counted_encodeChunk hcounted hstep) hwritten

theorem encodeUplink_eq (hroom : Room h.cryptor payloads.length)
    (hfits : ∀ p ∈ payloads, Spec.Vmess.Fits h.cryptor p) :
    h.writeAll encodeChunk payloads = h.writeAll frame payloads := by
  induction payloads generalizing h with
  | nil => rfl
  | cons payload payloads ih =>
    have hone : Room h.cryptor 1 := hroom.mono (Nat.le_add_left 1 _)
    have hshort : ¬ 2 + 65535 < (beBytes (UInt16.ofNat (payload.length + h.cryptor.tagLen) ^^^
        h.mask h.drawn) ++ sealedBytes h.cryptor payload).length := by
      have hle : payload.length + h.cryptor.tagLen ≤ 65535 := hfits payload (.head _)
      simp only [length_append, length_sealedBytes, beBytes, length_cons,
        length_nil]
      omega
    have hrest := ih (h := afterChunk h) (Room.advanced hroom) fun p hp => by
      rw [Spec.Vmess.Fits, afterChunk, tagLen_advanced]
      exact hfits p (.tail _ hp)
    simp only [writeAll, encodeChunk, frame_ok hone, if_neg hshort]
    rw [← hrest]

/-- What opens is the peer's next chunk. -/
theorem openPayload_eq (hc : c.cipher.isSome) (hperfect : Perfect c chunks) {frame : Bytes}
    {last : DataCryptor} (hopen : c.openPayload frame = .ok (payload, last)) :
    chunks[c.nextCounter]? = some payload ∧ last = advanced c := by
  obtain ⟨aead, hc⟩ := Option.isSome_iff_exists.mp hc
  rw [openPayload] at hopen
  split at hopen
  · cases hopen
  · simp only [hc] at hopen
    by_cases hroom : Room c 1
    · rw [nonce_ok hc hroom] at hopen
      have hle := hroom.resolve_left (by simp [hc])
      dsimp only at hopen
      split at hopen
      · cases hopen
      · next plain hplain =>
        cases hopen
        exact ⟨((hperfect aead hc c.nextCounter (by omega) _ _).mp hplain).1, rfl⟩
    · rw [(nonce_error hroom).2] at hopen
      cases hopen

theorem nextFrame_data {wire : Bytes} {last : Half}
    (hframe : nextFrame b h wire = .data payload last rest) :
    ∃ frame, h.cryptor.openPayload frame = .ok (payload, last.cryptor) ∧
      last = { h with cryptor := last.cryptor, drawn := h.drawn + 1 } := by
  revert hframe
  fun_cases nextFrame b h wire
  case case6 hopen _ =>
    intro hframe
    cases hframe
    exact ⟨_, hopen, rfl⟩
  all_goals exact nofun

/-- Whatever is on the wire, the payloads read are the peer's next chunks. -/
theorem readAll_prefix (hc : h.cryptor.cipher.isSome) (hperfect : Perfect h.cryptor chunks)
    (rounds : Nat) (wire : Bytes) :
    (readAll b rounds h wire).1 <+: chunks.drop h.cryptor.nextCounter := by
  induction rounds generalizing h wire with
  | zero => exact nil_prefix
  | succ rounds ih =>
    rw [readAll]
    cases hframe : nextFrame b h wire with
    | needMore | finished | failed error => exact nil_prefix
    | data payload last rest =>
      obtain ⟨hget, hlast⟩ : chunks[h.cryptor.nextCounter]? = some payload ∧
          last = afterChunk h := by
        obtain ⟨frame, hopen, hlast⟩ := nextFrame_data hframe
        obtain ⟨hget, hcryptor⟩ := openPayload_eq hc hperfect hopen
        exact ⟨hget, hlast.trans (by rw [hcryptor, afterChunk])⟩
      subst hlast
      have hrest := ih (h := afterChunk h) (by rwa [afterChunk, advanced_cipher])
        (Perfect.advanced hperfect) rest
      rw [afterChunk, (advanced_counter hc).1] at hrest
      obtain ⟨hlt, rfl⟩ := List.getElem?_eq_some_iff.mp hget
      rw [drop_eq_getElem_cons hlt]
      exact cons_prefix_cons.mpr ⟨rfl, hrest⟩

/-- A stream of fewer chunks than there are nonces is carried whole, no nonce is used twice, and
no wire makes the application read anything but a prefix of it. -/
theorem stream_carried (k : ResponseKeys) (h : Half) (hfresh : Spec.Vmess.Fresh h)
    (reads : List Bytes)
    (hreads : ∀ read ∈ reads, read ≠ [] ∧ read.length ≤ 8192)
    (hperfect : Perfect h.cryptor (reads ++ [[]])) : Carries k h reads := by
  refine ⟨fun hcount header hheader => ?_, fun inputs last hlast => ?_, fun wire closed => ?_⟩
  · have hroom : Room h.cryptor (reads ++ [[]]).length := .inr (by
      rw [hfresh.counter, length_append, length_singleton]
      omega)
    have htag : h.cryptor.tagLen ≤ tagBytes := by
      unfold DataCryptor.tagLen
      split <;> omega
    have hfits : ∀ p ∈ reads ++ [[]], Spec.Vmess.Fits h.cryptor p := by
      simp only [tagBytes] at htag
      intro p hp
      rw [Spec.Vmess.Fits]
      obtain hp | hp := mem_append.mp hp
      · have := (hreads p hp).2
        omega
      · rw [mem_singleton.mp hp, length_nil]
        omega
    have hread := readAll_writeAll (b := true) hperfect (fun _ => by rw [hfresh.counter]; rfl)
      hroom hfits le_rfl
    rw [decodeDownlink, hheader, encodeUplink, encodeUplink_eq hroom hfits]
    dsimp only
    rw [hread, takeWhile_append_of_pos fun p hp => decide_eq_true (hreads p hp).1]
    simp
  · refine (counted_writeAll ⟨?_, ?_⟩ hlast).nodup
    · rw [hfresh.counter]
      exact Nat.zero_le _
    · rw [hfresh.unused, hfresh.counter]
      rfl
  · have hnil : ([] : Bytes) <+: reads.flatten := nil_prefix
    rw [clientReads, decodeDownlink]
    cases verifyResponseHeader k wire with
    | error => exact hnil
    | ok rest =>
      obtain ⟨more, hmore⟩ := readAll_prefix (b := true) hfresh.cipher hperfect rest.length rest
      rw [hfresh.counter] at hmore
      refine ⟨more.flatten, ?_⟩
      rw [← flatten_append, hmore]
      simp

/-- A stream of more chunks is given up. -/
theorem writeAll_exhausted (hc : h.cryptor.cipher.isSome) (hle : h.cryptor.nextCounter ≤ 65535)
    {inputs : List Bytes} (hmany : 65535 < h.cryptor.nextCounter + inputs.length) :
    ∃ error, (h.writeAll encodeChunk inputs).2 = .error error := by
  induction inputs generalizing h with
  | nil =>
    rw [length_nil] at hmany
    omega
  | cons input inputs ih =>
    rw [writeAll]
    by_cases hroom : Room h.cryptor 1
    · simp only [encodeChunk, frame_ok hroom]
      split
      · exact ⟨_, rfl⟩
      · next hstep =>
        split at hstep
        · cases hstep
        · cases hstep
          have hcounter := (advanced_counter hc).1
          have hone := hroom.resolve_left (Option.isSome_iff_ne_none.mp hc)
          rw [length_cons] at hmany
          refine ih (h := afterChunk h) ?_ ?_ ?_
          · rwa [afterChunk, advanced_cipher]
          · rw [afterChunk, hcounter]
            exact hone
          · rw [afterChunk, hcounter]
            omega
    · rw [encodeChunk_error hroom]
      exact ⟨_, rfl⟩

/-! ## A cipher of its own -/

/-- The tag is zeros, and only what the peer sealed opens. -/
def table (chunks : List Bytes) : Aead where
  encrypt _ plain := plain ++ List.replicate 16 0
  decrypt nonce frame :=
    (chunks[(fromBe (nonce[0]?.getD 0) (nonce[1]?.getD 0)).toNat]?).filter fun plain =>
      frame = plain ++ List.replicate 16 0
  length_encrypt _ plain := by simp [tagBytes]

def half (chunks : List Bytes) : Half where
  cryptor := { cipher := some (table chunks), iv := List.replicate 16 7 }
  mask n := UInt16.ofNat (n * 977)

theorem half_perfect (chunks : List Bytes) : Perfect (half chunks).cryptor chunks := by
  intro aead haead i hi frame plain
  cases haead
  have hindex : (fromBe (UInt8.ofNat (i / 256)) (UInt8.ofNat i)).toNat = i := by
    simp only [fromBe, UInt16.toNat_ofNat', UInt8.toNat_ofNat']
    omega
  show (chunks[(fromBe (UInt8.ofNat (i / 256)) (UInt8.ofNat i)).toNat]?).filter _ = some plain ↔ _
  rw [hindex, Option.filter_eq_some_iff, decide_eq_true_eq]
  rfl

theorem pair_one_to_one :
    (∀ datagram ∈ [[1, 2], [3]],
      Spec.Vmess.Fits (half [[1, 2], [3]]).cryptor datagram → datagram ≠ []) ∧
      OneToOne (half [[1, 2], [3]]) [[1, 2], [3]] :=
  ⟨by decide, (datagrams_one_to_one_iff _ rfl _ (by decide) (half_perfect _)).mpr (by decide)⟩

/-- An empty datagram is the end of the stream to the receiver. -/
theorem empty_datagram_ends :
    Perfect (half [[1], [], [2]]).cryptor [[1], [], [2]] ∧
      receive (half [[1], [], [2]]) ((half [[1], [], [2]]).send [[1], [], [2]]).1 =
        ([[1]], .finished) ∧
      ¬ OneToOne (half [[1], [], [2]]) [[1], [], [2]] := by
  have hreceive : receive (half [[1], [], [2]]) ((half [[1], [], [2]]).send [[1], [], [2]]).1 =
      ([[1]], .finished) := by decide +kernel
  refine ⟨half_perfect _, hreceive, fun hone => ?_⟩
  have hend := hone.goesOn _ prefix_rfl
  cases hend

def headerKeys : ResponseKeys where
  openLength _ := some [0, 4]
  openContent _ := some [9, 0, 0, 0]
  authentication := 9

theorem headerKeys_verify (rest : Bytes) :
    verifyResponseHeader headerKeys (List.replicate 38 0 ++ rest) = .ok rest := by
  simp [verifyResponseHeader, headerKeys, fromBe, tagBytes, maxResponseHeaderBytes]
  rw [if_neg (by omega), if_neg (by omega)]

theorem two_reads_carried :
    (∀ rest, verifyResponseHeader headerKeys (List.replicate 38 0 ++ rest) = .ok rest) ∧
      Carries headerKeys (half [[1, 2], [3], []]) [[1, 2], [3]] :=
  ⟨headerKeys_verify, stream_carried headerKeys _ ⟨rfl, rfl, rfl⟩ _ (by decide) (half_perfect _)⟩

/-- Two bytes behind the header are read as the end of a stream of which nothing has come, and
so is a carrier that closes; and a stream of too many chunks is given up. -/
theorem end_not_authenticated :
    Perfect (half [[1], []]).cryptor [[1], []] ∧
      clientReads headerKeys (half [[1], []]) (List.replicate 38 0 ++ [0, 16]) false =
        ([], true) ∧
      clientReads headerKeys (half [[1], []]) [] true = ([], true) ∧
      ∃ error, ((half []).encodeUplink (List.replicate 65535 [1])).2 = .error error :=
  ⟨half_perfect _, by decide +kernel, rfl,
    writeAll_exhausted rfl (Nat.zero_le _)
      (by rw [length_append, length_replicate]; decide)⟩

end Foxcore.Proofs.Vmess
