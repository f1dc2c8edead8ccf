import Foxcore.Lib.Words
import Foxcore.Spec.WireName

/-!
# Reading a name

`read_name` finds exactly the legible names. Its loop carries what it has used
up, so the induction is over how much is left, and the fuel of the model is
what the bounds on jumps and length amount to.

The rest of the file is what this buys. A name is determined by its offset; it
depends on its own bytes only; and a pointer to a name is that name with one
jump more.
-/

namespace Foxcore.Proofs

open Lib Ref Spec List Option Str

variable {b : UInt8} {packet packet' : Packet} {start len p : Nat} {bytes : List UInt8}
  {w : WireName}

/-! ## Bytes that begin a label -/

theorem toNat_le_of_and_eq_zero (h : b &&& 0xc0 = 0) : b.toNat ≤ 63 := by
  have hall : ∀ v : BitVec 8, v &&& 0xc0#8 = 0#8 → v.toNat ≤ 63 := by decide
  exact hall b.toBitVec (congrArg UInt8.toBitVec h)

theorem slice_length (h : slice packet start len = some bytes) : bytes.length = len := by
  rw [slice] at h
  split at h
  · next hle =>
    cases h
    rw [length_take, length_drop]
    omega
  · cases h

/-! ## The loop -/

theorem readNameGo_sound {fuel jumps wireLen : Nat} {rest : Option Nat} {labels : List Str}
    {domain : Str} {next : Nat}
    (h : readNameGo packet fuel p jumps wireLen rest labels = some (domain, next))
    (hjumps : jumps ≤ maxPointerJumps) (hlen : wireLen ≤ 255) :
    ∃ w, NameAt packet p w ∧ jumps + w.jumps ≤ maxPointerJumps ∧
      wireLen + w.wireLen ≤ 255 ∧ (∀ label ∈ w.labels, validUtf8 label = true) ∧
      domain = join dot (labels ++ w.lowered) ∧ next = rest.getD w.next := by
  induction fuel generalizing p jumps wireLen rest labels with
  | zero => cases h
  | succ fuel ih =>
    obtain ⟨length, hlength, h⟩ := bind_eq_some_iff.mp h
    split at h
    · next hpointer =>
      obtain ⟨second, hsecond, h⟩ := bind_eq_some_iff.mp h
      dsimp only at h
      split at h
      · cases h
      · next hbounds =>
        obtain ⟨w, hname, hj, hl, hutf8, hdomain, hnext⟩ := ih h (by omega) hlen
        refine ⟨_, .pointer hlength hpointer hsecond hname, ?_, hl, hutf8, hdomain, ?_⟩
        · show jumps + (w.jumps + 1) ≤ maxPointerJumps
          omega
        · rw [hnext]
          rfl
    · split at h
      · cases h
      · next hpointer hreserved =>
        have hlabel : length &&& 0xc0 = 0 := by
          by_contra hne
          exact hreserved hne
        split at h
        · next hzero =>
          subst hzero
          cases h
          refine ⟨_, .root hlength, hjumps, hlen, ?_, ?_, rfl⟩
          · intro label hmem
            cases hmem
          · rw [WireName.lowered, map_nil, append_nil]
        · next hzero =>
          split at h
          · cases h
          · next hbounds =>
            obtain ⟨bytes, hbytes, h⟩ := bind_eq_some_iff.mp h
            obtain ⟨label, hutf8label, h⟩ := bind_eq_some_iff.mp h
            rw [fromUtf8, ite_none_right_eq_some] at hutf8label
            obtain ⟨hvalid, heq⟩ := hutf8label
            cases heq
            obtain ⟨w, hname, hj, hl, hutf8, hdomain, hnext⟩ :=
              ih h hjumps (by omega)
            refine ⟨_, .label hlength hlabel hzero hbytes hname, hj, ?_, ?_, ?_,
              hnext⟩
            · have hsize := slice_length hbytes
              simp only [WireName.wireLen, map_cons, sum_cons] at hl ⊢
              omega
            · intro l hmem
              rcases mem_cons.mp hmem with rfl | hmem
              · exact hvalid
              · exact hutf8 l hmem
            · rw [hdomain]
              simp [WireName.lowered]

theorem readNameGo_complete (hname : NameAt packet p w) {fuel jumps wireLen : Nat}
    {rest : Option Nat} {labels : List Str} (hjumps : jumps + w.jumps ≤ maxPointerJumps)
    (hlen : wireLen + w.wireLen ≤ 255) (hutf8 : ∀ label ∈ w.labels, validUtf8 label = true)
    (hfuel : (maxPointerJumps - jumps) + (255 - wireLen) < fuel) :
    readNameGo packet fuel p jumps wireLen rest labels =
      some (join dot (labels ++ w.lowered), rest.getD w.next) := by
  induction hname generalizing fuel jumps wireLen rest labels with
  | @root p hbyte =>
    obtain ⟨fuel, rfl⟩ : ∃ n, fuel = n + 1 := ⟨fuel - 1, by omega⟩
    rw [readNameGo, hbyte]
    simp [WireName.lowered]
  | @label p length label rest' hbyte hhigh hzero hslice hname ih =>
    obtain ⟨fuel, rfl⟩ : ∃ n, fuel = n + 1 := ⟨fuel - 1, by omega⟩
    have hsize := slice_length hslice
    have hshort := toNat_le_of_and_eq_zero hhigh
    have hvalid : validUtf8 label = true := hutf8 label mem_cons_self
    simp only [WireName.wireLen, map_cons, sum_cons] at hlen
    have hfits : ¬ (63 < length.toNat ∨ 255 < wireLen + (length.toNat + 1)) := by omega
    have hstep := @ih fuel jumps (wireLen + (length.toNat + 1)) rest
      (labels ++ [toAsciiLowercase label]) hjumps
      (by simp only [WireName.wireLen]; omega)
      (fun l hl => hutf8 l (mem_cons_of_mem _ hl)) (by omega)
    rw [readNameGo, hbyte]
    simp only [bind_eq_bind, bind_some, hhigh, hzero, hfits, hslice, fromUtf8, hvalid, if_true]
    rw [hstep]
    simp [WireName.lowered]
  | @pointer p hi lo rest' hbyte hhigh hlo hname ih =>
    obtain ⟨fuel, rfl⟩ : ∃ n, fuel = n + 1 := ⟨fuel - 1, by omega⟩
    -- the byte the pointer leads to exists, since a name is read there
    have hinside : pointerTarget hi lo < packet.length := by
      cases hname with
      | root h | label h | pointer h => exact (List.getElem?_eq_some_iff.mp h).1
    have hjumps' : jumps + (rest'.jumps + 1) ≤ maxPointerJumps := hjumps
    have hbounds : ¬ (packet.length ≤ (hi &&& 0x3f).toNat * 256 + lo.toNat ∨
        maxPointerJumps ≤ jumps) := by
      rw [pointerTarget] at hinside
      omega
    have hstep := @ih fuel (jumps + 1) wireLen (some (rest.getD (p + 2))) labels
      (by omega) hlen hutf8 (by omega)
    rw [readNameGo, hbyte]
    simp only [bind_eq_bind, bind_some, hhigh, hlo, hbounds]
    exact hstep

/-- `read_name` finds the legible names and no others. -/
theorem readName_iff {domain : Str} {next : Nat} :
    readName packet p = some (domain, next) ↔
      ∃ w, NameAt packet p w ∧ w.Legible ∧ domain = w.text ∧ next = w.next := by
  constructor
  · intro h
    obtain ⟨w, hname, hj, hl, hutf8, hdomain, hnext⟩ :=
      readNameGo_sound h (Nat.zero_le _) (Nat.zero_le _)
    exact ⟨w, hname, ⟨by omega, by omega, hutf8⟩, hdomain, hnext⟩
  · rintro ⟨w, hname, hlegible, rfl, rfl⟩
    refine readNameGo_complete hname ?_ ?_ hlegible.utf8 (by decide)
    · rw [zero_add]
      exact hlegible.jumps
    · rw [zero_add]
      exact hlegible.wireLen

/-! ## What a name depends on -/

/-! A name is what its first byte says. -/

section

variable (h : NameAt packet p w)

include h

theorem nameAt_of_root (hbyte : packet[p]? = some 0) : w = ⟨[], 0, p + 1, [p]⟩ := by
  cases h with
  | root => rfl
  | label hbyte' _ hzero => exact absurd (Option.some.inj (hbyte'.symm.trans hbyte)) hzero
  | pointer hbyte' hhigh =>
    cases hbyte.symm.trans hbyte'
    exact absurd hhigh (by decide)

theorem nameAt_of_label {length : UInt8} (hbyte : packet[p]? = some length)
    (hhigh : length &&& 0xc0 = 0) (hzero : length ≠ 0) :
    ∃ label rest, slice packet (p + 1) length.toNat = some label ∧
      NameAt packet (p + 1 + length.toNat) rest ∧
      w = ⟨label :: rest.labels, rest.jumps, rest.next,
        List.range' p (length.toNat + 1) ++ rest.bytes⟩ := by
  cases h with
  | root hbyte' => exact absurd (Option.some.inj (hbyte.symm.trans hbyte')) hzero
  | label hbyte' _ _ hslice hrest =>
    cases hbyte.symm.trans hbyte'
    exact ⟨_, _, hslice, hrest, rfl⟩
  | pointer hbyte' hhigh' =>
    cases hbyte.symm.trans hbyte'
    exact absurd (hhigh.symm.trans hhigh') (by decide)

theorem nameAt_of_pointer {hi lo : UInt8} (hbyte : packet[p]? = some hi)
    (hhigh : hi &&& 0xc0 = 0xc0) (hlo : packet[p + 1]? = some lo) :
    ∃ rest, NameAt packet (pointerTarget hi lo) rest ∧
      w = ⟨rest.labels, rest.jumps + 1, p + 2, p :: (p + 1) :: rest.bytes⟩ := by
  cases h with
  | root hbyte' =>
    cases hbyte.symm.trans hbyte'
    exact absurd hhigh (by decide)
  | label hbyte' hhigh' =>
    cases hbyte.symm.trans hbyte'
    exact absurd (hhigh'.symm.trans hhigh) (by decide)
  | pointer hbyte' _ hlo' hrest =>
    cases hbyte.symm.trans hbyte'
    cases hlo.symm.trans hlo'
    exact ⟨_, hrest, rfl⟩

/-- There is one name at an offset. -/
theorem nameAt_unique {w' : WireName} (h' : NameAt packet p w') : w = w' := by
  induction h generalizing w' with
  | root hbyte => exact (nameAt_of_root h' hbyte).symm
  | label hbyte hhigh hzero hslice _ ih =>
    obtain ⟨label', rest', hslice', hrest', rfl⟩ := nameAt_of_label h' hbyte hhigh hzero
    cases hslice.symm.trans hslice'
    rw [ih hrest']
  | pointer hbyte hhigh hlo _ ih =>
    obtain ⟨rest', hrest', rfl⟩ := nameAt_of_pointer h' hbyte hhigh hlo
    rw [ih hrest']

omit h in
theorem slice_frame (h : slice packet start len = some bytes) (hpos : 0 < len)
    (hsame : ∀ i, start ≤ i → i < start + len → packet'[i]? = packet[i]?) :
    slice packet' start len = some bytes := by
  rw [slice, ite_none_right_eq_some] at h
  obtain ⟨hle, hbytes⟩ := h
  have hinside : start + len - 1 < packet.length := by omega
  have hlast := (hsame (start + len - 1) (by omega) (by omega)).trans
    (getElem?_eq_getElem hinside)
  have hle' := (List.getElem?_eq_some_iff.mp hlast).1
  rw [slice, if_pos (by omega), ← hbytes]
  refine congrArg some (ext_getElem? fun i => ?_)
  rw [getElem?_take, getElem?_take]
  split
  · rw [getElem?_drop, getElem?_drop, hsame _ (by omega) (by omega)]
  · rfl

/-- A message that agrees on the bytes a name is read from has the same name
there. -/
theorem nameAt_frame (hsame : ∀ i ∈ w.bytes, packet'[i]? = packet[i]?) : NameAt packet' p w := by
  induction h with
  | root hbyte => exact .root ((hsame _ (.head _)).trans hbyte)
  | @label p length label rest hbyte hhigh hzero hslice _ ih =>
    have hown : ∀ i, p ≤ i → i < p + (length.toNat + 1) → packet'[i]? = packet[i]? :=
      fun i hlo hhi => hsame i (mem_append_left _ (mem_range'_1.mpr ⟨hlo, hhi⟩))
    have hpos : 0 < length.toNat := by
      by_contra hnot
      exact hzero (UInt8.toNat_inj.mp (by show length.toNat = 0; omega))
    refine .label ((hown p (by omega) (by omega)).trans hbyte) hhigh hzero ?_ (ih ?_)
    · exact slice_frame hslice hpos fun i hlo hhi => hown i (by omega) (by omega)
    · exact fun i hi => hsame i (mem_append_right _ hi)
  | pointer hbyte hhigh hlo _ ih =>
    refine .pointer ((hsame _ (.head _)).trans hbyte) hhigh
      ((hsame _ (.tail _ (.head _))).trans hlo) (ih ?_)
    exact fun i hi => hsame i (.tail _ (.tail _ hi))

/-- No label of a name is empty. -/
theorem nameAt_label_ne_nil : ∀ label ∈ w.labels, label ≠ [] := by
  induction h with
  | root => exact nofun
  | @label p length label rest _ _ hzero hslice _ ih =>
    intro l hmem
    rcases mem_cons.mp hmem with rfl | hmem
    · have hsize := slice_length hslice
      intro hnil
      rw [hnil] at hsize
      exact hzero (UInt8.toNat_inj.mp hsize.symm)
    · exact ih l hmem
  | pointer _ _ _ _ ih => exact ih

/-! ## Where a name ends -/

theorem nameAt_lt_next : p < w.next := by
  induction h with
  | root => exact Nat.lt_succ_self _
  | @label p length label rest =>
    show p < rest.next
    omega
  | @pointer p =>
    show p < p + 2
    omega

/-- Where a name ends is settled by the bytes up to there. -/
theorem nameAt_next_eq {w' : WireName} (h' : NameAt packet' p w')
    (hsame : ∀ i, p ≤ i → i < w.next → packet'[i]? = packet[i]?) : w'.next = w.next := by
  induction h generalizing w' with
  | root hbyte =>
    rw [nameAt_of_root h' ((hsame _ le_rfl (Nat.lt_succ_self _)).trans hbyte)]
  | @label p length label rest hbyte hhigh hzero hslice hrest ih =>
    have hlt := nameAt_lt_next hrest
    have hbyte' := (hsame p le_rfl (by show p < rest.next; omega)).trans hbyte
    obtain ⟨_, rest', -, hrest', rfl⟩ := nameAt_of_label h' hbyte' hhigh hzero
    exact (ih hrest' fun i hlo hhi => hsame i (by omega) hhi :)
  | @pointer p hi lo rest hbyte hhigh hlo =>
    have hbyte' := (hsame p le_rfl (by show p < p + 2; omega)).trans hbyte
    have hlo' := (hsame (p + 1) (Nat.le_succ p) (Nat.lt_succ_self _)).trans hlo
    obtain ⟨_, -, rfl⟩ := nameAt_of_pointer h' hbyte' hhigh hlo'
    rfl

theorem nameAt_next_le : w.next ≤ p + w.wireLen + 2 := by
  induction h with
  | @root p =>
    show p + 1 ≤ p + 0 + 2
    omega
  | @label p length label rest _ _ _ hslice _ ih =>
    have hsize := slice_length hslice
    simp only [WireName.wireLen, map_cons, sum_cons] at ih ⊢
    omega
  | @pointer p hi lo rest =>
    show p + 2 ≤ p + rest.wireLen + 2
    omega

/-! ## How many pointers a name can lead through -/

omit h in
theorem lt_of_isContinuation (h : isContinuation b = true) : b < 0xc0 := by
  have hle : b ≤ 0xbf := of_decide_eq_true (Bool.and_eq_true_iff.mp h).2
  exact UInt8.lt_iff_toNat_lt.mpr (Nat.lt_succ_of_le (UInt8.le_iff_toNat_le.mp hle))

omit h in
theorem lt_of_secondOk {lead : UInt8} (h : secondOk lead b = true) : b < 0xc0 := by
  have hle : b ≤ 0xbf := by
    rw [secondOk] at h
    split at h
    · exact of_decide_eq_true (Bool.and_eq_true_iff.mp h).2
    · split at h
      · have hle := of_decide_eq_true (Bool.and_eq_true_iff.mp h).2
        exact UInt8.le_trans hle (by decide)
      · split at h
        · exact of_decide_eq_true (Bool.and_eq_true_iff.mp h).2
        · split at h
          · have hle := of_decide_eq_true (Bool.and_eq_true_iff.mp h).2
            exact UInt8.le_trans hle (by decide)
          · exact of_decide_eq_true (Bool.and_eq_true_iff.mp h).2
  exact UInt8.lt_iff_toNat_lt.mpr (Nat.lt_succ_of_le (UInt8.le_iff_toNat_le.mp hle))

omit h in
/-- Byte values that no text has. -/
theorem not_mem_of_validUtf8 (h : validUtf8 bytes = true) :
    ∀ b ∈ bytes, b < 0xc0 ∨ 0xc2 ≤ b := by
  fun_induction validUtf8 bytes with
  | case1 => exact nofun
  | case2 b rest hascii ih =>
    refine forall_mem_cons.mpr ⟨.inl ?_, ih h⟩
    exact UInt8.lt_trans hascii (by decide)
  | case3 b _ hlead b₁ rest ih =>
    obtain ⟨hsecond, hrest⟩ := Bool.and_eq_true_iff.mp h
    refine forall_mem_cons.mpr ⟨.inr ?_, forall_mem_cons.mpr ⟨.inl ?_, ih hrest⟩⟩
    · exact of_decide_eq_true (Bool.and_eq_true_iff.mp hlead).1
    · exact lt_of_isContinuation hsecond
  | case5 b _ _ hlead b₁ b₂ rest ih =>
    obtain ⟨hseconds, hrest⟩ := Bool.and_eq_true_iff.mp h
    obtain ⟨hsecond, hthird⟩ := Bool.and_eq_true_iff.mp hseconds
    have hle : 0xe0 ≤ b := of_decide_eq_true (Bool.and_eq_true_iff.mp hlead).1
    refine forall_mem_cons.mpr ⟨.inr (UInt8.le_trans (by decide) hle), ?_⟩
    refine forall_mem_cons.mpr ⟨.inl (lt_of_secondOk hsecond), ?_⟩
    exact forall_mem_cons.mpr ⟨.inl (lt_of_isContinuation hthird), ih hrest⟩
  | case7 b _ _ _ hlead b₁ b₂ b₃ rest ih =>
    obtain ⟨hseconds, hrest⟩ := Bool.and_eq_true_iff.mp h
    obtain ⟨hseconds, hfourth⟩ := Bool.and_eq_true_iff.mp hseconds
    obtain ⟨hsecond, hthird⟩ := Bool.and_eq_true_iff.mp hseconds
    have hle : 0xf0 ≤ b := of_decide_eq_true (Bool.and_eq_true_iff.mp hlead).1
    refine forall_mem_cons.mpr ⟨.inr (UInt8.le_trans (by decide) hle), ?_⟩
    refine forall_mem_cons.mpr ⟨.inl (lt_of_secondOk hsecond), ?_⟩
    refine forall_mem_cons.mpr ⟨.inl (lt_of_isContinuation hthird), ?_⟩
    exact forall_mem_cons.mpr ⟨.inl (lt_of_isContinuation hfourth), ih hrest⟩
  | case4 | case6 | case8 | case9 => cases h

omit h in
theorem slice_getElem? (h : slice packet start len = some bytes) {j : Nat} (hj : j < len) :
    bytes[j]? = packet[start + j]? := by
  rw [slice, ite_none_right_eq_some] at h
  obtain ⟨-, hbytes⟩ := h
  rw [← Option.some.inj hbytes, getElem?_take, if_pos hj, getElem?_drop]

/-- Of the bytes a name stands in, only the last two can begin a pointer to the
first five hundred bytes. -/
theorem nameAt_plain (hutf8 : ∀ label ∈ w.labels, validUtf8 label = true) {i : Nat}
    (hlo : p ≤ i) (hhi : i + 2 < w.next) (hb : packet[i]? = some b) : b < 0xc0 ∨ 0xc2 ≤ b := by
  induction h with
  | @root p =>
    have hhi : i + 2 < p + 1 := hhi
    omega
  | @label p length label rest hbyte hhigh hzero hslice _ ih =>
    by_cases hown : i < p + 1 + length.toNat
    · by_cases hfirst : i = p
      · rw [hfirst, hbyte] at hb
        have hsmall := toNat_le_of_and_eq_zero hhigh
        rw [← Option.some.inj hb]
        exact .inl (UInt8.lt_iff_toNat_lt.mpr (by show length.toNat < 192; omega))
      · have hin : label[i - (p + 1)]? = some b := by
          rw [slice_getElem? hslice (by omega), ← hb]
          congr 1
          omega
        exact not_mem_of_validUtf8 (hutf8 label mem_cons_self) b
          (mem_of_getElem? hin)
    · exact ih (fun l hl => hutf8 l (mem_cons_of_mem _ hl)) (by omega) hhi
  | @pointer p =>
    have hhi : i + 2 < p + 2 := hhi
    omega

theorem nameAt_mem_bytes : p ∈ w.bytes := by
  cases h with
  | root | label | pointer => exact .head _

/-- For each number of jumps left there is a pointer with that many. -/
theorem nameAt_pointer_left {k : Nat} (hk : k < w.jumps) :
    ∃ x hi lo w', x ∈ w.bytes ∧ packet[x]? = some hi ∧ hi &&& 0xc0 = 0xc0 ∧
      pointerTarget hi lo ∈ w.bytes ∧ NameAt packet x w' ∧ w'.jumps = k + 1 := by
  induction h with
  | root => exact absurd hk (Nat.not_lt_zero k)
  | label _ _ _ _ _ ih =>
    obtain ⟨x, hi, lo, w', hx, hbyte, hhigh, htarget, hname, hjumps⟩ := ih hk
    exact ⟨x, hi, lo, w', mem_append_right _ hx, hbyte, hhigh,
      mem_append_right _ htarget, hname, hjumps⟩
  | @pointer p hi lo rest hbyte hhigh hlo hrest ih =>
    by_cases hlast : k < rest.jumps
    · obtain ⟨x, hi, lo, w', hx, hbyte, hhigh, htarget, hname, hjumps⟩ := ih hlast
      exact ⟨x, hi, lo, w', .tail _ (.tail _ hx), hbyte, hhigh, .tail _ (.tail _ htarget),
        hname, hjumps⟩
    · refine ⟨p, hi, lo, _, .head _, hbyte, hhigh, ?_, .pointer hbyte hhigh hlo hrest, ?_⟩
      · exact .tail _ (.tail _ (nameAt_mem_bytes hrest))
      · have hk : k < rest.jumps + 1 := hk
        show rest.jumps + 1 = k + 1
        omega

omit h in
theorem hi_lt_of_target {hi lo : UInt8} (hhigh : hi &&& 0xc0 = 0xc0)
    (htarget : pointerTarget hi lo < 512) : ¬ (hi < 0xc0 ∨ 0xc2 ≤ hi) := by
  have hall : ∀ v : BitVec 8, v &&& 0xc0#8 = 0xc0#8 → (v &&& 0x3f#8).toNat < 2 →
      192 ≤ v.toNat ∧ v.toNat < 194 := by
    decide
  have hsmall : (hi &&& 0x3f).toNat < 2 := by
    rw [pointerTarget] at htarget
    omega
  obtain ⟨hlo, hhi⟩ := hall hi.toBitVec (congrArg UInt8.toBitVec hhigh) hsmall
  have hlo : 192 ≤ hi.toNat := hlo
  have hhi : hi.toNat < 194 := hhi
  rintro (hlt | hle)
  · have hlt : hi.toNat < 192 := UInt8.lt_iff_toNat_lt.mp hlt
    omega
  · have hle : 194 ≤ hi.toNat := UInt8.le_iff_toNat_le.mp hle
    omega

/-- A name that stays within its question leads through few pointers: they
stand in different places, and there are few places for them. -/
theorem jumps_le_of_inside (hutf8 : ∀ label ∈ w.labels, validUtf8 label = true)
    (hinside : ∀ i ∈ w.bytes, p ≤ i ∧ i < w.next + 4) (hshort : w.next + 4 ≤ 512) :
    w.jumps ≤ 6 := by
  have hplace : ∀ k ∈ Finset.range w.jumps, ∃ x, x ∈ Finset.Ico (w.next - 2) (w.next + 4) ∧
      ∃ w', NameAt packet x w' ∧ w'.jumps = k + 1 := by
    intro k hk
    obtain ⟨x, hi, lo, w', hx, hbyte, hhigh, htarget, hname, hjumps⟩ :=
      nameAt_pointer_left h (Finset.mem_range.mp hk)
    obtain ⟨hlo, hlt⟩ := hinside x hx
    have htarget := (hinside _ htarget).2
    refine ⟨x, Finset.mem_Ico.mpr ⟨?_, hlt⟩, w', hname, hjumps⟩
    by_contra hbefore
    exact hi_lt_of_target hhigh (lt_of_lt_of_le htarget hshort)
      (nameAt_plain h hutf8 hlo (by omega) hbyte)
  choose! place hmem hplace using hplace
  have hcard := Finset.card_le_card_of_injOn place hmem fun a ha b hb hsame => by
    obtain ⟨wa, hwa, hja⟩ := hplace a ha
    obtain ⟨wb, hwb, hjb⟩ := hplace b hb
    rw [hsame] at hwa
    rw [nameAt_unique hwa hwb] at hja
    omega
  rw [Finset.card_range, Nat.card_Ico] at hcard
  omega

end

/-! ## Questions -/

/-- What `parse_question` accepts: a standard query with one question, and a
legible name in it. -/
theorem parseQuestion_iff {parsed : ParsedQuestion} :
    parseQuestion packet = some parsed ↔
      dnsHeaderLen ≤ packet.length ∧
      (∃ flags, be16 packet 2 = some flags ∧ flags &&& 0x8000 = 0 ∧ flags &&& 0x7800 = 0) ∧
      be16 packet 4 = some 1 ∧
      ∃ w, NameAt packet dnsHeaderLen w ∧ w.Legible ∧ parsed.question.domain = w.text ∧
        be16 packet w.next = some parsed.question.recordType ∧
        be16 packet (w.next + 2) = some parsed.question.class_ ∧
        parsed.questionEnd = w.next + 4 := by
  constructor
  · intro h
    rw [parseQuestion] at h
    split at h
    · cases h
    · next hlen =>
      obtain ⟨flags, hflags, h⟩ := bind_eq_some_iff.mp h
      obtain ⟨count, hcount, h⟩ := bind_eq_some_iff.mp h
      split at h
      · cases h
      · next hstandard =>
        obtain ⟨⟨domain, next⟩, hname, h⟩ := bind_eq_some_iff.mp h
        obtain ⟨recordType, htype, h⟩ := bind_eq_some_iff.mp h
        obtain ⟨class_, hclass, h⟩ := bind_eq_some_iff.mp h
        cases h
        obtain ⟨w, hat, hlegible, hdomain, hnext⟩ := readName_iff.mp hname
        simp only [not_or, not_not] at hstandard
        obtain ⟨hresponse, hopcode, hone⟩ := hstandard
        subst hone hnext
        exact ⟨le_of_not_gt hlen, ⟨flags, hflags, hresponse, hopcode⟩, hcount, w, hat,
          hlegible, hdomain, htype, hclass, rfl⟩
  · intro hcase
    obtain ⟨hlen, ⟨flags, hflags, hresponse, hopcode⟩, hcount, w, hat, hlegible, hdomain,
      htype, hclass, hend⟩ := hcase
    have hname := readName_iff.mpr ⟨w, hat, hlegible, hdomain, rfl⟩
    rw [parseQuestion, if_neg (not_lt.mpr hlen), hflags, hcount]
    simp [hresponse, hopcode, hname, htype, hclass]
    obtain ⟨⟨_, _, _⟩, _⟩ := parsed
    cases hend
    rfl

/-! ## What the text of a name tells -/

/-- A name is read inside its message. -/
theorem nameAt_inside (h : NameAt packet p w) : ∀ i ∈ w.bytes, i < packet.length := by
  induction h with
  | root hbyte => exact forall_mem_singleton.mpr (List.getElem?_eq_some_iff.mp hbyte).1
  | label hbyte _ _ hslice _ ih =>
    rw [slice, Option.ite_none_right_eq_some] at hslice
    refine forall_mem_append.mpr ⟨fun i hi => ?_, ih⟩
    have hrange := mem_range'_1.mp hi
    omega
  | pointer hbyte _ hlo _ ih =>
    exact forall_mem_cons.mpr ⟨(List.getElem?_eq_some_iff.mp hbyte).1,
      forall_mem_cons.mpr ⟨(List.getElem?_eq_some_iff.mp hlo).1, ih⟩⟩

/-- Two names of one text are the same exactly if their labels have the same lengths: a dot
of the text is a dot of a label or stands between two. -/
theorem text_identifies_iff {domain domain' : Str} {next next' p' : Nat}
    (h : readName packet p = some (domain, next))
    (h' : readName packet' p' = some (domain', next')) :
    (∀ packet p extra, readNameGo packet (readNameFuel + extra) p 0 0 none [] =
        readName packet p) ∧
      ∃ w w', NameAt packet p w ∧ NameAt packet' p' w' ∧ next = w.next ∧
        (∀ i ∈ w.bytes, i < packet.length) ∧
        ((domain = domain' → w.lowered = w'.lowered) ↔
          (domain = domain' → w.labels.map length = w'.labels.map length)) := by
  obtain ⟨w, hname, -, hdomain, hnext⟩ := readName_iff.mp h
  obtain ⟨w', hname', -, hdomain', -⟩ := readName_iff.mp h'
  have hlengths : ∀ w : WireName, w.lowered.map length = w.labels.map length := fun w => by
    simp [WireName.lowered, toAsciiLowercase]
  refine ⟨fun packet p extra => readNameGo_fuel packet extra (by decide), w, w', hname, hname',
    hnext, nameAt_inside hname, imp_congr_right fun hsame => ?_⟩
  rw [← hlengths, ← hlengths]
  refine ⟨congrArg _, fun hcut => ?_⟩
  rw [hdomain, hdomain'] at hsame
  exact intercalate_inj hcut hsame

/-- `a.b` as one label and as two. -/
theorem text_confuses_labels :
    ∃ w w', NameAt [3, 0x61, 0x2e, 0x62, 0] 0 w ∧ NameAt [1, 0x61, 1, 0x62, 0] 0 w' ∧
      readName [3, 0x61, 0x2e, 0x62, 0] 0 = readName [1, 0x61, 1, 0x62, 0] 0 ∧
      readName [1, 0x61, 1, 0x62, 0] 0 = some (Str.ofChars ['a', '.', 'b'], 5) ∧
      w.lowered ≠ w'.lowered :=
  ⟨_, _, .label rfl rfl (by decide) rfl (.root rfl),
    .label rfl rfl (by decide) rfl (.label rfl rfl (by decide) rfl (.root rfl)),
    by decide +kernel, by decide +kernel, by decide⟩

/-- `A` in one message and behind a pointer in another. -/
theorem text_identifies_letter :
    ∃ w w', NameAt [1, 0x41, 0] 0 w ∧ NameAt [1, 0x61, 0, 0xc0, 0] 3 w' ∧
      ((Str.ofChars ['a'] = Str.ofChars ['a'] → w.lowered = w'.lowered) ↔
        (Str.ofChars ['a'] = Str.ofChars ['a'] → w.labels.map length = w'.labels.map length)) := by
  obtain ⟨-, w, w', hw, hw', -, -, hiff⟩ := text_identifies_iff
    (show readName [1, 0x41, 0] 0 = some (ofChars ['a'], 3) by decide +kernel)
    (show readName [1, 0x61, 0, 0xc0, 0] 3 = some (ofChars ['a'], 5) by decide +kernel)
  exact ⟨w, w', hw, hw', hiff⟩

end Foxcore.Proofs
