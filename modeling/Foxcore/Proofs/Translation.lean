import Foxcore.Spec.Translation

/-!
# Translation keeps a packet's checksums

A rewritten packet is its header with the address and the checksum replaced, followed by
its payload with at most one field replaced (`rewritten_eq`). The incremental update moves
a checksum by exactly the difference of the two addresses modulo 65535
(`updateChecksum_modEq`), which is what every sum that covers the address has to make up
for. The field lies in one fragment whatever the cut, so fixing a payload and cutting it
commute (`updateTransportChecksum_append`).
-/

namespace Foxcore.Proofs.Translation

open Lib List Option
open Ref (Packet be16)
open Ref.Translation
open Spec.Translation

variable {p q : Packet} {t : AddressTranslator} {d : Direction} {l : Layout}
  {old new : List UInt8} {c o n : Nat}
variable {i offset : Nat} {first : UInt8} {data : List UInt8}

/-! ## Fields of two bytes -/

theorem readU16_congr (h : p[o]? = q[n]?) (h' : p[o + 1]? = q[n + 1]?) :
    readU16 p o = readU16 q n := by
  rw [readU16, readU16, be16, be16, h, h']

theorem readU16_drop (p : Packet) (k o : Nat) : readU16 (p.drop k) o = readU16 p (k + o) :=
  readU16_congr getElem?_drop getElem?_drop

theorem readU16_lt (p : Packet) (o : Nat) : readU16 p o < 65536 := by
  rw [readU16, be16]
  cases p[o]? with
  | none => exact Nat.zero_lt_succ _
  | some hi =>
    cases p[o + 1]? with
    | none => exact Nat.zero_lt_succ _
    | some lo =>
      have hhi := hi.toNat_lt
      have hlo := lo.toNat_lt
      change hi.toNat * 256 + lo.toNat < 65536
      omega

section

variable (h : o + 2 ≤ p.length)

include h

theorem readU16_eq : readU16 p o = (p[o]).toNat * 256 + (p[o + 1]).toNat := by
  rw [readU16, be16, getElem?_eq_getElem (by omega), getElem?_eq_getElem (by omega)]
  rfl

theorem drop_eq_two : p.drop o = p[o] :: p[o + 1] :: p.drop (o + 2) := by
  rw [← drop_eq_getElem_cons, ← drop_eq_getElem_cons]

theorem wordSum_field : wordSum ((p.drop o).take 2) = readU16 p o := by
  rw [drop_eq_two h, readU16_eq h]
  simp only [take_succ_cons, take_zero, wordSum, add_zero]

omit h in
theorem wordSum_bytes (h : n < 65536) : wordSum [UInt8.ofNat (n / 256), UInt8.ofNat n] = n := by
  simp only [wordSum, UInt8.toNat_ofNat']
  omega

theorem readU16_writeU16 (hn : n < 65536) : readU16 (writeU16 p o n) o = n := by
  have hslice : ((writeU16 p o n).drop o).take 2 = [UInt8.ofNat (n / 256), UInt8.ofNat n] :=
    slice_overwrite (l := p) (b := [UInt8.ofNat (n / 256), UInt8.ofNat n]) (by omega)
  have hlen : (writeU16 p o n).length = p.length := length_overwrite h
  rw [← wordSum_field (by omega), hslice, wordSum_bytes hn]

/-- What is written is what was there. -/
theorem writeU16_self : writeU16 p o (readU16 p o) = p := by
  have hlo := (p[o + 1]).toNat_lt
  have hhigh : UInt8.ofNat (((p[o]).toNat * 256 + (p[o + 1]).toNat) / 256) = p[o] := by
    rw [show ((p[o]).toNat * 256 + (p[o + 1]).toNat) / 256 = (p[o]).toNat by omega,
      UInt8.ofNat_toNat]
  have hlow : UInt8.ofNat ((p[o]).toNat * 256 + (p[o + 1]).toNat) = p[o + 1] := by
    refine UInt8.toNat_inj.mp ?_
    rw [UInt8.toNat_ofNat']
    omega
  rw [writeU16, readU16_eq h, hhigh, hlow]
  calc p.take o ++ [p[o], p[o + 1]] ++ p.drop (o + 2) = p.take o ++ p.drop o := by
        rw [drop_eq_two h, append_assoc]
        rfl
    _ = p := take_append_drop o p

end

theorem wordSum_writeU16 (ho : o % 2 = 0) (h : o + 2 ≤ p.length) (hn : n < 65536) :
    wordSum (writeU16 p o n) + readU16 p o = wordSum p + n := by
  have hsum := wordSum_overwrite (l := p) (b := [UInt8.ofNat (n / 256), UInt8.ofNat n]) ho
    (Nat.mod_self 2) h
  rw [wordSum_bytes hn] at hsum
  rw [← wordSum_field h]
  exact hsum

/-! ## The incremental update -/

theorem length_octets {w : Nat} (k : Nat) (a : BitVec w) : (octets k a).length = k := by
  rw [octets, length_map, length_range]

/-- The sum the update folds. -/
theorem updateSum (h : old.length = new.length) (heven : old.length % 2 = 0) (s : Nat) :
    ((Ref.Translation.words old).zip (Ref.Translation.words new)).foldl
        (fun sum word => sum + (0xffff - word.1) + word.2) s
        + wordSum old =
      s + 65535 * (old.length / 2) + wordSum new := by
  induction old using Ref.Translation.words.induct generalizing new s with
  | case1 a b rest ih =>
    rcases new with _ | ⟨x, _ | ⟨y, rest'⟩⟩
    · cases h
    · simp only [length_cons, length_nil] at h
      omega
    · simp only [length_cons] at h heven
      have ha := a.toNat_lt
      have hb := b.toNat_lt
      have hlen : rest.length = rest'.length := by omega
      have hrest := ih hlen (by omega)
        (s + (0xffff - (a.toNat * 256 + b.toNat)) + (x.toNat * 256 + y.toNat))
      simp only [Ref.Translation.words, wordSum, zip_cons_cons, foldl_cons,
        length_cons]
      omega
  | case2 l hl =>
    rcases l with _ | ⟨a, _ | ⟨b, rest⟩⟩
    · obtain rfl := eq_nil_of_length_eq_zero h.symm
      simp [Ref.Translation.words]
    · cases heven
    · exact absurd rfl (hl a b rest)

/-- Two addresses of one width in whole words. -/
def Alike (old new : List UInt8) : Prop := old.length = new.length ∧ old.length % 2 = 0

theorem updateChecksum_eq (h : Alike old new) (c : Nat) :
    ∃ sum, updateChecksum c old new = 65535 - onesSum sum ∧
      sum + wordSum old = (65535 - c) + 65535 * (old.length / 2) + wordSum new :=
  ⟨_, rfl, updateSum h.1 h.2 _⟩

theorem updateChecksum_lt (c : Nat) (old new : List UInt8) : updateChecksum c old new < 65536 := by
  rw [updateChecksum]
  omega

/-- A checksum moves by the difference of the addresses. -/
theorem updateChecksum_modEq (h : Alike old new) (hc : c < 65536) :
    (updateChecksum c old new + wordSum new) % 65535 = (c + wordSum old) % 65535 := by
  obtain ⟨sum, heq, hsum⟩ := updateChecksum_eq h c
  rw [heq, onesSum_eq]
  split
  · omega
  · omega

theorem wordSum_le (h : old.length % 2 = 0) : wordSum old ≤ 65535 * (old.length / 2) := by
  fun_induction wordSum old with
  | case1 a b =>
    simp only [length_cons] at h ⊢
    have ha := a.toNat_lt
    have hb := b.toNat_lt
    omega
  | case2 => cases h
  | case3 => exact Nat.zero_le _

theorem updateChecksum_eq_self_iff (h : Alike old new) (hc : c < 65536) :
    updateChecksum c old new = c ↔ Neutral c old new := by
  obtain ⟨sum, heq, hsum⟩ := updateChecksum_eq h c
  have hle := wordSum_le h.2
  rw [heq, onesSum_eq, Neutral]
  split <;> split <;> omega

/-! ## The transport checksum -/

theorem checksumOffset_cases (protocol : Nat) :
    (protocol = 6 ∧ checksumOffset protocol = some 16) ∨
      (protocol = 17 ∧ checksumOffset protocol = some 6) ∨
      (protocol = 58 ∧ checksumOffset protocol = some 2) ∨
      (protocol ≠ 6 ∧ protocol ≠ 17 ∧ protocol ≠ 58 ∧ checksumOffset protocol = none) := by
  fun_cases checksumOffset protocol with
  | case1 h => exact .inl ⟨h, rfl⟩
  | case2 _ h => exact .inr (.inl ⟨h, rfl⟩)
  | case3 _ _ h => exact .inr (.inr (.inl ⟨h, rfl⟩))
  | case4 h h' h'' | case5 h h' h'' => exact .inr (.inr (.inr ⟨h, h', h'', rfl⟩))

/-- The value that is written over a checksum. -/
def fixed (protocol c : Nat) (old new : List UInt8) : Nat :=
  if protocol = 17 ∧ updateChecksum c old new = 0 then 0xffff else updateChecksum c old new

theorem fixed_lt (protocol c : Nat) (old new : List UInt8) : fixed protocol c old new < 65536 := by
  rw [fixed]
  split
  · decide
  · exact updateChecksum_lt c old new

theorem fixed_ne_zero (c : Nat) (old new : List UInt8) : fixed 17 c old new ≠ 0 := by
  rw [fixed]
  split
  · decide
  · next h => exact fun hzero => h ⟨rfl, hzero⟩

theorem fixed_modEq (h : Alike old new) (hc : c < 65536) (protocol : Nat) :
    (fixed protocol c old new + wordSum new) % 65535 = (c + wordSum old) % 65535 := by
  have hupdate := updateChecksum_modEq h hc
  rw [fixed]
  split
  · next hz => omega
  · exact hupdate

/-- What is done to a payload whose checksum stands at `field`. -/
inductive Update (field : Option Nat) (p : List UInt8) (protocol fragment : Nat)
    (old new : List UInt8) : List UInt8 → Prop where
  | none : field = none → Update field p protocol fragment old new p
  | outside {f} : field = some f → (f < fragment ∨ p.length < f - fragment + 2) →
      Update field p protocol fragment old new p
  | absent : field = some 6 → protocol = 17 → fragment ≤ 6 → 6 - fragment + 2 ≤ p.length →
      readU16 p (6 - fragment) = 0 → Update field p protocol fragment old new p
  | fixed {f} : field = some f → fragment ≤ f → f - fragment + 2 ≤ p.length →
      (protocol = 17 → readU16 p (f - fragment) ≠ 0) →
      Update field p protocol fragment old new
        (writeU16 p (f - fragment) (fixed protocol (readU16 p (f - fragment)) old new))

theorem update_updateTransportChecksum (p : Packet) (protocol fragment : Nat)
    (old new : List UInt8) :
    Update (checksumOffset protocol) p protocol fragment old new
      (updateTransportChecksum p 0 protocol fragment old new) := by
  fun_cases updateTransportChecksum p 0 protocol fragment old new with
  | case1 hfield => exact .none hfield
  | case2 field hfield hlt => exact .outside hfield (.inl hlt)
  | case3 field hfield => exact .outside hfield (.inr (by omega))
  | case4 field hfield hle offset hlen current hzero =>
    obtain ⟨hudp, hzero⟩ := hzero
    have hsix : field = 6 := by
      rw [show protocol = 17 from hudp] at hfield
      exact (some.inj hfield).symm
    subst hsix
    simp only [current, show offset = 6 - fragment from zero_add _] at hzero
    exact .absent hfield hudp (by omega) (by omega) hzero
  | case5 field hfield hle offset hlen current hnonzero updated stored =>
    have hoffset : offset = field - fragment := zero_add _
    simp only [stored, updated, current, hoffset] at hnonzero ⊢
    exact .fixed hfield (by omega) (by omega) fun hudp hzero => hnonzero ⟨hudp, hzero⟩

theorem Update.length {field : Option Nat} {protocol fragment : Nat}
    (h : Update field p protocol fragment old new q) : q.length = p.length := by
  cases h with
  | none | outside | absent => rfl
  | fixed _ _ hlen => exact length_overwrite hlen

theorem Update.getElem? {field : Option Nat} {protocol fragment : Nat}
    (h : Update field p protocol fragment old new q)
    (hi : ∀ f, field = some f → i + fragment < f ∨ f + 2 ≤ i + fragment) : q[i]? = p[i]? := by
  cases h with
  | none | outside | absent => rfl
  | @fixed f hf =>
    have hout := hi f hf
    refine getElem?_overwrite_of_not (by omega) ?_
    simp only [length_cons, length_nil]
    omega

/-- The header plays no part. -/
theorem updateTransportChecksum_eq {headerLen : Nat} (h : headerLen ≤ p.length)
    (protocol fragment : Nat) (old new : List UInt8) :
    updateTransportChecksum p headerLen protocol fragment old new =
      p.take headerLen ++
        updateTransportChecksum (p.drop headerLen) 0 protocol fragment old new := by
  have hsplit := take_append_drop headerLen p
  rw [updateTransportChecksum, updateTransportChecksum]
  split
  · exact hsplit.symm
  · next field hfield =>
    split
    · exact hsplit.symm
    · have hdrop := length_drop (i := headerLen) (l := p)
      have hread : readU16 (p.drop headerLen) (0 + (field - fragment)) =
          readU16 p (headerLen + (field - fragment)) := by
        refine readU16_congr ?_ ?_
        · rw [getElem?_drop, zero_add]
        · rw [getElem?_drop]
          congr 1
          omega
      dsimp only
      rw [hread]
      by_cases hshort : p.length < headerLen + (field - fragment) + 2
      · rw [if_pos hshort,
          if_pos (show (p.drop headerLen).length < 0 + (field - fragment) + 2 by omega)]
        exact hsplit.symm
      · rw [if_neg hshort,
          if_neg (show ¬(p.drop headerLen).length < 0 + (field - fragment) + 2 by omega)]
        split
        · exact hsplit.symm
        · rw [writeU16, writeU16, overwrite_eq_take_append (n := headerLen) (by omega) h,
            Nat.add_sub_cancel_left, zero_add]

/-- Fixing a payload and cutting it commute: the field lies within one group of eight. -/
theorem updateTransportChecksum_append {a b : List UInt8} (ha : a.length % 8 = 0)
    (hoffset : offset % 8 = 0) (protocol : Nat) (old new : List UInt8) :
    updateTransportChecksum (a ++ b) 0 protocol offset old new =
      updateTransportChecksum a 0 protocol offset old new ++
        updateTransportChecksum b 0 protocol (offset + a.length) old new := by
  simp only [updateTransportChecksum]
  cases hfield : checksumOffset protocol with
  | none => rfl
  | some field =>
    have hgroup : field % 8 ≤ 6 := by
      rcases checksumOffset_cases protocol with ⟨_, h⟩ | ⟨_, h⟩ | ⟨_, h⟩ | ⟨_, _, _, h⟩
      all_goals
        rw [h] at hfield
        cases hfield
      all_goals decide
    dsimp only
    by_cases hbefore : field < offset
    · rw [if_pos hbefore, if_pos hbefore, if_pos (by omega)]
    · rw [if_neg hbefore, if_neg hbefore, zero_add]
      by_cases hin : field < offset + a.length
      · -- the field is in the first part
        have hread : readU16 (a ++ b) (field - offset) = readU16 a (field - offset) :=
          readU16_congr (getElem?_append_left (by omega))
            (getElem?_append_left (by omega))
        rw [if_neg (by rw [length_append]; omega),
          if_neg (show ¬a.length < field - offset + 2 by omega), hread]
        split
        · rfl
        · exact overwrite_append_left (show field - offset + 2 ≤ a.length by omega)
      · -- the field is behind the first part, which is left alone
        rw [if_neg hin, if_pos (show a.length < field - offset + 2 by omega), zero_add]
        have hread : readU16 (a ++ b) (field - offset) =
            readU16 b (field - (offset + a.length)) := by
          refine readU16_congr ?_ ?_
          · rw [getElem?_append_right (by omega)]
            congr 1
            omega
          · rw [getElem?_append_right (by omega)]
            congr 1
            omega
        rw [hread, length_append]
        by_cases hshort : b.length < field - (offset + a.length) + 2
        · rw [if_pos (by omega), if_pos hshort]
        · rw [if_neg (by omega)]
          split
          · rfl
          · rw [writeU16, overwrite_append_right (by omega)]
            congr 2
            omega

/-! ## Layouts -/

/-- A layout is that of one of the two versions. -/
theorem layout_eq_some_iff {rest : List UInt8} :
    layout (first :: rest) = some l ↔
      (first.toNat / 16 = 4 ∧
        (20 ≤ first.toNat % 16 * 4 ∧ first.toNat % 16 * 4 ≤ (first :: rest).length) ∧
        l = ⟨false, first.toNat % 16 * 4, ((first :: rest)[9]?.getD 0).toNat,
          readU16 (first :: rest) 6 % 8192 * 8⟩) ∨
      (first.toNat / 16 = 6 ∧ 40 ≤ (first :: rest).length ∧
        l = ⟨true, 40, ((first :: rest)[6]?.getD 0).toNat, 0⟩) := by
  rw [layout]
  by_cases hversion : first.toNat / 16 = 4
  · simp [hversion, eq_comm]
  · simp [hversion, eq_comm, and_assoc]

theorem layout_bounds (h : layout p = some l) :
    l.headerLen ≤ p.length ∧ l.fragment % 8 = 0 ∧ l.headerLen % 2 = 0 ∧
      (l.v6 = false ∧ 20 ≤ l.headerLen ∨
        l.v6 = true ∧ l.headerLen = 40 ∧ l.fragment = 0) := by
  match p, h with
  | first :: rest, h =>
    rcases layout_eq_some_iff.mp h with ⟨_, hlen, rfl⟩ | ⟨_, hlen, rfl⟩
    · exact ⟨hlen.2, by dsimp only; omega, by dsimp only; omega, .inl ⟨rfl, hlen.1⟩⟩
    · exact ⟨hlen, rfl, show 40 % 2 = 0 by decide, .inr ⟨rfl, rfl, rfl⟩⟩

/-- A layout is read off a few bytes. -/
theorem layout_congr (h : layout p = some l) (hlen : q.length = p.length) (hfirst : q[0]? = p[0]?)
    (h6 : q[6]? = p[6]?) (h7 : q[7]? = p[7]?) (h9 : l.v6 = false → q[9]? = p[9]?) :
    layout q = some l := by
  match p, q with
  | [], _ => cases h
  | a :: p, [] => cases hlen
  | a :: p, b :: q =>
    obtain rfl : b = a := by simpa using hfirst
    rw [layout_eq_some_iff] at h ⊢
    rw [readU16_congr h6 h7, h6, hlen]
    refine h.imp_left fun ⟨hversion, hheader, hl⟩ => ⟨hversion, hheader, ?_⟩
    rw [h9 (by rw [hl])]
    exact hl

theorem mapped_bounds (l : Layout) (d : Direction) :
    l.addresses ≤ l.mapped d ∧ l.mapped d + l.width ≤ l.addresses + 2 * l.width ∧
      (l.mapped d - l.addresses) % 2 = 0 := by
  have hwidth : l.width % 2 = 0 := by
    rw [Layout.width]
    split <;> rfl
  cases d with
  | toTunnel =>
    rw [Layout.mapped]
    omega
  | toTun =>
    rw [Layout.mapped]
    omega

theorem layout_addresses (h : layout p = some l) :
    l.addresses + 2 * l.width ≤ l.headerLen ∧ (l.v6 = false → 12 ≤ l.addresses) ∧
      l.addresses % 2 = 0 ∧ 8 ≤ l.addresses := by
  obtain ⟨_, _, _, ⟨hv, hlen⟩ | ⟨hv, hlen, _⟩⟩ := layout_bounds h
  · simp only [Layout.addresses, Layout.width, hv, Bool.false_eq_true, if_false]
    exact ⟨hlen, fun _ => le_rfl, trivial, by omega⟩
  · simp only [Layout.addresses, Layout.width, hv, if_true]
    exact ⟨by omega, nofun, trivial, le_rfl⟩

/-! ## A rewritten packet -/

theorem mapping_length {v6 : Bool} (h : mapping t v6 d = some (old, new)) :
    old.length = (if v6 then 16 else 4) ∧ new.length = (if v6 then 16 else 4) := by
  cases v6 <;> cases d
  all_goals
    simp only [mapping, Option.map_map, map_eq_some_iff, Bool.false_eq_true, if_false,
      if_true] at h
    obtain ⟨pair, -, h⟩ := h
    cases h
    exact ⟨length_octets _ _, length_octets _ _⟩

theorem Takes.length (h : Takes t d p l old new) :
    old.length = l.width ∧ new.length = l.width ∧ l.width % 2 = 0 := by
  obtain ⟨hold, hnew⟩ := mapping_length h.mapping
  exact ⟨hold, hnew, by rw [Layout.width]; split <;> rfl⟩

theorem Takes.alike (h : Takes t d p l old new) : Alike old new := by
  obtain ⟨hold, hnew, hwidth⟩ := Takes.length h
  exact ⟨hold.trans hnew.symm, by omega⟩

/-- Where things stand, for `omega`. -/
theorem Takes.fits (h : Takes t d p l old new) :
    (l.addresses ≤ l.mapped d ∧ l.mapped d + l.width ≤ l.addresses + 2 * l.width ∧
      l.addresses + 2 * l.width ≤ l.headerLen ∧ l.headerLen ≤ p.length ∧ 8 ≤ l.addresses ∧
      20 ≤ l.headerLen) ∧
    (l.addresses % 2 = 0 ∧ (l.mapped d - l.addresses) % 2 = 0 ∧ l.width % 2 = 0 ∧
      l.headerLen % 2 = 0 ∧ l.fragment % 8 = 0) ∧
    old.length = l.width ∧ new.length = l.width := by
  have haddresses := layout_addresses h.layout
  have hmapped := mapped_bounds l d
  have hbounds := layout_bounds h.layout
  have hlength := Takes.length h
  omega

/-- The packet with the address and the header checksum replaced. -/
def readdress (l : Layout) (d : Direction) (old new : List UInt8) (p : Packet) : Packet :=
  let p := overwrite p (l.mapped d) new
  if l.v6 then p else writeU16 p 10 (updateChecksum (readU16 p 10) old new)

def rewritten (l : Layout) (d : Direction) (old new : List UInt8) (p : Packet) : Packet :=
  updateTransportChecksum (readdress l d old new p) l.headerLen l.protocol l.fragment old new

section Readdress

variable (h : Takes t d p l old new)
include h

theorem length_readdress : (readdress l d old new p).length = p.length := by
  have hfits := Takes.fits h
  have hlen : (overwrite p (l.mapped d) new).length = p.length := length_overwrite (by omega)
  rw [readdress]
  split
  · exact hlen
  · have hsum : 10 + 2 ≤ (overwrite p (l.mapped d) new).length := by omega
    exact (length_overwrite hsum).trans hlen

/-- The addresses, byte by byte. -/
theorem getElem?_readdress (hi : l.v6 = true ∨ i < 10 ∨ 12 ≤ i) :
    (readdress l d old new p)[i]? =
      if i < l.mapped d then p[i]? else if i < l.mapped d + l.width then new[i - l.mapped d]?
      else p[i]? := by
  have hfits := Takes.fits h
  have hone := getElem?_overwrite (l := p) (b := new) (o := l.mapped d) (by omega) i
  rw [hfits.2.2.2] at hone
  rw [← hone, readdress]
  split
  · rfl
  · next hv =>
    have hout : i < 10 ∨ 12 ≤ i := hi.resolve_left hv
    refine getElem?_overwrite_of_not ?_ (by simpa using hout)
    rw [length_overwrite (by omega)]
    omega

/-- Behind the header nothing is touched. -/
theorem drop_readdress : (readdress l d old new p).drop l.headerLen = p.drop l.headerLen := by
  have hfits := Takes.fits h
  refine ext_getElem? fun i => ?_
  rw [getElem?_drop, getElem?_drop, getElem?_readdress h (by omega), if_neg (by omega),
    if_neg (by omega)]

theorem rewritten_eq :
    rewritten l d old new p = (readdress l d old new p).take l.headerLen ++
      updateTransportChecksum (p.drop l.headerLen) 0 l.protocol l.fragment old new := by
  have hfits := Takes.fits h
  rw [rewritten, updateTransportChecksum_eq (by rw [length_readdress h]; omega), drop_readdress h]

theorem length_take_readdress :
    ((readdress l d old new p).take l.headerLen).length = l.headerLen := by
  have hfits := Takes.fits h
  rw [length_take, length_readdress h]
  omega

theorem length_rewritten : (rewritten l d old new p).length = p.length := by
  have hfits := Takes.fits h
  rw [rewritten_eq h, length_append, length_take_readdress h,
    (update_updateTransportChecksum _ l.protocol l.fragment old new).length, length_drop]
  omega

theorem take_rewritten :
    (rewritten l d old new p).take l.headerLen =
      (readdress l d old new p).take l.headerLen := by
  rw [rewritten_eq h, take_left' (length_take_readdress h)]

theorem drop_rewritten :
    (rewritten l d old new p).drop l.headerLen =
      updateTransportChecksum (p.drop l.headerLen) 0 l.protocol l.fragment old new := by
  rw [rewritten_eq h, drop_left' (length_take_readdress h)]

theorem getElem?_rewritten (hi : i < l.headerLen) :
    (rewritten l d old new p)[i]? = (readdress l d old new p)[i]? := by
  rw [← getElem?_take_of_lt hi, take_rewritten h, getElem?_take_of_lt hi]

/-- The header but for the address and the checksum. -/
theorem getElem?_rewritten_of_lt (hi : i < l.addresses) (hsum : l.v6 = true ∨ i < 10 ∨ 12 ≤ i) :
    (rewritten l d old new p)[i]? = p[i]? := by
  have hfits := Takes.fits h
  rw [getElem?_rewritten h (by omega), getElem?_readdress h hsum, if_pos (by omega)]

theorem front_rewritten (hi : i < 8) : (rewritten l d old new p)[i]? = p[i]? := by
  have hfits := Takes.fits h
  exact getElem?_rewritten_of_lt h (by omega) (.inr (.inl (by omega)))

theorem layout_rewritten : layout (rewritten l d old new p) = some l := by
  refine layout_congr h.layout (length_rewritten h) (front_rewritten h (by decide))
    (front_rewritten h (by decide)) (front_rewritten h (by decide)) fun hv => ?_
  have hfront := (layout_addresses h.layout).2.1 hv
  exact getElem?_rewritten_of_lt h (by omega) (.inr (.inl (by decide)))

theorem length_addresses : ((p.drop l.addresses).take (2 * l.width)).length = 2 * l.width := by
  have hfits := Takes.fits h
  rw [length_take, length_drop]
  omega

/-- The mapped address among the two. -/
theorem slice_addresses (q : Packet) :
    (((q.drop l.addresses).take (2 * l.width)).drop (l.mapped d - l.addresses)).take l.width =
      (q.drop (l.mapped d)).take l.width := by
  have hfits := Takes.fits h
  rw [drop_take, drop_drop, take_take,
    show l.addresses + (l.mapped d - l.addresses) = l.mapped d by omega,
    show min l.width (2 * l.width - (l.mapped d - l.addresses)) = l.width by omega]

/-- The addresses of the rewritten packet. -/
theorem addresses_rewritten :
    ((rewritten l d old new p).drop l.addresses).take (2 * l.width) =
      overwrite ((p.drop l.addresses).take (2 * l.width)) (l.mapped d - l.addresses) new := by
  have hfits := Takes.fits h
  have hlen := length_addresses h
  refine ext_getElem? fun i => ?_
  rw [getElem?_overwrite (by omega), getElem?_take, getElem?_take, getElem?_drop,
    getElem?_drop, hfits.2.2.2]
  by_cases hi : i < 2 * l.width
  · have hsum : l.v6 = true ∨ l.addresses + i < 10 ∨ 12 ≤ l.addresses + i := by
      cases hv : l.v6 with
      | false =>
        have hfront := (layout_addresses h.layout).2.1 hv
        exact .inr (.inr (by omega))
      | true => exact .inl rfl
    have hlt : l.addresses + i < l.mapped d ↔ i < l.mapped d - l.addresses := by omega
    have hlt' : l.addresses + i < l.mapped d + l.width ↔
        i < l.mapped d - l.addresses + l.width := by omega
    have hsub : l.addresses + i - l.mapped d = i - (l.mapped d - l.addresses) := by omega
    rw [getElem?_rewritten h (by omega), getElem?_readdress h hsum]
    simp only [hlt, hlt', hsub, if_pos hi]
  · rw [if_neg hi, if_neg (by omega), if_neg (by omega), if_neg hi]

theorem address_rewritten : ((rewritten l d old new p).drop (l.mapped d)).take l.width = new := by
  have hfits := Takes.fits h
  have hlen := length_addresses h
  have hslice := slice_overwrite (l := (p.drop l.addresses).take (2 * l.width)) (b := new)
    (o := l.mapped d - l.addresses) (by omega)
  rw [← addresses_rewritten h, hfits.2.2.2] at hslice
  rw [← slice_addresses h]
  exact hslice

/-! ## Sums -/

theorem wordSum_addresses :
    wordSum (((rewritten l d old new p).drop l.addresses).take (2 * l.width)) + wordSum old =
      wordSum ((p.drop l.addresses).take (2 * l.width)) + wordSum new := by
  have hfits := Takes.fits h
  have hlen := length_addresses h
  have hsum := wordSum_overwrite (l := (p.drop l.addresses).take (2 * l.width)) (b := new)
    (o := l.mapped d - l.addresses) (by omega) (by omega) (by omega)
  rw [hfits.2.2.2, slice_addresses h, h.address] at hsum
  rw [addresses_rewritten h]
  exact hsum

/-- The header sum moves with the address and the checksum. -/
theorem wordSum_header (hv : l.v6 = false) :
    wordSum ((rewritten l d old new p).take l.headerLen) + wordSum old + readU16 p 10 =
      wordSum (p.take l.headerLen) + wordSum new + updateChecksum (readU16 p 10) old new := by
  have hfits := Takes.fits h
  have hfront := (layout_addresses h.layout).2.1 hv
  have hcap : (p.take l.headerLen).length = l.headerLen := by
    rw [length_take]
    omega
  have hread : readU16 (overwrite p (l.mapped d) new) 10 = readU16 p 10 :=
    readU16_congr (getElem?_overwrite_of_not (by omega) (by omega))
      (getElem?_overwrite_of_not (by omega) (by omega))
  have hread' : readU16 (overwrite (p.take l.headerLen) (l.mapped d) new) 10 = readU16 p 10 := by
    rw [← take_overwrite_within (by omega) (by omega), ← hread]
    exact readU16_congr (getElem?_take_of_lt (by omega)) (getElem?_take_of_lt (by omega))
  have hlen : (overwrite (p.take l.headerLen) (l.mapped d) new).length = l.headerLen := by
    rw [length_overwrite (by omega), hcap]
  have htake : (rewritten l d old new p).take l.headerLen =
      writeU16 (overwrite (p.take l.headerLen) (l.mapped d) new) 10
        (updateChecksum (readU16 p 10) old new) := by
    rw [take_rewritten h, readdress, if_neg (by rw [hv]; decide), hread, writeU16, writeU16,
      take_overwrite_within (by simp only [length_cons, length_nil]; omega)
        (by rw [length_overwrite (by omega)]; omega),
      take_overwrite_within (by omega) (by omega)]
  -- the address first, then the checksum
  have haddress := wordSum_overwrite (l := p.take l.headerLen) (b := new) (o := l.mapped d)
  rw [hfits.2.2.2, drop_take, take_take,
    show min l.width (l.headerLen - l.mapped d) = l.width by omega, h.address] at haddress
  have hfield := wordSum_writeU16 (p := overwrite (p.take l.headerLen) (l.mapped d) new) (o := 10)
    (n := updateChecksum (readU16 p 10) old new) (by decide) (by omega) (updateChecksum_lt _ _ _)
  rw [htake]
  omega

end Readdress

/-! ## What the translator does -/

theorem shiftRight_four (b : UInt8) (k : UInt8) (hk : k.toNat = n) :
    b >>> 4 = k ↔ b.toNat / 16 = n := by
  rw [← UInt8.toNat_inj, UInt8.toNat_shiftRight, hk, show UInt8.toNat 4 % 8 = 4 from rfl,
    Nat.shiftRight_eq_div_pow]

theorem and_low (b : UInt8) : (b &&& 0x0f).toNat = b.toNat % 16 := by
  exact Nat.and_two_pow_sub_one_eq_mod b.toNat 4

theorem fragmentOffset_eq (p : Packet) : fragmentOffset p = readU16 p 6 % 8192 :=
  Nat.and_two_pow_sub_one_eq_mod (readU16 p 6) 13

theorem ipv4HeaderLen_eq (rest : List UInt8) (h : first.toNat / 16 = 4) :
    ipv4HeaderLen (first :: rest) = (layout (first :: rest)).map Layout.headerLen := by
  have hversion : first >>> 4 = 4 := (shiftRight_four first 4 rfl).mpr h
  simp only [ipv4HeaderLen, layout, head?_cons, bind_eq_bind, bind_some, hversion,
    ne_eq, not_true_eq_false, if_false, and_low, ipv4MinHeader]
  split <;> rfl

theorem layout_v4 (h : layout p = some l) (hv : l.v6 = false) :
    l.protocol = (p[9]?.getD 0).toNat ∧ l.fragment = fragmentOffset p * 8 := by
  match p, h with
  | first :: rest, h =>
    rcases layout_eq_some_iff.mp h with ⟨_, _, rfl⟩ | ⟨_, _, rfl⟩
    · exact ⟨rfl, by rw [fragmentOffset_eq]⟩
    · cases hv

theorem layout_v6 (h : layout p = some l) (hv : l.v6 = true) :
    l = ⟨true, 40, (p[6]?.getD 0).toNat, 0⟩ := by
  match p, h with
  | first :: rest, h =>
    rcases layout_eq_some_iff.mp h with ⟨_, _, rfl⟩ | ⟨_, _, hl⟩
    · cases hv
    · exact hl

/-- What the translator does with an address it looks at. -/
def settle (l : Layout) (d : Direction) (old new : List UInt8) (p : Packet) :
    Except TranslationRefusal Unit × Packet :=
  if (p.drop (l.mapped d)).take l.width ≠ old then (.error .foreignAddress, p)
  else (.ok (), rewritten l d old new p)

theorem settle_eq {q : Packet}
    (h : (p.drop (l.mapped d)).take l.width = old → rewritten l d old new p = q) :
    settle l d old new p =
      if (p.drop (l.mapped d)).take l.width ≠ old then (.error .foreignAddress, p)
      else (.ok (), q) := by
  rw [settle]
  split
  · rfl
  · next haddress => rw [h (not_not.mp haddress)]

theorem rewriteV4_eq (hl : layout p = some l) (hv : l.v6 = false)
    (hheader : ipv4HeaderLen p = some l.headerLen) (hmapping : mapping t l.v6 d = some (old, new)) :
    t.rewriteV4 p d = settle l d old new p := by
  -- the bytes read after the header is rewritten are those of the packet
  have htouched : (p.drop (l.mapped d)).take l.width = old →
      ((readdress l d old new p)[ipv4Protocol]?.getD 0).toNat = l.protocol ∧
        fragmentOffset (readdress l d old new p) * 8 = l.fragment := by
    intro haddress
    have htakes : Takes t d p l old new := ⟨hl, hmapping, haddress⟩
    have hfits := Takes.fits htakes
    have hfront := (layout_addresses hl).2.1 hv
    have hsame : ∀ i < 10, (readdress l d old new p)[i]? = p[i]? := fun i hi => by
      rw [getElem?_readdress htakes (.inr (.inl hi)), if_pos (by omega)]
    obtain ⟨hprotocol, hfragment⟩ := layout_v4 hl hv
    rw [hprotocol, hfragment, fragmentOffset, ipv4Protocol, hsame 9 (by decide),
      readU16_congr (hsame 6 (by decide)) (hsame 7 (by decide))]
    exact ⟨rfl, rfl⟩
  have hwidth : l.width = 4 := by rw [Layout.width, hv]; rfl
  have haddresses : l.addresses = 12 := by rw [Layout.addresses, hv]; rfl
  have hreaddress : readdress l d old new p =
      writeU16 (overwrite p (l.mapped d) new) ipv4Checksum
        (updateChecksum (readU16 (overwrite p (l.mapped d) new) ipv4Checksum) old new) := by
    rw [readdress, hv]
    rfl
  have hfinish : (p.drop (l.mapped d)).take l.width = old →
      rewritten l d old new p =
        updateTransportChecksum (readdress l d old new p) l.headerLen
          ((readdress l d old new p)[ipv4Protocol]?.getD 0).toNat
          (fragmentOffset (readdress l d old new p) * 8) old new := by
    intro haddress
    rw [rewritten, (htouched haddress).1, (htouched haddress).2]
  rw [hreaddress] at hfinish
  rw [hv] at hmapping
  cases hpair : t.v4 with
  | none =>
    simp only [mapping, hpair] at hmapping
    cases d <;> cases hmapping
  | some =>
    simp only [mapping, hpair] at hmapping
    rw [AddressTranslator.rewriteV4, hpair]
    rw [hheader, settle_eq hfinish]
    cases d with
    | toTunnel | toTun =>
      cases hmapping
      rw [Layout.mapped, haddresses, hwidth]
      rfl

theorem rewriteV6_eq (hl : layout p = some l) (hv : l.v6 = true)
    (hmapping : mapping t l.v6 d = some (old, new)) : t.rewriteV6 p d = settle l d old new p := by
  have hlayout := layout_v6 hl hv
  have hheader : l.headerLen = 40 := by rw [hlayout]
  have hlen : ¬p.length < ipv6Header := not_lt.mpr (hheader.symm.trans_le (layout_bounds hl).1)
  have hwidth : l.width = 16 := by rw [Layout.width, hv]; rfl
  have haddresses : l.addresses = 8 := by rw [Layout.addresses, hv]; rfl
  have hfinish : (p.drop (l.mapped d)).take l.width = old →
      rewritten l d old new p =
        updateTransportChecksum (overwrite p (l.mapped d) new) ipv6Header
          ((overwrite p (l.mapped d) new)[ipv6NextHeader]?.getD 0).toNat 0 old new := by
    intro haddress
    have hfits := Takes.fits (⟨hl, hmapping, haddress⟩ : Takes t d p l old new)
    have hnext : (overwrite p (l.mapped d) new)[ipv6NextHeader]? = p[6]? :=
      getElem?_overwrite_of_not (by omega) (.inl (show 6 < l.mapped d by omega))
    rw [rewritten, readdress, hnext, hlayout]
    rfl
  rw [hv] at hmapping
  cases hpair : t.v6 with
  | none =>
    simp only [mapping, hpair] at hmapping
    cases d <;> cases hmapping
  | some =>
    simp only [mapping, hpair] at hmapping
    rw [AddressTranslator.rewriteV6, hpair]
    dsimp only
    rw [if_neg hlen, settle_eq hfinish]
    cases d with
    | toTunnel | toTun =>
      cases hmapping
      rw [Layout.mapped, haddresses, hwidth]
      rfl

theorem mapping_none (v6 : Bool) (d : Direction) :
    mapping t v6 d = none ↔ if v6 then t.v6 = none else t.v4 = none := by
  cases v6 <;> cases d <;> simp [mapping]

theorem layout_version {rest : List UInt8} (h : layout (first :: rest) = some l) :
    l.v6 = false ∧ first.toNat / 16 = 4 ∨ l.v6 = true ∧ first.toNat / 16 = 6 := by
  rcases layout_eq_some_iff.mp h with ⟨hversion, _, rfl⟩ | ⟨hversion, _, rfl⟩
  · exact .inl ⟨rfl, hversion⟩
  · exact .inr ⟨rfl, hversion⟩

theorem rewrite_of_mapping (hl : layout p = some l)
    (hmapping : mapping t l.v6 d = some (old, new)) :
    t.rewrite p d = settle l d old new p := by
  match p with
  | [] => cases hl
  | first :: rest =>
    rw [AddressTranslator.rewrite, head?_cons]
    dsimp only
    rcases layout_version hl with ⟨hv, hversion⟩ | ⟨hv, hversion⟩
    · rw [if_pos ((shiftRight_four first 4 rfl).mpr hversion)]
      have hheader := ipv4HeaderLen_eq rest hversion
      rw [hl] at hheader
      exact rewriteV4_eq hl hv hheader hmapping
    · have hsix : first >>> 4 = 6 := (shiftRight_four first 6 rfl).mpr hversion
      rw [if_neg (by rw [hsix]; decide), if_pos hsix]
      exact rewriteV6_eq hl hv hmapping

theorem rewrite_of_none (h : ∀ l, layout p = some l → mapping t l.v6 d = none) :
    ∃ e, t.rewrite p d = (.error e, p) := by
  fun_cases AddressTranslator.rewrite t p d with
  | case1 | case4 => exact ⟨_, rfl⟩
  | case2 first hfirst hversion =>
    obtain ⟨rest, rfl⟩ := head?_eq_some_iff.mp hfirst
    have hversion : first.toNat / 16 = 4 := (shiftRight_four first 4 rfl).mp hversion
    have hheader := ipv4HeaderLen_eq rest hversion
    rw [AddressTranslator.rewriteV4]
    cases hpair : t.v4 with
    | none => exact ⟨_, rfl⟩
    | some =>
      cases hl : layout (first :: rest) with
      | none =>
        rw [hl] at hheader
        rw [hheader]
        exact ⟨_, rfl⟩
      | some l =>
        have hnone := (mapping_none l.v6 d).mp (h l hl)
        rcases layout_version hl with ⟨hv, _⟩ | ⟨_, hsix⟩
        · rw [hv, hpair] at hnone
          cases hnone
        · omega
  | case3 first hfirst _ hversion =>
    obtain ⟨rest, rfl⟩ := head?_eq_some_iff.mp hfirst
    have hversion : first.toNat / 16 = 6 := (shiftRight_four first 6 rfl).mp hversion
    fun_cases AddressTranslator.rewriteV6 t (first :: rest) d with
    | case1 | case2 => exact ⟨_, rfl⟩
    | _ =>
      have hl := layout_eq_some_iff.mpr (.inr ⟨hversion, not_lt.mp (by assumption), rfl⟩)
      have hnone := (mapping_none true d).mp (h _ hl)
      simp_all

theorem translate_eq (t : AddressTranslator) (d : Direction) (p : Packet) :
    translate t d p = ((t.rewrite p d).1.isOk, (t.rewrite p d).2) := by
  cases d <;> rfl

/-- The translator takes a packet and answers with it rewritten, or refuses it as it is. -/
theorem translate_cases (t : AddressTranslator) (d : Direction) (p : Packet) :
    (∃ l old new, Takes t d p l old new ∧ translate t d p = (true, rewritten l d old new p)) ∨
      ((∀ l old new, ¬Takes t d p l old new) ∧ translate t d p = (false, p)) := by
  rw [translate_eq]
  by_cases hmapped : ∃ l old new, layout p = some l ∧ mapping t l.v6 d = some (old, new)
  · obtain ⟨l, old, new, hl, hmapping⟩ := hmapped
    rw [rewrite_of_mapping hl hmapping, settle]
    by_cases haddress : (p.drop (l.mapped d)).take l.width = old
    · rw [if_neg (not_not.mpr haddress)]
      exact .inl ⟨l, old, new, ⟨hl, hmapping, haddress⟩, rfl⟩
    · rw [if_pos haddress]
      refine .inr ⟨?_, rfl⟩
      rintro l' old' new' ⟨hl', hmapping', haddress'⟩
      cases hl.symm.trans hl'
      cases hmapping.symm.trans hmapping'
      exact haddress haddress'
  · have hnone : ∀ l, layout p = some l → mapping t l.v6 d = none := by
      intro l hl
      cases hmapping : mapping t l.v6 d with
      | none => rfl
      | some pair => exact absurd ⟨l, pair.1, pair.2, hl, hmapping⟩ hmapped
    obtain ⟨e, heq⟩ := rewrite_of_none hnone
    rw [heq]
    exact .inr ⟨fun l old new h => hmapped ⟨l, old, new, h.layout, h.mapping⟩, rfl⟩

theorem Takes.unique {l' : Layout} {old' new' : List UInt8} (h : Takes t d p l old new)
    (h' : Takes t d p l' old' new') : l' = l ∧ old' = old ∧ new' = new := by
  cases h'.layout.symm.trans h.layout
  cases h'.mapping.symm.trans h.mapping
  exact ⟨rfl, rfl, rfl⟩

theorem Takes.translate (h : Takes t d p l old new) :
    translate t d p = (true, rewritten l d old new p) := by
  rcases translate_cases t d p with ⟨l', old', new', htakes, heq⟩ | ⟨hnone, _⟩
  · obtain ⟨rfl, rfl, rfl⟩ := Takes.unique h htakes
    exact heq
  · exact absurd h (hnone l old new)

/-! ## Checksums -/

theorem checksumOffset_eq_field (l : Layout) :
    checksumOffset l.protocol = l.field ∨
      l.protocol = 58 ∧ l.v6 = false ∧ l.field = none ∧ checksumOffset l.protocol = some 2 := by
  rw [Layout.field]
  rcases checksumOffset_cases l.protocol with ⟨h, hf⟩ | ⟨h, hf⟩ | ⟨h, hf⟩ | ⟨h, h', h'', hf⟩
  · rw [hf, if_pos h]
    exact .inl rfl
  · rw [hf, if_neg (by omega), if_pos h]
    exact .inl rfl
  · rw [hf, if_neg (by omega), if_neg (by omega)]
    cases l.v6 with
    | false => exact .inr ⟨h, rfl, if_neg (nofun), rfl⟩
    | true => exact .inl (if_pos ⟨h, rfl⟩).symm
  · rw [hf, if_neg h, if_neg h', if_neg (fun hv => h'' hv.1)]
    exact .inl rfl

/-- Where the version is not misread, the payload's checksum is where the transport has it. -/
theorem update_payload (h : Takes t d p l old new) (hmis : ¬Misreads t d p) :
    Update l.field (p.drop l.headerLen) l.protocol l.fragment old new
      ((rewritten l d old new p).drop l.headerLen) := by
  rw [drop_rewritten h]
  have hupdate := update_updateTransportChecksum (p.drop l.headerLen) l.protocol l.fragment old new
  rcases checksumOffset_eq_field l with hfield | ⟨hprotocol, hv, hnone, hsome⟩
  · rw [hfield] at hupdate
    exact hupdate
  · -- the number of ICMPv6 in an IPv4 header
    rw [hsome] at hupdate
    generalize hq : updateTransportChecksum _ _ _ _ _ _ = q at hupdate ⊢
    have hsame : q = p.drop l.headerLen := by
      cases hupdate with
      | none hnone => cases hnone
      | outside => rfl
      | absent hsix => cases hsix
      | @fixed f hf hle hlen =>
        cases hf
        have hfits := Takes.fits h
        have hzero : l.fragment = 0 := by omega
        have hread := readU16_drop p l.headerLen 2
        have hneutral : Neutral (readU16 p (l.headerLen + 2)) old new := by
          by_contra hneutral
          rw [length_drop] at hlen
          exact hmis ⟨l, old, new, h, .inl ⟨hv, hprotocol, hzero, by omega, hneutral⟩⟩
        have hself := (updateChecksum_eq_self_iff (Takes.alike h) (readU16_lt _ _)).mpr hneutral
        rw [hzero, hprotocol, hread, fixed, hself, ← hread]
        exact writeU16_self (by omega)
    rw [hsame]
    exact .none hnone

theorem field_spec {f : Nat} (h : l.field = some f) :
    f % 2 = 0 ∧ l.protocol ≠ 0 ∧ (l.protocol = 17 → f = 6) := by
  revert h
  fun_cases Layout.field l with
  | case1 | case2 | case3 =>
    rintro ⟨⟩
    omega
  | case4 => exact nofun

section Kept

variable (h : Takes t d p l old new) (hmis : ¬Misreads t d p)
include h hmis

theorem getElem?_payload
    (hi : ∀ f, l.field = some f → i + l.fragment < f ∨ f + 2 ≤ i + l.fragment) :
    (rewritten l d old new p)[l.headerLen + i]? = p[l.headerLen + i]? := by
  have hsame := (update_payload h hmis).getElem? hi
  rwa [getElem?_drop, getElem?_drop] at hsame

theorem covered_rewritten (hfragment : l.fragment = 0) :
    covered (rewritten l d old new p) l = covered p l := by
  have hfront : ∀ i < 8, (rewritten l d old new p)[i]? = p[i]? := fun _ => front_rewritten h
  rw [covered, covered, readU16_congr (hfront 4 (by decide)) (hfront 5 (by decide)),
    readU16_congr (hfront 2 (by decide)) (hfront 3 (by decide))]
  split
  · next hudp =>
    -- the length of a UDP datagram stands right before its checksum
    refine readU16_congr (getElem?_payload h hmis (i := 4) fun f hf => ?_)
      (getElem?_payload h hmis (i := 5) fun f hf => ?_)
    · have hsix := (field_spec hf).2.2 hudp
      omega
    · have hsix := (field_spec hf).2.2 hudp
      omega
  · rfl

theorem transport_kept (hverifies : TransportVerifies p l) (habsent : ¬Absent p l) :
    TransportVerifies (rewritten l d old new p) l ∧ ¬Absent (rewritten l d old new p) l := by
  obtain ⟨hfragment, ⟨f, hf, hcovered⟩, hlen, hsum⟩ := hverifies
  have hsame := covered_rewritten h hmis hfragment
  have haddresses := wordSum_addresses h
  have hdrop : (p.drop l.headerLen).length = p.length - l.headerLen := length_drop
  obtain ⟨heven, -, hsix⟩ := field_spec hf
  rw [verifies_iff, transportSum] at hsum
  suffices hkept : transportSum (rewritten l d old new p) l % 65535 = 0 ∧
      ¬Absent (rewritten l d old new p) l by
    refine ⟨⟨hfragment, ⟨f, hf, by omega⟩, by rw [hsame, length_rewritten h]; exact hlen, ?_⟩,
      hkept.2⟩
    rw [verifies_iff]
    refine ⟨?_, hkept.1⟩
    rw [transportSum]
    omega
  rw [transportSum, hsame]
  generalize hpayload : (rewritten l d old new p).drop l.headerLen = payload' at *
  have hupdate := update_payload h hmis
  rw [hpayload] at hupdate
  cases hupdate with
  | none hnone => rw [hnone] at hf; cases hf
  | outside hf' =>
    cases hf'.symm.trans hf
    omega
  | absent hfield hudp _ _ hzero =>
    -- zero is a checksum like any other over IPv6
    obtain rfl : f = 6 := hsix hudp
    rw [hfragment, readU16_drop] at hzero
    have hv : l.v6 = true := by
      by_contra hv
      exact habsent ⟨by simpa using hv, hudp, hfragment, by omega, hzero⟩
    have hequal : wordSum old % 65535 = wordSum new % 65535 := by
      by_contra hne
      exact hmis ⟨l, old, new, h, .inr ⟨hv, hudp,
        ⟨hfragment, ⟨6, hf, hcovered⟩, hlen, (verifies_iff _).mpr hsum⟩, hzero, hne⟩⟩
    refine ⟨by omega, fun hgone => ?_⟩
    exact Bool.false_ne_true (hgone.1.symm.trans hv)
  | fixed hf' _ hfits hnonzero =>
    cases hf'.symm.trans hf
    rw [hfragment, Nat.sub_zero] at hfits hnonzero hpayload ⊢
    have hmod := fixed_modEq (Takes.alike h) (readU16_lt (p.drop l.headerLen) f) l.protocol
    have hlt := fixed_lt l.protocol (readU16 (p.drop l.headerLen) f) old new
    have hcap : ((p.drop l.headerLen).take (covered p l)).length = covered p l := by
      rw [length_take]
      omega
    have htake : (writeU16 (p.drop l.headerLen) f
          (fixed l.protocol (readU16 (p.drop l.headerLen) f) old new)).take (covered p l) =
        writeU16 ((p.drop l.headerLen).take (covered p l)) f
          (fixed l.protocol (readU16 (p.drop l.headerLen) f) old new) :=
      take_overwrite_within hcovered (by omega)
    have hfield := wordSum_writeU16 (p := (p.drop l.headerLen).take (covered p l)) heven
      (by omega) hlt
    have hsame' : readU16 ((p.drop l.headerLen).take (covered p l)) f =
        readU16 (p.drop l.headerLen) f :=
      readU16_congr (getElem?_take_of_lt (by omega)) (getElem?_take_of_lt (by omega))
    rw [htake]
    refine ⟨by omega, fun hgone => ?_⟩
    obtain ⟨_, hudp, _, _, hzero⟩ := hgone
    obtain rfl : f = 6 := hsix hudp
    rw [← readU16_drop, hpayload, readU16_writeU16 hfits hlt, hudp] at hzero
    exact fixed_ne_zero _ _ _ hzero

theorem absent_kept (habsent : Absent p l) : Absent (rewritten l d old new p) l := by
  obtain ⟨hv, hudp, hfragment, hlen, hzero⟩ := habsent
  refine ⟨hv, hudp, hfragment, by rwa [length_rewritten h], ?_⟩
  have hfield : l.field = some 6 := by
    rw [Layout.field, if_neg (by omega), if_pos hudp]
  have hupdate := update_payload h hmis
  rw [← readU16_drop] at hzero ⊢
  generalize (rewritten l d old new p).drop l.headerLen = payload' at hupdate ⊢
  cases hupdate with
  | none | outside | absent => exact hzero
  | @fixed f hf _ _ hnonzero =>
    cases hfield.symm.trans hf
    rw [hfragment] at hnonzero
    exact absurd hzero (hnonzero hudp)

theorem payload_kept (hv : l.v6 = false) (htcp : l.protocol ≠ 6) (hudp : l.protocol ≠ 17) :
    (rewritten l d old new p).drop l.headerLen = p.drop l.headerLen := by
  have hfield : l.field = none := by
    rw [Layout.field, if_neg htcp, if_neg hudp, hv]
    exact if_neg nofun
  refine ext_getElem? fun i => (update_payload h hmis).getElem? fun f hf => ?_
  rw [hfield] at hf
  cases hf

theorem only_changed (i : Nat) (hne : (rewritten l d old new p)[i]? ≠ p[i]?) : l.MayChange d i := by
  by_contra hmay
  rw [Layout.MayChange, not_or, not_or] at hmay
  obtain ⟨haddress, hsum, hfield⟩ := hmay
  refine hne ?_
  by_cases hi : i < l.headerLen
  · have hout : l.v6 = true ∨ i < 10 ∨ 12 ≤ i := by
      by_contra hin
      rw [not_or] at hin
      exact hsum ⟨by simpa using hin.1, by omega, by omega⟩
    rw [getElem?_rewritten h hi, getElem?_readdress h hout]
    split
    · rfl
    · rw [if_neg (by omega)]
  · obtain ⟨j, rfl⟩ := Nat.exists_eq_add_of_le (not_lt.mp hi)
    refine getElem?_payload h hmis fun f hf => ?_
    by_contra hin
    exact hfield ⟨f, hf, by omega, by omega⟩

omit hmis in
theorem header_kept (hv : l.v6 = false) (hverifies : HeaderVerifies p l) :
    HeaderVerifies (rewritten l d old new p) l := by
  have hmod := updateChecksum_modEq (Takes.alike h) (readU16_lt p 10)
  have hmove := wordSum_header h hv
  have hfits := Takes.fits h
  rw [HeaderVerifies, verifies_iff] at hverifies ⊢
  refine ⟨?_, by omega⟩
  -- the version is in the sum
  have hlayout := layout_rewritten h
  match hp : rewritten l d old new p, hlayout with
  | first :: rest, hlayout =>
    rcases layout_version hlayout with ⟨_, hversion⟩ | ⟨hv', _⟩
    · obtain ⟨k, hk⟩ : ∃ k, l.headerLen = k + 2 := ⟨l.headerLen - 2, by omega⟩
      rw [hk]
      cases rest with
      | nil =>
        simp only [take_succ_cons, take_nil, wordSum]
        omega
      | cons =>
        simp only [take_succ_cons, wordSum]
        omega
    · exact absurd (hv.symm.trans hv') Bool.false_ne_true

theorem kept : Spec.Translation.Kept d l new p (rewritten l d old new p) where
  length := length_rewritten h
  address := address_rewritten h
  only := only_changed h hmis
  header := header_kept h
  transport := transport_kept h hmis
  absent := absent_kept h hmis
  payload := payload_kept h hmis

end Kept

/-- The checksum of a message that is none of ICMPv6 is updated. -/
theorem neutral_of_payload (h : Takes t d p l old new) (hprotocol : l.protocol = 58)
    (hfragment : l.fragment = 0) (hlen : l.headerLen + 4 ≤ p.length)
    (hsame : (rewritten l d old new p).drop l.headerLen = p.drop l.headerLen) :
    Neutral (readU16 p (l.headerLen + 2)) old new := by
  have hdrop : (p.drop l.headerLen).length = p.length - l.headerLen := length_drop
  have hupdate := update_updateTransportChecksum (p.drop l.headerLen) l.protocol l.fragment old new
  rw [drop_rewritten h] at hsame
  generalize updateTransportChecksum _ _ _ _ _ _ = payload' at hupdate hsame
  rw [hprotocol, hfragment] at hupdate
  rw [← readU16_drop, ← updateChecksum_eq_self_iff (Takes.alike h) (readU16_lt _ _)]
  cases hupdate with
  | none hnone => cases hnone
  | @outside f hf =>
    obtain rfl : 2 = f := some.inj hf
    omega
  | absent hsix => cases hsix
  | @fixed f hf _ hfits =>
    obtain rfl : 2 = f := some.inj hf
    have hwritten := readU16_writeU16 hfits (fixed_lt 58 (readU16 (p.drop l.headerLen) 2) old new)
    rw [hsame, fixed] at hwritten
    exact hwritten.symm

/-- A UDP checksum of zero is not updated. -/
theorem equal_of_transport (h : Takes t d p l old new) (hudp : l.protocol = 17)
    (hverifies : TransportVerifies p l) (hzero : readU16 p (l.headerLen + 6) = 0)
    (hkept : TransportVerifies (rewritten l d old new p) l) :
    wordSum old % 65535 = wordSum new % 65535 := by
  have hfragment := hverifies.1
  have hupdate := update_updateTransportChecksum (p.drop l.headerLen) l.protocol l.fragment old new
  have hsame : (rewritten l d old new p).drop l.headerLen = p.drop l.headerLen := by
    rw [drop_rewritten h]
    generalize updateTransportChecksum _ _ _ _ _ _ = payload' at hupdate ⊢
    rw [hudp, hfragment] at hupdate
    cases hupdate with
    | none | outside | absent => rfl
    | @fixed f hf _ _ hnonzero =>
      obtain rfl : 6 = f := some.inj hf
      exact absurd ((readU16_drop p l.headerLen 6).trans hzero) (hnonzero rfl)
  have hcovered : covered (rewritten l d old new p) l = covered p l := by
    rw [covered, covered, if_pos hudp, if_pos hudp, ← readU16_drop, ← readU16_drop, hsame]
  have haddresses := wordSum_addresses h
  have hbefore := ((verifies_iff _).mp hverifies.2.2.2).2
  have hafter := ((verifies_iff _).mp hkept.2.2.2).2
  rw [transportSum, hcovered, hsame] at hafter
  rw [transportSum] at hbefore
  omega

/-- A packet whose version is misread is not kept. -/
theorem not_kept (h : Takes t d p l old new) (hmis : Misreads t d p) :
    ¬Spec.Translation.Kept d l new p (rewritten l d old new p) := by
  obtain ⟨l', old', new', htakes, hslip⟩ := hmis
  obtain ⟨rfl, rfl, rfl⟩ := Takes.unique h htakes
  intro hkept
  rcases hslip with ⟨hv, hprotocol, hfragment, hlen, hneutral⟩ |
    ⟨hv, hudp, hverifies, hzero, hne⟩
  · have hsame := hkept.payload hv (by omega) (by omega)
    exact hneutral (neutral_of_payload h hprotocol hfragment hlen hsame)
  · have hpresent : ¬Absent p l' := fun habsent =>
      Bool.false_ne_true (habsent.1.symm.trans hv)
    exact hne (equal_of_transport h hudp hverifies hzero (hkept.transport hverifies hpresent).1)

/-! ## Fragments -/

theorem payload_eq (h : layout p = some l) : payload p = p.drop l.headerLen := by
  rw [payload, h]

theorem payload_rewritten (h : Takes t d p l old new) :
    payload (rewritten l d old new p) =
      updateTransportChecksum (payload p) 0 l.protocol l.fragment old new := by
  rw [payload_eq (layout_rewritten h), drop_rewritten h, payload_eq h.layout]

/-- A fragment has the addresses of its datagram. -/
theorem Piece.address {piece : Packet} (h : Piece p offset data piece) {l' : Layout}
    (hv : l.v6 = false) (hv' : l'.v6 = false) :
    (piece.drop (l'.mapped d)).take l'.width = (p.drop (l.mapped d)).take l.width := by
  -- the mapped address stands in the same place among the two
  have hcut : ∀ (l : Layout) (q : Packet), l.v6 = false → (q.drop (l.mapped d)).take l.width =
      (((q.drop 12).take 8).drop (if d = .toTunnel then 0 else 4)).take 4 := by
    intro l q hv
    have hwidth : l.width = 4 := by rw [Layout.width, hv]; rfl
    have haddresses : l.addresses = 12 := by rw [Layout.addresses, hv]; rfl
    rw [hwidth, drop_take, drop_drop, take_take]
    cases d with
    | toTunnel =>
      rw [Layout.mapped, haddresses]
      rfl
    | toTun =>
      rw [Layout.mapped, haddresses, hwidth]
      rfl
  rw [hcut l' piece hv', hcut l p hv, h.addresses]

theorem Piece.takes_iff {piece : Packet} {l' : Layout} (h : Piece p offset data piece)
    (hl : layout p = some l) (hl' : layout piece = some l') :
    Takes t d piece l' old new ↔ Takes t d p l old new := by
  obtain ⟨m, m', hm, hm', hv, hv', _, _⟩ := h.header
  cases hl.symm.trans hm
  cases hl'.symm.trans hm'
  have haddress := Piece.address (d := d) h hv hv'
  constructor
  · rintro ⟨_, hmapping, hold⟩
    rw [hv', ← hv] at hmapping
    exact ⟨hl, hmapping, haddress.symm.trans hold⟩
  · rintro ⟨_, hmapping, hold⟩
    rw [hv, ← hv'] at hmapping
    exact ⟨hl', hmapping, haddress.trans hold⟩

/-- What is done to every piece is done to the whole, if it does not matter where the payload
is cut. -/
theorem split_pieces {pieces : List Packet} {taken : Bool} {g : Nat → List UInt8 → List UInt8}
    (h : Split p offset data pieces) (hoffset : offset % 8 = 0)
    (hpiece : ∀ {offset data piece}, Piece p offset data piece →
      (translate t d piece).1 = taken ∧ payload (translate t d piece).2 = g offset data)
    (hcut : ∀ {offset a b}, a.length % 8 = 0 → offset % 8 = 0 →
      g offset (a ++ b) = g offset a ++ g (offset + a.length) b) :
    (∀ piece ∈ pieces, (translate t d piece).1 = taken) ∧
      reassemble (pieces.map fun piece => (translate t d piece).2) = g offset data := by
  induction h with
  | @last offset data piece hp =>
    rw [map_singleton, reassemble, flatMap_singleton]
    exact ⟨forall_mem_singleton.mpr (hpiece hp).1, (hpiece hp).2⟩
  | @more offset data piece rest pieces height hp _ ih =>
    have ih := ih (by omega)
    rw [map_cons, reassemble, hcut height hoffset]
    exact ⟨forall_mem_cons.mpr ⟨(hpiece hp).1, ih.1⟩, congrArg₂ _ (hpiece hp).2 ih.2⟩

theorem fragments_kept {pieces : List Packet} (h : Fragments p pieces) :
    (∀ piece ∈ pieces, (translate t d piece).1 = (translate t d p).1) ∧
      reassemble (pieces.map fun piece => (translate t d piece).2) =
        payload (translate t d p).2 := by
  obtain ⟨l, hl, _, hsplit⟩ := h
  have hoffset := (layout_bounds hl).2.1
  rcases translate_cases t d p with ⟨l', old, new, htakes, heq⟩ | ⟨hnone, heq⟩
  · cases hl.symm.trans htakes.layout
    rw [heq, payload_rewritten htakes]
    refine split_pieces (g := fun offset data =>
        updateTransportChecksum data 0 l.protocol offset old new) hsplit hoffset
      (fun hpiece => ?_) fun ha ho => updateTransportChecksum_append ha ho _ _ _
    obtain ⟨m, l', hm, hl', _, _, hprotocol, hfragment⟩ := hpiece.header
    cases hl.symm.trans hm
    have htaken := (Piece.takes_iff hpiece hl hl').mpr htakes
    rw [Takes.translate htaken, payload_rewritten htaken, hpiece.data, hprotocol, hfragment]
    exact ⟨rfl, rfl⟩
  · rw [heq]
    refine split_pieces (g := fun _ data => data) hsplit hoffset (fun {_ _ piece} hpiece => ?_)
      fun _ _ => rfl
    rcases translate_cases t d piece with ⟨l', old, new, htakes, _⟩ | ⟨_, heq⟩
    · obtain ⟨m, _, hm, _⟩ := hpiece.header
      exact absurd ((Piece.takes_iff hpiece hm htakes.layout).mp htakes) (hnone m old new)
    · rw [heq]
      exact ⟨rfl, hpiece.data⟩

/-! ## The contract -/

/-- Translation keeps a packet exactly if its version is not misread. -/
theorem translation_keeps_iff (t : AddressTranslator) (d : Direction) (p : Packet) :
    Keeps t d p ↔ ¬Misreads t d p := by
  rcases translate_cases t d p with ⟨l, old, new, htakes, heq⟩ | ⟨hnone, heq⟩
  · constructor
    · intro hkeeps hmis
      obtain ⟨l', old', new', htakes', hkept⟩ := hkeeps.translated (by rw [heq])
      obtain ⟨rfl, rfl, rfl⟩ := Takes.unique htakes htakes'
      rw [heq] at hkept
      exact not_kept htakes hmis hkept
    · intro hmis
      exact
        { refused := fun hrefused => by rw [heq] at hrefused; cases hrefused
          translated := fun _ => ⟨l, old, new, htakes, by rw [heq]; exact kept htakes hmis⟩
          fragments := fun _ => fragments_kept }
  · constructor
    · rintro - ⟨l, old, new, htakes, _⟩
      exact hnone l old new htakes
    · intro _
      exact
        { refused := fun _ => by rw [heq]
          translated := fun htranslated => by rw [heq] at htranslated; cases htranslated
          fragments := fun _ => fragments_kept }

/-- An IPv4 packet of protocol 58 from 10.0.0.2, which leaves as from 10.8.0.2. Its payload
is not ICMPv6, and its third and fourth byte are changed. -/
theorem payload_of_protocol_58_changed :
    ¬Keeps { v4 := some (0x0a000002#32, 0x0a080002#32) } .toTunnel
      ([0x45, 0, 0, 24, 0, 0, 0, 0, 64, 58, 0x66, 0xc3, 10, 0, 0, 2, 10, 0, 0, 9] ++
        [1, 2, 3, 4]) := by
  intro hkeeps
  obtain ⟨l, old, new, htakes, hkept⟩ := hkeeps.translated (by decide +kernel)
  have hl : l = { v6 := false, headerLen := 20, protocol := 58, fragment := 0 } :=
    some.inj (htakes.layout.symm.trans (by decide +kernel))
  subst hl
  exact absurd (hkept.payload rfl (by decide) (by decide)) (by decide +kernel)

end Foxcore.Proofs.Translation
