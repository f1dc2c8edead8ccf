import Foxcore.Proofs.Session
import Foxcore.Spec.Obfuscation

/-!
# What survives obfuscation

`Wrapped` is exactly what the transform makes of a message: every answer has the
form (`obfuscate_wrapped`), and every datagram of the form is drawn by some
random bytes (`exists_draws`). With that the receiver is a matter of bytes. A
message survives every draw iff no kind that is looked for earlier can be seen
in a datagram of the form.
-/

namespace Foxcore.Proofs

open Lib Ref Ref.Wireguard Spec List
open Ref.Wireguard.AmneziaParams

variable {α : Type} {r : HeaderRange} {value window : Nat}
variable {message datagram : Bytes}

/-! ## Bytes -/

theorem toLe_fromLe {bytes : Bytes} {width : Nat} (h : bytes.length = width) :
    toLe width (fromLe bytes) = bytes := by
  induction bytes generalizing width with
  | nil =>
    subst h
    rfl
  | cons b rest ih =>
    subst h
    have hb := b.toNat_lt
    have hlow : (b.toNat + 256 * fromLe rest) % 256 = b.toNat := by omega
    have hhigh : (b.toNat + 256 * fromLe rest) / 256 = fromLe rest := by omega
    rw [fromLe, length_cons, toLe, hlow, hhigh, ih rfl, UInt8.ofNat_toNat]

/-- Two pieces that agree where they overlap stand in one list. -/
theorem exists_overlaid [Inhabited α] (a b : List α) (i j total : Nat) (ha : i + a.length ≤ total)
    (hb : j + b.length ≤ total)
    (hagree : ∀ x y, x < a.length → y < b.length → i + x = j + y → a[x]? = b[y]?) :
    ∃ l : List α, l.length = total ∧ (l.drop i).take a.length = a ∧
      (l.drop j).take b.length = b := by
  let put : Nat → α := fun n =>
    if i ≤ n ∧ n < i + a.length then (a[n - i]?).getD default else (b[n - j]?).getD default
  refine ⟨(List.range total).map put, by simp, ?_, ?_⟩
  · apply ext_getElem
    · simp only [length_take, length_drop, length_map, length_range]
      omega
    · intro n _ hn
      simp [put, hn]
  · apply ext_getElem
    · simp only [length_take, length_drop, length_map, length_range]
      omega
    · intro n _ hn
      have hput : put (j + n) = b[n] := by
        simp only [put]
        split
        · rw [hagree (j + n - i) n (by omega) hn (by omega)]
          simp [hn]
        · simp [hn]
      simpa using hput

/-! ## What the transform makes of a message -/

theorem pick_contains (r : HeaderRange) (draw : Nat) : r.contains (r.pick draw) = true := by
  have hordered := r.ordered
  have hmod := Nat.mod_lt draw (show 0 < r.stop - r.start + 1 by omega)
  rw [HeaderRange.pick, HeaderRange.contains]
  split <;> simp <;> omega

theorem contains_lt (h : r.contains value = true) : value < 2 ^ 32 := by
  have hnarrow := r.narrow
  simp only [HeaderRange.contains, Bool.and_eq_true, decide_eq_true_iff] at h
  omega

/-- The four bytes of a header are read back as the header. -/
theorem fromLe_header (h : r.contains value = true) : fromLe (toLe 4 value) = value := by
  have hlt : value < 256 ^ 4 := contains_lt h
  rw [fromLe_toLe, Nat.mod_eq_of_lt hlt]

section

variable {m : Type → Type} [Monad m] (A : Answers m) {random : (n : Nat) → m (Block n)}

theorem drawHeader_contains (range : HeaderRange) :
    A.all (drawHeader range random) fun value => range.contains value = true := by
  rw [drawHeader]
  split
  · next h =>
    refine A.pure ?_
    have hordered := range.ordered
    simp [HeaderRange.contains, hordered]
  · exact A.bind (A.of_forall fun _ => trivial) fun draw _ => A.pure (pick_contains range _)

theorem drawTrailer_room (window size : Nat) :
    A.all (drawTrailer window size random) fun trailer =>
      trailer ≠ [] → size + trailer.length < window := by
  simp only [drawTrailer]
  split
  · next hroom =>
    refine A.bind (A.of_forall fun _ => trivial) fun draw _ => ?_
    refine A.bind (A.of_forall fun _ => trivial) fun trailer _ => A.pure fun _ => ?_
    have hlen := Nat.mod_lt (fromLe draw.1) hroom
    omega
  · exact A.pure fun h => absurd rfl h

/-- Every answer of the transform has the form. -/
theorem obfuscate_wrapped {p : AmneziaParams} {draw : m Bytes}
    (h : p.obfuscateIntoWithWindow message window random = .ok draw) :
    ∃ kind, classify message = .ok kind ∧
      A.all draw (Wrapped p kind window message) := by
  obtain ⟨kind, hkind, h⟩ := bind_ok_iff.mp h
  cases h
  refine ⟨kind, hkind, ?_⟩
  refine A.bind (A.of_forall fun _ => trivial) fun junk _ => ?_
  refine A.bind (drawHeader_contains A _) fun value hvalue => ?_
  split
  · next htrailers =>
    refine A.bind (drawTrailer_room A _ _) fun trailer hroom => A.pure ?_
    refine ⟨junk.1, value, trailer, rfl, junk.2, hvalue, fun hne => ⟨htrailers.1, htrailers.2, ?_⟩⟩
    rw [length_append]
    exact hroom hne
  · refine A.pure ⟨junk.1, value, [], ?_, junk.2, hvalue, fun hne => absurd rfl hne⟩
    rw [append_nil]

end

/-! ## Every datagram of the form is drawn -/

/-- Random bytes as they are written down, one entry for each call. -/
def scripted (n : Nat) : StateM (List Bytes) (Block n) := fun answers =>
  (if h : (answers.headD []).length = n then ⟨answers.headD [], h⟩ else Block.zero n, answers.tail)

theorem scripted_cons {n : Nat} {bytes : Bytes} (rest : List Bytes) (h : bytes.length = n) :
    scripted n (bytes :: rest) = (⟨bytes, h⟩, rest) := by
  simp [scripted, h]

theorem run_bind_of_eq {σ β : Type} {x : StateM σ α} {f : α → StateM σ β} {s s' : σ} {a : α}
    (h : x s = (a, s')) : (x >>= f).run s = (f a).run s' := by
  show (f (x s).1).run (x s).2 = _
  rw [h]

theorem drawHeader_scripted (h : r.contains value = true) (rest : List Bytes) :
    ∃ answers, drawHeader r scripted answers = (value, rest) := by
  have hnarrow := r.narrow
  simp only [HeaderRange.contains, Bool.and_eq_true, decide_eq_true_iff] at h
  rw [drawHeader]
  split
  · next hsingle =>
    simp only [HeaderRange.isSingle, decide_eq_true_iff] at hsingle
    have hvalue : r.start = value := by omega
    exact ⟨rest, by rw [hvalue]; rfl⟩
  · next hrange =>
    simp only [HeaderRange.isSingle, decide_eq_true_iff] at hrange
    refine ⟨toLe 4 (value - r.start) :: rest, ?_⟩
    show (r.pick (fromLe (scripted 4 (toLe 4 (value - r.start) :: rest)).1.1),
      (scripted 4 (toLe 4 (value - r.start) :: rest)).2) = _
    have hsmall : fromLe (toLe 4 (value - r.start)) = value - r.start := by
      rw [fromLe_toLe]
      omega
    rw [scripted_cons rest (length_toLe 4 _), hsmall, HeaderRange.pick, if_neg hrange]
    have hspan : (value - r.start) % (r.stop - r.start + 1) = value - r.start :=
      Nat.mod_eq_of_lt (by omega)
    simp only [Prod.mk.injEq, and_true]
    omega

theorem drawTrailer_scripted {size : Nat} {trailer : Bytes}
    (h : trailer ≠ [] → size + trailer.length < window) (hwindow : window ≤ 2 ^ 32) :
    ∃ answers, (drawTrailer window size scripted answers).1 = trailer := by
  simp only [drawTrailer]
  split
  · next hroom =>
    have hlen : trailer.length < window - size := by
      cases trailer with
      | nil => exact hroom
      | cons b rest =>
        have hroom := h (cons_ne_nil b rest)
        omega
    have hdraw : fromLe (toLe 4 trailer.length) % (window - size) = trailer.length := by
      rw [fromLe_toLe, Nat.mod_eq_of_lt (show trailer.length < 256 ^ 4 by omega),
        Nat.mod_eq_of_lt hlen]
    refine ⟨[toLe 4 trailer.length, trailer], ?_⟩
    show (scripted (fromLe (scripted 4 [toLe 4 trailer.length, trailer]).1.1 % (window - size))
      (scripted 4 [toLe 4 trailer.length, trailer]).2).1.1 = trailer
    rw [scripted_cons [trailer] (length_toLe 4 _), scripted_cons [] hdraw.symm]
  · next hfull =>
    refine ⟨[], ?_⟩
    cases trailer with
    | nil => rfl
    | cons b rest =>
      have hroom := h (cons_ne_nil b rest)
      omega

/-- Every datagram of the form is drawn by some random bytes. -/
theorem exists_draws {p : AmneziaParams} {kind : UInt8} (hkind : classify message = .ok kind)
    (h : Wrapped p kind window message datagram) (hwindow : window ≤ 2 ^ 32) :
    ∃ answers draw, p.obfuscateIntoWithWindow message window scripted = .ok draw ∧
      (draw.run answers).1 = datagram := by
  obtain ⟨junk, value, trailer, hdatagram, hjunk, hvalue, htrailer⟩ := h
  have hroom : trailer ≠ [] →
      (junk ++ toLe 4 value ++ message.drop 4).length + trailer.length < window := by
    intro hne
    rw [← length_append, ← hdatagram]
    exact (htrailer hne).2.2
  obtain ⟨last, hlast⟩ := drawTrailer_scripted hroom hwindow
  obtain ⟨rest, hrest⟩ := drawHeader_scripted hvalue last
  rw [obfuscateIntoWithWindow, hkind]
  refine ⟨junk :: rest, _, rfl, ?_⟩
  rw [run_bind_of_eq (scripted_cons rest hjunk), run_bind_of_eq hrest]
  split
  · show junk ++ toLe 4 value ++ message.drop 4 ++ (drawTrailer window _ scripted last).1 = _
    rw [hlast, hdatagram]
  · next hnone =>
    have hempty : trailer = [] := by
      by_contra hne
      exact hnone ⟨(htrailer hne).1, (htrailer hne).2.1⟩
    rw [hdatagram, hempty, append_nil]
    rfl

/-! ## What the receiver looks for -/

section

variable {p : AmneziaParams} {c k : Candidate}

/-- The kinds are looked for from the longest to the shortest. -/
theorem candidates_pairwise (p : AmneziaParams) :
    p.candidates.Pairwise fun first second => second.length < first.length := by
  simp [candidates, initiationLen, responseLen, cookieReplyLen]

theorem candidate_cases (h : k ∈ p.candidates) :
    (k.kind, k.length) ∈ [(typeInitiation, initiationLen), (typeResponse, responseLen),
      (typeCookieReply, cookieReplyLen)] ∧
    p.junkFor k.kind = k.junk ∧ p.headerFor k.kind = k.header := by
  simp only [candidates, mem_cons, not_mem_nil, or_false] at h
  obtain rfl | rfl | rfl := h <;> exact ⟨by simp, rfl, rfl⟩

theorem candidate_of_standard (h : StandardHandshake message) :
    ∃ k ∈ p.candidates, message.take 4 = header k.kind ∧ message.length = k.length := by
  obtain ⟨kind, length, hmem, hhead, hlen⟩ := h
  simp only [mem_cons, not_mem_nil, or_false] at hmem
  obtain ⟨rfl, rfl⟩ | ⟨rfl, rfl⟩ | ⟨rfl, rfl⟩ := hmem
  · exact ⟨_, mem_cons_self, hhead, hlen⟩
  · exact ⟨_, mem_cons_of_mem _ mem_cons_self, hhead, hlen⟩
  · exact ⟨_, mem_cons_of_mem _ (mem_cons_of_mem _ mem_cons_self), hhead, hlen⟩

theorem four_le_length (h : k ∈ p.candidates) : 4 ≤ k.length := by
  have hcases := (candidate_cases h).1
  simp only [mem_cons, Prod.mk.injEq, not_mem_nil, or_false] at hcases
  obtain ⟨-, hlen⟩ | ⟨-, hlen⟩ | ⟨-, hlen⟩ := hcases <;> rw [hlen] <;> decide

theorem classify_standard (hk : k ∈ p.candidates) (hhead : message.take 4 = header k.kind) :
    classify message = .ok k.kind := by
  have hsplit : message = header k.kind ++ message.drop 4 := by
    rw [← hhead, take_append_drop]
  have hcases := (candidate_cases hk).1
  simp only [mem_cons, Prod.mk.injEq, not_mem_nil, or_false] at hcases
  rw [hsplit]
  obtain ⟨hkind, -⟩ | ⟨hkind, -⟩ | ⟨hkind, -⟩ := hcases <;> rw [hkind] <;> rfl

/-- With the default parameters nothing stands before or after a message, and a
kind has one header. -/
theorem vanilla_shape (hvanilla : p.isVanilla = true) :
    p.randomTrailers = false ∧ ∀ k ∈ p.candidates, k.junk = 0 ∧ k.header.start = k.header.stop := by
  have heq : { p with contentPaddingAddition := none } = ({} : AmneziaParams) :=
    of_decide_eq_true hvanilla
  have hcandidates : candidates { p with contentPaddingAddition := none } =
      ({} : AmneziaParams).candidates := by rw [heq]
  refine ⟨congrArg randomTrailers heq, ?_⟩
  show ∀ k ∈ candidates { p with contentPaddingAddition := none }, _
  rw [hcandidates]
  decide

theorem vanilla_transport (hvanilla : p.isVanilla = true) :
    p.transportJunkSize = 0 ∧ p.headerTransport = .single 4 := by
  have heq : { p with contentPaddingAddition := none } = ({} : AmneziaParams) :=
    of_decide_eq_true hvanilla
  exact ⟨congrArg transportJunkSize heq, congrArg headerTransport heq⟩

theorem not_vanilla_of_reach (hc : c ∈ p.candidates) (hk : k ∈ p.candidates)
    (hlen : k.length < c.length) (h : MayReach p c k) : p.isVanilla = false := by
  by_contra hvanilla
  obtain ⟨htrailers, hjunk⟩ := vanilla_shape (Bool.eq_true_of_not_eq_false hvanilla)
  rw [MayReach, htrailers, (hjunk c hc).1, (hjunk k hk).1] at h
  simp only [Bool.false_eq_true, if_false] at h
  omega

theorem fits_iff :
    p.fits c datagram = true ↔ c.junk + c.length ≤ datagram.length ∧
      (p.randomTrailers = false → datagram.length = c.junk + c.length) := by
  simp only [fits]
  cases p.randomTrailers <;> simp

/-- The bytes where a kind has its header. -/
theorem take_header (hc : c ∈ p.candidates) (datagram : Bytes) :
    ((datagram.drop c.junk).take c.length).take 4 = (datagram.drop c.junk).take 4 := by
  rw [take_take, Nat.min_eq_left (four_le_length hc)]

theorem bodyOf_eq_some {found : UInt8 × Bytes} (h : p.bodyOf datagram c = some found) :
    p.fits c datagram = true ∧ found = (c.kind, (datagram.drop c.junk).take c.length) ∧
      p.headerMatches (found.2.take 4) c.header = true := by
  rw [bodyOf] at h
  split at h
  · next hfits =>
    dsimp only at h
    split at h
    · next hmatches =>
      cases h
      exact ⟨hfits, rfl, hmatches⟩
    · cases h
  · cases h

end

/-! ## A message that survives -/

section

variable {p : AmneziaParams} {c k : Candidate}

/-- Where things stand in a datagram of the form. -/
theorem wrapped_bytes (hk : k ∈ p.candidates) (hlen : message.length = k.length)
    (h : Wrapped p k.kind initialUdpWindow message datagram) :
    k.junk + k.length ≤ datagram.length ∧
    (p.randomTrailers = false → datagram.length = k.junk + k.length) ∧
    (p.randomTrailers = true → datagram.length ≤ max (k.junk + k.length) (initialUdpWindow - 1)) ∧
    ∃ value, k.header.contains value = true ∧ (datagram.drop k.junk).take 4 = toLe 4 value ∧
      (datagram.drop k.junk).take k.length = toLe 4 value ++ message.drop 4 := by
  obtain ⟨junk, value, trailer, hdatagram, hjunk, hvalue, htrailer⟩ := h
  obtain ⟨-, hjunkFor, hheaderFor⟩ := candidate_cases hk
  have hfour := four_le_length hk
  rw [hjunkFor] at hjunk
  rw [hheaderFor] at hvalue
  have htotal : datagram.length = k.junk + k.length + trailer.length := by
    simp only [hdatagram, length_append, length_toLe, length_drop]
    omega
  have hdrop : datagram.drop k.junk = (toLe 4 value ++ message.drop 4) ++ trailer := by
    rw [hdatagram, ← hjunk, append_assoc, append_assoc, drop_left,
      append_assoc]
  have hbody : (toLe 4 value ++ message.drop 4).length = k.length := by
    rw [length_append, length_toLe, length_drop]
    omega
  refine ⟨by omega, fun hoff => ?_, fun _ => ?_, value, hvalue, ?_, ?_⟩
  · have hempty : trailer = [] := by
      by_contra hne
      rw [hoff] at htrailer
      exact nomatch (htrailer hne).1
    rw [htotal, hempty]
    rfl
  · cases trailer with
    | nil => exact le_trans (le_of_eq htotal) (le_max_left _ _)
    | cons b rest =>
      have hroom := (htrailer (cons_ne_nil b rest)).2.2
      omega
  · rw [hdrop, append_assoc, take_append_of_le_length (le_of_eq (length_toLe 4 _).symm),
      take_of_length_le (le_of_eq (length_toLe 4 _))]
  · rw [hdrop, ← hbody, take_left]

/-- A kind that is seen in a datagram of the form could be taken for it. -/
theorem confusable_of_found (hc : c ∈ p.candidates) (hk : k ∈ p.candidates)
    (hshort : k.length < c.length) (hlen : message.length = k.length)
    (h : Wrapped p k.kind initialUdpWindow message datagram) (hfound : p.bodyOf datagram c ≠ none) :
    MayReach p c k ∧ MayOverlie c k := by
  obtain ⟨found, hfound⟩ := Option.ne_none_iff_exists'.mp hfound
  obtain ⟨hfits, rfl, hmatches⟩ := bodyOf_eq_some hfound
  obtain ⟨-, hexact, hmax, b, hb, hhead, -⟩ := wrapped_bytes hk hlen h
  obtain ⟨hcfits, hcexact⟩ := fits_iff.mp hfits
  have hreach : MayReach p c k := by
    rw [MayReach]
    cases htrailers : p.randomTrailers with
    | true => exact le_trans hcfits (hmax htrailers)
    | false => exact (hcexact htrailers).symm.trans (hexact htrailers)
  refine ⟨hreach, ?_⟩
  rw [take_header hc, headerMatches, not_vanilla_of_reach hc hk hshort hreach] at hmatches
  have hfour := four_le_length hc
  have hlen4 : ((datagram.drop c.junk).take 4).length = 4 := by
    rw [length_take, length_drop]
    omega
  refine ⟨fromLe ((datagram.drop c.junk).take 4), b, hmatches, hb, ?_⟩
  intro i j hi hj hsame
  rw [toLe_fromLe hlen4, ← hhead, getElem?_take_of_lt hi, getElem?_take_of_lt hj,
    getElem?_drop, getElem?_drop, hsame]

/-- The receiver sees the kind of the message. -/
theorem bodyOf_wrapped (hk : k ∈ p.candidates) (hlen : message.length = k.length)
    (h : Wrapped p k.kind initialUdpWindow message datagram) :
    ∃ body, p.bodyOf datagram k = some (k.kind, body) ∧ body.drop 4 = message.drop 4 := by
  obtain ⟨hlong, hexact, -, value, hvalue, hhead, hbody⟩ := wrapped_bytes hk hlen h
  have hfits : p.fits k datagram = true := fits_iff.mpr ⟨hlong, hexact⟩
  have hmatches : p.headerMatches (toLe 4 value) k.header = true := by
    rw [headerMatches]
    split
    · next hvanilla =>
      have hsingle := ((vanilla_shape hvanilla).2 k hk).2
      simp only [HeaderRange.contains, Bool.and_eq_true, decide_eq_true_iff] at hvalue
      have hstart : value = k.header.start := by omega
      have hbyte : UInt8.ofNat (k.header.start % 256) = UInt8.ofNat k.header.start := by
        simp [← UInt8.toNat_inj]
      rw [hstart, toLe, head?_cons, hbyte, decide_eq_true_iff]
    · rw [fromLe_header hvalue]
      exact hvalue
  refine ⟨(datagram.drop k.junk).take k.length, ?_, ?_⟩
  · rw [bodyOf, if_pos hfits]
    dsimp only
    rw [take_header hk, hhead, if_pos hmatches]
  · rw [hbody, drop_left' (length_toLe 4 _)]

theorem deobfuscate_wrapped (hp : Unambiguous p) (hk : k ∈ p.candidates)
    (hstandard : message.take 4 = header k.kind) (hlen : message.length = k.length)
    (h : Wrapped p k.kind initialUdpWindow message datagram) :
    p.deobfuscate datagram = .ok message := by
  obtain ⟨body, hbody, hdrop⟩ := bodyOf_wrapped hk hlen h
  obtain ⟨before, after, hsplit⟩ := append_of_mem hk
  rw [Unambiguous, hsplit, pairwise_append] at hp
  have hbefore : before.findSome? (p.bodyOf datagram) = none := by
    rw [findSome?_eq_none_iff]
    intro c hc
    have hcmem : c ∈ p.candidates := by
      rw [hsplit]
      exact mem_append_left _ hc
    have hshort := candidates_pairwise p
    rw [hsplit, pairwise_append] at hshort
    by_contra hfound
    exact hp.2.2 c hc k mem_cons_self (confusable_of_found hcmem hk
      (hshort.2.2 c hc k mem_cons_self) hlen h hfound)
  have hfound : p.candidates.findSome? (p.bodyOf datagram) = some (k.kind, body) := by
    rw [hsplit, findSome?_append, hbefore, Option.none_or, findSome?_cons, hbody]
  rw [deobfuscate, handshakeBody, hfound]
  show Except.ok (header k.kind ++ body.drop 4) = _
  rw [hdrop, ← hstandard, take_append_drop]

end

/-! ## A message that is lost -/

section

variable {p : AmneziaParams} {c k : Candidate}

theorem kind_ne_transport (h : k ∈ p.candidates) : k.kind ≠ typeTransport := by
  have hcases := (candidate_cases h).1
  simp only [mem_cons, Prod.mk.injEq, not_mem_nil, or_false] at hcases
  obtain ⟨hkind, -⟩ | ⟨hkind, -⟩ | ⟨hkind, -⟩ := hcases <;> rw [hkind] <;> decide

/-- A list cut at three places. -/
theorem cut_three (l : List α) (i n : Nat) :
    l = l.take i ++ (l.drop i).take 4 ++ (l.drop (i + 4)).take n ++ l.drop (i + 4 + n) := by
  have hrest : (l.drop i).drop 4 = (l.drop (i + 4)).take n ++ l.drop (i + 4 + n) := by
    rw [drop_drop, ← drop_drop (i := n), take_append_drop]
  rw [append_assoc, ← hrest, append_assoc, take_append_drop, take_append_drop]

/-- What can be confused is confused in some datagram. -/
theorem exists_confused (hc : c ∈ p.candidates) (hk : k ∈ p.candidates)
    (hshort : k.length < c.length) (hreach : MayReach p c k) (hover : MayOverlie c k) :
    ∃ message datagram, message.take 4 = header k.kind ∧ message.length = k.length ∧
      Wrapped p k.kind initialUdpWindow message datagram ∧ p.bodyOf datagram c ≠ none := by
  obtain ⟨a, b, ha, hb, hagree⟩ := hover
  have hkfour := four_le_length hk
  obtain ⟨-, hjunkFor, hheaderFor⟩ := candidate_cases hk
  obtain ⟨datagram, htotal, hata, hatb⟩ := exists_overlaid (toLe 4 a) (toLe 4 b) c.junk k.junk
    (max (k.junk + k.length) (c.junk + c.length))
    (by rw [length_toLe]; omega) (by rw [length_toLe]; omega)
    (by simpa only [length_toLe] using hagree)
  rw [length_toLe] at hata hatb
  have hcut := cut_three datagram k.junk (k.length - 4)
  rw [hatb] at hcut
  have hbody : ((datagram.drop (k.junk + 4)).take (k.length - 4)).length = k.length - 4 := by
    rw [length_take, length_drop]
    omega
  refine ⟨header k.kind ++ (datagram.drop (k.junk + 4)).take (k.length - 4), datagram, rfl, ?_,
    ⟨datagram.take k.junk, b, datagram.drop (k.junk + 4 + (k.length - 4)), hcut, ?_, ?_, ?_⟩, ?_⟩
  · rw [length_append, hbody]
    show 4 + (k.length - 4) = k.length
    omega
  · rw [length_take]
    omega
  · rw [hheaderFor]
    exact hb
  · intro hne
    have hlonger : k.junk + k.length < c.junk + c.length := by
      have hpos := length_pos_iff.mpr hne
      rw [length_drop] at hpos
      omega
    rw [MayReach] at hreach
    split at hreach
    · next htrailers =>
      refine ⟨htrailers, kind_ne_transport hk, ?_⟩
      omega
    · omega
  · have hfits : p.fits c datagram = true := by
      rw [fits_iff]
      refine ⟨by omega, fun htrailers => ?_⟩
      rw [MayReach, htrailers, if_neg Bool.false_ne_true] at hreach
      omega
    rw [bodyOf, if_pos hfits]
    dsimp only
    rw [take_header hc, hata, headerMatches, not_vanilla_of_reach hc hk hshort hreach,
      if_neg Bool.false_ne_true, fromLe_header ha, if_pos ha]
    exact Option.some_ne_none _

/-- What the receiver finds is at least as long as any kind it could have found. -/
theorem length_of_found (hc : c ∈ p.candidates) (hfound : p.bodyOf datagram c ≠ none)
    (h : p.deobfuscate datagram = .ok message) : c.length ≤ message.length := by
  rw [deobfuscate, handshakeBody] at h
  split at h
  · next found hfirst =>
    cases h
    obtain ⟨before, first, after, hsplit, hbody, hnone⟩ := findSome?_eq_some_iff.mp hfirst
    have hmem : first ∈ p.candidates := by
      rw [hsplit]
      exact mem_append_right _ mem_cons_self
    have hle : c.length ≤ first.length := by
      have hsorted := candidates_pairwise p
      rw [hsplit] at hc hsorted
      rw [pairwise_append, pairwise_cons] at hsorted
      obtain hc | hc := mem_append.mp hc
      · exact absurd (hnone c hc) hfound
      · obtain rfl | hc := mem_cons.mp hc
        · exact le_rfl
        · exact le_of_lt (hsorted.2.1.1 c hc)
    obtain ⟨hfits, rfl, -⟩ := bodyOf_eq_some hbody
    have hlong := (fits_iff.mp hfits).1
    simp only [header, length_append, length_cons, length_drop, length_take]
    omega
  · cases h

theorem not_survives (hc : c ∈ p.candidates) (hk : k ∈ p.candidates) (hshort : k.length < c.length)
    (hreach : MayReach p c k) (hover : MayOverlie c k) :
    ∃ message, StandardHandshake message ∧ ¬ Survives p message := by
  obtain ⟨message, datagram, hhead, hlen, hwrapped, hfound⟩ :=
    exists_confused hc hk hshort hreach hover
  refine ⟨message, ⟨k.kind, k.length, (candidate_cases hk).1, hhead, hlen⟩, fun hsurvives => ?_⟩
  obtain ⟨answers, draw, hdraw, hrun⟩ :=
    exists_draws (classify_standard hk hhead) hwrapped (by decide)
  obtain ⟨draw', hdraw', hback⟩ := hsurvives _ scripted answers
  cases hdraw.symm.trans hdraw'
  rw [hrun] at hback
  have hlong := length_of_found hc hfound hback
  omega

end

/-! ## Which parameters lose nothing -/

/-- Every handshake message survives every draw iff no kind can be taken for one
that is looked for before it. -/
theorem handshakes_survive_iff (p : AmneziaParams) :
    (∀ message, StandardHandshake message → Survives p message) ↔ Unambiguous p := by
  constructor
  · intro hall
    rw [Unambiguous, pairwise_iff_forall_sublist]
    intro c k hsub
    have hc : c ∈ p.candidates := hsub.subset mem_cons_self
    have hk : k ∈ p.candidates := hsub.subset (mem_cons_of_mem _ mem_cons_self)
    have hshort := pairwise_iff_forall_sublist.mp (candidates_pairwise p) hsub
    rintro ⟨hreach, hover⟩
    obtain ⟨message, hstandard, hlost⟩ := not_survives hc hk hshort hreach hover
    exact hlost (hall message hstandard)
  · intro hp message hstandard σ random s
    obtain ⟨k, hk, hhead, hlen⟩ := candidate_of_standard (p := p) hstandard
    have hkind := classify_standard hk hhead
    obtain ⟨draw, hdraw⟩ : ∃ draw, p.obfuscate message random = .ok draw := by
      rw [AmneziaParams.obfuscate, AmneziaParams.obfuscateIntoWithWindow, hkind]
      exact ⟨_, rfl⟩
    obtain ⟨kind, hkind', hwrapped⟩ := obfuscate_wrapped (Answers.ofState σ) hdraw
    cases hkind.symm.trans hkind'
    exact ⟨draw, hdraw, deobfuscate_wrapped hp hk hhead hlen (hwrapped s)⟩

/-- A response behind 56 bytes is as long as an initiation. When its random bytes
begin with the header of an initiation, it is taken for one. -/
theorem response_taken_for_initiation :
    let p : AmneziaParams := { responseJunkSize := 56 }
    let response := header typeResponse ++ List.replicate 88 0
    let junk : Bytes := header typeInitiation ++ List.replicate 52 0
    p.validate = .ok () ∧ StandardHandshake response ∧
    ∃ draw, p.obfuscate response scripted = .ok draw ∧
      p.deobfuscate (draw.run [junk]).1 = .ok (junk ++ response) ∧ junk ++ response ≠ response := by
  refine ⟨by decide, ⟨typeResponse, responseLen, by decide, by decide, by decide⟩, _, rfl, ?_, ?_⟩
  · decide +kernel
  · decide

end Foxcore.Proofs
