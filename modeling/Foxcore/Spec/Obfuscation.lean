import Foxcore.Ref.Amnezia

/-!
# Obfuscated handshake messages

What the obfuscation layer promises for a handshake message: the receiver finds
the message again, whatever was drawn at random when it was sent. Whether it
does turns on the parameters alone. A receiver looks for one kind after the
other, so a message is lost when a datagram that carries it can also be taken
for a kind that is looked for earlier.
-/

namespace Foxcore.Spec

open Ref.Wireguard

/-- A handshake message as WireGuard has it. -/
def StandardHandshake (message : Bytes) : Prop :=
  ∃ kind length, (kind, length) ∈ [(typeInitiation, initiationLen), (typeResponse, responseLen),
      (typeCookieReply, cookieReplyLen)] ∧
    message.take 4 = header kind ∧ message.length = length

/-- What a message of a kind looks like on the wire: behind random bytes, with
another header, and with random bytes after it where the window leaves room. -/
def Wrapped (p : AmneziaParams) (kind : UInt8) (window : Nat) (message datagram : Bytes) : Prop :=
  ∃ junk value trailer, datagram = junk ++ toLe 4 value ++ message.drop 4 ++ trailer ∧
    junk.length = p.junkFor kind ∧ (p.headerFor kind).contains value = true ∧
    (trailer ≠ [] → p.randomTrailers = true ∧ kind ≠ typeTransport ∧ datagram.length < window)

/-- Whatever is drawn, the message is found again. -/
def Survives (p : AmneziaParams) (message : Bytes) : Prop :=
  ∀ (σ : Type) (random : (n : Nat) → StateM σ (Block n)) (s : σ), ∃ draw,
    p.obfuscate message random = .ok draw ∧ p.deobfuscate (draw.run s).1 = .ok message

/-- A datagram with a message of the second kind can have a length at which the
first kind is looked for. -/
def MayReach (p : AmneziaParams) (first second : Candidate) : Prop :=
  if p.randomTrailers then
    first.junk + first.length ≤ max (second.junk + second.length) (initialUdpWindow - 1)
  else first.junk + first.length = second.junk + second.length

/-- A header of either kind can stand in one datagram, each at its own place. -/
def MayOverlie (first second : Candidate) : Prop :=
  ∃ a b, first.header.contains a = true ∧ second.header.contains b = true ∧
    ∀ i j, i < 4 → j < 4 → first.junk + i = second.junk + j → (toLe 4 a)[i]? = (toLe 4 b)[j]?

/-- No kind can be taken for one that is looked for before it. -/
def Unambiguous (p : AmneziaParams) : Prop :=
  p.candidates.Pairwise fun first second => ¬ (MayReach p first second ∧ MayOverlie first second)

end Foxcore.Spec
