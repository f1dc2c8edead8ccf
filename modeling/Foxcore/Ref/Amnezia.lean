import Foxcore.Ref.Noise

/-!
# The obfuscation layer

Parameters that both peers share say how a message looks on the wire: what
stands for its type, how many random bytes come before it and whether some come
after. With the default parameters it looks as WireGuard has it.

The source hands the transform a function that fills a buffer with random bytes.
Here the transform is a computation in the monad that draws them. Sizes are
sixteen bits wide, values of headers thirty-two.
-/

namespace Foxcore.Ref.Wireguard

/-- An inclusive range. The fields are private in the source, and both ways to
make a range check or ensure the order. -/
structure HeaderRange where
  start : Nat
  stop : Nat
  ordered : start ≤ stop
  narrow : stop < 2 ^ 32
  deriving DecidableEq

namespace HeaderRange

instance : NeZero (2 ^ 32) := ⟨by decide⟩

def single (value : Fin (2 ^ 32)) : HeaderRange := ⟨value, value, Nat.le_refl _, value.isLt⟩

def isSingle (r : HeaderRange) : Bool := r.start = r.stop

def contains (r : HeaderRange) (value : Nat) : Bool := r.start ≤ value && value ≤ r.stop

def overlaps (r other : HeaderRange) : Bool := r.start ≤ other.stop && other.start ≤ r.stop

def samplePadding (r : HeaderRange) (draw : UInt32) : Nat :=
  let span := r.stop - r.start + 1
  r.start + (draw.toNat * span) >>> 32

def pick (r : HeaderRange) (draw : Nat) : Nat :=
  if r.start = r.stop then r.start
  else
    let span := r.stop - r.start + 1
    r.start + draw % span

end HeaderRange

structure AmneziaParams where
  junkPacketCount : UInt16 := 0
  junkMinSize : UInt16 := 0
  junkMaxSize : UInt16 := 0
  initJunkSize : UInt16 := 0
  responseJunkSize : UInt16 := 0
  cookieJunkSize : UInt16 := 0
  transportJunkSize : UInt16 := 0
  randomTrailers : Bool := false
  contentPaddingAddition : Option HeaderRange := none
  headerInitiation : HeaderRange := .single 1
  headerResponse : HeaderRange := .single 2
  headerCookie : HeaderRange := .single 3
  headerTransport : HeaderRange := .single 4
  deriving DecidableEq

def maxJunkSize : UInt16 := 1280
def maxJunkPacketCount : UInt16 := 128
def initialUdpWindow : Nat := 500

/-- A kind of handshake message as a receiver looks for it. -/
structure Candidate where
  kind : UInt8
  length : Nat
  junk : Nat
  header : HeaderRange

namespace AmneziaParams

/-- Padding on the sender's side does not alter the shape of messages. -/
def isVanilla (p : AmneziaParams) : Bool :=
  { p with contentPaddingAddition := none } = ({} : AmneziaParams)

def validate (p : AmneziaParams) : Except WireguardError Unit :=
  if p.isVanilla then .ok ()
  else if maxJunkSize < p.junkMaxSize ∨ maxJunkSize < p.initJunkSize ∨
      maxJunkSize < p.responseJunkSize ∨ maxJunkSize < p.cookieJunkSize ∨
      maxJunkSize < p.transportJunkSize then .error .invalidParameters
  else if maxJunkPacketCount < p.junkPacketCount then .error .invalidParameters
  else if 0 < p.junkPacketCount ∧ p.junkMaxSize < p.junkMinSize then .error .invalidParameters
  else if 0 < p.junkPacketCount ∧ p.junkMaxSize = 0 then .error .invalidParameters
  else if [p.headerInitiation, p.headerResponse, p.headerCookie, p.headerTransport].Pairwise
      fun a b => a.overlaps b = false then .ok ()
  else .error .invalidParameters

def junkFor (p : AmneziaParams) (kind : UInt8) : Nat :=
  if kind = typeInitiation then p.initJunkSize.toNat
  else if kind = typeResponse then p.responseJunkSize.toNat
  else if kind = typeCookieReply then p.cookieJunkSize.toNat
  else if kind = typeTransport then p.transportJunkSize.toNat
  else 0

/-- The header range chosen in `obfuscate_into_with_window`. -/
def headerFor (p : AmneziaParams) (kind : UInt8) : HeaderRange :=
  if kind = typeInitiation then p.headerInitiation
  else if kind = typeResponse then p.headerResponse
  else if kind = typeCookieReply then p.headerCookie
  else p.headerTransport

/-- Whether four bytes are a header of the range. -/
def headerMatches (p : AmneziaParams) (bytes : Bytes) (expected : HeaderRange) : Bool :=
  if p.isVanilla then bytes.head? = some (UInt8.ofNat expected.start)
  else expected.contains (fromLe bytes)

def classify (message : Bytes) : Except WireguardError UInt8 :=
  match messageType message with
  | none => .error .malformedMessage
  | some kind =>
    if kind = typeInitiation ∨ kind = typeResponse ∨ kind = typeCookieReply ∨
        kind = typeTransport then .ok kind
    else .error .unexpectedMessage

section

variable {m : Type → Type} [Monad m]

/-- A single header takes no random bytes. -/
def drawHeader (range : HeaderRange) (random : (n : Nat) → m (Block n)) : m Nat :=
  if range.isSingle then return range.start
  else do
    let draw ← random 4
    return range.pick (fromLe draw.1)

/-- The random bytes behind a message `size` bytes long. -/
def drawTrailer (window size : Nat) (random : (n : Nat) → m (Block n)) : m Bytes :=
  let available := window - size
  if 0 < available then do
    let draw ← random 4
    let trailer ← random (fromLe draw.1 % available)
    return trailer.1
  else return []

def obfuscateIntoWithWindow (p : AmneziaParams) (message : Bytes) (window : Nat)
    (random : (n : Nat) → m (Block n)) : Except WireguardError (m Bytes) := do
  let kind ← classify message
  return do
    let junk ← random (p.junkFor kind)
    let header ← drawHeader (p.headerFor kind) random
    let out := junk.1 ++ toLe 4 header ++ message.drop 4
    if p.randomTrailers ∧ kind ≠ typeTransport then do
      let trailer ← drawTrailer window out.length random
      return out ++ trailer
    else return out

/-- `obfuscate` and `obfuscate_into`. -/
def obfuscate (p : AmneziaParams) (message : Bytes) (random : (n : Nat) → m (Block n)) :
    Except WireguardError (m Bytes) :=
  p.obfuscateIntoWithWindow message initialUdpWindow random

end

/-- The kinds `handshake_body` and `receive_protected` try, in their order. -/
def candidates (p : AmneziaParams) : List Candidate :=
  [⟨typeInitiation, initiationLen, p.initJunkSize.toNat, p.headerInitiation⟩,
   ⟨typeResponse, responseLen, p.responseJunkSize.toNat, p.headerResponse⟩,
   ⟨typeCookieReply, cookieReplyLen, p.cookieJunkSize.toNat, p.headerCookie⟩]

/-- Whether a datagram has room for a message of a kind and no more than it may. -/
def fits (p : AmneziaParams) (candidate : Candidate) (datagram : Bytes) : Bool :=
  let expected := candidate.junk + candidate.length
  !(datagram.length < expected || (!p.randomTrailers && datagram.length ≠ expected))

/-- The body of a message of one kind. -/
def bodyOf (p : AmneziaParams) (datagram : Bytes) (candidate : Candidate) :
    Option (UInt8 × Bytes) :=
  if p.fits candidate datagram then
    let body := (datagram.drop candidate.junk).take candidate.length
    if p.headerMatches (body.take 4) candidate.header then some (candidate.kind, body) else none
  else none

def handshakeBody (p : AmneziaParams) (datagram : Bytes) : Except WireguardError (UInt8 × Bytes) :=
  match p.candidates.findSome? (p.bodyOf datagram) with
  | some found => .ok found
  | none => .error .unexpectedMessage

def deobfuscate (p : AmneziaParams) (datagram : Bytes) : Except WireguardError Bytes := do
  let (kind, body) ← p.handshakeBody datagram
  return header kind ++ body.drop 4

def isTransport (p : AmneziaParams) (datagram : Bytes) : Bool :=
  let junk := p.transportJunkSize.toNat
  junk + 4 ≤ datagram.length &&
    p.headerMatches ((datagram.drop junk).take 4) p.headerTransport

def deobfuscateTransport (p : AmneziaParams) (datagram : Bytes) : Except WireguardError Bytes :=
  let junk := p.transportJunkSize.toNat
  if !p.isTransport datagram || datagram.length < junk + 4 then .error .unexpectedMessage
  else .ok (header typeTransport ++ datagram.drop (junk + 4))

end AmneziaParams

/-! ## Header protection -/

/-- A key with a byte that is not zero. -/
structure HeaderProtectionKey where
  bytes : Key
  nonzero : bytes.1.any (· ≠ 0)
  deriving DecidableEq

namespace HeaderProtectionKey

variable [WireguardCrates]

def validatePrefixes (params : AmneziaParams) : Except WireguardError Unit :=
  if [params.initJunkSize, params.responseJunkSize, params.cookieJunkSize,
      params.transportJunkSize].any (· < 12) then .error .invalidParameters
  else .ok ()

/-- The key stream over a body, with the first twelve bytes before it as nonce. -/
def transform (key : HeaderProtectionKey) (before body : Bytes) : Except WireguardError Bytes := do
  let nonce ← readArray 12 before 0
  match WireguardCrates.keystream key.bytes nonce body.length with
  | some stream => return List.zipWith (· ^^^ ·) body stream.1
  | none => .error .malformedMessage

end HeaderProtectionKey

end Foxcore.Ref.Wireguard
