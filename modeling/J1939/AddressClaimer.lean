import J1939.IdentifierCodec

/-!
# Claiming an address

`AddressClaimer` claims its preferred addresses one after the other until nobody with a smaller
NAME objects, and defends the one that it has. Its thread is cut at the calls that other
threads can come between: flushing and reading the mailbox, and sending a frame.
-/

namespace J1939

/-- Where the thread of an `AddressClaimer` stands. -/
inductive ThreadPoint
  /-- `flush` in `claimAddressStep`. -/
  | flush
  /-- `sendFrame` in `tryObtainAddress`, and how many addresses have been taken from the queue. -/
  | claim (address : UInt8) (pos : ℕ)
  /-- `read` in `tryObtainAddress`. -/
  | await (address : UInt8) (pos : ℕ) (timeToWait : ℤ)
  /-- `sendFrame` in `claimAddressStep`. -/
  | cannotClaim
  /-- `read` in the inner loop of `exec`. -/
  | listen
  /-- `sendFrame` in the inner loop of `exec`, and in `processAddressClaim`. -/
  | reply
  deriving DecidableEq, Repr

namespace ThreadPoint

/-- The thread is in the inner loop of `exec`. -/
def inInnerLoop : ThreadPoint → Bool
  | listen => true
  | reply => true
  | _ => false

end ThreadPoint

/-- `AddressClaimer`, with its thread. -/
structure AddressClaimer where
  frames : SortedMap UInt32 Frame := ∅
  preferred : List UInt8
  ecuName : EcuName
  currentSrc : UInt8 := invalidAddress
  point : ThreadPoint := .flush

/-- The frame that claims an address for a NAME. -/
def claimFrame (ecuName : EcuName) (address : UInt8) : AddressClaimFrame :=
  setDstAddr (setSrcAddr (AddressClaimFrame.ofEcuName ecuName) address) broadcastAddress

namespace AddressClaimer

/-- `AddressClaimer::receive`. -/
def receive (c : AddressClaimer) (frame : Frame) : AddressClaimer :=
  { c with frames := c.frames.insert (getIdentifier frame) frame }

/-- `AddressClaimer::read`: without a frame in the mailbox it has timed out. -/
def read (c : AddressClaimer) : Option Frame × AddressClaimer :=
  match c.frames.first? with
  | some (id, frame) => (some frame, { c with frames := c.frames.erase id })
  | none => (none, c)

/-- The loop of `claimAddressStep` over the preferred addresses, after `pos` of them. -/
def nextAddress (c : AddressClaimer) (pos : ℕ) : AddressClaimer :=
  match c.preferred with
  | address :: rest =>
    if pos < c.preferred.length then
      { c with preferred := rest ++ [address], point := .claim address (pos + 1) }
    else { c with point := .cannotClaim }
  | [] => { c with point := .cannotClaim }

/-- The end of `tryObtainAddress` without an objection. -/
def obtain (c : AddressClaimer) (address : UInt8) : AddressClaimer :=
  { c with currentSrc := address, point := .listen }

/-- The loop of `tryObtainAddress`, after `read` has returned. Frames that are no claims only
take up time. -/
def afterAwait (c : AddressClaimer) (address : UInt8) (pos : ℕ) (timeToWait : ℤ) (elapsed : ℕ) :
    Option Frame → AddressClaimer
  | some (.addressClaim frame) =>
    if getSrcAddr frame = address then
      if c.ecuName.getValue < frame.ecuName.getValue then { c with point := .claim address pos }
      else c.nextAddress pos
    else { c with point := .await address pos 250 }
  | some _ =>
    if timeToWait - elapsed > 0 then
      { c with point := .await address pos (timeToWait - elapsed) }
    else c.obtain address
  | none => c.obtain address

/-- The inner loop of `exec`, after `read` has returned: `processAddressClaim` for a claim. When
it returns false, the thread goes back to `claimAddressStep`. -/
def afterListen (c : AddressClaimer) : Option Frame → AddressClaimer
  | some (.request frame) =>
    if frame.requestPGN = addressClaimPgn ∧
        (getDstAddr frame = broadcastAddress ∨ getDstAddr frame = c.currentSrc) then
      { c with point := .reply }
    else c
  | some (.addressClaim frame) =>
    if getSrcAddr frame ≠ invalidAddress ∧ getSrcAddr frame = c.currentSrc then
      if c.ecuName.getValue < frame.ecuName.getValue then { c with point := .reply }
      else { c with currentSrc := invalidAddress, point := .flush }
    else c
  | _ => c

/-- The next step of the thread, and the frame that it sends. Reading takes `elapsed`
milliseconds. -/
def threadStep (elapsed : ℕ) (c : AddressClaimer) : AddressClaimer × Option AddressClaimFrame :=
  match c.point with
  | .flush => (nextAddress { c with frames := ∅ } 0, none)
  | .claim address pos =>
    ({ c with point := .await address pos 250 }, some (claimFrame c.ecuName address))
  | .await address pos timeToWait =>
    (c.read.2.afterAwait address pos timeToWait elapsed c.read.1, none)
  | .cannotClaim => ({ c with point := .listen }, some (claimFrame c.ecuName invalidAddress))
  | .listen => (c.read.2.afterListen c.read.1, none)
  | .reply => ({ c with point := .listen }, some (claimFrame c.ecuName c.currentSrc))

end AddressClaimer

/-! ### Identifiers -/

section Identifiers

variable (n n' : EcuName) (a a' : UInt8)

theorem header_claimFrame : header (claimFrame n a) =
    { srcAddr := a, dstAddr := broadcastAddress, name := "Address Claim" } := by
  have hformat : getPDUFormatGroup addressClaimPgn = .pduFormat1 := by decide
  rw [claimFrame, setDstAddr]
  exact (congrArg header (if_pos hformat)).trans rfl

@[simp] theorem getSrcAddr_claimFrame : getSrcAddr (claimFrame n a) = a := by
  rw [getSrcAddr, header_claimFrame]

/-- The identifier of a claim is built from valid fields. -/
theorem base_claimFrame_valid : (base (claimFrame n a)).priority ≤ 7 ∧
    constructorAssertion (base (claimFrame n a)).pgn ∧ (base (claimFrame n a)).pgn ≤ 0x3FFFF := by
  have hprio : (base (claimFrame n a)).priority = 0 := by
    rw [base, header_claimFrame]
  have hpgn : (base (claimFrame n a)).pgn = addressClaimPgn := by
    rw [base]
    rfl
  rw [hprio, hpgn]
  decide

variable {n n' a a'}

/-- Claims of two addresses have different identifiers. -/
theorem getIdentifier_claimFrame_inj
    (h : getIdentifier (claimFrame n a) = getIdentifier (claimFrame n' a')) : a = a' := by
  have hread : ∀ (n : EcuName) (a : UInt8),
      (receivedHeader {} (getIdentifier (claimFrame n a))).srcAddr = a := by
    intro n a
    obtain ⟨hprio, hassert, hle⟩ := base_claimFrame_valid n a
    have hsrc := (receivedHeader_getIdentifier {} hprio hassert hle).2.1
    exact hsrc.trans (getSrcAddr_claimFrame n a)
  rw [← hread n a, h, hread n' a']

/-- A request has not the identifier of a claim. -/
theorem getIdentifier_request_ne {frame : RequestFrame} (hprio : getPriority frame ≤ 7) :
    getIdentifier frame ≠ getIdentifier (claimFrame n a) := by
  have hvalid : constructorAssertion requestPgn ∧ requestPgn ≤ 0x3FFFF := by decide
  have hrequest : (getIdentifier frame).toNat / 65536 % 256 = requestPgn.toNat / 256 % 256 :=
    @pduFormat_getIdentifier (base frame) hprio hvalid.1 hvalid.2
  have hclaim : (getIdentifier (claimFrame n a)).toNat / 65536 % 256 =
      addressClaimPgn.toNat / 256 % 256 := by
    obtain ⟨hprio, hassert, hle⟩ := base_claimFrame_valid n a
    exact pduFormat_getIdentifier hprio hassert hle
  intro h
  rw [h] at hrequest
  exact absurd (hrequest.symm.trans hclaim) (by decide)

end Identifiers

end J1939
