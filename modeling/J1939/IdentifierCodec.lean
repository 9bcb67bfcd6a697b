import J1939.Payloads

/-!
# Identifiers in both directions

`encode` and `getIdentifier` put the whole PGN of a frame into the identifier. `decode`
and the factory drop the data page bits of a PGN of PDU format 1, so only PGNs that read
back survive.
-/

namespace J1939

/-- Decoding an encoded frame into another one succeeds and restores the priority, the
source address and, for PDU format 1, the destination address. -/
def HeaderRestored (f g : Frame) (e : Encoded) : Prop :=
  ∀ beyond, ∃ g', (decode e.identifier e.length).run g (e.payload beyond) = (.ok (), g') ∧
    getPriority g' = getPriority f ∧ getSrcAddr g' = getSrcAddr f ∧
      (getPDUFormatGroup (getPGN f) = .pduFormat1 → getDstAddr g' = getDstAddr f)

/-- Encoding and decoding restores the header exactly when the PGN reads back and the
payload is accepted. -/
theorem headerRestored_iff {f g : Frame} {length : ℕ} {e : Encoded} (hf : f.Built)
    (hsame : f.SameType g) (hpgn : constructorAssertion (getPGN f)) (hlt : getPGN f ≤ 0x3FFFF)
    (hencode : encode f length = .ok e) :
    HeaderRestored f g e ↔ PgnReadsBack (getPGN f) ∧ f.Readable length := by
  obtain ⟨hprio, -, -, hid, -⟩ := encode_eq_ok_iff.mp hencode
  have hlookup : lookupPgn e.identifier = getPGN g ↔ PgnReadsBack (getPGN f) := by
    rw [hid, hsame.getPGN_eq]
    exact lookupPgn_iff hprio hpgn hlt
  have haccepts := Frame.accepts_payload_iff hf hsame hencode
  constructor
  · intro hrestored
    obtain ⟨g', hrun, -⟩ := hrestored fun _ => 0
    have hmatch := (header_decode hrun).1
    have hdecodes := Frame.decodesWhen_decode (hf.wellFormed hsame) hmatch e.length
      (e.payload fun _ => 0)
    refine ⟨hlookup.mp hmatch, (haccepts _).mp (hdecodes.ok_iff.mp ?_)⟩
    rw [hrun]
  · rintro ⟨hreads, hreadable⟩ beyond
    have hmatch := hlookup.mpr hreads
    have hdecodes := Frame.decodesWhen_decode (hf.wellFormed hsame) hmatch e.length
      (e.payload beyond)
    have hok := hdecodes.ok_iff.mpr ((haccepts beyond).mpr hreadable)
    obtain ⟨g', hrun⟩ : ∃ g', (decode e.identifier e.length).run g (e.payload beyond) =
        (.ok (), g') := ⟨_, Prod.ext hok rfl⟩
    obtain ⟨-, -, hheader⟩ := header_decode hrun
    obtain ⟨hpriority, hsrc, hdst⟩ :=
      receivedHeader_getIdentifier (b := base f) (header g) hprio hpgn hlt
    have hid' : (base f).getIdentifier = e.identifier := hid.symm
    rw [hid', ← hheader] at hpriority hsrc hdst
    exact ⟨g', hrun, hpriority, hsrc, hdst⟩

/-- A returned frame has the identifier it was decoded from exactly when the PGN of that
identifier reads back. -/
theorem getIdentifier_eq_iff {factory : J1939Factory} {id : UInt32} {length : ℕ} {mem : Memory}
    {retFrame : Frame} (hid : id < 0x20000000)
    (h : (factory.getJ1939Frame id length).value mem = .ok (some retFrame)) :
    getIdentifier retFrame = id ↔ PgnReadsBack (identifierPgn id) := by
  obtain ⟨frame, -, hrun⟩ := J1939Factory.exists_run_of_value h
  obtain ⟨hmatch, hpgn, hheader⟩ := header_decode hrun
  rw [← getIdentifier_receivedHeader_iff (header frame) hid, ← hheader, hmatch, ← hpgn]
  rfl

/-- A request for PGN 0xFEEC to address 0x20. -/
def vinRequest : Frame :=
  .request { RequestFrame.new with
    priority := 6, srcAddr := 0x10, dstAddr := 0x20, requestPGN := 0xFEEC }

/-- A frame of PDU format 1 in the second data page. -/
def dataPageFrame : Frame :=
  .generic (GenericFrame.registerSPN { pgn := 0x11200, priority := 6 } (.numeric
    { spec := engineSpeed 0, numSpec := engineSpeedSpec, value := 0x2EE0 }))

end J1939
