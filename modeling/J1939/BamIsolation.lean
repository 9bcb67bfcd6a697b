import J1939.BamSession
import J1939.Identifier

/-!
# Sources do not interfere

A reassembled frame carries the source address of its session, so the queue, seen
from one source, belongs to the link of that source as well.
-/

namespace J1939

open BamReassembler

/-- Every session has been opened by a frame of its own source address. -/
def SourcesMatch (r : BamReassembler) : Prop :=
  ∀ k b, r.fragments.find? k = some b → getSrcAddr b.cmFrame = k

/-- The identifier of a reassembled frame ends with the source address of its session. -/
theorem newId_mod (connFrame : TPCMFrame) :
    (newId connFrame).toNat % 256 = (getSrcAddr connFrame).toNat := by
  have hsrc := (getSrcAddr connFrame).toNat_lt
  have hhigh : ∀ x k : UInt32, 8 ≤ k.toNat → k.toNat < 32 → (x <<< k).toNat % 2 ^ 8 = 0 := by
    intro x k hk hk32
    rw [UInt32.toNat_shiftLeft, Nat.mod_eq_of_lt hk32, Nat.shiftLeft_eq,
      Nat.mod_mod_of_dvd _ (pow_dvd_pow 2 (by decide : 8 ≤ 32))]
    exact Nat.mod_eq_zero_of_dvd ((pow_dvd_pow 2 hk).mul_left _)
  have hlow : ((getSrcAddr connFrame).toUInt32 &&& srcAddrMask).toNat =
      (getSrcAddr connFrame).toNat % 2 ^ 8 :=
    Bits.toNat_low _ srcAddrMask (w := 8) rfl
  change (newId connFrame).toNat % 2 ^ 8 = _
  rw [newId, UInt32.toNat_or, UInt32.toNat_or, Nat.or_mod_two_pow, Nat.or_mod_two_pow,
    hhigh _ priorityOffset (by decide) (by decide), hhigh _ pgnOffset (by decide) (by decide),
    hlow]
  simp only [Nat.zero_or]
  omega

/-- A reassembled frame has the source address of its session. -/
theorem srcAddr_of_decoded {factory : J1939Factory} {connFrame : TPCMFrame} {length : ℕ}
    {mem : Memory} {frame : Frame}
    (h : (factory.getJ1939Frame (newId connFrame) length).value mem = .ok (some frame)) :
    getSrcAddr frame = getSrcAddr connFrame := by
  obtain ⟨proto, -, hrun⟩ := J1939Factory.exists_run_of_value h
  obtain ⟨-, -, hheader⟩ := header_decode hrun
  apply UInt8.toNat_inj.mp
  rw [getSrcAddr, hheader, receivedHeader_srcAddr_toNat, newId_mod]

/-- What a link delivers comes from its session. -/
theorem finishLink_srcAddr {factory : J1939Factory} {heap : Memory} {b : BAMFragments}
    {frame : Frame} (h : frame ∈ (finishLink factory heap b).delivered) :
    getSrcAddr frame = getSrcAddr b.cmFrame := by
  simp only [finishLink] at h
  split at h
  · cases h
  · next decodedFrame hdecoded =>
    cases h
    exact srcAddr_of_decoded hdecoded

/-- A link keeps to its source: its session and what it delivers have the source
address of the frames that move it. -/
theorem stepLink_srcAddr (factory : J1939Factory) (heap : Memory)
    {session : Option BAMFragments} {frame : Frame}
    (hsession : ∀ b ∈ session, getSrcAddr b.cmFrame = getSrcAddr frame) :
    (∀ b ∈ (stepLink factory heap session frame).session,
        getSrcAddr b.cmFrame = getSrcAddr frame) ∧
      ∀ f ∈ (stepLink factory heap session frame).delivered,
        getSrcAddr f = getSrcAddr frame := by
  rcases stepLink_cases factory heap session frame with
    ⟨c, hopens, hstep⟩ | ⟨b, dt, -, rfl, -, hstep⟩ | ⟨-, -, hstep⟩
  · obtain ⟨rfl, -, -⟩ := opens_eq_some_iff.mp hopens
    rw [hstep]
    refine ⟨fun b hb => ?_, fun f hf => by cases hf⟩
    cases hb
    rfl
  · have hb : getSrcAddr b.cmFrame = getSrcAddr frame := hsession b rfl
    rw [hstep]
    refine ⟨fun b' hb' => ?_, fun f hf => ?_⟩
    · rw [extendLink_session hb']
      exact hb
    · unfold extendLink at hf
      split_ifs at hf
      · exact (finishLink_srcAddr hf).trans hb
      · cases hf
  · rw [hstep]
    exact ⟨hsession, fun f hf => by cases hf⟩

/-- `handleFrame` keeps each session under the source address that opened it. -/
theorem handleFrame_sourcesMatch {factory : J1939Factory} {heap : Memory} {r : BamReassembler}
    (h : SourcesMatch r) (frame : Frame) :
    SourcesMatch (r.handleFrame factory heap frame).reassembler := by
  intro k b hb
  have hmove := handleFrame_movesLink factory heap r frame
  rw [hmove.session] at hb
  by_cases hk : k = getSrcAddr frame
  · rw [if_pos hk] at hb
    rw [hk]
    exact (stepLink_srcAddr factory heap fun b' hb' => h _ b' hb').1 b hb
  · rw [if_neg hk] at hb
    exact h k b hb

/-- What one source can see of a reassembler: its open session and its reassembled frames. -/
def seenFrom (source : UInt8) (r : BamReassembler) : Option BAMFragments × List Frame :=
  (r.fragments.find? source, r.reassembledFrames.filter fun f => getSrcAddr f = source)

/-- One frame handled, with an exception caught. -/
def handleStep (factory : J1939Factory) (r : BamReassembler) (input : Frame × Memory) :
    BamReassembler × Unit :=
  ((r.handleFrame factory input.2 input.1).reassembler, ())

/-- The reassembler as seen from its sources. -/
def bamSources (factory : J1939Factory) :
    Keyed BamReassembler (Frame × Memory) Unit UInt8 (Option BAMFragments × List Frame) where
  step := handleStep factory
  key input := some (getSrcAddr input.1)
  view := seenFrom
  part _ seen input :=
    let moved := stepLink factory input.2 seen.1 input.1
    ((moved.session, seen.2 ++ moved.delivered.toList), ())
  inv := SourcesMatch
  inv_step _ input h := handleFrame_sourcesMatch h input.1
  view_of_key r input k h hkey := by
    obtain rfl : getSrcAddr input.1 = k := Option.some.inj hkey
    have hmove := handleFrame_movesLink factory input.2 r input.1
    have hsrc := (stepLink_srcAddr factory input.2 (fun b hb => h (getSrcAddr input.1) b hb)).2
    simp only [handleStep, seenFrom, hmove.session, if_true, hmove.queue, List.filter_append]
    congr 3
    apply List.filter_eq_self.mpr
    intro f hf
    exact decide_eq_true (hsrc f (Option.mem_toList.mp hf))
  view_of_ne r input k h hkey := by
    have hne : k ≠ getSrcAddr input.1 := fun hk => hkey (congrArg some hk.symm)
    have hmove := handleFrame_movesLink factory input.2 r input.1
    have hsrc := (stepLink_srcAddr factory input.2 (fun b hb => h (getSrcAddr input.1) b hb)).2
    simp only [handleStep, seenFrom, hmove.session, if_neg hne, hmove.queue,
      List.filter_append]
    have hnone : ((stepLink factory input.2 (r.fragments.find? (getSrcAddr input.1))
        input.1).delivered.toList.filter fun f => getSrcAddr f = k) = [] := by
      apply List.filter_eq_nil_iff.mpr
      intro f hf
      rw [hsrc f (Option.mem_toList.mp hf)]
      simpa using hne.symm
    rw [hnone, List.append_nil]

/-- Handling a sequence of frames, with the exceptions caught. -/
def handleAll (factory : J1939Factory) (r : BamReassembler) (inputs : List (Frame × Memory)) :
    BamReassembler :=
  (runMachine (handleStep factory) r inputs).1

/-- The session and the reassembled frames of a source depend on its own frames only. -/
theorem seenFrom_handleAll (factory : J1939Factory) (source : UInt8)
    (inputs : List (Frame × Memory)) :
    seenFrom source (handleAll factory {} inputs) =
      seenFrom source (handleAll factory {}
        (inputs.filter fun input => getSrcAddr input.1 = source)) := by
  have hinv : (bamSources factory).inv {} := fun k b hb => by cases hb
  have hrun := (bamSources factory).view_run_inputsOf source hinv inputs
  have hinputs : (bamSources factory).inputsOf source inputs =
      inputs.filter fun input => getSrcAddr input.1 = source :=
    List.filter_congr fun input _ => by simp [bamSources]
  rw [hinputs] at hrun
  exact hrun

end J1939
