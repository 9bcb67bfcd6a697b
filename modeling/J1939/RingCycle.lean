import J1939.Lib.Cycle
import J1939.FrameRings

/-!
# The cycle of a ring

A ring sends its frames in their order again and again, however the passes of `run` and the
calls about other rings fall. The periods between the frames of one round add up to the period
of the ring: the last frame makes up for what the division loses.
-/

namespace J1939

/-! ### Positions and periods -/

/-- `getCurrentPeriod` at a position of a ring with so many frames. -/
def periodAt (period : UInt32) (count position : ℕ) : ℕ :=
  if position + 1 = count then period.toNat - period.toNat / count * (count - 1)
  else period.toNat / count

theorem CanFrameRing.getCurrentPeriod_eq {ring : CanFrameRing} (h : ring.frames ≠ []) :
    ring.getCurrentPeriod = periodAt ring.period ring.frames.length ring.currentPos := by
  rw [getCurrentPeriod, if_neg h, periodAt]

/-- One round takes the whole period. -/
theorem sum_periodAt (period : UInt32) {count : ℕ} (h : 0 < count) :
    ((List.range count).map (periodAt period count)).sum = period.toNat := by
  obtain ⟨last, rfl⟩ := Nat.exists_eq_add_of_lt h
  rw [Nat.zero_add]
  have hfirst : (List.range last).map (periodAt period (last + 1)) =
      List.replicate last (period.toNat / (last + 1)) := by
    rw [List.eq_replicate_iff]
    refine ⟨by simp, fun share hshare => ?_⟩
    obtain ⟨position, hposition, rfl⟩ := List.mem_map.mp hshare
    have hlt : position < last := List.mem_range.mp hposition
    rw [periodAt, if_neg (by omega)]
  have hlast : periodAt period (last + 1) last =
      period.toNat - period.toNat / (last + 1) * last := by simp [periodAt]
  have hle : period.toNat / (last + 1) * last ≤ period.toNat :=
    le_trans (Nat.mul_le_mul_left _ last.le_succ) (Nat.div_mul_le_self ..)
  rw [List.range_succ, List.map_append, List.sum_append, hfirst, List.sum_replicate, smul_eq_mul,
    List.map_singleton, List.sum_singleton, hlast, Nat.mul_comm last]
  omega

/-- The position after the next one. -/
theorem succ_mod_eq (k : ℕ) {count : ℕ} (h : 0 < count) :
    (k + 1) % count = if k % count + 1 = count then 0 else k % count + 1 := by
  have hlt : k % count < count := Nat.mod_lt k h
  rw [← Nat.mod_add_mod]
  split
  · next hlast => rw [hlast, Nat.mod_self]
  · next hlast => exact Nat.mod_eq_of_lt (by omega)

/-! ### What a ring sends in its turns -/

section Turns

variable {κ : Type} {ids : List UInt32} {period : UInt32} {k : ℕ}

/-- The identifier of a frame sent, with the periods before and after the shift. -/
def Transmission.seen (sent : Transmission) : Option UInt32 × ℕ × ℕ :=
  (sent.frame.map CanFrame.id, sent.period, sent.nextPeriod)

/-- What is seen of a ring in its turn with the given number. -/
def turn (ids : List UInt32) (period : UInt32) (k : ℕ) : Option UInt32 × ℕ × ℕ :=
  (ids[k % ids.length]?, periodAt period ids.length (k % ids.length),
    periodAt period ids.length ((k + 1) % ids.length))

/-- The ring has the identifiers and the period, and sends the frame of the given turn next. -/
structure CallbackRing.AtTurn (ids : List UInt32) (period : UInt32) (k : ℕ)
    (ring : CallbackRing κ) : Prop where
  ids_eq : ring.ids = ids
  period_eq : ring.period = period
  currentPos_eq : ring.currentPos = k % ids.length

/-- In a pass a ring waits, or sends the frame of its turn and goes on to the next. -/
theorem CallbackRing.AtTurn.tick {ring : CallbackRing κ} (h : ring.AtTurn ids period k)
    (hids : ids ≠ []) (now : Timespec) (answer : List UInt8) :
    ring.tick now answer = (ring, none) ∨
      ∃ sent, (ring.tick now answer).2 = some sent ∧ sent.ids = ids ∧
        sent.seen = turn ids period k ∧ (ring.tick now answer).1.AtTurn ids period (k + 1) := by
  obtain ⟨hasked, hscheduled, hpos⟩ := ring.askCallback_eq answer
  obtain ⟨hkeep, hperiod⟩ := ring.tick_entry now answer
  have hcount : 0 < ids.length := List.length_pos_iff.mpr hids
  set asked := ring.askCallback answer with hdef
  have hlength : asked.frames.length = ids.length := by
    rw [← h.ids_eq, ← hasked, CallbackRing.ids, List.length_map]
  have hframes : asked.frames ≠ [] := by
    rw [← List.length_pos_iff, hlength]
    exact hcount
  have hcurrent : asked.currentPos = k % ids.length := hpos.trans h.currentPos_eq
  have haskedPeriod : asked.period = period := (congrArg Prod.fst hscheduled).trans h.period_eq
  have hshifted : asked.shift.currentPos = (k + 1) % ids.length := by
    rw [CanFrameRing.currentPos_shift (by rw [hcurrent, hlength]; exact Nat.mod_lt k hcount),
      hcurrent, hlength, succ_mod_eq k hcount]
  have hframe : asked.getCurrentFrame.map CanFrame.id = ids[k % ids.length]? := by
    have haskedIds : asked.frames.map CanFrame.id = ids := hasked.trans h.ids_eq
    rw [CanFrameRing.getCurrentFrame, hcurrent, ← haskedIds, List.getElem?_map]
  unfold CallbackRing.tick at hkeep hperiod ⊢
  by_cases hdue : ring.isDue now
  · rw [if_pos hdue] at hkeep hperiod ⊢
    refine Or.inr ⟨_, rfl, hasked.trans h.ids_eq, ?_, hkeep.trans h.ids_eq,
      (congrArg Prod.fst hperiod).trans h.period_eq, hshifted⟩
    have hshift : asked.shift.frames ≠ [] := by rwa [CanFrameRing.frames_shift]
    rw [Transmission.seen, turn, ← hdef, hframe, CanFrameRing.getCurrentPeriod_eq hframes,
      CanFrameRing.getCurrentPeriod_eq hshift, CanFrameRing.frames_shift,
      CanFrameRing.period_shift, hshifted, hcurrent, hlength, haskedPeriod]
  · exact Or.inl (if_neg hdue)

theorem CallbackRing.tick_sent_ids {ring : CallbackRing κ} {now : Timespec}
    {answer : List UInt8} {sent : Transmission} (h : (ring.tick now answer).2 = some sent) :
    sent.ids = ring.ids := by
  unfold CallbackRing.tick at h
  by_cases hdue : ring.isDue now
  · rw [if_pos hdue] at h
    obtain rfl := Option.some.inj h
    exact (ring.askCallback_eq answer).1
  · rw [if_neg hdue] at h
    cases h

/-- The frames sent for the ring with the identifiers. -/
def sentFor (ids : List UInt32) (sent : List Transmission) : List Transmission :=
  sent.filter fun transmission => transmission.ids = ids

theorem sentFor_append (ids : List UInt32) (sent sent' : List Transmission) :
    sentFor ids (sent ++ sent') = sentFor ids sent ++ sentFor ids sent' := List.filter_append ..

/-- The ring with the identifiers has gone on from one turn to another, and what was sent for it
belongs to the turns between. -/
def GoesOn (ids : List UInt32) (period : UInt32) (k : ℕ) (rings : List (CallbackRing κ))
    (sent : List Transmission) : Prop :=
  ∃ count, (∃ ring ∈ rings, ring.AtTurn ids period (k + count)) ∧
    (sentFor ids sent).map Transmission.seen = (List.range' k count).map (turn ids period)

variable {rings rings' : List (CallbackRing κ)} {sent sent' : List Transmission}

theorem GoesOn.refl (h : ∃ ring ∈ rings, ring.AtTurn ids period k) :
    GoesOn ids period k rings [] := ⟨0, h, rfl⟩

theorem GoesOn.trans (h : GoesOn ids period k rings sent)
    (hnext : ∀ later, (∃ ring ∈ rings, ring.AtTurn ids period later) →
      GoesOn ids period later rings' sent') :
    GoesOn ids period k rings' (sent ++ sent') := by
  obtain ⟨count, hring, hsent⟩ := h
  obtain ⟨count', hring', hsent'⟩ := hnext (k + count) hring
  refine ⟨count + count', by rwa [← Nat.add_assoc], ?_⟩
  rw [sentFor_append, List.map_append, hsent, hsent', ← List.map_append, List.range'_append_1]

/-- A ring sends nothing for other identifiers. -/
theorem sentFor_tick {ring : CallbackRing κ} (h : ring.ids ≠ ids) (now : Timespec)
    (answer : List UInt8) : sentFor ids (ring.tick now answer).2.toList = [] := by
  cases htick : (ring.tick now answer).2 with
  | none => rfl
  | some sent =>
    have hids : sent.ids ≠ ids := (ring.tick_sent_ids htick).trans_ne h
    simp [sentFor, hids]

/-- Nothing is sent for identifiers that no ring has. -/
theorem sentFor_passRings {now : Timespec} {answer : ℕ → List UInt8}
    (h : ∀ ring ∈ rings, ring.ids ≠ ids) :
    sentFor ids (CallbackSender.passRings now answer rings).2 = [] := by
  induction rings generalizing answer with
  | nil => rfl
  | cons ring rings ih =>
    obtain ⟨hring, hrings⟩ := List.forall_mem_cons.mp h
    rw [CallbackSender.passRings, sentFor_append, sentFor_tick hring, ih hrings, List.append_nil]

/-- In a pass only the ring with the identifiers sends for them. -/
theorem GoesOn.passRings (hids : ids ≠ []) (now : Timespec) (answer : ℕ → List UInt8)
    (hnodup : (rings.map CallbackRing.ids).Nodup)
    (h : ∃ ring ∈ rings, ring.AtTurn ids period k) :
    GoesOn ids period k (CallbackSender.passRings now answer rings).1
      (CallbackSender.passRings now answer rings).2 := by
  induction rings generalizing answer with
  | nil =>
    obtain ⟨ring, hring, -⟩ := h
    cases hring
  | cons ring rings ih =>
    rw [List.map_cons, List.nodup_cons] at hnodup
    rw [CallbackSender.passRings]
    by_cases hfirst : ring.ids = ids
    · have hothers : ∀ other ∈ rings, other.ids ≠ ids := fun other hother hsame =>
        hnodup.1 (List.mem_map.mpr ⟨other, hother, hsame.trans hfirst.symm⟩)
      have hturn : ring.AtTurn ids period k := by
        obtain ⟨current, hcurrent, hturn⟩ := h
        rcases List.mem_cons.mp hcurrent with rfl | hcurrent
        · exact hturn
        · exact absurd hturn.ids_eq (hothers current hcurrent)
      rcases hturn.tick hids now (answer 0) with htick | ⟨sent, hsent, hsentIds, hseen, hnext⟩
      · refine ⟨0, ⟨ring, by rw [htick]; exact List.mem_cons_self, hturn⟩, ?_⟩
        rw [htick, sentFor_append, sentFor_passRings hothers]
        rfl
      · refine ⟨1, ⟨_, List.mem_cons_self, hnext⟩, ?_⟩
        rw [hsent, sentFor_append, sentFor_passRings hothers]
        simp [sentFor, hsentIds, hseen]
    · have hlater : ∃ ring ∈ rings, ring.AtTurn ids period k := by
        obtain ⟨current, hcurrent, hturn⟩ := h
        rcases List.mem_cons.mp hcurrent with rfl | hcurrent
        · exact absurd hturn.ids_eq hfirst
        · exact ⟨current, hcurrent, hturn⟩
      obtain ⟨count, ⟨current, hcurrent, hturn⟩, hsent⟩ :=
        ih (fun index => answer (index + 1)) hnodup.2 hlater
      refine ⟨count, ⟨current, List.mem_cons_of_mem _ hcurrent, hturn⟩, ?_⟩
      rw [sentFor_append, sentFor_tick hfirst, List.nil_append, hsent]

variable {sender : CallbackSender κ} {m : List UInt32 → Option (UInt32 × Option κ)}

theorem GoesOn.passes (hids : ids ≠ []) (hsender : sender.Schedules m)
    (h : ∃ ring ∈ sender.frameRings, ring.AtTurn ids period k) (ps : List Pass) :
    GoesOn ids period k (sender.passes ps).1.frameRings (sender.passes ps).2 := by
  induction ps generalizing sender k with
  | nil => exact .refl h
  | cons p ps ih =>
    have hfirst := GoesOn.passRings hids p.now p.answer hsender.represents.nodup h
    have hkept : (sender.pass p).1.Schedules m := hsender.passes [p]
    exact hfirst.trans fun later hlater => ih hkept hlater

/-- The ring that was scheduled is in its first turn. -/
theorem exists_atTurn_sendFrames {frames : List CanFrame} (hframes : frames ≠ [])
    (callback : Option κ) (between : List Pass) :
    ∃ ring ∈ (sender.sendFrames frames period callback between).1.frameRings,
      ring.AtTurn (frames.map CanFrame.id) period 0 := by
  refine ⟨⟨{ frames := frames, period := period }, callback⟩, ?_, rfl, rfl, ?_⟩
  · rw [CallbackSender.sendFrames, if_neg hframes]
    exact List.mem_append_right _ (List.mem_singleton_self _)
  · exact (Nat.zero_mod _).symm

/-- Erasing a ring with other identifiers leaves the ring in its turn. -/
theorem exists_atTurn_eraseFound {other : List UInt32} (hother : other ≠ ids)
    (hsender : sender.Schedules m) (between : List Pass)
    (h : ∃ ring ∈ (sender.passes between).1.frameRings, ring.AtTurn ids period k) :
    ∃ ring ∈ (sender.passes between).1.eraseFound
        (CallbackSender.findRing other sender.frameRings 0), ring.AtTurn ids period k := by
  obtain ⟨ring, hring, hturn⟩ := h
  have hnodup := (hsender.passes between).represents.nodup
  refine ⟨ring, ?_, hturn⟩
  rw [CallbackSender.eraseFound_passes]
  exact (List.mem_eraseP_key hnodup).mpr ⟨hring, hturn.ids_eq.trans_ne hother.symm⟩

theorem GoesOn.sendFrames (hids : ids ≠ []) (hsender : sender.Schedules m)
    (h : ∃ ring ∈ sender.frameRings, ring.AtTurn ids period k) {frames : List CanFrame}
    (hother : frames.map CanFrame.id ≠ ids) (otherPeriod : UInt32) (callback : Option κ)
    (between : List Pass) :
    GoesOn ids period k (sender.sendFrames frames otherPeriod callback between).1.frameRings
      (sender.sendFrames frames otherPeriod callback between).2.1 := by
  by_cases hframes : frames = []
  · rw [CallbackSender.sendFrames, if_pos hframes]
    exact .refl h
  · obtain ⟨count, hring, hsent⟩ := GoesOn.passes hids hsender h between
    rw [CallbackSender.sendFrames, if_neg hframes]
    obtain ⟨ring, hmem, hturn⟩ := exists_atTurn_eraseFound hother hsender between hring
    exact ⟨count, ⟨ring, List.mem_append_left _ hmem, hturn⟩, hsent⟩

theorem GoesOn.unSendFrames (hids : ids ≠ []) (hsender : sender.Schedules m)
    (h : ∃ ring ∈ sender.frameRings, ring.AtTurn ids period k) {other : List UInt32}
    (hother : other ≠ ids) (between : List Pass) :
    GoesOn ids period k (sender.unSendFrames other between).1.frameRings
      (sender.unSendFrames other between).2 := by
  obtain ⟨count, hring, hsent⟩ := GoesOn.passes hids hsender h between
  exact ⟨count, exists_atTurn_eraseFound hother hsender between hring, hsent⟩

/-- A call about other identifiers, or a pass, lets the ring go on. -/
theorem GoesOn.perform (hids : ids ≠ []) (hsender : sender.Schedules m)
    (h : ∃ ring ∈ sender.frameRings, ring.AtTurn ids period k) {call : RingCall κ}
    (hcall : call.ids? ≠ some ids) :
    GoesOn ids period k (sender.perform call).1.frameRings
      (sender.perform call).2.transmissions := by
  cases call with
  | sendFrame frame otherPeriod callback between =>
    have hother : [frame].map CanFrame.id ≠ ids := fun hsame => hcall (congrArg some hsame)
    exact .sendFrames hids hsender h hother ..
  | sendFrames frames otherPeriod callback between =>
    exact .sendFrames hids hsender h (fun hsame => hcall (congrArg some hsame)) ..
  | unSendFrame id between =>
    exact .unSendFrames hids hsender h (fun hsame => hcall (congrArg some hsame)) ..
  | unSendFrames other between =>
    exact .unSendFrames hids hsender h (fun hsame => hcall (congrArg some hsame)) ..
  | pass p => exact .passRings hids p.now p.answer hsender.represents.nodup h

/-- The frames sent in a run, in their order. -/
def transmitted (log : List (RingCall κ × CallOutcome)) : List Transmission :=
  log.flatMap fun entry => entry.2.transmissions

/-- While no call is about its identifiers, the ring goes on. -/
theorem GoesOn.run (hids : ids ≠ []) (hsender : sender.Schedules m)
    (h : ∃ ring ∈ sender.frameRings, ring.AtTurn ids period k) {calls : List (RingCall κ)}
    (hcalls : ∀ call ∈ calls, call.ids? ≠ some ids) :
    GoesOn ids period k (runMachine CallbackSender.perform sender calls).1.frameRings
      (transmitted (runMachine CallbackSender.perform sender calls).2) := by
  induction calls generalizing sender m k with
  | nil => exact .refl h
  | cons call calls ih =>
    obtain ⟨hcall, hrest⟩ := List.forall_mem_cons.mp hcalls
    exact (GoesOn.perform hids hsender h hcall).trans fun later hlater =>
      ih (hsender.perform call) hlater hrest

/-- Right after a send of frames the ring for them is in its first turn. -/
theorem exists_atTurn_send {send : RingCall κ} {callback : Option κ}
    (hsend : send.ids? = some ids) (hasks : send.asksFor = some (period, callback))
    (hids : ids ≠ []) :
    ∃ ring ∈ (sender.perform send).1.frameRings, ring.AtTurn ids period 0 := by
  cases send with
  | sendFrame frame _ _ between =>
    obtain rfl := Option.some.inj hsend
    obtain ⟨rfl, rfl⟩ := Prod.mk.inj (Option.some.inj hasks)
    exact exists_atTurn_sendFrames (List.cons_ne_nil frame []) ..
  | sendFrames frames _ _ between =>
    obtain rfl := Option.some.inj hsend
    obtain ⟨rfl, rfl⟩ := Prod.mk.inj (Option.some.inj hasks)
    exact exists_atTurn_sendFrames (fun hnil => hids (by rw [hnil, List.map_nil])) ..
  | unSendFrame id between => cases hasks
  | unSendFrames other between => cases hasks
  | pass p => cases hasks

/-- Over any round of turns either period adds up to the period of the ring. -/
theorem sum_turns (hids : ids ≠ []) (period : UInt32) (k : ℕ) :
    (((List.range' k ids.length).map (turn ids period)).map fun seen => seen.2.1).sum =
        period.toNat ∧
      (((List.range' k ids.length).map (turn ids period)).map fun seen => seen.2.2).sum =
        period.toNat := by
  have hcount : 0 < ids.length := List.length_pos_iff.mpr hids
  have hround : ∀ start, ((List.range' start ids.length).map
      fun position => periodAt period ids.length (position % ids.length)).sum = period.toNat := by
    intro start
    have hperiodic : Function.Periodic
        (fun position => periodAt period ids.length (position % ids.length)) ids.length :=
      fun position => by simp only [Nat.add_mod_right]
    rw [List.sum_map_range'_of_periodic hperiodic, ← sum_periodAt period hcount]
    congr 1
    refine List.map_congr_left fun position hposition => ?_
    rw [Nat.mod_eq_of_lt (List.mem_range.mp hposition)]
  constructor
  · rw [List.map_map]
    exact hround k
  · rw [List.map_map, ← hround (k + 1), List.range'_eq_map_range, List.range'_eq_map_range,
      List.map_map, List.map_map]
    congr 1
    refine List.map_congr_left fun position _ => ?_
    simp only [Function.comp_apply, turn]
    congr 2
    omega

end Turns

/-- A ring that is not replaced or removed sends its frames over and over in their order. Its
position stays inside the ring, and the periods of any round add up to that of the ring. -/
theorem ring_cycles {κ : Type} {send : RingCall κ} {ids : List UInt32} {period : UInt32}
    {callback : Option κ} (hsend : send.ids? = some ids)
    (hasks : send.asksFor = some (period, callback)) (hids : ids ≠ [])
    (before : List (RingCall κ)) {calls : List (RingCall κ)}
    (hcalls : ∀ call ∈ calls, call.ids? ≠ some ids) :
    let sender := (runMachine CallbackSender.perform {} (before ++ [send])).1
    let run := runMachine CallbackSender.perform sender calls
    let sent := sentFor ids (transmitted run.2)
    (∀ k transmission, sent[k]? = some transmission →
        ∃ frame, transmission.frame = some frame ∧ ids[k % ids.length]? = some frame.id) ∧
      (∃ ring ∈ run.1.frameRings, ring.ids = ids) ∧
      (∀ ring ∈ run.1.frameRings, ring.ids = ids → ring.currentPos < ids.length) ∧
      ∀ k, k + ids.length ≤ sent.length →
        (((sent.drop k).take ids.length).map Transmission.period).sum = period.toNat ∧
          (((sent.drop k).take ids.length).map Transmission.nextPeriod).sum = period.toNat := by
  intro sender run sent
  have hsender : ∃ ring ∈ sender.frameRings, ring.AtTurn ids period 0 := by
    simp only [sender, runMachine_append, runMachine_cons, runMachine_nil]
    exact exists_atTurn_send hsend hasks hids
  have hschedules := CallbackSender.schedules_run (before ++ [send])
  obtain ⟨count, ⟨ring, hring, hturn⟩, hsent⟩ := GoesOn.run hids hschedules hsender hcalls
  have hcount : 0 < ids.length := List.length_pos_iff.mpr hids
  have hseen : sent.map Transmission.seen = (List.range' 0 count).map (turn ids period) := hsent
  have hlength : sent.length = count := by simpa using congrArg List.length hseen
  refine ⟨fun k transmission hk => ?_, ⟨ring, hring, hturn.ids_eq⟩, fun other hother hsame => ?_,
    fun k hk => ?_⟩
  · -- the frame of the turn
    have hlt : k < count := hlength ▸ (List.getElem?_eq_some_iff.mp hk).1
    have hget := congrArg (fun seen => seen[k]?) hseen
    simp only [List.getElem?_map, hk, List.getElem?_range' hlt, Option.map_some] at hget
    have hturnSeen : transmission.seen = turn ids period (0 + 1 * k) := Option.some.inj hget
    have hframe : transmission.frame.map CanFrame.id = ids[k % ids.length]? := by
      rw [Nat.zero_add, Nat.one_mul] at hturnSeen
      exact congrArg Prod.fst hturnSeen
    rw [List.getElem?_eq_getElem (Nat.mod_lt k hcount)] at hframe
    obtain ⟨frame, hsome, hid⟩ := Option.map_eq_some_iff.mp hframe
    exact ⟨frame, hsome, by rw [List.getElem?_eq_getElem (Nat.mod_lt k hcount), hid]⟩
  · -- no other ring has the identifiers
    have hnodup : (run.1.frameRings.map CallbackRing.ids).Nodup := by
      have hrun := CallbackSender.schedules_run (before ++ [send] ++ calls)
      rw [runMachine_append] at hrun
      exact hrun.represents.nodup
    have heq : other = ring :=
      List.inj_on_of_nodup_map hnodup hother hring (hsame.trans hturn.ids_eq.symm)
    rw [heq, hturn.currentPos_eq]
    exact Nat.mod_lt _ hcount
  · -- a round
    have hround : ((sent.drop k).take ids.length).map Transmission.seen =
        (List.range' k ids.length).map (turn ids period) := by
      rw [List.map_take, List.map_drop, hseen, ← List.map_drop, ← List.map_take,
        List.drop_range', List.take_range'_of_length_ge (by omega), Nat.zero_add, Nat.mul_one]
    obtain ⟨hperiod, hnext⟩ := sum_turns hids period k
    rw [← hround, List.map_map] at hperiod hnext
    exact ⟨hperiod, hnext⟩

/-- Two frames within three milliseconds. -/
def twoFrames : RingCall Unit := .sendFrames [⟨1, []⟩, ⟨2, []⟩] 3 none []

/-- Passes of `run` after one, two, three and four seconds. -/
def fourPasses : List (RingCall Unit) :=
  [1, 2, 3, 4].map fun second => .pass ⟨⟨second, 0⟩, fun _ => []⟩

theorem twoFrames_cycle :
    let sender := (runMachine CallbackSender.perform {} ([] ++ [twoFrames])).1
    let sent := sentFor [1, 2] (transmitted (runMachine CallbackSender.perform sender fourPasses).2)
    sent.map Transmission.period = [1, 2, 1, 2] ∧
      (((sent.drop 1).take 2).map Transmission.period).sum = 3 := by
  refine ⟨by decide, ?_⟩
  have hcycle := @ring_cycles Unit twoFrames [1, 2] 3 none rfl rfl (by decide) [] fourPasses
    (by decide)
  exact (hcycle.2.2.2 1 (by decide)).1

end J1939
