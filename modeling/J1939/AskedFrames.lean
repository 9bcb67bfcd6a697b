import J1939.PeriodicSending

/-!
# The frames that a user asked for

The calls of `j1939Sender` on one interface, and the rings they leave there. A short frame
is looked for under its identifier, a long one under those of its connection frame and its
packets: its source, its priority and the number of packets.
-/

namespace J1939

open BamReassembler BamFragmenter CommonCanSender

/-- The CAN frames of a frame. -/
def encodeFrames (frame : Frame) : Except J1939Exception (List CanFrame) :=
  if getDataLength frame > maxCanDataSize then encodeBam frame
  else do
    let canFrame ← encodeCan frame
    return [canFrame]

/-- A frame that can be sent. -/
structure SendableFrame where
  frame : Frame
  canFrames : List CanFrame
  encodes : encodeFrames frame = .ok canFrames
  le_max : getDataLength frame ≤ 1785

namespace SendableFrame

/-- The identifier of the frame. -/
def id (f : SendableFrame) : UInt32 := getIdentifier f.frame

end SendableFrame

/-- A call on the interface, or a pass of the sender's thread. -/
inductive SenderCall
  | send (f : SendableFrame) (period : UInt32)
  | unsend (f : SendableFrame)
  | pass (now : Timespec)

namespace SenderCall

/-- The call is about a frame with the identifier. -/
def concerns (id : UInt32) : SenderCall → Bool
  | send f _ => f.id = id
  | unsend f => f.id = id
  | pass _ => false

end SenderCall

/-- The sender behind a call. -/
def CommonCanSender.perform (sender : CommonCanSender) :
    SenderCall → Except J1939Exception CommonCanSender
  | .send f period => do
    let (sender', _) ← sendFrameThroughInterface sender f.frame period
    return sender'
  | .unsend f => unsendFrameThroughInterface sender f.frame
  | .pass now => .ok ⟨(passRings now sender.frameRings).1⟩

/-- The sender behind a list of calls. -/
def CommonCanSender.performAll : CommonCanSender → List SenderCall →
    Except J1939Exception CommonCanSender
  | sender, [] => .ok sender
  | sender, call :: calls => do
    let sender' ← sender.perform call
    sender'.performAll calls

/-! ### What was asked for -/

/-- The last call about the identifier was to send the frame with a period. -/
def Asked (calls : List SenderCall) (f : SendableFrame) (period : UInt32) : Prop :=
  period ≠ 0 ∧ calls.reverse.find? (SenderCall.concerns f.id) = some (.send f period)

/-- The rings are those of the frames asked for, one ring for each identifier. -/
def AsAsked (calls : List SenderCall) (sender : CommonCanSender) : Prop :=
  ∃ asked : List (SendableFrame × UInt32),
    (asked.map fun a => a.1.id).Nodup ∧
    (∀ f period, (f, period) ∈ asked ↔ Asked calls f period) ∧
    (sender.frameRings.map fun ring => (ring.frames, ring.period)) =
      asked.map fun a => (a.1.canFrames, a.2)

/-- The rings of two frames have the same identifiers. -/
def SameRing (f g : Frame) : Prop :=
  if maxCanDataSize < getDataLength f then
    maxCanDataSize < getDataLength g ∧ getSrcAddr f = getSrcAddr g ∧
      getPriority f = getPriority g ∧
        packetCount (getDataLength f) = packetCount (getDataLength g)
  else getDataLength g ≤ maxCanDataSize ∧ getIdentifier f = getIdentifier g

instance (f g : Frame) : Decidable (SameRing f g) := inferInstanceAs (Decidable (ite _ _ _))

/-- Among the frames asked for, the ring of the frame is that of its identifier. -/
def Distinct (calls : List SenderCall) (f : SendableFrame) : Prop :=
  ∀ g period, Asked calls g period → (SameRing g.frame f.frame ↔ g.id = f.id)

/-- The sender does what the user asks for, and tells for a frame that the rings tell apart
whether it is being sent. -/
structure Serves (calls : List SenderCall) (sender : CommonCanSender) : Prop where
  rings : AsAsked calls sender
  told : ∀ f, Distinct calls f → ∃ sent, isFrameSent sender f.frame = .ok sent ∧
    (sent = true ↔ ∃ g period, Asked calls g period ∧ g.id = f.id)

/-- The call does what the user asks for: it is about a frame that the rings tell apart, and
only a short frame that is not being sent is sent once. -/
def SenderCall.Clear (calls : List SenderCall) : SenderCall → Prop
  | send f period =>
    if period = 0 then
      getDataLength f.frame ≤ maxCanDataSize ∧ ∀ g period, Asked calls g period → g.id ≠ f.id
    else Distinct calls f
  | unsend f => Distinct calls f
  | pass _ => True

/-- Every call is clear at its turn. -/
def AllClear : List SenderCall → List SenderCall → Prop
  | _, [] => True
  | done, call :: calls => call.Clear done ∧ AllClear (done ++ [call]) calls

/-! ### The rings of single frames -/

namespace SendableFrame

variable (f : SendableFrame)

theorem exists_message (hlong : maxCanDataSize < getDataLength f.frame) :
    ∃ m : Message, m.frame = f.frame ∧ f.canFrames = m.canFrames := by
  have hencodes := f.encodes
  rw [encodeFrames, if_pos hlong] at hencodes
  exact J1939.exists_message hencodes hlong f.le_max

theorem exists_canFrame (hshort : ¬maxCanDataSize < getDataLength f.frame) :
    ∃ canFrame, encodeCan f.frame = .ok canFrame ∧ f.canFrames = [canFrame] ∧
      canFrame.id = f.id := by
  have hencodes := f.encodes
  rw [encodeFrames, if_neg hshort] at hencodes
  cases hencode : encode f.frame (getDataLength f.frame) with
  | error e =>
    rw [encodeCan, hencode] at hencodes
    cases hencodes
  | ok encoded =>
    rw [encodeCan_eq hencode] at hencodes ⊢
    obtain ⟨-, -, -, hid, -⟩ := encode_eq_ok_iff.mp hencode
    exact ⟨encoded.toCan, rfl, (Except.ok.inj hencodes).symm, hid⟩

/-- The rings of a frame are looked for under the identifiers of its CAN frames. -/
theorem sentIds_eq : sentIds f.frame = .ok (f.canFrames.map CanFrame.id) := by
  unfold sentIds
  by_cases hlong : maxCanDataSize < getDataLength f.frame
  · obtain ⟨m, hframe, hcanFrames⟩ := f.exists_message hlong
    obtain ⟨fragmenter, hfragment, hconn, hpackets⟩ := m.exists_fragmenter
    rw [if_pos hlong, ← hframe, hfragment, hcanFrames, Message.canFrames]
    simp only [hconn, hpackets, List.map_cons, List.map_map]
    rfl
  · obtain ⟨canFrame, -, hcanFrames, hid⟩ := f.exists_canFrame hlong
    rw [if_neg hlong, hcanFrames, List.map_singleton, hid]
    rfl

theorem canFrames_ne_nil : f.canFrames ≠ [] := by
  by_cases hlong : maxCanDataSize < getDataLength f.frame
  · obtain ⟨m, -, hcanFrames⟩ := f.exists_message hlong
    rw [hcanFrames, Message.canFrames]
    exact List.cons_ne_nil _ _
  · obtain ⟨canFrame, -, hcanFrames, -⟩ := f.exists_canFrame hlong
    rw [hcanFrames]
    exact List.cons_ne_nil _ _

/-- A frame is scheduled, or sent once if it is a short one without a period. -/
theorem sendFrameThroughInterface_eq (sender : CommonCanSender) (period : UInt32) :
    sendFrameThroughInterface sender f.frame period =
      .ok (if getDataLength f.frame ≤ maxCanDataSize ∧ period = 0 then (sender, f.canFrames)
        else (sender.sendFrames f.canFrames period, [])) := by
  unfold sendFrameThroughInterface
  have hencodes := f.encodes
  by_cases hlong : maxCanDataSize < getDataLength f.frame
  · rw [encodeFrames, if_pos hlong] at hencodes
    rw [if_pos hlong, if_neg (fun h => absurd h.1 (not_le.mpr hlong)), hencodes]
    rfl
  · obtain ⟨canFrame, hcan, hcanFrames, -⟩ := f.exists_canFrame hlong
    rw [if_neg hlong, hcan, hcanFrames]
    by_cases hperiod : period = 0
    · rw [if_pos ⟨not_lt.mp hlong, hperiod⟩]
      simp [hperiod]
    · rw [if_neg (fun h => hperiod h.2)]
      simp [hperiod, sendFrame]

/-- The identifiers of the CAN frames coincide exactly for frames of one ring. -/
theorem ids_eq_iff (f g : SendableFrame) :
    f.canFrames.map CanFrame.id = g.canFrames.map CanFrame.id ↔ SameRing f.frame g.frame := by
  unfold SameRing
  by_cases hf : maxCanDataSize < getDataLength f.frame <;>
    by_cases hg : maxCanDataSize < getDataLength g.frame
  · obtain ⟨m, hframe, hcanFrames⟩ := f.exists_message hf
    obtain ⟨m', hframe', hcanFrames'⟩ := g.exists_message hg
    rw [if_pos hf, hcanFrames, hcanFrames', ← hframe, ← hframe', Message.ids_canFrames,
      Message.ids_canFrames, List.cons.injEq, m.getDataLength_eq, m'.getDataLength_eq]
    constructor
    · rintro ⟨hconn, hpackets⟩
      obtain ⟨hprio, hsource⟩ := transportId_inj (by decide) (by decide) m.masked_priority_le
        m'.masked_priority_le hconn
      obtain ⟨hprio_le, -⟩ := encode_eq_ok_iff.mp m.encodes
      obtain ⟨hprio_le', -⟩ := encode_eq_ok_iff.mp m'.encodes
      rw [(priority_masked_iff _).mpr hprio_le, (priority_masked_iff _).mpr hprio_le'] at hprio
      refine ⟨m'.long, hsource, hprio, ?_⟩
      simpa using congrArg List.length hpackets
    · rintro ⟨-, hsource, hprio, hcount⟩
      have hsource' : m.source = m'.source := hsource
      rw [hsource', hprio, hcount]
      exact ⟨rfl, rfl⟩
  · obtain ⟨m, -, hcanFrames⟩ := f.exists_message hf
    obtain ⟨canFrame, -, hcanFrames', -⟩ := g.exists_canFrame hg
    rw [if_pos hf, hcanFrames, hcanFrames']
    refine iff_of_false (fun h => m.packets_ne_nil ?_) fun h => hg h.1
    simpa [Message.canFrames] using congrArg List.tail h
  · obtain ⟨canFrame, -, hcanFrames, -⟩ := f.exists_canFrame hf
    obtain ⟨m, -, hcanFrames'⟩ := g.exists_message hg
    rw [if_neg hf, hcanFrames, hcanFrames']
    refine iff_of_false (fun h => m.packets_ne_nil ?_) fun h => not_le.mpr hg h.1
    simpa [Message.canFrames] using congrArg List.tail h.symm
  · obtain ⟨canFrame, -, hcanFrames, hid⟩ := f.exists_canFrame hf
    obtain ⟨canFrame', -, hcanFrames', hid'⟩ := g.exists_canFrame hg
    rw [if_neg hf, hcanFrames, hcanFrames', and_iff_right (not_lt.mp hg)]
    simp [hid, hid', id]

end SendableFrame

/-! ### What a call changes -/

section Calls

variable {calls : List SenderCall} {sender : CommonCanSender} {f g : SendableFrame}
  {period q : UInt32}

theorem asked_send_iff : Asked (calls ++ [.send g q]) f period ↔
    if g.id = f.id then q ≠ 0 ∧ g = f ∧ q = period else Asked calls f period := by
  unfold Asked
  rw [List.reverse_append, List.reverse_singleton, List.singleton_append, List.find?_cons]
  by_cases hid : g.id = f.id
  · simp only [SenderCall.concerns, hid, decide_true, if_true, Option.some.injEq,
      SenderCall.send.injEq]
    constructor
    · rintro ⟨hperiod, rfl, rfl⟩
      exact ⟨hperiod, rfl, rfl⟩
    · rintro ⟨hperiod, rfl, rfl⟩
      exact ⟨hperiod, rfl, rfl⟩
  · simp [SenderCall.concerns, hid]

theorem asked_unsend_iff : Asked (calls ++ [.unsend g]) f period ↔
    g.id ≠ f.id ∧ Asked calls f period := by
  unfold Asked
  rw [List.reverse_append, List.reverse_singleton, List.singleton_append, List.find?_cons]
  by_cases hid : g.id = f.id <;> simp [SenderCall.concerns, hid]

theorem asked_pass_iff {now : Timespec} :
    Asked (calls ++ [.pass now]) f period ↔ Asked calls f period := by
  unfold Asked
  rw [List.reverse_append, List.reverse_singleton, List.singleton_append, List.find?_cons]
  rfl

/-- Where the rings tell the frame apart, erasing its ring erases its identifier. -/
theorem map_eraseP_rings {asked : List (SendableFrame × UInt32)} {rings : List CanFrameRing}
    (hnodup : (asked.map fun a => a.1.id).Nodup)
    (hrings : (rings.map fun ring => (ring.frames, ring.period)) =
      asked.map fun a => (a.1.canFrames, a.2))
    (hdistinct : ∀ a ∈ asked, SameRing a.1.frame f.frame ↔ a.1.id = f.id) :
    (rings.eraseP fun ring => ring.frames.map CanFrame.id = f.canFrames.map CanFrame.id).map
        (fun ring => (ring.frames, ring.period)) =
      (asked.filter fun a => a.1.id ≠ f.id).map fun a => (a.1.canFrames, a.2) := by
  induction asked generalizing rings with
  | nil =>
    obtain rfl := List.map_eq_nil_iff.mp hrings
    rfl
  | cons a asked ih =>
    obtain ⟨ring, rings, rfl, hring, hrest⟩ := List.map_eq_cons_iff.mp hrings
    obtain ⟨hframes, -⟩ := Prod.mk.inj hring
    rw [List.map_cons, List.nodup_cons] at hnodup
    rw [List.forall_mem_cons, ← SendableFrame.ids_eq_iff] at hdistinct
    by_cases hid : a.1.id = f.id
    · have hkey := hdistinct.1.mpr hid
      have hothers : asked.filter (fun b => b.1.id ≠ f.id) = asked := by
        rw [List.filter_eq_self]
        intro b hb
        have hne : b.1.id ≠ a.1.id := fun h => hnodup.1 (h ▸ List.mem_map_of_mem hb)
        simpa [hid] using hne
      rw [List.eraseP_cons_of_pos (by simpa [hframes] using hkey), hrest,
        List.filter_cons_of_neg (by simpa using hid), hothers]
    · have hkey : ¬ring.frames.map CanFrame.id = f.canFrames.map CanFrame.id := by
        rw [hframes, hdistinct.1]
        exact hid
      rw [List.eraseP_cons_of_neg (by simpa using hkey), List.map_cons, hring,
        ih hnodup.2 hrest hdistinct.2, List.filter_cons_of_pos (by simpa using hid), List.map_cons]

/-- The frames asked for but for those with an identifier. -/
theorem nodup_filter_asked {asked : List (SendableFrame × UInt32)}
    (hnodup : (asked.map fun a => a.1.id).Nodup) (id : UInt32) :
    ((asked.filter fun a => a.1.id ≠ id).map fun a => a.1.id).Nodup :=
  hnodup.sublist (List.filter_sublist.map _)

/-- The frames asked for behind a call to send one. -/
theorem nodup_asked_concat {asked : List (SendableFrame × UInt32)}
    (hnodup : (asked.map fun a => a.1.id).Nodup) (f : SendableFrame) (period : UInt32) :
    ((asked.filter (fun a => a.1.id ≠ f.id) ++ [(f, period)]).map fun a => a.1.id).Nodup := by
  rw [List.map_append, List.nodup_append]
  refine ⟨nodup_filter_asked hnodup f.id, by simp, ?_⟩
  rintro id hid id' hid' rfl
  obtain ⟨a, ha, rfl⟩ := List.mem_map.mp hid
  simp at hid'
  simp [hid'] at ha

theorem mem_asked_concat {asked : List (SendableFrame × UInt32)}
    (hmem : ∀ f period, (f, period) ∈ asked ↔ Asked calls f period) (hperiod : period ≠ 0) :
    (g, q) ∈ asked.filter (fun a => a.1.id ≠ f.id) ++ [(f, period)] ↔
      Asked (calls ++ [.send f period]) g q := by
  rw [asked_send_iff, List.mem_append, List.mem_filter, hmem]
  by_cases hid : f.id = g.id
  · simp [hid, hperiod, eq_comm]
  · have hne : g ≠ f := by
      rintro rfl
      exact hid rfl
    simp [hid, hne, Ne.symm hid]

theorem asAsked_nil : AsAsked [] {} := ⟨[], by simp, by simp [Asked], rfl⟩

theorem AsAsked.send (h : AsAsked calls sender) (hdistinct : Distinct calls f)
    (hperiod : period ≠ 0) :
    AsAsked (calls ++ [.send f period]) (sender.sendFrames f.canFrames period) := by
  obtain ⟨asked, hnodup, hmem, hrings⟩ := h
  refine ⟨asked.filter (fun a => a.1.id ≠ f.id) ++ [(f, period)],
    nodup_asked_concat hnodup f period, fun g q => mem_asked_concat hmem hperiod, ?_⟩
  rw [sendFrames, if_neg f.canFrames_ne_nil, List.map_append,
    map_eraseP_rings hnodup hrings fun a ha => hdistinct a.1 a.2 ((hmem a.1 a.2).mp ha),
    List.map_append]
  rfl

theorem AsAsked.sendOnce (h : AsAsked calls sender)
    (hnot : ∀ g period, Asked calls g period → g.id ≠ f.id) :
    AsAsked (calls ++ [.send f 0]) sender := by
  obtain ⟨asked, hnodup, hmem, hrings⟩ := h
  refine ⟨asked, hnodup, fun g q => ?_, hrings⟩
  rw [asked_send_iff, hmem]
  by_cases hid : f.id = g.id
  · rw [if_pos hid]
    simp only [ne_eq, not_true_eq_false, false_and, iff_false]
    exact fun hasked => hnot g q hasked hid.symm
  · rw [if_neg hid]

theorem AsAsked.unsend (h : AsAsked calls sender) (hdistinct : Distinct calls f) :
    AsAsked (calls ++ [.unsend f]) (sender.unSendFrames (f.canFrames.map CanFrame.id)) := by
  obtain ⟨asked, hnodup, hmem, hrings⟩ := h
  refine ⟨asked.filter (fun a => a.1.id ≠ f.id), nodup_filter_asked hnodup f.id, ?_, ?_⟩
  · intro g q
    rw [asked_unsend_iff, List.mem_filter, hmem, and_comm, decide_eq_true_eq, ne_comm]
  · exact map_eraseP_rings hnodup hrings fun a ha => hdistinct a.1 a.2 ((hmem a.1 a.2).mp ha)

theorem map_passRings (now : Timespec) (rings : List CanFrameRing) :
    ((passRings now rings).1.map fun ring => (ring.frames, ring.period)) =
      rings.map fun ring => (ring.frames, ring.period) := by
  induction rings with
  | nil => rfl
  | cons ring rings ih =>
    rw [passRings, List.map_cons, List.map_cons, ih, CanFrameRing.frames_tick,
      CanFrameRing.period_tick]

/-- A pass of the thread changes no frame and no period. -/
theorem AsAsked.pass (h : AsAsked calls sender) (now : Timespec) :
    AsAsked (calls ++ [.pass now]) ⟨(passRings now sender.frameRings).1⟩ := by
  obtain ⟨asked, hnodup, hmem, hrings⟩ := h
  refine ⟨asked, hnodup, fun f q => ?_, ?_⟩
  · rw [asked_pass_iff, hmem]
  · rw [map_passRings, hrings]

/-- A clear call does what the user asks for. -/
theorem AsAsked.perform (h : AsAsked calls sender) {call : SenderCall}
    (hclear : call.Clear calls) :
    ∃ sender', sender.perform call = .ok sender' ∧ AsAsked (calls ++ [call]) sender' := by
  cases call with
  | send f period =>
    simp only [CommonCanSender.perform, f.sendFrameThroughInterface_eq]
    by_cases hperiod : period = 0
    · rw [SenderCall.Clear, if_pos hperiod] at hclear
      rw [if_pos ⟨hclear.1, hperiod⟩, hperiod]
      exact ⟨sender, rfl, h.sendOnce hclear.2⟩
    · rw [SenderCall.Clear, if_neg hperiod] at hclear
      rw [if_neg fun honce => hperiod honce.2]
      exact ⟨_, rfl, h.send hclear hperiod⟩
  | unsend f =>
    simp only [CommonCanSender.perform, unsendFrameThroughInterface, f.sentIds_eq]
    exact ⟨_, rfl, h.unsend hclear⟩
  | pass now => exact ⟨_, rfl, h.pass now⟩

theorem AsAsked.performAll {done : List SenderCall} (h : AsAsked done sender)
    (hclear : AllClear done calls) :
    ∃ sender', sender.performAll calls = .ok sender' ∧ AsAsked (done ++ calls) sender' := by
  induction calls generalizing done sender with
  | nil => exact ⟨sender, rfl, by rwa [List.append_nil]⟩
  | cons call calls ih =>
    obtain ⟨sender', hperform, hasked⟩ := h.perform hclear.1
    obtain ⟨last, hlast, hall⟩ := ih hasked hclear.2
    rw [CommonCanSender.performAll, hperform]
    exact ⟨last, hlast, by simpa using hall⟩

/-- A frame that the rings tell apart is sent exactly when it was asked for. -/
theorem AsAsked.told (h : AsAsked calls sender) (hdistinct : Distinct calls f) :
    ∃ sent, isFrameSent sender f.frame = .ok sent ∧
      (sent = true ↔ ∃ g period, Asked calls g period ∧ g.id = f.id) := by
  obtain ⟨asked, -, hmem, hrings⟩ := h
  refine ⟨_, by rw [isFrameSent, f.sentIds_eq]; rfl, ?_⟩
  have hkeys : (sender.frameRings.map CanFrameRing.frames) = asked.map fun a => a.1.canFrames := by
    have hfst := congrArg (List.map Prod.fst) hrings
    rwa [List.map_map, List.map_map] at hfst
  have hany : sender.isSent (f.canFrames.map CanFrame.id) = true ↔
      ∃ frames ∈ sender.frameRings.map CanFrameRing.frames,
        frames.map CanFrame.id = f.canFrames.map CanFrame.id := by
    simp [isSent]
  rw [hany, hkeys]
  constructor
  · rintro ⟨frames, hframes, hids⟩
    obtain ⟨⟨g, period⟩, ha, rfl⟩ := List.mem_map.mp hframes
    have hasked := (hmem g period).mp ha
    exact ⟨g, period, hasked, (hdistinct g period hasked).mp ((g.ids_eq_iff f).mp hids)⟩
  · rintro ⟨g, period, hasked, hid⟩
    refine ⟨g.canFrames, List.mem_map_of_mem ((hmem g period).mpr hasked), ?_⟩
    exact (g.ids_eq_iff f).mpr ((hdistinct g period hasked).mpr hid)

theorem AsAsked.serves (h : AsAsked calls sender) : Serves calls sender :=
  ⟨h, fun _ => h.told⟩

/-! ### Calls that do something else -/

/-- The frames asked for have rings of their own. -/
def RingsApart (calls : List SenderCall) : Prop :=
  ∀ f period g q, Asked calls f period → Asked calls g q → SameRing f.frame g.frame → f.id = g.id

theorem SameRing.symm (h : SameRing f.frame g.frame) : SameRing g.frame f.frame :=
  (g.ids_eq_iff f).mp ((f.ids_eq_iff g).mpr h).symm

theorem ringsApart_nil : RingsApart [] := fun f period g q h => by simp [Asked] at h

theorem RingsApart.perform (h : RingsApart calls) {call : SenderCall}
    (hclear : call.Clear calls) : RingsApart (calls ++ [call]) := by
  intro f period g q hf hg hsame
  cases call with
  | send k r =>
    rw [asked_send_iff] at hf hg
    by_cases hkf : k.id = f.id <;> by_cases hkg : k.id = g.id
    · exact hkf.symm.trans hkg
    · rw [if_pos hkf] at hf
      rw [if_neg hkg] at hg
      rw [SenderCall.Clear, if_neg hf.1] at hclear
      obtain ⟨-, rfl, rfl⟩ := hf
      exact ((hclear g q hg).mp hsame.symm).symm
    · rw [if_neg hkf] at hf
      rw [if_pos hkg] at hg
      rw [SenderCall.Clear, if_neg hg.1] at hclear
      obtain ⟨-, rfl, rfl⟩ := hg
      exact (hclear f period hf).mp hsame
    · rw [if_neg hkf] at hf
      rw [if_neg hkg] at hg
      exact h f period g q hf hg hsame
  | unsend k => exact h f period g q (asked_unsend_iff.mp hf).2 (asked_unsend_iff.mp hg).2 hsame
  | pass now => exact h f period g q (asked_pass_iff.mp hf) (asked_pass_iff.mp hg) hsame

/-- Where erasing a ring leaves the rings of the other identifiers, the rings tell the frame
apart. -/
theorem distinct_of_perm (hapart : RingsApart calls) {asked : List (SendableFrame × UInt32)}
    (hnodup : (asked.map fun a => a.1.id).Nodup)
    (hmem : ∀ f period, (f, period) ∈ asked ↔ Asked calls f period)
    {rings : List CanFrameRing}
    (hrings : (rings.map fun ring => (ring.frames, ring.period)) =
      asked.map fun a => (a.1.canFrames, a.2))
    (hperm : ((rings.eraseP fun ring =>
        ring.frames.map CanFrame.id = f.canFrames.map CanFrame.id).map
          fun ring => (ring.frames, ring.period)).Perm
      ((asked.filter fun a => a.1.id ≠ f.id).map fun a => (a.1.canFrames, a.2))) :
    Distinct calls f := by
  intro g q hasked
  have hg := (hmem g q).mpr hasked
  constructor
  · intro hsame
    by_contra hid
    have hkept : (g.canFrames, q) ∈ (asked.filter fun a => a.1.id ≠ f.id).map
        fun a => (a.1.canFrames, a.2) :=
      List.mem_map.mpr ⟨(g, q), List.mem_filter.mpr ⟨hg, by simpa using hid⟩, rfl⟩
    obtain ⟨ring, hring, heq⟩ := List.mem_map.mp (hperm.mem_iff.mpr hkept)
    obtain ⟨hframes, -⟩ := Prod.mk.inj heq
    -- no two rings have the same identifiers, so none of the frame's is left
    have hpairwise : rings.Pairwise fun a b =>
        a.frames.map CanFrame.id ≠ b.frames.map CanFrame.id := by
      have hasked : asked.Pairwise fun a b =>
          a.1.canFrames.map CanFrame.id ≠ b.1.canFrames.map CanFrame.id := by
        refine (List.pairwise_map.mp hnodup).imp_of_mem fun {a b} ha hb hne hids => ?_
        exact hne (hapart _ _ _ _ ((hmem _ _).mp ha) ((hmem _ _).mp hb)
          ((a.1.ids_eq_iff b.1).mp hids))
      have hmapped : ((asked.map fun a => (a.1.canFrames, a.2)).Pairwise fun a b =>
          a.1.map CanFrame.id ≠ b.1.map CanFrame.id) := List.pairwise_map.mpr hasked
      rw [← hrings] at hmapped
      simpa only [List.pairwise_map] using hmapped
    refine not_of_mem_eraseP (fun a b ha hb hne => hne (ha.trans hb.symm)) hpairwise ring hring ?_
    rw [hframes]
    exact (g.ids_eq_iff f).mpr hsame
  · intro hid
    by_contra hsame
    have hg' : (g.canFrames, q) ∈ rings.map fun ring => (ring.frames, ring.period) :=
      hrings ▸ List.mem_map.mpr ⟨(g, q), hg, rfl⟩
    obtain ⟨ring, hring, heq⟩ := List.mem_map.mp hg'
    obtain ⟨hframes, -⟩ := Prod.mk.inj heq
    have hkey : ¬ring.frames.map CanFrame.id = f.canFrames.map CanFrame.id := by
      rw [hframes, SendableFrame.ids_eq_iff]
      exact hsame
    have hleft := hperm.mem_iff.mp (List.mem_map.mpr
      ⟨ring, (List.mem_eraseP_of_neg (by simpa using hkey)).mpr hring, heq⟩)
    obtain ⟨⟨k, r⟩, hk, hcanFrames⟩ := List.mem_map.mp hleft
    obtain ⟨hk, hne⟩ := List.mem_filter.mp hk
    obtain ⟨hcanFrames, -⟩ := Prod.mk.inj hcanFrames
    have hsameRing : SameRing k.frame g.frame :=
      (k.ids_eq_iff g).mp (congrArg (List.map CanFrame.id) hcanFrames)
    have hids := hapart k r g q ((hmem k r).mp hk) hasked hsameRing
    simp [hids, hid] at hne

/-- The frames asked for behind a call, for lists without repetition. -/
theorem perm_of_asked {asked asked' : List (SendableFrame × UInt32)}
    (hnodup : (asked.map fun a => a.1.id).Nodup) (hnodup' : (asked'.map fun a => a.1.id).Nodup)
    (hmem : ∀ f period, (f, period) ∈ asked ↔ (f, period) ∈ asked') : asked.Perm asked' :=
  (List.perm_ext_iff_of_nodup hnodup.of_map hnodup'.of_map).mpr fun a => hmem a.1 a.2

/-- A call that does what the user asks for is clear. -/
theorem clear_of_asAsked (h : AsAsked calls sender) (hapart : RingsApart calls)
    {call : SenderCall} {sender' : CommonCanSender} (hperform : sender.perform call = .ok sender')
    (h' : AsAsked (calls ++ [call]) sender') : call.Clear calls := by
  obtain ⟨asked, hnodup, hmem, hrings⟩ := h
  obtain ⟨asked', hnodup', hmem', hrings'⟩ := h'
  cases call with
  | send f period =>
    simp only [CommonCanSender.perform, f.sendFrameThroughInterface_eq] at hperform
    by_cases hperiod : period = 0
    · rw [SenderCall.Clear, if_pos hperiod]
      by_cases hshort : getDataLength f.frame ≤ maxCanDataSize
      · refine ⟨hshort, fun g q hasked hid => ?_⟩
        rw [if_pos ⟨hshort, hperiod⟩] at hperform
        obtain rfl : sender = sender' := Except.ok.inj hperform
        -- the ring of the frame is still there, and no other frame asked for has its ring
        have hg : (g.canFrames, q) ∈ asked'.map fun a => (a.1.canFrames, a.2) := by
          rw [← hrings', hrings]
          exact List.mem_map.mpr ⟨(g, q), (hmem g q).mpr hasked, rfl⟩
        obtain ⟨⟨k, r⟩, hk, hcanFrames⟩ := List.mem_map.mp hg
        obtain ⟨hcanFrames, -⟩ := Prod.mk.inj hcanFrames
        have hask := (hmem' k r).mp hk
        rw [asked_send_iff] at hask
        by_cases hfk : f.id = k.id
        · rw [if_pos hfk] at hask
          exact hask.1 hperiod
        · rw [if_neg hfk] at hask
          have hsame : SameRing k.frame g.frame :=
            (k.ids_eq_iff g).mp (congrArg (List.map CanFrame.id) hcanFrames)
          exact hfk ((hapart k r g q hask hasked hsame).trans hid).symm
      · rw [if_neg fun honce => hshort honce.1] at hperform
        obtain rfl : sender.sendFrames f.canFrames period = sender' := Except.ok.inj hperform
        -- the new ring has no period, but every frame asked for has one
        have hnew : (f.canFrames, period) ∈ asked'.map fun a => (a.1.canFrames, a.2) := by
          rw [← hrings', sendFrames, if_neg f.canFrames_ne_nil]
          simp
        obtain ⟨⟨k, r⟩, hk, heq⟩ := List.mem_map.mp hnew
        obtain ⟨-, hr⟩ := Prod.mk.inj heq
        exact absurd (hr.trans hperiod) ((hmem' k r).mp hk).1
    · rw [SenderCall.Clear, if_neg hperiod]
      rw [if_neg fun honce => hperiod honce.2] at hperform
      obtain rfl : sender.sendFrames f.canFrames period = sender' := Except.ok.inj hperform
      refine distinct_of_perm hapart hnodup hmem hrings ?_
      rw [sendFrames, if_neg f.canFrames_ne_nil, List.map_append] at hrings'
      obtain ⟨others, hothers⟩ : ∃ others, others = asked.filter fun a => a.1.id ≠ f.id := ⟨_, rfl⟩
      have hasked : asked'.Perm (others ++ [(f, period)]) := by
        refine perm_of_asked hnodup' ?_ fun g q => ?_
        · exact hothers ▸ nodup_asked_concat hnodup f period
        · rw [hmem', hothers]
          exact (mem_asked_concat hmem hperiod).symm
      have hperm := hasked.map fun a => (a.1.canFrames, a.2)
      rw [← hrings', List.map_append] at hperm
      exact hothers ▸ (List.perm_append_right_iff _).mp hperm
  | unsend f =>
    simp only [CommonCanSender.perform, unsendFrameThroughInterface, f.sentIds_eq] at hperform
    obtain rfl : sender.unSendFrames (f.canFrames.map CanFrame.id) = sender' :=
      Except.ok.inj hperform
    refine distinct_of_perm hapart hnodup hmem hrings ?_
    have hasked : asked'.Perm (asked.filter fun a => a.1.id ≠ f.id) := by
      refine perm_of_asked hnodup' (nodup_filter_asked hnodup f.id) fun g q => ?_
      rw [hmem', asked_unsend_iff, List.mem_filter, hmem, and_comm, decide_eq_true_eq, ne_comm]
    have hperm := hasked.map fun a => (a.1.canFrames, a.2)
    rwa [← hrings'] at hperm
  | pass now => trivial

/-- Clear calls are the ones that keep the sender as the user asks for. -/
theorem AsAsked.allClear_iff {done : List SenderCall} (h : AsAsked done sender)
    (hapart : RingsApart done) :
    AllClear done calls ↔ ∀ now later, calls = now ++ later →
      ∃ sender', sender.performAll now = .ok sender' ∧ Serves (done ++ now) sender' := by
  constructor
  · intro hclear now later hcalls
    have hnow : AllClear done now := by
      rw [hcalls] at hclear
      clear hcalls h hapart
      induction now generalizing done with
      | nil => trivial
      | cons call now ih => exact ⟨hclear.1, ih hclear.2⟩
    obtain ⟨sender', hperform, hasked⟩ := h.performAll hnow
    exact ⟨sender', hperform, hasked.serves⟩
  · intro hserves
    induction calls generalizing done sender with
    | nil => trivial
    | cons call calls ih =>
      obtain ⟨sender', hperform, hserved⟩ := hserves [call] calls rfl
      have hone : sender.perform call = .ok sender' := by
        rw [CommonCanSender.performAll] at hperform
        cases hcall : sender.perform call with
        | error e =>
          rw [hcall] at hperform
          cases hperform
        | ok sender'' =>
          rw [hcall] at hperform
          exact hperform
      have hclear := clear_of_asAsked h hapart hone hserved.rings
      refine ⟨hclear, ih hserved.rings (hapart.perform hclear) fun now later hcalls => ?_⟩
      obtain ⟨last, hlast, hservedLast⟩ := hserves (call :: now) later (by rw [hcalls]; rfl)
      rw [CommonCanSender.performAll, hone] at hlast
      exact ⟨last, hlast, by simpa using hservedLast⟩

end Calls

/-- Behind every call the interface sends what the user asked for exactly when every call of
the run is clear: it is about a frame that the rings tell apart from those being sent, and
only a short frame that is not being sent is sent once. -/
theorem served_iff_allClear (calls : List SenderCall) :
    (∀ done later, calls = done ++ later →
      ∃ sender, ({} : CommonCanSender).performAll done = .ok sender ∧ Serves done sender) ↔
        AllClear [] calls :=
  (asAsked_nil.allClear_iff ringsApart_nil).symm

/-- The vehicle identification, a frame of two packets. -/
def vehicleToSend : SendableFrame where
  frame := .generic vehicleIdentification
  canFrames :=
    [⟨0x18ECFF10, [ctrlTpcmBam, 11, 0, 2, 0xFF, 0xEC, 0xFE, 0x00]⟩,
      ⟨0x18EBFF10, [1, 0x57, 0x41, 0x55, 0x5A, 0x5A, 0x5A, 0x38]⟩,
      ⟨0x18EBFF10, [2, 0x4B, 0x39, 0x41, strTerminator, 0xFF, 0xFF, 0xFF]⟩]
  encodes := by decide +kernel
  le_max := by decide

/-- A frame with a text of two characters. -/
def shortToSend : SendableFrame where
  frame := .generic (stringFrame 0xFF10 0x10 [0x4F, 0x4B])
  canFrames := [⟨0x18FF1010, [0x4F, 0x4B, strTerminator]⟩]
  encodes := by decide +kernel
  le_max := by decide

/-- A long and a short frame are scheduled, and the long one is taken back. -/
def scheduledCalls : List SenderCall :=
  [.send vehicleToSend 1000, .send shortToSend 100, .pass ⟨1, 0⟩, .unsend vehicleToSend]

theorem scheduledCalls_served : ∃ sender,
    ({} : CommonCanSender).performAll scheduledCalls = .ok sender ∧
      Serves scheduledCalls sender := by
  have hvehicle : ∀ g period, Asked ([] ++ [.send vehicleToSend 1000]) g period →
      g = vehicleToSend := by
    intro g period h
    rw [asked_send_iff] at h
    split_ifs at h
    · exact h.2.1.symm
    · simp [Asked] at h
  have hclear : AllClear [] scheduledCalls := by
    refine ⟨?_, ?_, trivial, ?_, trivial⟩
    · intro g period h
      simp [Asked] at h
    · intro g period h
      obtain rfl := hvehicle g period h
      decide +kernel
    · intro g period h
      have hasked := asked_pass_iff.mp h
      rw [asked_send_iff] at hasked
      split_ifs at hasked
      · obtain rfl := hasked.2.1
        decide +kernel
      · obtain rfl := hvehicle g period hasked
        decide +kernel
  exact (served_iff_allClear scheduledCalls).mpr hclear scheduledCalls [] (by simp)

/-- A long frame that is sent once leaves a ring. -/
theorem sentOnce_not_served :
    ¬∃ sender, ({} : CommonCanSender).performAll [.send vehicleToSend 0] = .ok sender ∧
      AsAsked [.send vehicleToSend 0] sender := by
  rintro ⟨sender, hperform, asked, -, hmem, hrings⟩
  obtain rfl : (⟨[{ frames := vehicleToSend.canFrames, period := 0 }]⟩ : CommonCanSender) =
      sender := Except.ok.inj (Eq.trans (by decide +kernel) hperform)
  obtain ⟨a, others, rfl, -⟩ := List.map_eq_cons_iff.mp hrings.symm
  obtain ⟨hperiod, hlast⟩ := (hmem a.1 a.2).mp List.mem_cons_self
  simp only [List.reverse_singleton, List.find?_singleton] at hlast
  split at hlast
  · exact hperiod (SenderCall.send.inj (Option.some.inj hlast)).2.symm
  · cases hlast

end J1939
