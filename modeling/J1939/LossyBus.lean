import J1939.Interfaces
import J1939.Lib.Lossy
import J1939.PeriodicSending
import J1939.TroubleCodes

/-!
# Messages on a bus that loses packets

Nothing is sent twice on request in a broadcast transfer. What the sniffer makes of transfers
whose packets get lost, repeated or out of order is exactly the transfers whose packets are
all there in their order, unchanged.
-/

namespace J1939

open BamReassembler BamFragmenter

/-! ### The link of a source -/

/-- The link of a source that gets a reception. -/
def receiveLink (factory : J1939Factory) (link : Option BAMFragments) (x : Reception) :
    Option BAMFragments × Option FactoryCall :=
  match transported factory x with
  | none => (link, none)
  | some frame =>
    ((stepLink factory x.heap link frame).session, (stepLink factory x.heap link frame).call)

section Links

variable {factory : J1939Factory} {x : Reception}

/-- A reception that brings no transport frame moves no link. -/
theorem receive_of_not_transported (h : transported factory x = none) (r : BamReassembler) :
    (receive factory r x).2 = none ∧
      ∀ s, (receive factory r x).1.fragments.find? s = r.fragments.find? s := by
  cases hvalue : (factory.getJ1939Frame x.id x.length).value x.memory with
  | error e => simp [receive, hvalue]
  | ok decoded =>
    cases decoded with
    | none => simp [receive, hvalue]
    | some frame =>
      have hnot : toBeHandled frame = false := by
        rw [transported, hvalue] at h
        simpa using h
      obtain ⟨hcall, hlinks⟩ := receive_of_value (r := r) hvalue
      rw [stepLink_of_not_toBeHandled hnot] at hcall hlinks
      refine ⟨hcall, fun s => (hlinks s).trans ?_⟩
      split_ifs with hs
      · rw [hs]
      · rfl

/-- A receiver is made of one link for each source. -/
def receiverLinks (factory : J1939Factory) :
    Keyed BamReassembler Reception (Option FactoryCall) UInt8 (Option BAMFragments) where
  step := receive factory
  key x := (transported factory x).map getSrcAddr
  view s r := r.fragments.find? s
  part _ := receiveLink factory
  inv _ := True
  inv_step _ _ _ := trivial
  view_of_key r x s _ hkey := by
    obtain ⟨frame, hframe, rfl⟩ := Option.map_eq_some_iff.mp hkey
    obtain ⟨hcall, hlinks⟩ := receive_of_value (r := r) (transported_eq_some_iff.mp hframe).1
    rw [receiveLink, hframe, hlinks, if_pos rfl, hcall]
  view_of_ne r x s _ hkey := by
    cases hframe : transported factory x with
    | none => exact (receive_of_not_transported hframe r).2 s
    | some frame =>
      obtain ⟨-, hlinks⟩ := receive_of_value (r := r) (transported_eq_some_iff.mp hframe).1
      rw [hlinks, if_neg]
      rintro rfl
      exact hkey (by rw [hframe, Option.map_some])

end Links

/-! ### One transfer -/

namespace Message

variable (p : TPCMFrame) (q : TPDTFrame) (m : Message)

/-- The connection frame on the bus. -/
def announcement : CanFrame := (encodedConn m.conn).toCan

/-- The packets on the bus. -/
def packetFrames : List CanFrame := m.packets.map fun dt => (encodedPacket dt).toCan

variable {p q m} {factory : J1939Factory} {x : Reception}

theorem transported_announcement (hfactory : TransportRegistered factory p q)
    (hx : x.frame = m.announcement) :
    transported factory x = some (.tpcm (arrivedConn p m.frame {} m.data.length)) := by
  have hctrl : m.conn.ctrlType = ctrlTpcmBam := by
    change (connFrame m.frame TPCMFrame.new).ctrlType = _
    rw [connFrame_eq]
  rw [transported_eq_some_iff, Reception.id, Reception.length, Reception.memory, hx]
  refine ⟨decode_tpcm hfactory m.conn_encodes hctrl x.beyond, ?_⟩
  obtain ⟨-, hbam, hdst⟩ :=
    opens_eq_some_iff.mp (opens_arrivedConn p m.frame {} m.data.length)
  exact (if_neg (not_not.mpr hdst)).trans ((if_pos rfl).trans (decide_eq_true hbam))

theorem transported_packet (hfactory : TransportRegistered factory p q) {k : ℕ}
    (hx : m.packetFrames[k]? = some x.frame) :
    ∃ hk : k < m.packets.length,
      transported factory x = some (.tpdt (receivedPacket q m.packets[k])) := by
  rw [packetFrames, List.getElem?_map, Option.map_eq_some_iff] at hx
  obtain ⟨dt, hdt, hx⟩ := hx
  obtain ⟨hk, rfl⟩ := List.getElem?_eq_some_iff.mp hdt
  have hencodes := m.packet_encodes (List.getElem_mem hk)
  have hdata : (encodedPacket m.packets[k]).toCan.data = (encodedPacket m.packets[k]).buffer :=
    List.take_of_length_le (length_encode hencodes).le
  refine ⟨hk, ?_⟩
  rw [transported_eq_some_iff, Reception.id, Reception.length, Reception.memory, ← hx, hdata]
  refine ⟨decode_tpdt hfactory hencodes x.beyond, ?_⟩
  obtain ⟨j, -, hj⟩ := List.mem_map.mp (List.getElem_mem hk)
  have hdst : (receivedPacket q m.packets[k]).dstAddr = broadcastAddress := by
    rw [← hj, packet_eq]
    rfl
  have hcm : ¬getPGN (Frame.tpdt (receivedPacket q m.packets[k])) = tpCmPgn := by
    change ¬tpDtPgn = tpCmPgn
    decide
  exact (if_neg (not_not.mpr hdst)).trans ((if_neg hcm).trans (decide_eq_true rfl))

/-- A session passes over every packet but the next one. -/
theorem stepLink_of_other {k j : ℕ} (hj : j < m.packets.length) (hne : j ≠ k)
    (factory : J1939Factory) (heap : Memory) :
    stepLink factory heap (some (m.session p q k)) (.tpdt (receivedPacket q m.packets[j])) =
      ⟨some (m.session p q k), none, none⟩ := by
  have hfollows := m.follows_packets p q
  have hlength : (m.packets.map (receivedPacket q)).length = m.packets.length := List.length_map _
  have hsq : (receivedPacket q m.packets[j]).sq.toNat = j + 1 := by
    have hsqs := congrArg (fun sqs => sqs[j]?) hfollows.sqs
    simp only [List.getElem?_map, List.getElem?_eq_getElem hj, hlength] at hsqs
    rw [List.getElem?_range' hj] at hsqs
    have hsome := Option.some.inj hsqs
    simp only at hsome
    omega
  have hlast : (m.session p q k).getLastSQ.toNat = min k m.packets.length := by
    have hnumbered := hfollows.numbered_take (k := min k m.packets.length)
      (by rw [hlength]; exact min_le_right _ _)
    have htake : (m.packets.map (receivedPacket q)).take (min k m.packets.length) =
        (m.packets.map (receivedPacket q)).take k := by
      rw [← hlength, ← List.take_eq_take_min]
    have hcount := hnumbered.getLastSQ_toNat
    rw [htake] at hcount
    refine hcount.trans ?_
    rw [List.length_take, hlength]
  refine stepLink_of_ignored rfl fun b hb => ?_
  cases hb
  rw [accepts, if_neg]
  rintro ⟨-, -, hexpects⟩
  rw [hlast, hsq] at hexpects
  omega

/-- The next packet continues a session, and the last one completes it. -/
theorem stepLink_next {k : ℕ} (hk : k < m.packets.length) (factory : J1939Factory)
    (heap : Memory) :
    stepLink factory heap (some (m.session p q k)) (.tpdt (receivedPacket q m.packets[k])) =
      if k + 1 = m.packets.length then
        finishLink factory heap (m.session p q m.packets.length)
      else ⟨some (m.session p q (k + 1)), none, none⟩ := by
  have hlength : (m.packets.map (receivedPacket q)).length = m.packets.length := List.length_map _
  have hgeneral := (m.follows_packets p q).stepLink_getElem (hlength ▸ hk) factory heap
  simp only [List.getElem_map, hlength] at hgeneral
  rw [session, session, session, hgeneral, List.take_of_length_le hlength.le]

/-- A session that has been completed passes over the packets, whether the call has thrown or
not. -/
theorem receiveLink_of_finished (hfactory : TransportRegistered factory p q) (heap : Memory)
    (hx : x.frame ∈ m.packetFrames) :
    receiveLink factory (finishLink factory heap (m.session p q m.packets.length)).session x =
      ((finishLink factory heap (m.session p q m.packets.length)).session, none) := by
  obtain ⟨j, hj⟩ := List.mem_iff_getElem?.mp hx
  obtain ⟨hlt, htransported⟩ := transported_packet hfactory hj
  rw [receiveLink, htransported]
  cases hsession : (finishLink factory heap (m.session p q m.packets.length)).session with
  | none =>
    have hnone : stepLink factory x.heap none (.tpdt (receivedPacket q m.packets[j])) =
        ⟨none, none, none⟩ := stepLink_of_ignored rfl nofun
    simp only [hnone]
  | some b =>
    rw [finishLink_session hsession]
    simp only [stepLink_of_other hlt hlt.ne factory x.heap]

/-- A message as a transfer. Its result is the call of the factory with its payload. -/
def transfer (hfactory : TransportRegistered factory p q) (m : Message) :
    Lossy.Transfer CanFrame (receiveLink factory) Reception.frame where
  announcement := m.announcement
  packets := m.packetFrames
  state k := some (m.session p q k)
  good := Delivers m.frame
  opens link x hx := by
    rw [receiveLink, transported_announcement hfactory hx]
    simp only [stepLink_of_opens (opens_arrivedConn p m.frame {} m.data.length)]
    rfl
  next k x hlt hx := by
    obtain ⟨hk, htransported⟩ := transported_packet hfactory hx
    rw [packetFrames, List.length_map] at hlt
    rw [receiveLink, htransported]
    simp only [stepLink_next hk factory x.heap, if_neg hlt.ne]
  last k x hlast hx := by
    obtain ⟨hk, htransported⟩ := transported_packet hfactory hx
    rw [packetFrames, List.length_map] at hlast
    rw [receiveLink, htransported]
    simp only [stepLink_next hk factory x.heap, if_pos hlast]
    refine ⟨_, _, Prod.ext rfl (finishLink_call _), ?_, fun x' hx' =>
      receiveLink_of_finished hfactory x.heap hx'⟩
    have hlength : (m.packets.map (receivedPacket q)).length = m.packets.length :=
      List.length_map _
    rw [session, List.take_of_length_le hlength.le]
    exact m.delivers p q x.heap
  waits k x hmem hne := by
    obtain ⟨j, hj⟩ := List.mem_iff_getElem?.mp hmem
    obtain ⟨hlt, htransported⟩ := transported_packet hfactory hj
    have hjk : j ≠ k := by
      rintro rfl
      exact hne hj
    rw [receiveLink, htransported]
    simp only [stepLink_of_other hlt hjk factory x.heap]

end Message

/-! ### The traffic -/

/-- A message on the bus. Behind its announcement comes what the bus makes of its packets: any of
them, in any order and any number of times. -/
structure Sending where
  message : Message
  got : List CanFrame
  got_subset : got ⊆ message.packetFrames

namespace Sending

/-- What arrives. -/
def arrived (a : Sending) : List CanFrame := a.message.announcement :: a.got

/-- The packets arrive in their order, whatever else does. -/
def Complete (a : Sending) : Prop := a.message.packetFrames.Sublist a.got

instance (a : Sending) : Decidable a.Complete := inferInstanceAs (Decidable (List.Sublist _ _))

variable {factory : J1939Factory} {p : TPCMFrame} {q : TPDTFrame}

/-- A sending as an attempt of its message. -/
def attempt (hfactory : TransportRegistered factory p q) (a : Sending) :
    Lossy.Attempt CanFrame (receiveLink factory) Reception.frame :=
  ⟨a.message.transfer hfactory, a.got, a.got_subset,
    fun hnil => a.message.packets_ne_nil (List.map_eq_nil_iff.mp hnil)⟩

end Sending

/-- What the factory makes of the payload of a call. -/
def FactoryCall.decoded (factory : J1939Factory) (call : FactoryCall) :
    Except J1939Exception (Option Frame) :=
  (factory.getJ1939Frame call.id call.length).value call.data

/-- The receptions of a receiver: the transport frames of every source are those of its messages,
one message after the other, and everything else and every message that is complete decodes. -/
structure Traffic (factory : J1939Factory) (sent : UInt8 → List Sending) (xs : List Reception) :
    Prop where
  transport : ∀ s, (xs.filter fun x => (transported factory x).map getSrcAddr = some s).map
    Reception.frame = (sent s).flatMap Sending.arrived
  others : ∀ x ∈ xs, transported factory x = none → ∀ e,
    (factory.getJ1939Frame x.id x.length).value x.memory ≠ .error e
  messages : ∀ s, ∀ a ∈ sent s, a.Complete → ∀ call, Delivers a.message.frame call →
    ∃ frame, call.decoded factory = .ok (some frame)

section Receiver

variable {factory : J1939Factory} {p : TPCMFrame} {q : TPDTFrame} {sent : UInt8 → List Sending}
  {xs : List Reception}

/-- The calls of the factory that a source makes in a run. -/
def callsOf (factory : J1939Factory) (s : UInt8) (out : List (Reception × Option FactoryCall)) :
    List FactoryCall :=
  ((receiverLinks factory).outputsOf s out).filterMap Prod.snd

/-- The factory is called for the complete messages of a source, in order. -/
theorem Traffic.calls (h : Traffic factory sent xs) (hfactory : TransportRegistered factory p q)
    (r : BamReassembler) (s : UInt8) :
    List.Forall₂ (fun (a : Sending) call => Delivers a.message.frame call)
      ((sent s).filter fun a => a.Complete)
      (callsOf factory s (runMachine (receive factory) r xs).2) := by
  have hview := congrArg Prod.snd ((receiverLinks factory).view_run s (s := r) trivial xs)
  have hcalls : callsOf factory s (runMachine (receive factory) r xs).2 =
      Lossy.results (receiveLink factory) (r.fragments.find? s)
        ((receiverLinks factory).inputsOf s xs) := congrArg (List.filterMap Prod.snd) hview
  have hwire : ((receiverLinks factory).inputsOf s xs).map Reception.frame =
      ((sent s).map (Sending.attempt hfactory)).flatMap Lossy.Attempt.arrived := by
    rw [List.flatMap_map]
    exact h.transport s
  have hresults := Lossy.Attempt.results_attempts _ (r.fragments.find? s) hwire
  rw [List.filter_map, List.forall₂_map_left_iff, ← hcalls] at hresults
  exact hresults

/-- The messages of a source are sent from it. -/
theorem Traffic.source (h : Traffic factory sent xs) (hfactory : TransportRegistered factory p q)
    {s : UInt8} {a : Sending} (ha : a ∈ sent s) : a.message.source = s := by
  have hmem : a.message.announcement ∈ (sent s).flatMap Sending.arrived :=
    List.mem_flatMap.mpr ⟨a, ha, List.mem_cons_self ..⟩
  rw [← h.transport s] at hmem
  obtain ⟨x, hx, hframe⟩ := List.mem_map.mp hmem
  have hsource := of_decide_eq_true (List.mem_filter.mp hx).2
  rw [Message.transported_announcement hfactory hframe, Option.map_some] at hsource
  exact (srcAddr_arrivedConn p a.message.frame {} a.message.data.length).symm.trans
    (Option.some.inj hsource)

/-- What is decoded from a call has the source address of the call. -/
theorem FactoryCall.srcAddr_of_decoded {call : FactoryCall} {frame sentFrame : Frame}
    (hdecoded : call.decoded factory = .ok (some frame)) (hdelivers : Delivers sentFrame call) :
    getSrcAddr frame = getSrcAddr sentFrame := by
  obtain ⟨proto, -, hrun⟩ := J1939Factory.exists_run_of_value hdecoded
  obtain ⟨-, -, hheader⟩ := header_decode hrun
  rw [getSrcAddr, hheader]
  exact hdelivers.srcAddr _

/-- Every call of a source decodes, to a frame of the source. -/
theorem Traffic.decodes (h : Traffic factory sent xs) (hfactory : TransportRegistered factory p q)
    (r : BamReassembler) (s : UInt8) :
    ∀ call ∈ callsOf factory s (runMachine (receive factory) r xs).2,
      ∃ frame, call.decoded factory = .ok (some frame) ∧ getSrcAddr frame = s := by
  refine (h.calls hfactory r s).forall_right fun a ha call hdelivers => ?_
  obtain ⟨hmem, hcomplete⟩ := List.mem_filter.mp ha
  obtain ⟨frame, hframe⟩ := h.messages s a hmem (of_decide_eq_true hcomplete) call hdelivers
  exact ⟨frame, hframe, (FactoryCall.srcAddr_of_decoded hframe hdelivers).trans
    (h.source hfactory hmem)⟩

end Receiver

/-! ### The sniffer -/

section Sniffer

variable (options : SnifferOptions) (factory : J1939Factory)

/-- The frames that the sniffer takes from the reassembler, up to the first exception. -/
def sniffed : BamReassembler → List Reception → List Frame
  | _, [] => []
  | reassembler, x :: xs =>
    match onRcv options factory reassembler x with
    | (_, .error _) => []
    | (reassembler', .ok _) => (taken factory reassembler x).toList ++ sniffed reassembler' xs

variable {options factory} {x : Reception} {xs : List Reception} {r r' : BamReassembler}

/-- What a link delivers has been decoded from the call. -/
theorem stepLink_delivered (factory : J1939Factory) (heap : Memory) (link : Option BAMFragments)
    (frame : Frame) :
    (stepLink factory heap link frame).delivered =
      (stepLink factory heap link frame).call.bind fun call =>
        (call.decoded factory).toOption.join := by
  rcases stepLink_cases factory heap link frame with
    ⟨c, -, hstep⟩ | ⟨b, dt, -, rfl, -, hstep⟩ | ⟨-, -, hstep⟩
  · rw [hstep]
    rfl
  · rw [hstep, extendLink]
    split_ifs
    · rw [finishLink_call, Option.bind_some, FactoryCall.decoded, finishLink_eq]
      split <;> next hdecoded => rw [hdecoded]; rfl
    · rfl
  · rw [hstep]
    rfl

theorem sniff_cons {ret : Option Frame} (h : (onRcv options factory r x).2 = .ok ret)
    (xs : List Reception) :
    sniff options factory r (x :: xs) = sniff options factory (onRcv options factory r x).1 xs ∧
      sniffed options factory r (x :: xs) = (taken factory r x).toList ++
        sniffed options factory (onRcv options factory r x).1 xs := by
  rw [sniff, sniffed]
  generalize onRcv options factory r x = res at h ⊢
  obtain ⟨reassembler, returned⟩ := res
  obtain rfl : returned = .ok ret := h
  exact ⟨rfl, rfl⟩

/-- A reception that decodes and brings no transport frame is no harm. -/
theorem onRcv_returns_of_not_transported (h : transported factory x = none)
    (hdecodes : ∀ e, (factory.getJ1939Frame x.id x.length).value x.memory ≠ .error e) :
    ∃ ret, (onRcv options factory r x).2 = .ok ret := by
  unfold transported at h
  unfold onRcv
  cases hvalue : (factory.getJ1939Frame x.id x.length).value x.memory with
  | error e => exact absurd hvalue (hdecodes e)
  | ok decoded =>
    cases decoded with
    | none => exact ⟨none, rfl⟩
    | some frame =>
      rw [hvalue] at h
      have hnot : ¬toBeHandled frame = true := fun hhandled => by simp [hhandled] at h
      simp only [if_neg hnot]
      exact ⟨_, rfl⟩

theorem callsOf_cons (s : UInt8) (r : BamReassembler) (x : Reception) (xs : List Reception) :
    callsOf factory s (runMachine (receive factory) r (x :: xs)).2 =
      (if (transported factory x).map getSrcAddr = some s then (receive factory r x).2.toList
        else []) ++ callsOf factory s (runMachine (receive factory) (receive factory r x).1 xs).2 := by
  rw [callsOf, runMachine_cons, Keyed.outputsOf, List.filter_cons]
  by_cases hkey : (transported factory x).map getSrcAddr = some s
  · rw [if_pos hkey, if_pos (by simpa [receiverLinks] using hkey), List.filterMap_cons]
    cases (receive factory r x).2 <;> rfl
  · rw [if_neg hkey, if_neg (by simpa [receiverLinks] using hkey)]
    rfl

/-- A transport frame whose call decodes does not stop the sniffer, which takes what has been
decoded. -/
theorem onRcv_of_decoded {frame : Frame} (h : transported factory x = some frame)
    (hqueue : r.reassembledFrames = [])
    (hdecodes : ∀ call,
      (stepLink factory x.heap (r.fragments.find? (getSrcAddr frame)) frame).call = some call →
        ∃ decodedFrame, call.decoded factory = .ok (some decodedFrame)) :
    let moved := stepLink factory x.heap (r.fragments.find? (getSrcAddr frame)) frame
    (∃ ret, (onRcv options factory r x).2 = .ok ret) ∧
      taken factory r x = (moved.call.bind fun call => (call.decoded factory).toOption.join) ∧
      (onRcv options factory r x).1.reassembledFrames = [] ∧
      ∀ s, (onRcv options factory r x).1.fragments.find? s =
        if s = getSrcAddr frame then moved.session else r.fragments.find? s := by
  intro moved
  have hmoved : moved.Decodes factory := by
    intro call e hsome herror
    obtain ⟨decodedFrame, hdecoded⟩ := hdecodes call hsome
    rw [FactoryCall.decoded, herror] at hdecoded
    cases hdecoded
  obtain ⟨ret, hok⟩ : ∃ ret, (onRcv options factory r x).2 = .ok ret :=
    (onRcv_returns_iff_decodes h).mpr hmoved
  obtain ⟨htaken, hqueue', hlinks⟩ := onRcv_of_transported h hqueue hok
  exact ⟨⟨ret, hok⟩, htaken.trans (stepLink_delivered _ _ _ _), hqueue', hlinks⟩

/-- The sniffer takes what is decoded from the calls of a receiver with the same links. -/
theorem sniffed_of_calls (hqueue : r.reassembledFrames = [])
    (hlinks : ∀ s, r.fragments.find? s = r'.fragments.find? s)
    (hothers : ∀ x ∈ xs, transported factory x = none → ∀ e,
      (factory.getJ1939Frame x.id x.length).value x.memory ≠ .error e)
    (hdecodes : ∀ s, ∀ call ∈ callsOf factory s (runMachine (receive factory) r' xs).2,
      ∃ frame, call.decoded factory = .ok (some frame) ∧ getSrcAddr frame = s) :
    (∃ r'', sniff options factory r xs = .ok r'') ∧
      ∀ s, List.Forall₂ (fun call frame => call.decoded factory = .ok (some frame))
        (callsOf factory s (runMachine (receive factory) r' xs).2)
        ((sniffed options factory r xs).filter fun frame => getSrcAddr frame = s) := by
  induction xs generalizing r r' with
  | nil => exact ⟨⟨r, rfl⟩, fun _ => .nil⟩
  | cons x xs ih =>
    rw [List.forall_mem_cons] at hothers
    simp only [callsOf_cons, List.forall_mem_append] at hdecodes ⊢
    cases hframe : transported factory x with
    | none =>
      obtain ⟨ret, hok⟩ := @onRcv_returns_of_not_transported options factory x r hframe
        (hothers.1 hframe)
      obtain ⟨hsame, htaken, -⟩ := @onRcv_of_not_transported options factory r x hframe
      obtain ⟨-, hlinks'⟩ := receive_of_not_transported hframe r'
      obtain ⟨hsniff, hsniffed⟩ := sniff_cons hok xs
      rw [hsniff, hsniffed, hsame, htaken]
      simp only [Option.map_none, reduceCtorEq, if_false, List.nil_append, Option.toList_none]
      exact ih hqueue (fun s => (hlinks s).trans (hlinks' s).symm) hothers.2 fun s => (hdecodes s).2
    | some frame =>
      obtain ⟨hcall, hlinks'⟩ := receive_of_value (r := r') (transported_eq_some_iff.mp hframe).1
      rw [← hlinks] at hcall hlinks'
      have hfirst : ∀ call, (receive factory r' x).2 = some call → ∃ decodedFrame,
          call.decoded factory = .ok (some decodedFrame) ∧
            getSrcAddr decodedFrame = getSrcAddr frame := by
        intro call hsome
        refine (hdecodes (getSrcAddr frame)).1 call ?_
        rw [hframe, Option.map_some, if_pos rfl, hsome]
        exact List.mem_singleton_self call
      obtain ⟨⟨ret, hok⟩, htaken, hqueue', hlinksOwn⟩ :=
        @onRcv_of_decoded options factory x r frame hframe hqueue fun call hsome =>
          (hfirst call (hcall.trans hsome)).imp fun _ => And.left
      obtain ⟨hsniff, hsniffed⟩ := sniff_cons hok xs
      obtain ⟨hreturns, hrest⟩ := @ih (onRcv options factory r x).1 (receive factory r' x).1 hqueue'
        (fun s => by rw [hlinksOwn, hlinks']; split_ifs; exacts [rfl, hlinks s]) hothers.2
        fun s => (hdecodes s).2
      rw [hsniff, hsniffed, htaken, ← hcall]
      refine ⟨hreturns, fun s => ?_⟩
      rw [List.filter_append, Option.map_some]
      refine List.rel_append ?_ (hrest s)
      cases hsome : (receive factory r' x).2 with
      | none => split_ifs <;> exact .nil
      | some call =>
        obtain ⟨decodedFrame, hdecoded, hsource⟩ := hfirst call hsome
        rw [Option.bind_some, hdecoded]
        by_cases hs : getSrcAddr frame = s
        · rw [if_pos (congrArg some hs)]
          change List.Forall₂ _ [call] ([decodedFrame].filter _)
          rw [List.filter_cons_of_pos (by simpa [hsource] using hs)]
          exact .cons hdecoded .nil
        · rw [if_neg fun h => hs (Option.some.inj h)]
          change List.Forall₂ _ [] ([decodedFrame].filter _)
          rw [List.filter_cons_of_neg (by simpa [hsource] using hs)]
          exact .nil

end Sniffer

/-! ### Trouble codes -/

/-- The bytes of a diagnostic message restore its lamps and trouble codes, under whatever header
they arrive. -/
theorem DM1.run_decodeData_payload {f g : DM1} (hf : f.LampFrame) (hg : g.LampFrame)
    (hdtcs : ∀ d ∈ f.dtcs, d.Encodable) {out : List UInt8}
    (hout : f.encodeData (List.replicate (J1939.getDataLength f) 0xFF) = .ok out)
    (beyond : Memory) :
    (DM1.decodeData out.length).run g (Memory.ofList out beyond) =
      (.ok (), { g with spns := f.spns, dtcs := g.dtcs ++ f.dtcs }) := by
  have hlength : J1939.getDataLength f = max (2 + 4 * f.dtcs.length) 8 := by
    change max (f.toGenericFrame.getDataLength + _) _ = _
    rw [hf.getDataLength_lamps]
    rfl
  have hroom := DM1.length_dtcBytes f.dtcs
  obtain ⟨lamps, hencode, hlampsLength, hown⟩ := @DM1.LampFrame.encodeData f hf
    (List.replicate (J1939.getDataLength f) 0xFF) (by rw [List.length_replicate, hlength]; exact hroom)
  rw [List.length_replicate, hlength] at hlampsLength
  obtain rfl : writeBytes lamps 2 (DM1.dtcBytes f.dtcs) = out :=
    Except.ok.inj (hencode.symm.trans hout)
  have houtLength : (writeBytes lamps 2 (DM1.dtcBytes f.dtcs)).length =
      max (2 + 4 * f.dtcs.length) 8 := by
    rw [length_writeBytes, hlampsLength]
  have hbytes : ∀ i < (DM1.dtcBytes f.dtcs).length,
      Memory.ofList (writeBytes lamps 2 (DM1.dtcBytes f.dtcs)) beyond (2 + i) =
        (DM1.dtcBytes f.dtcs).getD i 0 := by
    intro i hi
    have hin : 2 + i < (writeBytes lamps 2 (DM1.dtcBytes f.dtcs)).length := by
      rw [houtLength]
      omega
    rw [Memory.ofList_of_lt hin, ← List.getD_eq_getElem _ 0 hin,
      Buffer.getD_writeBytes _ _ _ (by rw [hlampsLength]; exact hroom), if_pos (by omega),
      Nat.add_sub_cancel_left]
  obtain ⟨haccepts, hreads⟩ := DM1.readDtcs_dtcBytes hdtcs hbytes
  rw [← houtLength] at haccepts hreads
  have hdata := @DM1.run_decodeData_of_accepts g hg.hasLamps _ _
    (by rw [DM1.Accepts, hg.getDataLength_lamps]; exact haccepts)
  rw [hdata, hg.getDataLength_lamps, hreads, hf.restored hg]
  · rw [houtLength]
    omega
  · intro spn hspn k hk
    -- the trouble codes begin behind the bits of the lamps
    have hlast := hf.hasLamps.bits_le spn hspn
    rw [← hown spn hspn k hk, Buffer.bitAt, Buffer.bitAt,
      Buffer.getD_writeBytes_of_lt (by omega)]

end J1939
