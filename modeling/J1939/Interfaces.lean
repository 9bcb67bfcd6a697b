import J1939.Sniffer

/-!
# One reassembler for all interfaces

`CanEasy` gives the sniffer a receiver for every interface, and all of them call `onRcv`
with the same reassembler. The traffic of an interface is kept apart as long as no other
interface carries transport frames of its sources.
-/

namespace J1939

open BamReassembler

section Callback

variable (options : SnifferOptions) (factory : J1939Factory)

/-- The frame that the callback takes from the reassembler. -/
def taken (reassembler : BamReassembler) (x : Reception) : Option Frame :=
  match (factory.getJ1939Frame x.id x.length).value x.memory with
  | .ok (some j1939Frame) =>
    if toBeHandled j1939Frame then
      let res := reassembler.handleFrame factory x.heap j1939Frame
      match res.returned with
      | .ok _ => res.reassembler.dequeueReassembledFrame.1
      | .error _ => none
    else none
  | _ => none

/-- The sniffer on several interfaces, up to the first exception: the frames taken from the
reassembler, each with the interface whose reception completed it. -/
def sniffInterfaces {ι : Type} :
    BamReassembler → List (ι × Reception) → List (ι × Frame)
  | _, [] => []
  | reassembler, (interface, x) :: rest =>
    match onRcv options factory reassembler x with
    | (_, .error _) => []
    | (reassembler', .ok _) =>
      ((taken factory reassembler x).map fun frame => (interface, frame)).toList ++
        sniffInterfaces reassembler' rest

/-- The transport frame that a reception brings to the reassembler. -/
def transported (x : Reception) : Option Frame :=
  match (factory.getJ1939Frame x.id x.length).value x.memory with
  | .ok (some j1939Frame) => if toBeHandled j1939Frame then some j1939Frame else none
  | _ => none

/-- No two interfaces carry transport frames of one source. -/
def SourcesApart {ι : Type} (events : List (ι × Reception)) : Prop :=
  ∀ e ∈ events, ∀ e' ∈ events, e.1 ≠ e'.1 → ∀ frame frame', transported factory e.2 = some frame →
    transported factory e'.2 = some frame' → getSrcAddr frame ≠ getSrcAddr frame'

end Callback

section Steps

variable {options : SnifferOptions} {factory : J1939Factory} {r : BamReassembler} {x : Reception}

theorem transported_eq_some_iff {frame : Frame} :
    transported factory x = some frame ↔
      (factory.getJ1939Frame x.id x.length).value x.memory = .ok (some frame) ∧
        toBeHandled frame = true := by
  unfold transported
  cases (factory.getJ1939Frame x.id x.length).value x.memory with
  | error e => simp
  | ok decoded =>
    cases decoded with
    | none => simp
    | some decodedFrame =>
      simp only [Option.ite_none_right_eq_some, Option.some.injEq, Except.ok.injEq]
      constructor
      · rintro ⟨h, rfl⟩
        exact ⟨rfl, h⟩
      · rintro ⟨rfl, h⟩
        exact ⟨h, rfl⟩

/-- A reception that brings no transport frame leaves the reassembler alone. What the
callback returns does not depend on the reassembler. -/
theorem onRcv_of_not_transported (h : transported factory x = none) :
    (onRcv options factory r x).1 = r ∧ taken factory r x = none ∧
      ∀ r', (onRcv options factory r' x).2 = (onRcv options factory r x).2 := by
  unfold transported at h
  unfold onRcv taken
  cases hvalue : (factory.getJ1939Frame x.id x.length).value x.memory with
  | error e => exact ⟨rfl, rfl, fun _ => rfl⟩
  | ok decoded =>
    cases decoded with
    | none => exact ⟨rfl, rfl, fun _ => rfl⟩
    | some frame =>
      rw [hvalue] at h
      have hnot : ¬toBeHandled frame = true := fun hhandled => by simp [hhandled] at h
      simp only [if_neg hnot]
      exact ⟨trivial, trivial, fun _ => trivial⟩

/-- The factory decodes the message of a call. -/
def LinkResult.Decodes (factory : J1939Factory) (moved : LinkResult) : Prop :=
  ∀ call e, moved.call = some call →
    (factory.getJ1939Frame call.id call.length).value call.data ≠ .error e

/-- A transport frame makes the callback throw exactly when its link does. -/
theorem onRcv_returns_iff_decodes {frame : Frame} (h : transported factory x = some frame) :
    (∃ ret, (onRcv options factory r x).2 = .ok ret) ↔
      (stepLink factory x.heap (r.fragments.find? (getSrcAddr frame)) frame).Decodes factory := by
  obtain ⟨hvalue, hhandled⟩ := transported_eq_some_iff.mp h
  have hthrows := @throwsAsCalled_handleFrame factory x.heap r frame
  have hcall := (handleFrame_movesLink factory x.heap r frame).call
  simp only [onRcv, hvalue, if_pos hhandled]
  cases hreturned : (r.handleFrame factory x.heap frame).returned with
  | error e =>
    refine iff_of_false (by rintro ⟨_, ⟨⟩⟩) fun hdecodes => ?_
    obtain ⟨call, hsome, herror⟩ := (hthrows e).mp hreturned
    exact hdecodes call e (hcall ▸ hsome) herror
  | ok n =>
    refine iff_of_true ?_ fun call e hsome herror => ?_
    · simp only
      split <;> exact ⟨_, rfl⟩
    · have hthrown := (hthrows e).mpr ⟨call, hcall ▸ hsome, herror⟩
      rw [hreturned] at hthrown
      cases hthrown

/-- A transport frame moves the link of its source. What the link delivers is taken at
once. -/
theorem onRcv_of_transported {frame : Frame} (h : transported factory x = some frame)
    (hqueue : r.reassembledFrames = []) {ret : Option Frame}
    (hreturned : (onRcv options factory r x).2 = .ok ret) :
    let moved := stepLink factory x.heap (r.fragments.find? (getSrcAddr frame)) frame
    taken factory r x = moved.delivered ∧
      (onRcv options factory r x).1.reassembledFrames = [] ∧
      ∀ s, (onRcv options factory r x).1.fragments.find? s =
        if s = getSrcAddr frame then moved.session else r.fragments.find? s := by
  obtain ⟨hvalue, hhandled⟩ := transported_eq_some_iff.mp h
  have hmove := handleFrame_movesLink factory x.heap r frame
  have hqueue' := hmove.queue
  rw [hqueue, List.nil_append] at hqueue'
  simp only [onRcv, taken, hvalue, if_pos hhandled] at hreturned ⊢
  cases hres : (r.handleFrame factory x.heap frame).returned with
  | error e =>
    rw [hres] at hreturned
    cases hreturned
  | ok n =>
    rw [dequeueReassembledFrame, hqueue']
    cases hdelivered :
      (stepLink factory x.heap (r.fragments.find? (getSrcAddr frame)) frame).delivered with
    | none =>
      rw [hdelivered] at hqueue'
      exact ⟨rfl, hqueue', hmove.session⟩
    | some delivered => exact ⟨rfl, rfl, hmove.session⟩

end Steps

/-! ### One interface among others -/

/-- Two reassemblers agree on the sources of an interface. -/
structure AgreeOn (owned : UInt8 → Prop) (whole alone : BamReassembler) : Prop where
  wholeQueue : whole.reassembledFrames = []
  aloneQueue : alone.reassembledFrames = []
  sessions : ∀ s, owned s → whole.fragments.find? s = alone.fragments.find? s

section Simulation

variable {options : SnifferOptions} {factory : J1939Factory} {owned : UInt8 → Prop}
  {whole alone : BamReassembler} {x : Reception}

/-- A reception of the interface itself does the same in both. -/
theorem AgreeOn.own (h : AgreeOn owned whole alone)
    (howned : ∀ frame, transported factory x = some frame → owned (getSrcAddr frame))
    {ret : Option Frame} (hreturned : (onRcv options factory whole x).2 = .ok ret) :
    (∃ ret', (onRcv options factory alone x).2 = .ok ret') ∧
      taken factory whole x = taken factory alone x ∧
      AgreeOn owned (onRcv options factory whole x).1 (onRcv options factory alone x).1 := by
  cases htransported : transported factory x with
  | none =>
    obtain ⟨hwhole, hwholeTaken, hsame⟩ :=
      @onRcv_of_not_transported options factory whole x htransported
    obtain ⟨halone, haloneTaken, -⟩ :=
      @onRcv_of_not_transported options factory alone x htransported
    rw [hwhole, halone, hwholeTaken, haloneTaken, hsame alone]
    exact ⟨⟨ret, hreturned⟩, rfl, h⟩
  | some frame =>
    have hsession := h.sessions _ (howned frame htransported)
    have hdecodes := (onRcv_returns_iff_decodes htransported).mp ⟨ret, hreturned⟩
    rw [hsession] at hdecodes
    obtain ⟨ret', hreturned'⟩ : ∃ ret', (onRcv options factory alone x).2 = .ok ret' :=
      (onRcv_returns_iff_decodes htransported).mpr hdecodes
    obtain ⟨hwholeTaken, hwholeQueue, hwhole⟩ :=
      onRcv_of_transported htransported h.wholeQueue hreturned
    obtain ⟨haloneTaken, haloneQueue, halone⟩ :=
      onRcv_of_transported htransported h.aloneQueue hreturned'
    rw [hsession] at hwholeTaken hwhole
    refine ⟨⟨ret', hreturned'⟩, hwholeTaken.trans haloneTaken.symm, hwholeQueue, haloneQueue,
      fun s hs => ?_⟩
    rw [hwhole, halone, h.sessions s hs]

/-- A reception of another interface changes nothing that the interface sees. -/
theorem AgreeOn.other (h : AgreeOn owned whole alone)
    (hother : ∀ frame, transported factory x = some frame → ¬owned (getSrcAddr frame))
    {ret : Option Frame} (hreturned : (onRcv options factory whole x).2 = .ok ret) :
    AgreeOn owned (onRcv options factory whole x).1 alone := by
  cases htransported : transported factory x with
  | none =>
    rw [(onRcv_of_not_transported htransported).1]
    exact h
  | some frame =>
    obtain ⟨-, hqueue, hwhole⟩ := onRcv_of_transported htransported h.wholeQueue hreturned
    refine ⟨hqueue, h.aloneQueue, fun s hs => ?_⟩
    rw [hwhole, if_neg, h.sessions s hs]
    rintro rfl
    exact hother frame htransported hs

/-- The frames taken for an interface are the same in the whole run and alone. -/
theorem AgreeOn.run {ι : Type} [DecidableEq ι] {i : ι} (h : AgreeOn owned whole alone)
    {events : List (ι × Reception)}
    (howned : ∀ e ∈ events, ∀ frame, transported factory e.2 = some frame →
      (owned (getSrcAddr frame) ↔ e.1 = i))
    (hreturned : ∃ r', sniff options factory whole (events.map Prod.snd) = .ok r') :
    (sniffInterfaces options factory whole events).filter (fun e => e.1 = i) =
      sniffInterfaces options factory alone (events.filter fun e => e.1 = i) := by
  induction events generalizing whole alone with
  | nil => rfl
  | cons e events ih =>
    obtain ⟨interface, x⟩ := e
    rw [List.forall_mem_cons] at howned
    obtain ⟨hfirst, hrest⟩ := howned
    rw [List.map_cons, sniff] at hreturned
    rw [sniffInterfaces]
    rcases hwhole : onRcv options factory whole x with ⟨whole', _ | ret⟩
    · rw [hwhole] at hreturned
      obtain ⟨r', ⟨⟩⟩ := hreturned
    rw [hwhole] at hreturned
    simp only at hreturned ⊢
    have hok : (onRcv options factory whole x).2 = .ok ret := by rw [hwhole]
    rw [List.filter_append]
    by_cases hi : interface = i
    · subst hi
      obtain ⟨⟨ret', hok'⟩, htaken, hagree⟩ :=
        h.own (fun frame hframe => (hfirst frame hframe).mpr rfl) hok
      have hfilter : (((taken factory whole x).map fun frame => (interface, frame)).toList.filter
          fun e => e.1 = interface) =
            ((taken factory alone x).map fun frame => (interface, frame)).toList := by
        rw [htaken]
        cases taken factory alone x <;> simp
      rw [List.filter_cons_of_pos (by simp), hfilter, sniffInterfaces]
      rcases halone : onRcv options factory alone x with ⟨alone', _ | _⟩
      · rw [halone] at hok'
        cases hok'
      rw [hwhole, halone] at hagree
      simp only
      rw [ih hagree hrest hreturned]
    · have hagree := h.other (fun frame hframe hsrc => hi ((hfirst frame hframe).mp hsrc)) hok
      have hfilter : (((taken factory whole x).map fun frame => (interface, frame)).toList.filter
          fun e => e.1 = i) = [] := by
        cases taken factory whole x <;> simp [hi]
      rw [hwhole] at hagree
      rw [List.filter_cons_of_neg (by simpa using hi), hfilter, List.nil_append]
      exact ih hagree hrest hreturned

end Simulation

/-- A reception of a CAN frame, with zeros in the memory around it. -/
def Reception.ofFrame (id : UInt32) (data : List UInt8) : Reception :=
  ⟨⟨id, data⟩, fun _ => 0, fun _ => 0⟩

/-- A request for all nodes from the source 0x10 on one interface, and an announcement of two
packets on the other before the packet of the request has come. -/
def twoInterfaces (srcAddr : UInt32) : List (String × Reception) :=
  [("can0", .ofFrame 0x1CECFF10 [32, 3, 0, 1, 0xFF, 0xFF, 0xEA, 0]),
    ("can1", .ofFrame (0x1CECFF00 ||| srcAddr) [32, 9, 0, 2, 0xFF, 0xEC, 0xFE, 0]),
    ("can0", .ofFrame 0x1CEBFF10 [1, 1, 2, 3, 0xFF, 0xFF, 0xFF, 0xFF])]

end J1939
