import J1939.Lib.Drain
import J1939.Lib.Outcomes
import J1939.ReceivedFrames

/-!
# What the web page shows

The page fetches the table of received frames again and again, and each time it gets only what
has been assigned since. At every moment between two assignments it may fetch, and what it
fetched may arrive at any later time. Nothing that is received is lost on the way, and the cache
of the receiver cannot be seen.
-/

namespace J1939

open List (lastSome?)

/-! ### The table and the page -/

/-- `rxFrames["rx"][id]`. -/
structure RxEntry where
  count : Option UInt32 := none
  raw : Option (List Char) := none
  frame : Option Json := none

namespace RxWrite

/-- The member that is assigned to. -/
def id : RxWrite → UInt32
  | count i _ => i
  | raw i _ => i
  | frame i _ => i

def change (e : RxEntry) : RxWrite → RxEntry
  | count _ n => { e with count := some n }
  | raw _ dump => { e with raw := some dump }
  | frame _ json => { e with frame := some json }

end RxWrite

/-- `rxFrames["rx"]`, by identifier. -/
def RxFrames : Type := UInt32 → Option RxEntry

namespace RxFrames

/-- An assignment of `onRcv`. A member that is missing is created. -/
def write (rx : RxFrames) (w : RxWrite) : RxFrames :=
  fun i => if i = w.id then some (w.change ((rx i).getD {})) else rx i

def writeAll (rx : RxFrames) (writes : List RxWrite) : RxFrames := writes.foldl write rx

/-- `rxFrames["rx"].clear()`. -/
def empty : RxFrames := fun _ => none

end RxFrames

/-- A row of the page. Its count may be undefined. -/
structure PageRow (α : Type) where
  content : α
  count : Option UInt32

/-- The rows that the page shows: `rx_frames` and `rx_raw`. -/
structure Page where
  rxFrames : UInt32 → Option (PageRow Json) := fun _ => none
  rxRaw : UInt32 → Option (PageRow (List Char)) := fun _ => none

/-- A row of the page after a response with its identifier: the content is replaced when there
is a new one, and the count of a row that exists always. -/
def PageRow.merge {α : Type} (row : Option (PageRow α)) (content : Option α)
    (count : Option UInt32) : Option (PageRow α) :=
  (content.or (row.map PageRow.content)).map fun c => ⟨c, count⟩

namespace Page

/-- What the page does with the response to `check rx`. -/
def merge (page : Page) (rx : RxFrames) : Page where
  rxFrames id := (rx id).elim (page.rxFrames id) fun e =>
    PageRow.merge (page.rxFrames id) e.frame e.count
  rxRaw id := (rx id).elim (page.rxRaw id) fun e => PageRow.merge (page.rxRaw id) e.raw e.count

end Page

/-- The receiver assigns, the backend answers `check rx`, and the page handles the answer. An
update of several assignments is one that no `check rx` interrupts. -/
def pageProtocol : Drain.Operations (List RxWrite) RxFrames Page where
  empty := RxFrames.empty
  apply := RxFrames.writeAll
  merge := Page.merge

/-! ### Assignments to a member -/

namespace RxWrite

def countAt (i : UInt32) : RxWrite → Option UInt32
  | count j n => if j = i then some n else none
  | _ => none

def frameAt (i : UInt32) : RxWrite → Option Json
  | frame j json => if j = i then some json else none
  | _ => none

theorem countAt_of_ne {w : RxWrite} {i : UInt32} (h : w.id ≠ i) : w.countAt i = none := by
  cases w with
  | count j n => exact if_neg h
  | raw j dump => rfl
  | frame j json => rfl

theorem frameAt_of_ne {w : RxWrite} {i : UInt32} (h : w.id ≠ i) : w.frameAt i = none := by
  cases w with
  | count j n => rfl
  | raw j dump => rfl
  | frame j json => exact if_neg h

theorem count_change (w : RxWrite) (e : RxEntry) :
    (w.change e).count = (w.countAt w.id).or e.count := by
  cases w with
  | count j n => rw [id, countAt, if_pos rfl]; rfl
  | raw j dump => rfl
  | frame j json => rfl

theorem frame_change (w : RxWrite) (e : RxEntry) :
    (w.change e).frame = (w.frameAt w.id).or e.frame := by
  cases w with
  | count j n => rfl
  | raw j dump => rfl
  | frame j json => rw [id, frameAt, if_pos rfl]; rfl

end RxWrite

namespace RxFrames

variable (rx : RxFrames) (writes : List RxWrite) (i : UInt32)

/-- What is assigned last to a field of a member is what it has. -/
theorem field_writeAll {β : Type} {field : RxEntry → Option β} {at? : RxWrite → Option β}
    (hempty : field {} = none) (hne : ∀ w : RxWrite, w.id ≠ i → at? w = none)
    (hchange : ∀ (w : RxWrite) e, w.id = i → field (w.change e) = (at? w).or (field e)) :
    (rx.writeAll writes i).bind field = (lastSome? at? writes).or ((rx i).bind field) := by
  induction writes generalizing rx with
  | nil => rfl
  | cons w writes ih =>
    rw [writeAll, List.foldl_cons]
    refine (ih (rx.write w)).trans ?_
    rw [List.lastSome?_cons, Option.or_assoc]
    congr 1
    by_cases h : w.id = i
    · rw [write, if_pos h.symm, Option.bind_some, hchange w _ h]
      cases rx i with
      | none => rw [Option.getD_none, hempty]; rfl
      | some e => rfl
    · rw [hne w h, write, if_neg (Ne.symm h)]
      rfl

theorem frame_writeAll : (rx.writeAll writes i).bind RxEntry.frame =
    (lastSome? (RxWrite.frameAt i) writes).or ((rx i).bind RxEntry.frame) :=
  field_writeAll rx writes i rfl (fun _ => RxWrite.frameAt_of_ne) fun w e h => by
    rw [← h, RxWrite.frame_change]

theorem count_writeAll : (rx.writeAll writes i).bind RxEntry.count =
    (lastSome? (RxWrite.countAt i) writes).or ((rx i).bind RxEntry.count) :=
  field_writeAll rx writes i rfl (fun _ => RxWrite.countAt_of_ne) fun w e h => by
    rw [← h, RxWrite.count_change]

/-- Members that are not assigned to stay. -/
theorem writeAll_of_ne (h : ∀ w ∈ writes, w.id ≠ i) : rx.writeAll writes i = rx i := by
  induction writes generalizing rx with
  | nil => rfl
  | cons w writes ih =>
    rw [List.forall_mem_cons] at h
    rw [writeAll, List.foldl_cons]
    exact (ih (rx.write w) h.2).trans (if_neg (Ne.symm h.1))

end RxFrames

/-! ### The view of the page -/

/-- The updates that assign to a member assign a count as well. -/
def Counted (i : UInt32) (writes : List RxWrite) : Prop :=
  ∀ w ∈ writes, w.id = i → ∃ n, lastSome? (RxWrite.countAt i) writes = some n

/-- What updates make of a row. -/
def PageRow.put (i : UInt32) (row : Option (PageRow Json)) (writes : List RxWrite) :
    Option (PageRow Json) :=
  (lastSome? (RxWrite.countAt i) writes).elim row fun n =>
    PageRow.merge row (lastSome? (RxWrite.frameAt i) writes) (some n)

theorem PageRow.content_merge {α : Type} (row : Option (PageRow α)) (content : Option α)
    (count : Option UInt32) :
    (PageRow.merge row content count).map PageRow.content =
      content.or (row.map PageRow.content) := by
  rw [merge, Option.map_map]
  cases content.or (row.map PageRow.content) <;> rfl

/-- The frame of a row is the last one that is assigned. -/
theorem shows_frame (i : UInt32) : Drain.Shows pageProtocol (fun _ => True)
    (fun page => (page.rxFrames i).map PageRow.content)
    (fun frame writes => (lastSome? (RxWrite.frameAt i) writes).or frame) := by
  have hmerge : ∀ (page : Page) (rx : RxFrames),
      ((page.merge rx).rxFrames i).map PageRow.content =
        ((rx i).bind RxEntry.frame).or ((page.rxFrames i).map PageRow.content) := by
    intro page rx
    change ((rx i).elim (page.rxFrames i) _).map PageRow.content = _
    cases rx i with
    | none => rfl
    | some e => exact PageRow.content_merge _ _ _
  constructor
  · exact fun page => hmerge page RxFrames.empty
  · intro page rx writes _
    refine (hmerge page (rx.writeAll writes)).trans ?_
    rw [RxFrames.frame_writeAll, Option.or_assoc, ← hmerge]
    rfl

/-- Where every update of a member has a count, the row has the last one. -/
theorem shows_row (i : UInt32) : Drain.Shows pageProtocol (Counted i)
    (fun page => page.rxFrames i) (PageRow.put i) := by
  constructor
  · exact fun page => rfl
  · intro page rx writes hcounted
    by_cases hmember : ∃ w ∈ writes, w.id = i
    · obtain ⟨w, hw, hid⟩ := hmember
      obtain ⟨n, hn⟩ := hcounted w hw hid
      have hcount := rx.count_writeAll writes i
      have hframe := rx.frame_writeAll writes i
      rw [hn, Option.some_or] at hcount
      obtain ⟨e, he, hen⟩ := Option.bind_eq_some_iff.mp hcount
      rw [he, Option.bind_some] at hframe
      change (rx.writeAll writes i).elim _ _ = PageRow.put i ((rx i).elim _ _) writes
      rw [he, Option.elim_some, PageRow.put, hn, Option.elim_some, hen, PageRow.merge,
        PageRow.merge, hframe, Option.or_assoc]
      cases rx i with
      | none => rfl
      | some e' => rw [Option.elim_some, PageRow.content_merge]; rfl
    · have hnone : ∀ w ∈ writes, w.id ≠ i := fun w hw hid => hmember ⟨w, hw, hid⟩
      have hcount : lastSome? (RxWrite.countAt i) writes = none := by
        by_contra hsome
        obtain ⟨n, hn⟩ := Option.ne_none_iff_exists'.mp hsome
        obtain ⟨w, hw, hcountAt⟩ := List.exists_of_lastSome? hn
        rw [RxWrite.countAt_of_ne (hnone w hw)] at hcountAt
        cases hcountAt
      rw [PageRow.put, hcount]
      change (rx.writeAll writes i).elim _ _ = (rx i).elim _ _
      rw [RxFrames.writeAll_of_ne rx writes i hnone]

theorem foldl_frame (i : UInt32) (frame : Option Json) (updates : List (List RxWrite)) :
    updates.foldl (fun frame writes => (lastSome? (RxWrite.frameAt i) writes).or frame) frame =
      (lastSome? (RxWrite.frameAt i) updates.flatten).or frame := by
  induction updates generalizing frame with
  | nil => rfl
  | cons writes updates ih =>
    rw [List.foldl_cons, ih, List.flatten_cons, List.lastSome?_append, Option.or_assoc]

/-- A frame is not assigned without a count. -/
def FrameCounted (i : UInt32) (writes : List RxWrite) : Prop :=
  lastSome? (RxWrite.countAt i) writes = none → lastSome? (RxWrite.frameAt i) writes = none

theorem Counted.frameCounted {i : UInt32} {writes : List RxWrite} (h : Counted i writes) :
    FrameCounted i writes := by
  intro hcount
  by_contra hsome
  obtain ⟨json, hjson⟩ := Option.ne_none_iff_exists'.mp hsome
  obtain ⟨w, hw, hframeAt⟩ := List.exists_of_lastSome? hjson
  have hid : w.id = i := by
    by_contra hne
    rw [RxWrite.frameAt_of_ne hne] at hframeAt
    cases hframeAt
  obtain ⟨n, hn⟩ := h w hw hid
  rw [hcount] at hn
  cases hn

theorem frameCounted_flatten {i : UInt32} {updates : List (List RxWrite)}
    (h : ∀ writes ∈ updates, Counted i writes) : FrameCounted i updates.flatten := by
  induction updates with
  | nil => exact fun _ => rfl
  | cons writes updates ih =>
    rw [List.forall_mem_cons] at h
    intro hcount
    rw [List.flatten_cons, List.lastSome?_append, Option.or_eq_none_iff] at hcount ⊢
    exact ⟨ih h.2 hcount.1, h.1.frameCounted hcount.2⟩

theorem PageRow.put_append {i : UInt32} (row : Option (PageRow Json))
    {writes writes' : List RxWrite} (h : FrameCounted i writes) (h' : FrameCounted i writes') :
    PageRow.put i row (writes ++ writes') = PageRow.put i (PageRow.put i row writes) writes' := by
  rw [put, put, List.lastSome?_append, List.lastSome?_append]
  cases hcount' : lastSome? (RxWrite.countAt i) writes' with
  | none =>
    rw [h' hcount']
    rfl
  | some n =>
    rw [Option.some_or, Option.elim_some, Option.elim_some, merge, merge, Option.or_assoc, put]
    cases hcount : lastSome? (RxWrite.countAt i) writes with
    | none =>
      rw [h hcount]
      rfl
    | some m => rw [Option.elim_some, content_merge]

theorem foldl_row {i : UInt32} (row : Option (PageRow Json)) {updates : List (List RxWrite)}
    (h : ∀ writes ∈ updates, Counted i writes) :
    updates.foldl (PageRow.put i) row = PageRow.put i row updates.flatten := by
  induction updates generalizing row with
  | nil => rfl
  | cons writes updates ih =>
    rw [List.forall_mem_cons] at h
    rw [List.foldl_cons, ih _ h.2, List.flatten_cons,
      PageRow.put_append row h.1.frameCounted (frameCounted_flatten h.2)]

/-! ### What the receiver assigns -/

section Receiver

variable {factory : J1939Factory} {id i : UInt32}

/-- The frame that the CAN frames with an identifier stand for at last. -/
def lastDisplayed (factory : J1939Factory) (id : UInt32) (xs : List ReceivedFrame) :
    Option Frame :=
  lastSome? (fun x => if x.id = id then x.displayed factory else none) xs

/-- What is assigned under an identifier is displayed for CAN frames with the identifier `id`:
neither a longer message nor other CAN frames share the row. -/
def OwnRow (factory : J1939Factory) (id i : UInt32) (x : ReceivedFrame) (writes : List RxWrite) :
    Prop :=
  ∀ json, RxWrite.frame i json ∈ writes → x.id = id ∧ x.displayed factory ≠ none

/-- The table and the cache agree with what has been received. -/
structure Tracks (factory : J1939Factory) (id i : UInt32) (seen : List ReceivedFrame)
    (writes : List RxWrite) (cache : SortedMap UInt32 CanFrame) : Prop where
  shown : lastSome? (RxWrite.frameAt i) writes = (lastDisplayed factory id seen).map frameToJson
  cached : ∀ x : ReceivedFrame, x.id = id →
    (cache.find? id).map CanFrame.data = some x.frame.data →
      x.displayed factory = lastDisplayed factory id seen

theorem displayed_of_unknown {x : ReceivedFrame}
    (h : factory.frames.find? (lookupPgn x.id) = none) : x.displayed factory = none := by
  by_contra hsome
  obtain ⟨f, hf⟩ := Option.ne_none_iff_exists'.mp hsome
  obtain ⟨frame, hfind, -⟩ :=
    J1939Factory.exists_run_of_value (ReceivedFrame.value_of_displayed hf)
  rw [h] at hfind
  cases hfind

theorem lastDisplayed_of_unknown (h : factory.frames.find? (lookupPgn id) = none)
    (xs : List ReceivedFrame) : lastDisplayed factory id xs = none := by
  by_contra hsome
  obtain ⟨f, hf⟩ := Option.ne_none_iff_exists'.mp hsome
  obtain ⟨x, -, hx⟩ := List.exists_of_lastSome? hf
  split_ifs at hx with hid
  rw [displayed_of_unknown (by rwa [hid])] at hx
  cases hx

theorem lastDisplayed_concat (seen : List ReceivedFrame) (x : ReceivedFrame) :
    lastDisplayed factory id (seen ++ [x]) =
      (if x.id = id then x.displayed factory else none).or (lastDisplayed factory id seen) := by
  rw [lastDisplayed, List.lastSome?_append, List.lastSome?_singleton]
  rfl

/-- One call, where the same data are skipped. -/
theorem Tracks.step {seen : List ReceivedFrame} {writes ws : List RxWrite} {r : Receiver}
    {x : ReceivedFrame} {cache : SortedMap UInt32 CanFrame} {counts : SortedMap UInt32 UInt32}
    (h : Tracks factory id i seen writes r.rcvFramesCache)
    (hcall : OnRcv factory r x cache counts ws) (hreads : x.ReadsPayload factory)
    (hown : OwnRow factory id i x ws)
    (hrow : x.id = id → ∀ f ∈ x.displayed factory, getIdentifier f = i) :
    Tracks factory id i (seen ++ [x]) (writes ++ ws) cache := by
  -- a call that assigns no frame to the row and displays none
  have hquiet : lastSome? (RxWrite.frameAt i) ws = none →
      lastDisplayed factory id (seen ++ [x]) = lastDisplayed factory id seen →
      lastSome? (RxWrite.frameAt i) (writes ++ ws) =
        (lastDisplayed factory id (seen ++ [x])).map frameToJson := by
    intro hnone hlast
    rw [List.lastSome?_append, hnone, Option.none_or, h.shown, hlast]
  have hother : x.displayed factory = none →
      lastDisplayed factory id (seen ++ [x]) = lastDisplayed factory id seen := by
    intro hnone
    rw [lastDisplayed_concat, hnone, ite_self, Option.none_or]
  cases hcall with
  | unchanged hsame =>
    have hlast : lastDisplayed factory id (seen ++ [x]) = lastDisplayed factory id seen := by
      rw [lastDisplayed_concat]
      split_ifs with hid
      · rw [h.cached x hid (by rw [← hid]; exact hsame), Option.or_self]
      · rfl
    refine ⟨hquiet rfl hlast, fun y hy hdata => ?_⟩
    rw [hlast]
    exact h.cached y hy hdata
  | hidden _ hdisplayed =>
    refine ⟨hquiet rfl (hother hdisplayed), fun y hy hdata => ?_⟩
    rw [hother hdisplayed]
    exact h.cached y hy hdata
  | raw _ hunknown _ =>
    have hlast := hother (displayed_of_unknown hunknown)
    refine ⟨hquiet rfl hlast, fun y hy hdata => ?_⟩
    rw [hlast]
    rw [SortedMap.find?_insert] at hdata
    split_ifs at hdata with hid
    · rw [← hid] at hunknown
      rw [lastDisplayed_of_unknown hunknown, displayed_of_unknown (by rwa [hy])]
    · exact h.cached y hy hdata
  | reassembled _ hdisplayed full =>
    have hne : getIdentifier full ≠ i := by
      rintro rfl
      exact (hown (frameToJson full) (by simp)).2 hdisplayed
    refine ⟨hquiet ?_ (hother hdisplayed), fun y hy hdata => ?_⟩
    · simp [List.lastSome?_cons, RxWrite.frameAt, hne]
    · rw [hother hdisplayed]
      exact h.cached y hy hdata
  | displayed _ f hdisplayed =>
    by_cases hid : x.id = id
    · have hlast : lastDisplayed factory id (seen ++ [x]) = some f := by
        rw [lastDisplayed_concat, if_pos hid, hdisplayed, Option.some_or]
      refine ⟨?_, fun y hy hdata => ?_⟩
      · rw [hlast, List.lastSome?_append]
        simp [List.lastSome?_cons, RxWrite.frameAt, hrow hid f hdisplayed]
      · rw [SortedMap.find?_insert, if_pos hid.symm, Option.map_some, Option.some.injEq] at hdata
        have hframe : y.frame = x.frame := by
          have hids : y.frame.id = x.frame.id := hy.trans hid.symm
          cases hyf : y.frame
          cases hxf : x.frame
          simp_all
        rw [hlast, ← hdisplayed]
        exact ReceivedFrame.displayed_congr hreads hframe
    · have hlast : lastDisplayed factory id (seen ++ [x]) = lastDisplayed factory id seen := by
        rw [lastDisplayed_concat, if_neg hid, Option.none_or]
      have hne : getIdentifier f ≠ i := by
        rintro rfl
        exact hid (hown (frameToJson f) (by simp)).1
      refine ⟨hquiet ?_ hlast, fun y hy hdata => ?_⟩
      · simp [List.lastSome?_cons, RxWrite.frameAt, hne]
      · rw [SortedMap.find?_insert, if_neg (Ne.symm hid)] at hdata
        rw [hlast]
        exact h.cached y hy hdata

/-- The counts agree with what has been received, and with what has been assigned. -/
structure CountsReceived (id : UInt32) (seen : List ReceivedFrame) (writes : List RxWrite)
    (counts : SortedMap UInt32 UInt32) : Prop where
  written : counts.find? id = lastSome? (RxWrite.countAt id) writes
  counted : (counts.find? id).getD 0 = UInt32.ofNat (seen.countP fun x => x.id = id)

section OwnIdentifier

variable {r : Receiver} {x : ReceivedFrame} {cache : SortedMap UInt32 CanFrame}
  {counts : SortedMap UInt32 UInt32} {ws : List RxWrite} (hcall : OnRcv factory r x cache counts ws)
  (hown : OwnRow factory id id x ws)

include hcall hown

/-- A call counts what it is called for. -/
theorem OnRcv.count_eq :
    counts.find? id =
        (if x.id = id then some ((r.rcvFramesCount.find? id).getD 0 + 1)
          else r.rcvFramesCount.find? id) ∧
      lastSome? (RxWrite.countAt id) ws =
        if x.id = id then some ((r.rcvFramesCount.find? id).getD 0 + 1) else none := by
  have hfind : (r.countFrame x.id).1.rcvFramesCount.find? id =
      if x.id = id then some ((r.rcvFramesCount.find? id).getD 0 + 1)
        else r.rcvFramesCount.find? id := by
    rw [Receiver.countFrame, SortedMap.find?_insert]
    split_ifs with h h' h'
    · rw [h]
    · exact absurd h.symm h'
    · exact absurd h'.symm h
    · rfl
  have hcount : RxWrite.countAt id (.count x.id (r.countFrame x.id).2) =
      if x.id = id then some ((r.rcvFramesCount.find? id).getD 0 + 1) else none := by
    rw [RxWrite.countAt, Receiver.countFrame]
    split_ifs with h
    · rw [h]
    · rfl
  cases hcall with
  | unchanged _ => exact ⟨hfind, (List.lastSome?_singleton _).trans hcount⟩
  | hidden _ _ => exact ⟨hfind, (List.lastSome?_singleton _).trans hcount⟩
  | raw _ _ _ => exact ⟨hfind, (List.lastSome?_cons _ _).trans hcount⟩
  | displayed _ f _ => exact ⟨hfind, (List.lastSome?_cons _ _).trans hcount⟩
  | reassembled _ hdisplayed full =>
    have hne : getIdentifier full ≠ id := by
      rintro rfl
      exact (hown (frameToJson full) (by simp)).2 hdisplayed
    constructor
    · rw [Receiver.countFrame, SortedMap.find?_insert, if_neg (Ne.symm hne)]
      exact hfind
    · rw [List.lastSome?_cons, hcount]
      simp [List.lastSome?_cons, RxWrite.countAt, hne]

theorem OnRcv.counted : Counted id ws := by
  obtain ⟨-, hcount⟩ := hcall.count_eq hown
  intro w hw hid
  suffices hx : x.id = id by
    rw [if_pos hx] at hcount
    exact ⟨_, hcount⟩
  cases hcall with
  | unchanged _ =>
    rw [List.mem_singleton] at hw
    rwa [hw] at hid
  | hidden _ _ =>
    rw [List.mem_singleton] at hw
    rwa [hw] at hid
  | raw _ _ _ =>
    rcases List.mem_pair.mp hw with rfl | rfl <;> exact hid
  | displayed _ f _ =>
    rcases List.mem_pair.mp hw with rfl | rfl
    · exact hid
    · exact (hown (frameToJson f) (by rw [← hid]; exact hw)).1
  | reassembled _ hdisplayed full =>
    have hne : getIdentifier full ≠ id := by
      rintro rfl
      exact (hown (frameToJson full) (by simp)).2 hdisplayed
    rcases List.mem_cons.mp hw with rfl | hw
    · exact hid
    · rcases List.mem_pair.mp hw with rfl | rfl <;> exact absurd hid hne

theorem CountsReceived.step {seen : List ReceivedFrame} {writes : List RxWrite}
    (h : CountsReceived id seen writes r.rcvFramesCount) :
    CountsReceived id (seen ++ [x]) (writes ++ ws) counts := by
  obtain ⟨hfind, hcount⟩ := hcall.count_eq hown
  constructor
  · rw [hfind, List.lastSome?_append, hcount, ← h.written]
    split_ifs <;> rfl
  · rw [hfind, List.countP_append, List.countP_singleton]
    by_cases hid : x.id = id
    · rw [if_pos hid, if_pos (decide_eq_true hid), Option.getD_some, h.counted, UInt32.ofNat_add]
      rfl
    · rw [if_neg hid, if_neg (by simpa using hid), h.counted]
      rfl

end OwnIdentifier

/-- What every call keeps holds after all of them. -/
theorem receiveAll_keeps {I : List ReceivedFrame → List RxWrite → Receiver → Prop}
    {Owned : ReceivedFrame → List RxWrite → Prop} {xs : List ReceivedFrame} {r r' : Receiver}
    {updates : List (List RxWrite)} (hrun : r.receiveAll factory xs = .ok (r', updates))
    (howned : List.Forall₂ Owned xs updates)
    (hstep : ∀ seen writes r r' x ws, x ∈ xs → Owned x ws →
      OnRcv factory r x r'.rcvFramesCache r'.rcvFramesCount ws → I seen writes r →
        I (seen ++ [x]) (writes ++ ws) r')
    {seen : List ReceivedFrame} {writes : List RxWrite} (h : I seen writes r) :
    I (seen ++ xs) (writes ++ updates.flatten) r' := by
  induction xs generalizing r updates seen writes with
  | nil =>
    cases hrun
    rwa [List.flatten_nil, List.append_nil, List.append_nil]
  | cons x xs ih =>
    rw [Receiver.receiveAll] at hrun
    obtain ⟨⟨r₁, ws⟩, hcall, hrun⟩ := Except.bind_eq_ok_iff.mp hrun
    obtain ⟨⟨r₂, rest⟩, hcalls, hrun⟩ := Except.bind_eq_ok_iff.mp hrun
    cases hrun
    obtain ⟨hx, hxs⟩ := List.forall₂_cons.mp howned
    have hkept := hstep seen writes r r₁ x ws List.mem_cons_self hx (onRcv_of_ok hcall) h
    have hrest := ih hcalls hxs (fun seen writes r r' x ws hmem =>
      hstep seen writes r r' x ws (List.mem_cons_of_mem _ hmem)) hkept
    rwa [List.append_assoc, List.append_assoc] at hrest

/-- What holds of what every call assigns. -/
theorem receiveAll_forall {P : List RxWrite → Prop}
    {Owned : ReceivedFrame → List RxWrite → Prop} {xs : List ReceivedFrame} {r r' : Receiver}
    {updates : List (List RxWrite)} (hrun : r.receiveAll factory xs = .ok (r', updates))
    (howned : List.Forall₂ Owned xs updates)
    (hcall : ∀ {r : Receiver} {x cache counts ws}, Owned x ws →
      OnRcv factory r x cache counts ws → P ws) : ∀ ws ∈ updates, P ws := by
  induction xs generalizing r updates with
  | nil =>
    cases hrun
    exact fun ws hws => absurd hws List.not_mem_nil
  | cons x xs ih =>
    rw [Receiver.receiveAll] at hrun
    obtain ⟨⟨r₁, ws⟩, honRcv, hrun⟩ := Except.bind_eq_ok_iff.mp hrun
    obtain ⟨⟨r₂, rest⟩, hcalls, hrun⟩ := Except.bind_eq_ok_iff.mp hrun
    cases hrun
    obtain ⟨hx, hxs⟩ := List.forall₂_cons.mp howned
    exact List.forall_mem_cons.mpr ⟨hcall hx (onRcv_of_ok honRcv), ih hcalls hxs⟩

end Receiver

/-- A request for a PGN with two bytes, received from address 0x10. -/
def receivedPgn (b₀ b₁ : UInt8) : ReceivedFrame where
  frame := ⟨0x18EA2010, [b₀, b₁, 0x00]⟩
  beyond _ := 0
  heap _ := 0
  showRaw := false
  now _ := ⟨0, 0⟩
  specAddress _ := 0
  behindCached _ := 0

/-- The frame of such a request. -/
def requestedPgn (pgn : UInt32) : Frame :=
  .request { RequestFrame.new with
    priority := 6, srcAddr := 0x10, dstAddr := 0x20, requestPGN := pgn }

/-- What is assigned for three requests, of which the second one repeats the first one. -/
def requestUpdates : List (List RxWrite) :=
  [[.count 0x18EA2010 1, .frame 0x18EA2010 (frameToJson (requestedPgn 0xFEEC))],
    [.count 0x18EA2010 2],
    [.count 0x18EA2010 3, .frame 0x18EA2010 (frameToJson (requestedPgn 0xFEE5))]]

/-- The page asks after every call, and the answers arrive in the end. -/
def requestEvents : List (Drain.Event (List RxWrite)) :=
  requestUpdates.flatMap (fun writes => [.write writes, .fetch]) ++ [.merge, .merge, .merge]

/-- When the page asks between the count and the frame, it shows the frame without its count. -/
theorem count_lost :
    ∃ row, ((⟨RxFrames.empty, [], {}⟩ : Drain.State RxFrames Page).run pageProtocol
        [.write [.count 0x18EA2010 1], .fetch,
          .write [.frame 0x18EA2010 (frameToJson (requestedPgn 0xFEEC))], .fetch, .merge,
          .merge]).reader.rxFrames 0x18EA2010 = some row ∧ row.count = none := ⟨_, rfl, rfl⟩

end J1939
