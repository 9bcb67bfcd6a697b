import J1939.AddressNetwork
import Mathlib.Data.List.Rotate

/-!
# Selecting an address

How the thread of an `AddressClaimer` walks its queue of preferred addresses, and what it
reports: the results of `tryObtainAddress` and `claimAddressStep`, the addresses given to
`onSrcAddrChanged` and the frames that it sends.
-/

namespace J1939

/-- `AddressClaimer::ClaimResult`. -/
inductive ClaimResult
  | addressObtained
  | retry
  | failed
  deriving DecidableEq, Repr

namespace AddressClaimer

/-- What `tryObtainAddress` returns after `read` has returned; `none` when it reads again. -/
def claimResult (c : AddressClaimer) (address : UInt8) (timeToWait : ℤ) (elapsed : ℕ) :
    Option Frame → Option ClaimResult
  | some (.addressClaim frame) =>
    if getSrcAddr frame = address then
      if c.ecuName.getValue < frame.ecuName.getValue then some .retry else some .failed
    else none
  | some _ => if timeToWait - elapsed > 0 then none else some .addressObtained
  | none => some .addressObtained

/-- What `tryObtainAddress` returns in the next step of the thread, if it does. -/
def tryObtainAddress (elapsed : ℕ) (c : AddressClaimer) : Option ClaimResult :=
  match c.point with
  | .await address _ timeToWait => c.claimResult address timeToWait elapsed c.read.1
  | _ => none

/-- `processAddressClaim` returns false, so that the inner loop of `exec` ends. -/
def conflict (c : AddressClaimer) : Option Frame → Bool
  | some (.addressClaim frame) =>
    getSrcAddr frame ≠ invalidAddress ∧ getSrcAddr frame = c.currentSrc ∧
      ¬c.ecuName.getValue < frame.ecuName.getValue
  | _ => false

variable {c : AddressClaimer} {address : UInt8} {pos : ℕ} {timeToWait : ℤ} {elapsed : ℕ}
  {frame : Option Frame}

/-- The result decides how the thread goes on. -/
theorem afterAwait_of_claimResult :
    (∃ t, c.claimResult address timeToWait elapsed frame = none ∧
        c.afterAwait address pos timeToWait elapsed frame =
          { c with point := .await address pos t }) ∨
      (c.claimResult address timeToWait elapsed frame = some .addressObtained ∧
        c.afterAwait address pos timeToWait elapsed frame = c.obtain address) ∨
      (c.claimResult address timeToWait elapsed frame = some .retry ∧
        c.afterAwait address pos timeToWait elapsed frame =
          { c with point := .claim address pos }) ∨
      (c.claimResult address timeToWait elapsed frame = some .failed ∧
        c.afterAwait address pos timeToWait elapsed frame = c.nextAddress pos) := by
  rcases frame with _ | frame
  · exact .inr (.inl ⟨rfl, rfl⟩)
  cases frame
  case addressClaim frame =>
    simp only [afterAwait, claimResult]
    split
    · split
      · exact .inr (.inr (.inl ⟨rfl, rfl⟩))
      · exact .inr (.inr (.inr ⟨rfl, rfl⟩))
    · exact .inl ⟨_, rfl, rfl⟩
  -- any other frame only takes up time
  all_goals
    simp only [afterAwait, claimResult]
    split
    · exact .inl ⟨_, rfl, rfl⟩
    · exact .inr (.inl ⟨rfl, rfl⟩)

/-- Only a conflict leads out of the inner loop of `exec`. -/
theorem afterListen_of_conflict :
    (c.conflict frame = true ∧
        c.afterListen frame = { c with currentSrc := invalidAddress, point := .flush }) ∨
      (c.conflict frame = false ∧ ((c.afterListen frame) = c ∨
        c.afterListen frame = { c with point := .reply })) := by
  rcases frame with _ | frame
  · exact .inr ⟨rfl, .inl rfl⟩
  cases frame
  case request frame =>
    simp only [afterListen, conflict]
    split
    · exact .inr ⟨trivial, .inr rfl⟩
    · exact .inr ⟨trivial, .inl rfl⟩
  case addressClaim frame =>
    simp only [afterListen, conflict]
    split
    · next hobjection =>
      split
      · next hsmaller => exact .inr ⟨by simp [hsmaller], .inr rfl⟩
      · next hsmaller => exact .inl ⟨decide_eq_true ⟨hobjection.1, hobjection.2, hsmaller⟩, rfl⟩
    · next hnone =>
      refine .inr ⟨?_, .inl rfl⟩
      rw [decide_eq_false_iff_not]
      exact fun h => hnone ⟨h.1, h.2.1⟩
  all_goals exact .inr ⟨rfl, .inl rfl⟩

end AddressClaimer

/-! ### Arbitration -/

section Arbitration

open AddressClaimer

variable {c : AddressClaimer} {address priority : UInt8}

/-- Broadcast claims of one address with one priority have one identifier. -/
theorem getIdentifier_claim {f g : AddressClaimFrame} (hsrc : getSrcAddr f = getSrcAddr g)
    (hdst : getDstAddr f = getDstAddr g) (hprio : getPriority f = getPriority g) :
    getIdentifier f = getIdentifier g := by
  have hbase : ∀ h : AddressClaimFrame, getIdentifier h = J1939Frame.getIdentifier
      { srcAddr := getSrcAddr h, dstAddr := getDstAddr h, priority := getPriority h,
        pgn := addressClaimPgn } := fun _ => rfl
  rw [hbase f, hbase g, hsrc, hdst, hprio]

/-- Of the frames with one identifier the mailbox keeps the last one. -/
theorem frames_foldl_receive {id : UInt32} {claims : List AddressClaimFrame}
    {last : AddressClaimFrame} (hid : ∀ f ∈ claims ++ [last], getIdentifier f = id) :
    ((claims ++ [last]).foldl (fun c f => c.receive (.addressClaim f)) c).frames =
      c.frames.insert id (.addressClaim last) := by
  induction claims generalizing c with
  | nil =>
    have hlast : getIdentifier last = id := hid last (by simp)
    rw [← hlast]
    rfl
  | cons f claims ih =>
    have hf : getIdentifier f = id := hid f (by simp)
    rw [List.cons_append, List.foldl_cons, ih fun g hg => hid g (List.mem_cons_of_mem _ hg)]
    apply SortedMap.ext_find?
    intro k
    rw [SortedMap.find?_insert, SortedMap.find?_insert, AddressClaimer.receive]
    by_cases hk : k = id
    · rw [if_pos hk, if_pos hk]
    · rw [if_neg hk, if_neg hk, SortedMap.find?_insert, if_neg]
      rw [← hf] at hk
      exact hk

/-- Receiving only fills the mailbox. -/
theorem foldl_receive (claims : List AddressClaimFrame) :
    (claims.foldl (fun c f => c.receive (.addressClaim f)) c).point = c.point ∧
      (claims.foldl (fun c f => c.receive (.addressClaim f)) c).ecuName = c.ecuName := by
  induction claims generalizing c with
  | nil => exact ⟨rfl, rfl⟩
  | cons f claims ih => exact ih

/-- Of broadcast claims of the same address that come before the next read, with the same priority,
only the last one counts: the result is right when it objects, or no claim does. -/
theorem arbitration_iff {pos : ℕ} {timeToWait : ℤ} (elapsed : ℕ) {claims : List AddressClaimFrame}
    (hwait : c.point = .await address pos timeToWait) (hne : claims ≠ [])
    (hclaims : ∀ f ∈ claims, getSrcAddr f = address ∧ getDstAddr f = broadcastAddress ∧
      getPriority f = priority)
    (hfirst : ∀ f ∈ claims, ∀ e ∈ c.frames.first?, getIdentifier f ≤ e.1) :
    (claims.foldl (fun c f => c.receive (.addressClaim f)) c).tryObtainAddress elapsed =
        some (if ∃ f ∈ claims, f.ecuName.getValue ≤ c.ecuName.getValue then .failed else .retry) ↔
      ((∃ f ∈ claims, f.ecuName.getValue ≤ c.ecuName.getValue) →
        ∀ last ∈ claims.getLast?, last.ecuName.getValue ≤ c.ecuName.getValue) := by
  obtain ⟨before, last, rfl⟩ := (List.eq_nil_or_concat' claims).resolve_left hne
  have hlast : last ∈ before ++ [last] := List.mem_append_right _ (List.mem_singleton_self _)
  have hid : ∀ f ∈ before ++ [last], getIdentifier f = getIdentifier last := by
    intro f hf
    obtain ⟨hsrc, hdst, hprio⟩ := hclaims f hf
    obtain ⟨hsrc', hdst', hprio'⟩ := hclaims last hlast
    exact getIdentifier_claim (hsrc.trans hsrc'.symm) (hdst.trans hdst'.symm)
      (hprio.trans hprio'.symm)
  have hresult : ((before ++ [last]).foldl (fun c f => c.receive (.addressClaim f))
      c).tryObtainAddress elapsed =
        if c.ecuName.getValue < last.ecuName.getValue then some .retry else some .failed := by
    obtain ⟨hpoint, hname⟩ := @foldl_receive c (before ++ [last])
    have hread : ((before ++ [last]).foldl (fun c f => c.receive (.addressClaim f)) c).read.1 =
        some (.addressClaim last) := by
      rw [AddressClaimer.read, frames_foldl_receive hid, SortedMap.first?_insert (hfirst last hlast)]
    rw [AddressClaimer.tryObtainAddress, hpoint, hwait]
    simp only [hread, claimResult, hname, (hclaims last hlast).1, if_true]
  have hgetLast : ∀ p : AddressClaimFrame → Prop, (∀ f ∈ (before ++ [last]).getLast?, p f) ↔
      p last := by simp
  rw [hresult, hgetLast]
  by_cases hexists : ∃ f ∈ before ++ [last], f.ecuName.getValue ≤ c.ecuName.getValue
  · rw [if_pos hexists, imp_iff_right hexists, ← UInt64.not_lt]
    split_ifs with hlt
    · simp [hlt]
    · simp [hlt]
  · have hlt : c.ecuName.getValue < last.ecuName.getValue :=
      UInt64.not_le.mp fun hle => hexists ⟨last, hlast, hle⟩
    rw [if_neg hexists, if_pos hlt]
    exact iff_of_true rfl fun h => absurd h hexists

/-- A node that has sent its claim of an address. -/
def contender : AddressClaimer :=
  { preferred := [0x80], ecuName := { idNumber := 2 }, point := .await 0x80 1 250 }

/-- Two others claim the address, and the one with the smaller NAME comes first. -/
def objections : List AddressClaimFrame :=
  [claimFrame { idNumber := 1 } 0x80, claimFrame { idNumber := 3 } 0x80]

/-- In this order the smaller NAME is lost, in the other one it decides. -/
theorem objection_overwritten :
    ¬∀ (c : AddressClaimer) (address priority : UInt8) (pos : ℕ) (timeToWait : ℤ) (elapsed : ℕ)
      (claims : List AddressClaimFrame), c.point = .await address pos timeToWait → claims ≠ [] →
      (∀ f ∈ claims, getSrcAddr f = address ∧ getDstAddr f = broadcastAddress ∧
        getPriority f = priority) →
      (∀ f ∈ claims, ∀ e ∈ c.frames.first?, getIdentifier f ≤ e.1) →
      (claims.foldl (fun c f => c.receive (.addressClaim f)) c).tryObtainAddress elapsed =
        some (if ∃ f ∈ claims, f.ecuName.getValue ≤ c.ecuName.getValue then .failed
          else .retry) := by
  intro h
  have hwrong := h contender 0x80 0 1 250 0 objections rfl (by decide) (by decide +kernel) nofun
  exact absurd hwrong (by decide +kernel)

theorem arbitration_objections :
    (objections.reverse.foldl (fun c f => c.receive (.addressClaim f))
        contender).tryObtainAddress 0 =
      some (if ∃ f ∈ objections.reverse, f.ecuName.getValue ≤ contender.ecuName.getValue then
        .failed else .retry) :=
  (@arbitration_iff contender 0x80 0 1 250 0 objections.reverse rfl (by decide)
    (by decide +kernel) nofun).mpr (by decide +kernel)

end Arbitration

/-! ### What the thread reports -/

/-- What can be seen of the thread from outside. -/
inductive Event
  /-- `claimAddressStep` has been called, with these addresses in `mPreferred`. -/
  | stepBegun (preferred : List UInt8)
  /-- `onSrcAddrChanged` has been called. -/
  | srcAddrChanged (address : UInt8)
  /-- `sendFrame` has been called. -/
  | sent (frame : AddressClaimFrame)
  /-- `tryObtainAddress` has returned. -/
  | tried (address : UInt8) (result : ClaimResult)
  /-- `claimAddressStep` has returned. -/
  | stepReturned (success : Bool)
  deriving DecidableEq

namespace AddressClaimer

/-- What happens in the next step of the thread, the latest first. -/
def events (elapsed : ℕ) (c : AddressClaimer) : List Event :=
  match c.point with
  | .flush => []
  | .claim address _ => [.sent (claimFrame c.ecuName address)]
  | .await address _ timeToWait =>
    match c.claimResult address timeToWait elapsed c.read.1 with
    | none => []
    | some .addressObtained =>
      [.stepReturned true, .tried address .addressObtained, .srcAddrChanged address]
    | some result => [.tried address result]
  | .cannotClaim => [.stepReturned false, .sent (claimFrame c.ecuName invalidAddress)]
  | .listen =>
    if c.conflict c.read.1 then [.srcAddrChanged invalidAddress, .stepBegun c.preferred] else []
  | .reply => [.sent (claimFrame c.ecuName c.currentSrc)]

end AddressClaimer

/-- A run of `exec`: where the thread is, and what has happened, the latest first. -/
structure Exec where
  claimer : AddressClaimer
  log : List Event

namespace Exec

/-- The first call of `claimAddressStep` before its `flush`. -/
def start (ecuName : EcuName) (preferred : List UInt8) : Exec where
  claimer := { preferred := preferred, ecuName := ecuName }
  log := [.srcAddrChanged invalidAddress, .stepBegun preferred]

/-- The thread takes a step. -/
def threadStep (elapsed : ℕ) (x : Exec) : Exec where
  claimer := (x.claimer.threadStep elapsed).1
  log := x.claimer.events elapsed ++ x.log

/-- Frames may come between any two steps of the thread. -/
inductive Reachable (ecuName : EcuName) (preferred : List UInt8) : Exec → Prop
  | start : Reachable ecuName preferred (start ecuName preferred)
  | receive {x : Exec} (frame : Frame) (h : Reachable ecuName preferred x) :
    Reachable ecuName preferred { x with claimer := x.claimer.receive frame }
  | threadStep {x : Exec} (elapsed : ℕ) (h : Reachable ecuName preferred x) :
    Reachable ecuName preferred (x.threadStep elapsed)

end Exec

/-! ### Reading the log -/

/-- The address last given to `onSrcAddrChanged`. -/
def lastAddress : List Event → Option UInt8
  | [] => none
  | .srcAddrChanged address :: _ => some address
  | _ :: log => lastAddress log

/-- The frame last sent. -/
def lastSent : List Event → Option AddressClaimFrame
  | [] => none
  | .sent frame :: _ => some frame
  | _ :: log => lastSent log

/-- The queue at the beginning of the current `claimAddressStep`. -/
def stepQueue : List Event → List UInt8
  | [] => []
  | .stepBegun preferred :: _ => preferred
  | _ :: log => stepQueue log

/-- The calls of `tryObtainAddress` in the current `claimAddressStep`, in order. -/
def attempts : List Event → List (UInt8 × ClaimResult)
  | [] => []
  | .stepBegun _ :: _ => []
  | .tried address result :: log => attempts log ++ [(address, result)]
  | _ :: log => attempts log

/-- The result of the current `claimAddressStep` when it has returned. -/
def returned : List Event → Option Bool
  | [] => none
  | .stepBegun _ :: _ => none
  | .stepReturned success :: _ => some success
  | _ :: log => returned log

/-- Failing attempts in the order of a queue: an address is tried again after `retry`, and the next
one after `failed`. The last argument is what is left of the queue. -/
inductive Walk (queue : List UInt8) : List (UInt8 × ClaimResult) → List UInt8 → Prop
  | start : Walk queue [] queue
  | retry {tries : List (UInt8 × ClaimResult)} {address : UInt8} {todo : List UInt8}
    (h : Walk queue tries (address :: todo)) :
    Walk queue (tries ++ [(address, .retry)]) (address :: todo)
  | failed {tries : List (UInt8 × ClaimResult)} {address : UInt8} {todo : List UInt8}
    (h : Walk queue tries (address :: todo)) :
    Walk queue (tries ++ [(address, .failed)]) todo

/-- The addresses that have failed and those that are left make up the queue. -/
theorem Walk.failed_append {queue todo : List UInt8} {tries : List (UInt8 × ClaimResult)}
    (h : Walk queue tries todo) :
    (tries.filter fun t => t.2 = .failed).map Prod.fst ++ todo = queue := by
  induction h with
  | start => rfl
  | retry h ih => simpa using ih
  | failed h ih => simpa using ih

theorem Walk.not_obtained {queue todo : List UInt8} {tries : List (UInt8 × ClaimResult)}
    (h : Walk queue tries todo) (address : UInt8) : (address, .addressObtained) ∉ tries := by
  induction h with
  | start => simp
  | retry h ih => simpa using ih
  | failed h ih => simpa using ih

/-- Attempts in the order of a queue, the last one of which may have been successful. -/
def InOrder (queue : List UInt8) (tries : List (UInt8 × ClaimResult)) : Prop :=
  (∃ todo, Walk queue tries todo) ∨ ∃ before address todo,
    tries = before ++ [(address, .addressObtained)] ∧ Walk queue before (address :: todo)

/-! ### The walk through the queue -/

namespace AddressClaimer

/-- An address has been moved to the back of the queue, and its attempt has not been decided. -/
def Trying (c : AddressClaimer) (log : List Event) (address : UInt8) (pos : ℕ) : Prop :=
  ∃ tried todo, stepQueue log = tried ++ address :: todo ∧
    c.preferred = todo ++ (tried ++ [address]) ∧ pos = tried.length + 1 ∧
    Walk (stepQueue log) (attempts log) (address :: todo)

/-- All addresses have failed, and the queue is back where it was. -/
def Exhausted (c : AddressClaimer) (log : List Event) : Prop :=
  c.preferred = stepQueue log ∧ Walk (stepQueue log) (attempts log) []

/-- The current address was obtained in the last attempt. -/
def Obtained (c : AddressClaimer) (log : List Event) : Prop :=
  c.preferred.getLast? = some c.currentSrc ∧ ∃ before todo,
    attempts log = before ++ [(c.currentSrc, .addressObtained)] ∧
      Walk (stepQueue log) before (c.currentSrc :: todo)

/-- How far the thread has come in the current `claimAddressStep`. -/
def Progress (c : AddressClaimer) (log : List Event) : Prop :=
  match c.point with
  | .flush => returned log = none ∧ c.currentSrc = invalidAddress ∧ c.preferred = stepQueue log ∧
      attempts log = []
  | .claim address pos =>
    returned log = none ∧ c.currentSrc = invalidAddress ∧ c.Trying log address pos
  | .await address pos _ =>
    returned log = none ∧ c.currentSrc = invalidAddress ∧ c.Trying log address pos
  | .cannotClaim => returned log = none ∧ c.currentSrc = invalidAddress ∧ c.Exhausted log
  | .listen | .reply =>
    (returned log = some true ∧ c.Obtained log) ∨
      (returned log = some false ∧ c.currentSrc = invalidAddress ∧ c.Exhausted log ∧
        lastSent log = some (claimFrame c.ecuName invalidAddress))

variable {c : AddressClaimer} {log : List Event} {elapsed : ℕ}

/-- The next address is the first one that is left. -/
theorem progress_nextAddress {tried todo : List UInt8} (hreturned : returned log = none)
    (hsrc : c.currentSrc = invalidAddress) (hqueue : stepQueue log = tried ++ todo)
    (hpreferred : c.preferred = todo ++ tried)
    (hwalk : Walk (stepQueue log) (attempts log) todo) :
    (c.nextAddress tried.length).Progress log := by
  rw [nextAddress]
  cases todo with
  | nil =>
    have hend : ∀ address rest, c.preferred = address :: rest →
        ¬tried.length < c.preferred.length := by
      intro address rest _
      rw [hpreferred, List.nil_append]
      exact lt_irrefl _
    have hexhausted : c.Exhausted log := ⟨by rw [hpreferred, hqueue]; simp, hwalk⟩
    split
    · next address rest hcons =>
      rw [if_neg (hend address rest hcons)]
      exact ⟨hreturned, hsrc, hexhausted⟩
    · exact ⟨hreturned, hsrc, hexhausted⟩
  | cons address todo =>
    rw [hpreferred, List.cons_append]
    have hlt : tried.length < (address :: (todo ++ tried)).length := by
      rw [List.length_cons, List.length_append]
      omega
    simp only [if_pos hlt]
    refine ⟨hreturned, hsrc, tried, todo, hqueue, ?_, rfl, hwalk⟩
    exact List.append_assoc _ _ _

@[simp] theorem read_preferred : c.read.2.preferred = c.preferred := by
  rw [read]
  split <;> rfl

@[simp] theorem claimResult_read (address : UInt8) (timeToWait : ℤ) (frame : Option Frame) :
    c.read.2.claimResult address timeToWait elapsed frame =
      c.claimResult address timeToWait elapsed frame := by
  rw [read]
  split <;> rfl

@[simp] theorem conflict_read (frame : Option Frame) :
    c.read.2.conflict frame = c.conflict frame := by
  rw [read]
  split <;> rfl

/-- Every step of the thread goes on with the walk, and the last address reported stays the
current one. -/
theorem progress_threadStep (h : c.Progress log) (hlast : lastAddress log = some c.currentSrc) :
    (c.threadStep elapsed).1.Progress (c.events elapsed ++ log) ∧
      lastAddress (c.events elapsed ++ log) = some (c.threadStep elapsed).1.currentSrc := by
  cases hpoint : c.point with
  | flush =>
    simp only [Progress, hpoint] at h
    obtain ⟨hreturned, hsrc, hqueue, htries⟩ := h
    simp only [threadStep, events, hpoint, List.nil_append]
    refine ⟨@progress_nextAddress { c with frames := ∅ } log [] c.preferred hreturned hsrc
      hqueue.symm (List.append_nil _).symm ?_, ?_⟩
    · rw [htries, hqueue]
      exact Walk.start
    · rw [nextAddress_currentSrc]
      exact hlast
  | claim address pos =>
    simp only [Progress, hpoint] at h
    simp only [threadStep, events, hpoint]
    exact ⟨h, hlast⟩
  | await address pos timeToWait =>
    simp only [Progress, hpoint] at h
    obtain ⟨hreturned, hsrc, tried, todo, hqueue, hpreferred, rfl, hwalk⟩ := h
    have hsrc' : c.read.2.currentSrc = invalidAddress := read_currentSrc.trans hsrc
    have hpreferred' := (@read_preferred c).trans hpreferred
    rw [← @read_currentSrc c] at hlast
    simp only [threadStep, events, hpoint]
    rcases @afterAwait_of_claimResult c.read.2 address (tried.length + 1) timeToWait elapsed
      c.read.1 with ⟨t, hresult, hnext⟩ | ⟨hresult, hnext⟩ | ⟨hresult, hnext⟩ | ⟨hresult, hnext⟩
    · rw [claimResult_read] at hresult
      rw [hnext, hresult]
      exact ⟨⟨hreturned, hsrc', tried, todo, hqueue, hpreferred', rfl, hwalk⟩, hlast⟩
    · rw [claimResult_read] at hresult
      rw [hnext, hresult]
      refine ⟨.inl ⟨rfl, ?_, attempts log, todo, rfl, hwalk⟩, rfl⟩
      change c.read.2.preferred.getLast? = some address
      rw [hpreferred', ← List.append_assoc]
      exact List.getLast?_concat
    · rw [claimResult_read] at hresult
      rw [hnext, hresult]
      exact ⟨⟨hreturned, hsrc', tried, todo, hqueue, hpreferred', rfl, hwalk.retry⟩, hlast⟩
    · rw [claimResult_read] at hresult
      have hqueue' : stepQueue log = (tried ++ [address]) ++ todo := by
        rw [hqueue, List.append_assoc, List.singleton_append]
      have hlength : tried.length + 1 = (tried ++ [address]).length := by simp
      rw [hnext, hresult, nextAddress_currentSrc, hlength]
      exact ⟨@progress_nextAddress c.read.2 (.tried address .failed :: log) (tried ++ [address]) todo
        hreturned hsrc' hqueue' hpreferred' hwalk.failed, hlast⟩
  | cannotClaim =>
    simp only [Progress, hpoint] at h
    obtain ⟨-, hsrc, hexhausted⟩ := h
    simp only [threadStep, events, hpoint]
    exact ⟨.inr ⟨rfl, hsrc, hexhausted, rfl⟩, hlast⟩
  | listen =>
    simp only [Progress, hpoint] at h
    rw [← @read_currentSrc c] at hlast
    simp only [threadStep, events, hpoint]
    rcases @afterListen_of_conflict c.read.2 c.read.1 with
      ⟨hconflict, hnext⟩ | ⟨hconflict, hnext⟩
    · rw [conflict_read] at hconflict
      rw [hnext, if_pos hconflict, ← @read_preferred c]
      exact ⟨⟨rfl, rfl, rfl, rfl⟩, rfl⟩
    · rw [conflict_read] at hconflict
      rw [if_neg (by simp [hconflict])]
      have hkept : ∀ c' : AddressClaimer, c'.preferred = c.preferred → c'.currentSrc = c.currentSrc →
          c'.ecuName = c.ecuName → c'.point = .listen ∨ c'.point = .reply → c'.Progress log := by
        intro c' hpreferred hsrc hname hpoint'
        rcases hpoint' with hpoint' | hpoint'
        all_goals
          simp only [Progress, hpoint', Obtained, Exhausted, hpreferred, hsrc, hname]
          exact h
      rcases hnext with hnext | hnext
      · rw [hnext]
        exact ⟨hkept _ read_preferred read_currentSrc read_ecuName
          (.inl (read_point.trans hpoint)), hlast⟩
      · rw [hnext]
        exact ⟨hkept { c.read.2 with point := .reply } read_preferred read_currentSrc read_ecuName
          (.inr rfl), hlast⟩
  | reply =>
    simp only [Progress, hpoint] at h
    simp only [threadStep, events, hpoint]
    refine ⟨?_, hlast⟩
    rcases h with hobtained | ⟨hreturned, hsrc, hexhausted, -⟩
    · exact .inl hobtained
    · refine .inr ⟨hreturned, hsrc, hexhausted, ?_⟩
      rw [hsrc]
      rfl

/-- The queue is rotated, or left alone. -/
theorem nextAddress_preferred (c : AddressClaimer) (pos : ℕ) :
    (c.nextAddress pos).preferred.IsRotated c.preferred := by
  rw [nextAddress]
  split
  · next address rest hcons =>
    split
    · rw [hcons]
      exact List.isRotated_concat address rest
    · exact List.IsRotated.refl _
  · exact List.IsRotated.refl _

theorem threadStep_preferred (elapsed : ℕ) (c : AddressClaimer) :
    (c.threadStep elapsed).1.preferred.IsRotated c.preferred := by
  rw [threadStep]
  split
  · exact nextAddress_preferred _ 0
  · exact List.IsRotated.refl _
  · next address pos timeToWait _ =>
    rw [← @read_preferred c]
    rcases @afterAwait_of_claimResult c.read.2 address pos timeToWait elapsed c.read.1 with
      ⟨t, -, hnext⟩ | ⟨-, hnext⟩ | ⟨-, hnext⟩ | ⟨-, hnext⟩
    · rw [hnext]
    · rw [hnext]
      exact List.IsRotated.refl _
    · rw [hnext]
    · rw [hnext]
      exact nextAddress_preferred _ pos
  · exact List.IsRotated.refl _
  · rw [← @read_preferred c]
    rcases @afterListen_of_conflict c.read.2 c.read.1 with
      ⟨-, hnext⟩ | ⟨-, hnext | hnext⟩
    · rw [hnext]
    · rw [hnext]
    · rw [hnext]
  · exact List.IsRotated.refl _

/-- The log has the frames that the thread sends. -/
theorem sent_mem_events {f : AddressClaimFrame} :
    .sent f ∈ c.events elapsed ↔ (c.threadStep elapsed).2 = some f := by
  cases hpoint : c.point with
  | claim address pos => simp [events, threadStep, hpoint, eq_comm]
  | cannotClaim => simp [events, threadStep, hpoint, eq_comm]
  | reply => simp [events, threadStep, hpoint, eq_comm]
  | flush => simp [events, threadStep, hpoint]
  | await address pos timeToWait =>
    simp only [events, threadStep, hpoint]
    split <;> simp
  | listen =>
    simp only [events, threadStep, hpoint]
    split <;> simp

end AddressClaimer

/-! ### All runs -/

namespace Exec

variable {ecuName : EcuName} {preferred : List UInt8} {x : Exec}

theorem Reachable.progress (h : Reachable ecuName preferred x) :
    x.claimer.Progress x.log ∧ lastAddress x.log = some x.claimer.currentSrc := by
  induction h with
  | start => exact ⟨⟨rfl, rfl, rfl, rfl⟩, rfl⟩
  | receive frame h ih => exact ih
  | threadStep elapsed h ih => exact AddressClaimer.progress_threadStep ih.1 ih.2

theorem Reachable.preferred_isRotated (h : Reachable ecuName preferred x) :
    x.claimer.preferred.IsRotated preferred := by
  induction h with
  | start => exact List.IsRotated.refl _
  | receive frame h ih => exact ih
  | threadStep elapsed h ih => exact (AddressClaimer.threadStep_preferred _ _).trans ih

/-- What `claimAddressStep` has done so far, and what it has returned. -/
structure Faithful (x : Exec) : Prop where
  inOrder : InOrder (stepQueue x.log) (attempts x.log)
  true_iff : returned x.log = some true ↔ ∃ address, (address, .addressObtained) ∈ attempts x.log
  of_true : returned x.log = some true →
    (x.claimer.currentSrc, .addressObtained) ∈ attempts x.log ∧
      x.claimer.preferred.getLast? = some x.claimer.currentSrc
  false_iff : returned x.log = some false ↔
    Walk (stepQueue x.log) (attempts x.log) [] ∧ x.claimer.point ≠ .cannotClaim
  of_false : returned x.log = some false →
    x.claimer.currentSrc = invalidAddress ∧ x.claimer.preferred = stepQueue x.log ∧
      ∃ f, lastSent x.log = some f ∧ getSrcAddr f = invalidAddress ∧
        getDstAddr f = broadcastAddress

/-- A walk that has not ended, with `todo` left. -/
theorem faithful_running {todo : List UInt8} (hreturned : returned x.log = none)
    (hwalk : Walk (stepQueue x.log) (attempts x.log) todo)
    (hend : todo = [] → x.claimer.point = .cannotClaim) : x.Faithful where
  inOrder := .inl ⟨todo, hwalk⟩
  true_iff := by
    rw [hreturned]
    exact iff_of_false nofun fun ⟨address, hmem⟩ => hwalk.not_obtained address hmem
  of_true hr := by
    rw [hreturned] at hr
    cases hr
  false_iff := by
    rw [hreturned]
    refine iff_of_false nofun ?_
    rintro ⟨hall, hpoint⟩
    have htodo := hwalk.failed_append.trans hall.failed_append.symm
    exact hpoint (hend (List.append_cancel_left htodo))
  of_false hr := by
    rw [hreturned] at hr
    cases hr

/-- A walk that has ended with success. -/
theorem faithful_obtained (hreturned : returned x.log = some true)
    (hobtained : x.claimer.Obtained x.log) : x.Faithful := by
  obtain ⟨hback, before, todo, htries, hwalk⟩ := hobtained
  have hmem : (x.claimer.currentSrc, .addressObtained) ∈ attempts x.log := by
    rw [htries]
    exact List.mem_append_right before (List.mem_singleton_self _)
  refine ⟨.inr ⟨before, _, todo, htries, hwalk⟩, iff_of_true hreturned ⟨_, hmem⟩,
    fun _ => ⟨hmem, hback⟩, ?_, ?_⟩
  · rw [hreturned]
    exact iff_of_false nofun fun hall => hall.1.not_obtained _ hmem
  · intro hr
    rw [hreturned] at hr
    cases hr

/-- A walk that has ended without success. -/
theorem faithful_exhausted (hreturned : returned x.log = some false)
    (hsrc : x.claimer.currentSrc = invalidAddress) (hexhausted : x.claimer.Exhausted x.log)
    (hsent : lastSent x.log = some (claimFrame x.claimer.ecuName invalidAddress))
    (hpoint : x.claimer.point ≠ .cannotClaim) : x.Faithful := by
  obtain ⟨hqueue, hwalk⟩ := hexhausted
  refine ⟨.inl ⟨[], hwalk⟩, ?_, ?_, iff_of_true hreturned ⟨hwalk, hpoint⟩,
    fun _ => ⟨hsrc, hqueue, _, hsent, getSrcAddr_claimFrame _ _, ?_⟩⟩
  · rw [hreturned]
    exact iff_of_false nofun fun ⟨address, hmem⟩ => hwalk.not_obtained address hmem
  · intro hr
    rw [hreturned] at hr
    cases hr
  · rw [getDstAddr, header_claimFrame]

/-- In every run the queue is rotated, `onSrcAddrChanged` knows the current address, and each
`claimAddressStep` goes through the queue in order and reports what it has found. -/
theorem selection_faithful (hne : preferred ≠ []) (h : Reachable ecuName preferred x) :
    x.claimer.preferred.IsRotated preferred ∧
      lastAddress x.log = some x.claimer.currentSrc ∧ x.Faithful := by
  obtain ⟨hprogress, hlast⟩ := h.progress
  refine ⟨h.preferred_isRotated, hlast, ?_⟩
  have hconcluded : (returned x.log = some true ∧ x.claimer.Obtained x.log) ∨
      (returned x.log = some false ∧ x.claimer.currentSrc = invalidAddress ∧
        x.claimer.Exhausted x.log ∧
          lastSent x.log = some (claimFrame x.claimer.ecuName invalidAddress)) →
      x.claimer.point ≠ .cannotClaim → x.Faithful := by
    rintro (⟨hreturned, hobtained⟩ | ⟨hreturned, hsrc, hexhausted, hsent⟩) hpoint
    · exact faithful_obtained hreturned hobtained
    · exact faithful_exhausted hreturned hsrc hexhausted hsent hpoint
  cases hpoint : x.claimer.point with
  | flush =>
    simp only [AddressClaimer.Progress, hpoint] at hprogress
    obtain ⟨hreturned, -, hqueue, htries⟩ := hprogress
    refine @faithful_running x (stepQueue x.log) hreturned (by rw [htries]; exact Walk.start) ?_
    -- the queue is not empty
    intro hnil
    have hrotated := h.preferred_isRotated
    rw [hqueue, hnil] at hrotated
    exact absurd (List.isRotated_nil_iff'.mp hrotated).symm hne
  | claim address pos =>
    simp only [AddressClaimer.Progress, hpoint] at hprogress
    obtain ⟨hreturned, -, tried, todo, -, -, -, hwalk⟩ := hprogress
    exact faithful_running hreturned hwalk nofun
  | await address pos timeToWait =>
    simp only [AddressClaimer.Progress, hpoint] at hprogress
    obtain ⟨hreturned, -, tried, todo, -, -, -, hwalk⟩ := hprogress
    exact faithful_running hreturned hwalk nofun
  | cannotClaim =>
    simp only [AddressClaimer.Progress, hpoint] at hprogress
    obtain ⟨hreturned, -, -, hwalk⟩ := hprogress
    exact faithful_running hreturned hwalk fun _ => hpoint
  | listen =>
    simp only [AddressClaimer.Progress, hpoint] at hprogress
    exact hconcluded hprogress (by rw [hpoint]; nofun)
  | reply =>
    simp only [AddressClaimer.Progress, hpoint] at hprogress
    exact hconcluded hprogress (by rw [hpoint]; nofun)

/-- A node that hears nothing. -/
def alone : Exec := (((start {} [0x80]).threadStep 0).threadStep 0).threadStep 250

theorem selection_alone : returned alone.log = some true ∧ alone.claimer.currentSrc = 0x80 ∧
    alone.Faithful :=
  ⟨by decide +kernel, by decide +kernel, (@selection_faithful {} [0x80] alone (by decide)
    (.threadStep 250 (.threadStep 0 (.threadStep 0 .start)))).2.2⟩

end Exec

end J1939
