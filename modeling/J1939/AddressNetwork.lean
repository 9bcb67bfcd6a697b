import J1939.AddressClaimer
import J1939.Lib.Last

/-!
# Nodes that claim addresses

Any number of `AddressClaimer`s on a bus. What is sent gets its place in one common order and
is handed to every other node in this order, each at its own time. The last claim of an
address in this order decides: whoever else had the address has to answer it or gives it up.
-/

namespace J1939

/-! ### One node -/

namespace AddressClaimer

/-- The node has the address, or waits for objections to its claim. -/
def Claims (c : AddressClaimer) (address : UInt8) : Prop :=
  (∃ pos timeToWait, c.point = .await address pos timeToWait) ∨
    (c.currentSrc = address ∧ address ≠ invalidAddress)

/-- The mailbox has the claim of an address. -/
def Holds (c : AddressClaimer) (f : AddressClaimFrame) : Prop :=
  c.frames.find? (getIdentifier f) = some (.addressClaim f)

/-- The node is about to send its claim again, in the inner loop of `exec`. -/
def Answers (c : AddressClaimer) (address : UInt8) : Prop :=
  c.point = .reply ∧ c.currentSrc = address

/-- Only in the inner loop of `exec` does a node have an address. -/
def Settled (c : AddressClaimer) : Prop :=
  c.currentSrc ≠ invalidAddress → c.point.inInnerLoop = true

variable {c : AddressClaimer} {address : UInt8} {f : AddressClaimFrame} {elapsed : ℕ}

/-! Reading the mailbox -/

@[simp] theorem read_currentSrc : c.read.2.currentSrc = c.currentSrc := by
  rw [read]
  split <;> rfl

@[simp] theorem read_point : c.read.2.point = c.point := by
  rw [read]
  split <;> rfl

@[simp] theorem read_ecuName : c.read.2.ecuName = c.ecuName := by
  rw [read]
  split <;> rfl

/-- A claim in the mailbox is read, or it stays there. -/
theorem Holds.read (h : c.Holds f) : c.read.2.Holds f ∨ c.read.1 = some (.addressClaim f) := by
  rw [AddressClaimer.read]
  split
  · next id frame hfirst =>
    by_cases hid : getIdentifier f = id
    · right
      have hfind := SortedMap.find?_first? hfirst
      rw [← hid, h] at hfind
      rw [Option.some.inj hfind]
    · left
      simp only [Holds, SortedMap.find?_erase, if_neg hid]
      exact h
  · exact .inl h

/-! The address and the mailbox after each part -/

variable {pos : ℕ} {timeToWait : ℤ} {frame : Option Frame}

@[simp] theorem nextAddress_currentSrc : (c.nextAddress pos).currentSrc = c.currentSrc := by
  rw [nextAddress]
  split
  · split <;> rfl
  · rfl

@[simp] theorem nextAddress_frames : (c.nextAddress pos).frames = c.frames := by
  rw [nextAddress]
  split
  · split <;> rfl
  · rfl

@[simp] theorem nextAddress_ecuName : (c.nextAddress pos).ecuName = c.ecuName := by
  rw [nextAddress]
  split
  · split <;> rfl
  · rfl

/-- Nobody waits for objections before the claim is sent. -/
theorem nextAddress_point :
    (∃ a p, (c.nextAddress pos).point = .claim a p) ∨ (c.nextAddress pos).point = .cannotClaim := by
  rw [nextAddress]
  split
  · split
    · exact .inl ⟨_, _, rfl⟩
    · exact .inr rfl
  · exact .inr rfl

/-- A node without an address that has not sent its next claim claims nothing. -/
theorem not_claims_nextAddress (hsrc : c.currentSrc = invalidAddress) :
    ¬(c.nextAddress pos).Claims address := by
  rintro (⟨p, t, hpoint⟩ | ⟨hcurrent, hne⟩)
  · rcases @nextAddress_point c pos with ⟨a, q, h⟩ | h
    · rw [h] at hpoint
      cases hpoint
    · rw [h] at hpoint
      cases hpoint
  · rw [nextAddress_currentSrc, hsrc] at hcurrent
    exact hne hcurrent.symm

@[simp] theorem afterAwait_frames :
    (c.afterAwait address pos timeToWait elapsed frame).frames = c.frames := by
  rw [afterAwait.eq_def]
  split
  · split
    · split
      · rfl
      · exact nextAddress_frames
    · rfl
  · split <;> rfl
  · rfl

@[simp] theorem afterListen_frames : (c.afterListen frame).frames = c.frames := by
  rw [afterListen.eq_def]
  split
  · split <;> rfl
  · split
    · split <;> rfl
    · rfl
  · rfl

/-! One step of the thread -/

/-- What is sent is a claim. -/
theorem sent_threadStep (h : (c.threadStep elapsed).2 = some f) :
    ∃ ecuName address, f = claimFrame ecuName address := by
  simp only [threadStep] at h
  split at h
  case h_2 => exact ⟨_, _, (Option.some.inj h).symm⟩
  case h_4 => exact ⟨_, _, (Option.some.inj h).symm⟩
  case h_6 => exact ⟨_, _, (Option.some.inj h).symm⟩
  all_goals cases h

/-- While a node claims, an address is its own only in the inner loop of `exec`. -/
theorem Settled.currentSrc (hc : c.Settled) (hpoint : c.point.inInnerLoop = false) :
    c.currentSrc = invalidAddress := by
  by_contra hne
  rw [hc hne] at hpoint
  cases hpoint

theorem settled_of_currentSrc (h : c.currentSrc = invalidAddress) : c.Settled :=
  fun hne => absurd h hne

theorem Settled.afterAwait (hsrc : c.currentSrc = invalidAddress) :
    (c.afterAwait address pos timeToWait elapsed frame).Settled := by
  rw [afterAwait.eq_def]
  split
  · split
    · split
      · exact settled_of_currentSrc hsrc
      · exact settled_of_currentSrc (nextAddress_currentSrc.trans hsrc)
    · exact settled_of_currentSrc hsrc
  · split
    · exact settled_of_currentSrc hsrc
    · exact fun _ => rfl
  · exact fun _ => rfl

theorem Settled.afterListen (hpoint : c.point = .listen) : (c.afterListen frame).Settled := by
  have hc : c.Settled := fun _ => by rw [hpoint]; rfl
  rw [afterListen.eq_def]
  split
  · split
    · exact fun _ => rfl
    · exact hc
  · split
    · split
      · exact fun _ => rfl
      · exact settled_of_currentSrc rfl
    · exact hc
  · exact hc

theorem Settled.threadStep (hc : c.Settled) : (c.threadStep elapsed).1.Settled := by
  cases hpoint : c.point with
  | flush =>
    have hsrc := hc.currentSrc (by rw [hpoint]; rfl)
    simp only [AddressClaimer.threadStep, hpoint]
    exact settled_of_currentSrc (nextAddress_currentSrc.trans hsrc)
  | claim a p =>
    have hsrc := hc.currentSrc (by rw [hpoint]; rfl)
    simp only [AddressClaimer.threadStep, hpoint]
    exact settled_of_currentSrc hsrc
  | await a p t =>
    have hsrc := hc.currentSrc (by rw [hpoint]; rfl)
    simp only [AddressClaimer.threadStep, hpoint]
    exact Settled.afterAwait (read_currentSrc.trans hsrc)
  | cannotClaim =>
    simp only [AddressClaimer.threadStep, hpoint]
    exact fun _ => rfl
  | listen =>
    simp only [AddressClaimer.threadStep, hpoint]
    exact Settled.afterListen (read_point.trans hpoint)
  | reply =>
    simp only [AddressClaimer.threadStep, hpoint]
    exact fun _ => rfl

/-- A node that still claims an address after waiting has read no objection. -/
theorem Claims.of_afterAwait (hsrc : c.currentSrc = invalidAddress) {a : UInt8}
    (h : (c.afterAwait a pos timeToWait elapsed frame).Claims address) :
    address = a ∧ ∀ f, frame = some (.addressClaim f) → getSrcAddr f ≠ address := by
  have hwait : ∀ t, Claims { c with point := .await a pos t } address → address = a := by
    rintro t (⟨q, u, hawait⟩ | ⟨hcurrent, hne⟩)
    · cases hawait
      rfl
    · exact absurd (hcurrent.symm.trans hsrc) hne
  have hobtain : (c.obtain a).Claims address → address = a := by
    rintro (⟨q, u, hawait⟩ | ⟨hcurrent, -⟩)
    · cases hawait
    · exact hcurrent.symm
  rw [afterAwait.eq_def] at h
  split at h
  · next f =>
    split at h
    · split at h
      · rcases h with ⟨q, u, hawait⟩ | ⟨hcurrent, hne⟩
        · cases hawait
        · exact absurd (hcurrent.symm.trans hsrc) hne
      · exact absurd h (not_claims_nextAddress hsrc)
    · next hother =>
      obtain rfl := hwait _ h
      refine ⟨rfl, fun f' hf' => ?_⟩
      cases hf'
      exact hother
  · next hclaim =>
    refine ⟨?_, fun f' hf' => absurd (Option.some.inj hf') (hclaim f')⟩
    split at h
    · exact hwait _ h
    · exact hobtain h
  · exact ⟨hobtain h, fun f' hf' => by cases hf'⟩

/-- A node that still claims its address has no objection to answer, or it answers it. -/
theorem Claims.of_afterListen (hpoint : c.point = .listen)
    (h : (c.afterListen frame).Claims address) :
    c.Claims address ∧ ((c.afterListen frame).Answers address ∨
      ∀ f, frame = some (.addressClaim f) → getSrcAddr f ≠ address) := by
  have hown : ∀ {c' : AddressClaimer}, c'.point.inInnerLoop = true → c'.Claims address →
      c'.currentSrc = address ∧ address ≠ invalidAddress := by
    rintro c' hloop (⟨q, u, hawait⟩ | hcurrent)
    · rw [hawait] at hloop
      cases hloop
    · exact hcurrent
  rw [afterListen.eq_def] at h ⊢
  split at h
  · split at h
    · obtain ⟨hcurrent, hne⟩ := hown rfl h
      exact ⟨.inr ⟨hcurrent, hne⟩, .inr fun f hf => by cases hf⟩
    · exact ⟨h, .inr fun f hf => by cases hf⟩
  · next f =>
    split at h
    · next hobjection =>
      split at h
      · next hsmaller =>
        obtain ⟨hcurrent, hne⟩ := hown rfl h
        refine ⟨.inr ⟨hcurrent, hne⟩, .inl ?_⟩
        simp only [if_pos hobjection, if_pos hsmaller]
        exact ⟨rfl, hcurrent⟩
      · rcases h with ⟨q, u, hawait⟩ | ⟨hcurrent, hne⟩
        · cases hawait
        · exact absurd hcurrent.symm hne
    · next hnone =>
      refine ⟨h, .inr fun f' hf' hsrc => ?_⟩
      cases hf'
      obtain ⟨hcurrent, hne⟩ := hown (by rw [hpoint]; rfl) h
      exact hnone ⟨fun heq => hne (hsrc.symm.trans heq), hsrc.trans hcurrent.symm⟩
  · next hclaim => exact ⟨h, .inr fun f' hf' => absurd hf' (hclaim f')⟩

/-- After a step a node claims an address because it has just sent the claim, or because it did
before. Then the claims of others that have come are still in its mailbox, or it answers them. -/
theorem Claims.of_threadStep (hc : c.Settled) (h : (c.threadStep elapsed).1.Claims address) :
    (∃ f, (c.threadStep elapsed).2 = some f ∧ getSrcAddr f = address) ∨
      (c.Claims address ∧ ¬c.Answers address ∧ ∀ f, c.Holds f → getSrcAddr f = address →
        (c.threadStep elapsed).1.Answers address ∨ (c.threadStep elapsed).1.Holds f) := by
  have hanswers : c.point ≠ .reply → ¬c.Answers address := fun hne ha => hne ha.1
  cases hpoint : c.point with
  | flush =>
    have hsrc := hc.currentSrc (by rw [hpoint]; rfl)
    simp only [threadStep, hpoint] at h
    exact absurd h (not_claims_nextAddress hsrc)
  | claim a p =>
    have hsrc := hc.currentSrc (by rw [hpoint]; rfl)
    simp only [threadStep, hpoint] at h ⊢
    rcases h with ⟨q, u, hawait⟩ | ⟨hcurrent, hne⟩
    · cases hawait
      exact .inl ⟨_, rfl, getSrcAddr_claimFrame _ _⟩
    · exact absurd (hcurrent.symm.trans hsrc) hne
  | await a p t =>
    have hsrc := hc.currentSrc (by rw [hpoint]; rfl)
    simp only [threadStep, hpoint] at h ⊢
    obtain ⟨rfl, hnone⟩ := Claims.of_afterAwait (read_currentSrc.trans hsrc) h
    refine .inr ⟨.inl ⟨p, t, hpoint⟩, hanswers (by rw [hpoint]; nofun), fun f hf hfsrc => .inr ?_⟩
    rcases hf.read with hread | hread
    · rw [Holds, afterAwait_frames]
      exact hread
    · exact absurd hfsrc (hnone f hread)
  | cannotClaim =>
    have hsrc := hc.currentSrc (by rw [hpoint]; rfl)
    simp only [threadStep, hpoint] at h
    rcases h with ⟨q, u, hawait⟩ | ⟨hcurrent, hne⟩
    · cases hawait
    · exact absurd (hcurrent.symm.trans hsrc) hne
  | listen =>
    simp only [threadStep, hpoint] at h ⊢
    obtain ⟨hclaims, hnone⟩ := Claims.of_afterListen (read_point.trans hpoint) h
    have hclaims : c.Claims address := by
      rw [Claims, read_currentSrc, read_point] at hclaims
      exact hclaims
    refine .inr ⟨hclaims, hanswers (by rw [hpoint]; decide), fun f hf hfsrc => ?_⟩
    rcases hnone with hreply | hnone
    · exact .inl hreply
    · rcases hf.read with hread | hread
      · right
        rw [Holds, afterListen_frames]
        exact hread
      · exact absurd hfsrc (hnone f hread)
  | reply =>
    simp only [threadStep, hpoint] at h ⊢
    rcases h with ⟨q, u, hawait⟩ | ⟨hcurrent, -⟩
    · cases hawait
    · exact .inl ⟨_, rfl, (getSrcAddr_claimFrame _ _).trans hcurrent⟩

/-- What a node receives leaves the other claims in its mailbox. -/
theorem Holds.receive {frame : Frame} (h : c.Holds f)
    (hne : getIdentifier f ≠ getIdentifier frame) :
    (c.receive frame).Holds f := by
  rw [Holds, AddressClaimer.receive, SortedMap.find?_insert, if_neg hne]
  exact h

theorem holds_receive : (c.receive (.addressClaim f)).Holds f := by
  rw [Holds, receive, SortedMap.find?_insert]
  exact if_pos rfl

end AddressClaimer

/-! ### A node among the others -/

section Accounts

variable {ι : Type}

/-- The message claims an address. -/
def IsClaimOf (address : UInt8) (m : ι × AddressClaimFrame) : Prop := getSrcAddr m.2 = address

/-- What the claims of a node have to do with those of the others: it has sent them, and of the
last claim that somebody else has sent of the address it either knows, or will come to know, or
its own claim is still to come. -/
structure Accounted (pending bus : List (ι × AddressClaimFrame)) (seen : ℕ) (i : ι)
    (c : AddressClaimer) : Prop where
  seen_le : seen ≤ bus.length
  settled : c.Settled
  sent : ∀ address, c.Claims address →
    ∃ f, ((i, f) ∈ pending ∨ (i, f) ∈ bus) ∧ getSrcAddr f = address
  covered : ∀ address, c.Claims address →
    (∃ f, (i, f) ∈ pending ∧ getSrcAddr f = address) ∨ c.Answers address ∨
      ∀ n k f, bus.IsLast (IsClaimOf address) n (k, f) → k ≠ i →
        seen ≤ n ∨ c.Holds f

variable {pending bus : List (ι × AddressClaimFrame)} {seen : ℕ} {i k : ι} {c : AddressClaimer}
  {f : AddressClaimFrame}

namespace Accounted

/-- More pending claims change nothing. -/
theorem mono {pending' : List (ι × AddressClaimFrame)} (h : Accounted pending bus seen i c)
    (hsub : pending ⊆ pending') : Accounted pending' bus seen i c := by
  refine ⟨h.seen_le, h.settled, ?_, ?_⟩
  · intro address hclaims
    obtain ⟨f, hm, hsrc⟩ := h.sent address hclaims
    exact ⟨f, hm.imp_left fun hm => hsub hm, hsrc⟩
  · intro address hclaims
    rcases h.covered address hclaims with ⟨f, hm, hsrc⟩ | hcovered
    · exact .inl ⟨f, hsub hm, hsrc⟩
    · exact .inr hcovered

/-- The thread of the node takes a step. -/
theorem threadStep (h : Accounted pending bus seen i c) (elapsed : ℕ) :
    Accounted (pending ++ ((c.threadStep elapsed).2.map fun f => (i, f)).toList) bus seen i
      (c.threadStep elapsed).1 := by
  have hnew : ∀ f, (c.threadStep elapsed).2 = some f →
      (i, f) ∈ pending ++ ((c.threadStep elapsed).2.map fun f => (i, f)).toList := by
    intro f hf
    simp [hf]
  have hmono := h.mono (List.subset_append_left pending
    ((c.threadStep elapsed).2.map fun f => (i, f)).toList)
  refine ⟨h.seen_le, h.settled.threadStep, ?_, ?_⟩
  · intro address hclaims
    rcases hclaims.of_threadStep h.settled with ⟨f, hf, hsrc⟩ | ⟨hclaims, -⟩
    · exact ⟨f, .inl (hnew f hf), hsrc⟩
    · exact hmono.sent address hclaims
  · intro address hclaims
    rcases hclaims.of_threadStep h.settled with ⟨f, hf, hsrc⟩ | ⟨hclaims, hanswers, hholds⟩
    · exact .inl ⟨f, hnew f hf, hsrc⟩
    · rcases hmono.covered address hclaims with hpending | hreply | hlast
      · exact .inl hpending
      · exact absurd hreply hanswers
      · by_cases hreply : (c.threadStep elapsed).1.Answers address
        · exact .inr (.inl hreply)
        · refine .inr (.inr fun n k f hf hk => ?_)
          exact (hlast n k f hf hk).imp_right fun hheld =>
            (hholds f hheld hf.holds).resolve_left hreply

/-- A pending claim gets its place in the order. -/
theorem arbitrate (h : Accounted pending bus seen i c) {n : ℕ} (hm : pending[n]? = some (k, f)) :
    Accounted (pending.eraseIdx n) (bus ++ [(k, f)]) seen i c := by
  have hmoved : ∀ f', (i, f') ∈ pending →
      (i, f') ∈ pending.eraseIdx n ∨ (i, f') = (k, f) := by
    intro f' hf'
    obtain ⟨m, hget⟩ := List.mem_iff_getElem?.mp hf'
    by_cases heq : m = n
    · right
      rw [heq, hm] at hget
      exact (Option.some.inj hget).symm
    · exact .inl (List.mem_eraseIdx_iff_getElem?.mpr ⟨m, heq, hget⟩)
  refine ⟨?_, h.settled, ?_, ?_⟩
  · rw [List.length_append]
    exact Nat.le_add_right_of_le h.seen_le
  · intro address hclaims
    obtain ⟨f', hf' | hf', hsrc⟩ := h.sent address hclaims
    · refine ⟨f', (hmoved f' hf').imp_right fun heq => ?_, hsrc⟩
      exact List.mem_append_right bus (List.mem_singleton.mpr heq)
    · exact ⟨f', .inr (List.mem_append_left _ hf'), hsrc⟩
  · intro address hclaims
    rcases h.covered address hclaims with ⟨f', hf', hsrc⟩ | hreply | hlast
    · rcases hmoved f' hf' with hf' | heq
      · exact .inl ⟨f', hf', hsrc⟩
      · -- the claim of the node itself is the last one now
        cases heq
        refine .inr (.inr fun m k' g hg hk' => ?_)
        have hown : IsClaimOf address (i, f) := hsrc
        exact absurd (congrArg Prod.fst ((List.isLast_concat_of_holds hown).mp hg).2) hk'
    · exact .inr (.inl hreply)
    · refine .inr (.inr fun m k' g hg hk' => ?_)
      by_cases hsrc : IsClaimOf address (k, f)
      · obtain ⟨rfl, -⟩ := (List.isLast_concat_of_holds hsrc).mp hg
        exact .inl h.seen_le
      · exact hlast m k' g ((List.isLast_concat_of_not hsrc).mp hg) hk'

/-- The next claim comes to the node, and goes to the mailbox when it is not its own. -/
theorem deliver [DecidableEq ι] (h : Accounted pending bus seen i c)
    (hclaims : ∀ m ∈ bus, ∃ ecuName address, m.2 = claimFrame ecuName address)
    (hm : bus[seen]? = some (k, f)) :
    Accounted pending bus (seen + 1) i (if k = i then c else c.receive (.addressClaim f)) := by
  have hlt : seen < bus.length := (List.getElem?_eq_some_iff.mp hm).1
  by_cases hk : k = i
  · subst hk
    rw [if_pos rfl]
    refine ⟨hlt, h.settled, h.sent, fun address hown => ?_⟩
    rcases h.covered address hown with hpending | hreply | hlast
    · exact .inl hpending
    · exact .inr (.inl hreply)
    · refine .inr (.inr fun n k' g hg hk' => ?_)
      rcases hlast n k' g hg hk' with hle | hheld
      · -- the claim that has come is its own, so it is not this one
        have hne : seen ≠ n := by
          rintro rfl
          exact hk' (congrArg Prod.fst (Option.some.inj (hg.get.symm.trans hm)))
        exact .inl (by omega)
      · exact .inr hheld
  · rw [if_neg hk]
    refine ⟨hlt, h.settled, h.sent, fun address hown => ?_⟩
    rcases h.covered address hown with hpending | hreply | hlast
    · exact .inl hpending
    · exact .inr (.inl hreply)
    · refine .inr (.inr fun n k' g hg hk' => ?_)
      obtain ⟨ecuName, a, heq⟩ := hclaims _ (List.mem_of_getElem? hm)
      obtain ⟨ecuName', a', heq'⟩ := hclaims _ (List.mem_of_getElem? hg.get)
      have hf : f = claimFrame ecuName a := heq
      have hg' : g = claimFrame ecuName' a' := heq'
      rcases Nat.lt_trichotomy seen n with hseen | hseen | hseen
      · exact .inl hseen
      · right
        rw [hseen, hg.get] at hm
        cases hm
        exact AddressClaimer.holds_receive
      · -- what came later has another address, hence another identifier
        right
        have hheld := (hlast n k' g hg hk').resolve_left (by omega)
        apply hheld.receive
        intro hid
        have hother := hg.none_after seen (k, f) hseen hm
        rw [hg', hf] at hid
        apply hother
        rw [IsClaimOf, heq, getSrcAddr_claimFrame, ← getIdentifier_claimFrame_inj hid]
        rw [← getSrcAddr_claimFrame ecuName' a', ← hg']
        exact hg.holds

/-- A request comes to the node. -/
theorem request (h : Accounted pending bus seen i c)
    (hclaims : ∀ m ∈ bus, ∃ ecuName address, m.2 = claimFrame ecuName address)
    {frame : RequestFrame} (hprio : getPriority frame ≤ 7) :
    Accounted pending bus seen i (c.receive (.request frame)) := by
  refine ⟨h.seen_le, h.settled, h.sent, fun address hown => ?_⟩
  rcases h.covered address hown with hpending | hreply | hlast
  · exact .inl hpending
  · exact .inr (.inl hreply)
  · refine .inr (.inr fun n k f hf hk => (hlast n k f hf hk).imp_right fun hheld => ?_)
    obtain ⟨ecuName, a, heq⟩ := hclaims _ (List.mem_of_getElem? hf.get)
    apply hheld.receive
    rw [show f = claimFrame ecuName a from heq]
    exact (getIdentifier_request_ne hprio).symm

end Accounted

end Accounts

/-! ### The network -/

variable {ι : Type} [DecidableEq ι]

/-- The nodes, the claims sent that have no place in the order yet, the claims in their common
order, and how many of them have come to each node. -/
structure Network (ι : Type) where
  nodes : ι → AddressClaimer
  pending : List (ι × AddressClaimFrame) := []
  bus : List (ι × AddressClaimFrame) := []
  seen : ι → ℕ := fun _ => 0

/-- What happens next. -/
inductive Action (ι : Type)
  /-- The thread of a node takes a step. -/
  | thread (i : ι) (elapsed : ℕ)
  /-- A pending claim gets its place in the order. -/
  | arbitrate (n : ℕ)
  /-- The next claim comes to a node, which does not receive its own. -/
  | deliver (i : ι)
  /-- A request from outside comes to a node. -/
  | request (i : ι) (frame : RequestFrame)

namespace Network

/-- Replace a node. -/
def setNode (net : Network ι) (i : ι) (c : AddressClaimer) : Network ι :=
  { net with nodes := Function.update net.nodes i c }

/-- One step of the network. -/
def step (net : Network ι) : Action ι → Option (Network ι)
  | .thread i elapsed =>
    let (c, sent) := (net.nodes i).threadStep elapsed
    some { net.setNode i c with pending := net.pending ++ (sent.map fun f => (i, f)).toList }
  | .arbitrate n =>
    match net.pending[n]? with
    | some m => some { net with pending := net.pending.eraseIdx n, bus := net.bus ++ [m] }
    | none => none
  | .deliver i =>
    match net.bus[net.seen i]? with
    | some (k, f) =>
      let net' := { net with seen := Function.update net.seen i (net.seen i + 1) }
      some (if k = i then net' else net'.setNode i ((net.nodes i).receive (.addressClaim f)))
    | none => none
  | .request i frame =>
    if getPriority frame ≤ 7 then some (net.setNode i ((net.nodes i).receive (.request frame)))
    else none

/-- A run of the network. -/
def run (net : Network ι) (actions : List (Action ι)) : Option (Network ι) :=
  actions.foldlM step net

/-- The nodes when they are constructed. -/
def initial (names : ι → EcuName) (preferred : ι → List UInt8) : Network ι where
  nodes i := { ecuName := names i, preferred := preferred i }

/-- A state of some run of nodes with these names and preferred addresses. -/
def Reachable (names : ι → EcuName) (preferred : ι → List UInt8) (net : Network ι) : Prop :=
  ∃ actions, run (initial names preferred) actions = some net

/-- No frame is in flight, and all mailboxes are empty. -/
structure Quiet (net : Network ι) : Prop where
  pending : net.pending = []
  seen : ∀ i, net.seen i = net.bus.length
  frames : ∀ i, (net.nodes i).frames = ∅

/-! ### What holds in every reachable state -/

/-- The invariant of the steps. -/
structure Invariant (net : Network ι) : Prop where
  claims : ∀ m, m ∈ net.pending ∨ m ∈ net.bus →
    ∃ ecuName address, m.2 = claimFrame ecuName address
  accounted : ∀ i, Accounted net.pending net.bus (net.seen i) i (net.nodes i)

variable {net net' : Network ι} {i : ι} {c : AddressClaimer}

omit [DecidableEq ι] in
theorem invariant_initial (names : ι → EcuName) (preferred : ι → List UInt8) :
    (initial names preferred).Invariant := by
  refine ⟨fun m hm => ?_, fun i => ?_⟩
  · rcases hm with hm | hm
    · cases hm
    · cases hm
  · have hclaims : ∀ address, ¬((initial names preferred).nodes i).Claims address := by
      rintro address (⟨p, t, hawait⟩ | ⟨hcurrent, hne⟩)
      · cases hawait
      · exact hne hcurrent.symm
    exact ⟨Nat.le_refl 0, AddressClaimer.settled_of_currentSrc rfl,
      fun address h => absurd h (hclaims address), fun address h => absurd h (hclaims address)⟩

@[simp] theorem setNode_nodes_self : (net.setNode i c).nodes i = c :=
  Function.update_self _ _ _

theorem setNode_nodes_ne {j : ι} (hj : j ≠ i) : (net.setNode i c).nodes j = net.nodes j :=
  Function.update_of_ne hj _ _

/-- What a step does to a node need only be looked at for this node, when the others keep
their accounts. -/
theorem accounted_setNode {pending bus : List (ι × AddressClaimFrame)} {seen : ι → ℕ}
    (hself : Accounted pending bus (seen i) i c)
    (hother : ∀ j, j ≠ i → Accounted pending bus (seen j) j (net.nodes j)) (j : ι) :
    Accounted pending bus (seen j) j ((net.setNode i c).nodes j) := by
  by_cases hj : j = i
  · subst hj
    rw [setNode_nodes_self]
    exact hself
  · rw [setNode_nodes_ne hj]
    exact hother j hj

/-- The next claim comes to a node. -/
theorem Invariant.deliver (h : net.Invariant) (hstep : net.step (.deliver i) = some net') :
    net'.Invariant := by
  have hclaims : ∀ m ∈ net.bus, _ := fun m hm => h.claims m (.inr hm)
  rw [Network.step] at hstep
  split at hstep
  · next k f hm =>
    have hself := (h.accounted i).deliver hclaims hm
    obtain rfl := Option.some.inj hstep
    have hother : ∀ j, j ≠ i → Accounted net.pending net.bus
        (Function.update net.seen i (net.seen i + 1) j) j (net.nodes j) := by
      intro j hj
      rw [Function.update_of_ne hj]
      exact h.accounted j
    have hself' : Accounted net.pending net.bus
        (Function.update net.seen i (net.seen i + 1) i) i
          (if k = i then net.nodes i else (net.nodes i).receive (.addressClaim f)) := by
      rw [Function.update_self]
      exact hself
    by_cases hk : k = i
    · simp only [if_pos hk] at hself' ⊢
      refine ⟨h.claims, fun j => ?_⟩
      by_cases hj : j = i
      · rw [hj]
        exact hself'
      · exact hother j hj
    · simp only [if_neg hk] at hself' ⊢
      exact ⟨h.claims, accounted_setNode hself' hother⟩
  · cases hstep

/-- A step keeps the invariant. -/
theorem Invariant.step (h : net.Invariant) {action : Action ι}
    (hstep : net.step action = some net') : net'.Invariant := by
  cases action with
  | thread i elapsed =>
    obtain rfl := Option.some.inj hstep
    refine ⟨fun m hm => ?_, ?_⟩
    · rcases hm with hm | hm
      · rcases List.mem_append.mp hm with hm | hm
        · exact h.claims m (.inl hm)
        · obtain ⟨f, hf, rfl⟩ := Option.map_eq_some_iff.mp (Option.mem_toList.mp hm)
          exact AddressClaimer.sent_threadStep hf
      · exact h.claims m (.inr hm)
    · exact accounted_setNode ((h.accounted i).threadStep elapsed)
        fun j _ => (h.accounted j).mono (List.subset_append_left _ _)
  | arbitrate n =>
    rw [Network.step] at hstep
    split at hstep
    · next m hm =>
      obtain rfl := Option.some.inj hstep
      refine ⟨fun m' hm' => ?_, fun i => (h.accounted i).arbitrate hm⟩
      rcases hm' with hm' | hm'
      · exact h.claims m' (.inl (List.mem_of_mem_eraseIdx hm'))
      · rcases List.mem_append.mp hm' with hm' | hm'
        · exact h.claims m' (.inr hm')
        · rw [List.mem_singleton.mp hm']
          exact h.claims m (.inl (List.mem_of_getElem? hm))
    · cases hstep
  | deliver i => exact h.deliver hstep
  | request i frame =>
    have hclaims : ∀ m ∈ net.bus, _ := fun m hm => h.claims m (.inr hm)
    rw [Network.step] at hstep
    split at hstep
    · next hprio =>
      obtain rfl := Option.some.inj hstep
      exact ⟨h.claims, accounted_setNode ((h.accounted i).request hclaims hprio)
        fun j _ => h.accounted j⟩
    · cases hstep

/-- A run keeps the invariant. -/
theorem Invariant.run (h : net.Invariant) {actions : List (Action ι)}
    (hrun : net.run actions = some net') : net'.Invariant := by
  induction actions generalizing net with
  | nil =>
    obtain rfl := Option.some.inj hrun
    exact h
  | cons action actions ih =>
    rw [Network.run, List.foldlM_cons, Option.bind_eq_bind, Option.bind_eq_some_iff] at hrun
    obtain ⟨next, hstep, hrun⟩ := hrun
    exact ih (h.step hstep) hrun

theorem Reachable.invariant {names : ι → EcuName} {preferred : ι → List UInt8}
    (h : Reachable names preferred net) : net.Invariant := by
  obtain ⟨actions, hrun⟩ := h
  exact (invariant_initial names preferred).run hrun

/-- When nothing is under way, whoever claims an address sent its last claim, or answers it. -/
theorem Quiet.claimed (hquiet : net.Quiet) (h : net.Invariant) {address : UInt8}
    (hown : (net.nodes i).Claims address) (hanswers : ¬(net.nodes i).Answers address)
    {n : ℕ} {k : ι} {f : AddressClaimFrame} (hlast : net.bus.IsLast (IsClaimOf address) n (k, f)) :
    k = i := by
  rcases (h.accounted i).covered address hown with ⟨f', hf', -⟩ | hreply | hcovered
  · rw [hquiet.pending] at hf'
    cases hf'
  · exact absurd hreply hanswers
  · by_contra hk
    rcases hcovered n k f hlast hk with hle | hheld
    · have hlt := hlast.lt
      rw [hquiet.seen i] at hle
      omega
    · rw [AddressClaimer.Holds, hquiet.frames i] at hheld
      cases hheld

/-- Nodes agree on who has an address: in a reachable state in which no frame is in flight and all
mailboxes are empty, two nodes have the same one only while one of them is about to send it. -/
theorem Reachable.reply_of_currentSrc {names : ι → EcuName} {preferred : ι → List UInt8}
    (hreach : Reachable names preferred net) (hquiet : net.Quiet) {i j : ι} (hne : i ≠ j)
    (hsrc : (net.nodes i).currentSrc = (net.nodes j).currentSrc)
    (hvalid : (net.nodes i).currentSrc ≠ invalidAddress) :
    (net.nodes i).point = .reply ∨ (net.nodes j).point = .reply := by
  have hinv := hreach.invariant
  have hown : (net.nodes i).Claims (net.nodes i).currentSrc := .inr ⟨rfl, hvalid⟩
  have hown' : (net.nodes j).Claims (net.nodes i).currentSrc := .inr ⟨hsrc.symm, hvalid⟩
  -- somebody sent the last claim of the address
  obtain ⟨f, hm, hf⟩ := (hinv.accounted i).sent _ hown
  rw [hquiet.pending] at hm
  have hbus := hm.resolve_left List.not_mem_nil
  obtain ⟨n, ⟨k, g⟩, hlast⟩ := List.exists_isLast
    (p := IsClaimOf (net.nodes i).currentSrc) ⟨(i, f), hbus, hf⟩
  by_contra hreply
  obtain ⟨hi, hj⟩ := not_or.mp hreply
  have hki := hquiet.claimed hinv hown (fun ha => hi ha.1) hlast
  have hkj := hquiet.claimed hinv hown' (fun ha => hj ha.1) hlast
  exact hne (hki.symm.trans hkj)

section Objection

/-- The first node has the address when the claim of the second comes, which had flushed the
claim of the first. Both have waited for objections, and the first has read the claim of the
second, but has not sent its own again. -/
def objection : List (Action (Fin 2)) :=
  [.thread 0 0, .thread 0 0, .arbitrate 0, .deliver 1, .deliver 0, .thread 0 250,
    .thread 1 0, .thread 1 0, .arbitrate 0, .deliver 0, .deliver 1, .thread 1 250, .thread 0 0]

/-- Two nodes that prefer the same address. -/
def contenders : Network (Fin 2) :=
  initial (fun i => { idNumber := i.val.toUInt32 + 1 }) fun _ => [0x80]

/-- The two nodes while the first one is about to answer. -/
def objected : Network (Fin 2) := (contenders.run objection).getD contenders

theorem run_objection : contenders.run objection = some objected := by
  have hsome : (contenders.run objection).isSome = true := by decide +kernel
  obtain ⟨net, hnet⟩ := Option.isSome_iff_exists.mp hsome
  rw [objected, hnet, Option.getD_some]

theorem quiet_objected : objected.Quiet := by
  refine ⟨List.isEmpty_iff.mp (by decide +kernel), by decide +kernel, fun i => ?_⟩
  apply SortedMap.ext_entries
  apply List.isEmpty_iff.mp
  revert i
  decide +kernel

theorem currentSrc_objected : ∀ i, (objected.nodes i).currentSrc = 0x80 := by
  decide +kernel

/-- The second node waits, and the first one is the one that answers. -/
theorem reply_objected : (objected.nodes 1).point = .listen ∧
    ((objected.nodes 0).point = .reply ∨ (objected.nodes 1).point = .reply) := by
  have hsrc : (objected.nodes 0).currentSrc = (objected.nodes 1).currentSrc := by
    rw [currentSrc_objected, currentSrc_objected]
  have hvalid : (objected.nodes 0).currentSrc ≠ invalidAddress := by
    rw [currentSrc_objected]
    decide
  exact ⟨by decide +kernel,
    Reachable.reply_of_currentSrc ⟨objection, run_objection⟩ quiet_objected (by decide) hsrc hvalid⟩

/-- With different NAMEs, no frame in flight, all mailboxes empty, and all nodes in the inner loop
of `exec`, two nodes have the same address. -/
theorem objected_not_agreed :
    ¬∀ (names : Fin 2 → EcuName) (preferred : Fin 2 → List UInt8) (net : Network (Fin 2)),
      (∀ i j, i ≠ j → (names i).getValue ≠ (names j).getValue) →
      (∀ i, preferred i ≠ [] ∧ ∀ a ∈ preferred i, a ≤ 253) →
      Reachable names preferred net → net.Quiet → (∀ i, (net.nodes i).point.inInnerLoop = true) →
      ∀ i j, i ≠ j → (net.nodes i).currentSrc = (net.nodes j).currentSrc →
        (net.nodes i).currentSrc = invalidAddress := by
  intro h
  have hsrc := h (fun i => { idNumber := i.val.toUInt32 + 1 }) (fun _ => [0x80]) objected
    (by decide +kernel) (fun i => ⟨by simp, by simp⟩) ⟨objection, run_objection⟩ quiet_objected
    (by decide +kernel) 0 1 (by decide)
    ((currentSrc_objected 0).trans (currentSrc_objected 1).symm)
  rw [currentSrc_objected] at hsrc
  exact absurd hsrc (by decide)

end Objection

end Network

end J1939
