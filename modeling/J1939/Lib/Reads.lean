import Mathlib.Data.List.GetD
import Mathlib.Data.Vector.Basic
import Mathlib.Data.List.Range
import Mathlib.Tactic.Common

/-!
# Programs that read a byte buffer

A decoder is handed a pointer and a length. Nothing stops it from reading past
the length, so a pointer is modelled as a total function from index to byte and
a decoder as a tree of reads. One tree gives both the result of the decoder and
the list of the indices it has accessed.
-/

/-- The bytes found through a pointer, inside and outside its buffer. -/
abbrev Memory := ℕ → UInt8

namespace Memory

/-- A buffer holding `bytes`; what lies behind its end is given by `beyond`. -/
def ofList (bytes : List UInt8) (beyond : Memory) : Memory :=
  fun i => bytes.getD i (beyond i)

/-- The `n` bytes that start at index `i`. -/
def slice (mem : Memory) (i n : ℕ) : List UInt8 := (List.range n).map fun k => mem (i + k)

/-- Copy `bytes` to the index `offset`. -/
def write (mem : Memory) (offset : ℕ) (bytes : List UInt8) : Memory :=
  fun i => if offset ≤ i then bytes.getD (i - offset) (mem i) else mem i

@[simp] theorem length_slice (mem : Memory) (i n : ℕ) : (mem.slice i n).length = n := by
  simp [slice]

@[simp] theorem slice_zero (mem : Memory) (i : ℕ) : mem.slice i 0 = [] := rfl

theorem slice_succ (mem : Memory) (i n : ℕ) :
    mem.slice i (n + 1) = mem i :: mem.slice (i + 1) n := by
  simp only [slice, List.range_succ_eq_map, List.map_cons, List.map_map, Nat.add_zero]
  congr 1
  apply List.map_congr_left
  intro k _
  simp only [Function.comp_apply, Nat.succ_eq_add_one]
  congr 1
  omega

/-- A slice as an array of fixed size. -/
def vector (mem : Memory) (i n : ℕ) : List.Vector UInt8 n := ⟨mem.slice i n, length_slice mem i n⟩

theorem vector_succ (mem : Memory) (i n : ℕ) :
    mem.vector i (n + 1) = mem i ::ᵥ mem.vector (i + 1) n :=
  Subtype.ext (mem.slice_succ i n)

theorem slice_getElem (mem : Memory) {i n k : ℕ} (h : k < (mem.slice i n).length) :
    (mem.slice i n)[k] = mem (i + k) := by
  simp [slice]

/-- Two memories that agree on a range have the same slice there. -/
theorem slice_congr {mem mem' : Memory} {i n : ℕ} (h : ∀ k < n, mem (i + k) = mem' (i + k)) :
    mem.slice i n = mem'.slice i n := by
  apply List.map_congr_left
  intro k hk
  exact h k (List.mem_range.mp hk)

/-- Slices of two memories are equal when all their bytes are. -/
theorem slice_eq_iff {mem mem' : Memory} {i n : ℕ} :
    mem.slice i n = mem'.slice i n ↔ ∀ k < n, mem (i + k) = mem' (i + k) := by
  rw [slice, slice, List.map_inj_left]
  simp only [List.mem_range]

/-- A slice of a buffer's own length is the buffer. -/
theorem slice_ofList (bytes : List UInt8) (beyond : Memory) :
    (ofList bytes beyond).slice 0 bytes.length = bytes := by
  apply List.ext_getElem
  · rw [length_slice]
  · intro k hk hk'
    simp [slice, ofList, hk']

/-- A memory is its own first bytes and itself behind them. -/
theorem ofList_slice (mem : Memory) (n : ℕ) : ofList (mem.slice 0 n) mem = mem := by
  funext i
  by_cases hi : i < n <;> simp [ofList, slice, hi]

theorem ofList_of_lt {bytes : List UInt8} {beyond : Memory} {i : ℕ} (h : i < bytes.length) :
    ofList bytes beyond i = bytes[i] := by
  simp [ofList, h]

/-- An array behind the first byte of a buffer is read as it was written. -/
theorem vector_ofList_cons {n : ℕ} (b : UInt8) (data : List.Vector UInt8 n) (beyond : Memory) :
    (ofList (b :: data.toList) beyond).vector 1 n = data := by
  apply List.Vector.toList_injective
  apply List.ext_getElem
  · rw [List.Vector.toList_length, List.Vector.toList_length]
  · intro k hk hk'
    have hlt : 1 + k < (b :: data.toList).length := by
      rw [List.length_cons]
      omega
    simp only [vector, List.Vector.toList_mk, slice_getElem]
    rw [ofList_of_lt hlt]
    simp only [Nat.add_comm 1 k, List.getElem_cons_succ]

theorem write_of_lt {mem : Memory} {offset i : ℕ} {bytes : List UInt8} (h : i < offset) :
    mem.write offset bytes i = mem i := by
  simp [write, Nat.not_le.mpr h]

theorem write_of_mem {mem : Memory} {offset i : ℕ} {bytes : List UInt8} (h : offset ≤ i)
    (hi : i - offset < bytes.length) : mem.write offset bytes i = bytes[i - offset] := by
  simp [write, h, hi]

theorem write_of_ge {mem : Memory} {offset i : ℕ} {bytes : List UInt8}
    (h : offset + bytes.length ≤ i) : mem.write offset bytes i = mem i := by
  unfold write
  split
  · rw [List.getD_eq_default]
    omega
  · rfl

end Memory

/-- Overwrite a buffer with `bytes` from index `i` on; the buffer keeps its size. -/
def writeBytes (buffer : List UInt8) (i : ℕ) : List UInt8 → List UInt8
  | [] => buffer
  | b :: bs => writeBytes (buffer.set i b) (i + 1) bs

@[simp] theorem length_writeBytes (buffer : List UInt8) (i : ℕ) (bytes : List UInt8) :
    (writeBytes buffer i bytes).length = buffer.length := by
  induction bytes generalizing buffer i with
  | nil => rfl
  | cons b bs ih => rw [writeBytes, ih, List.length_set]

/-- A program that reads bytes through one pointer. What it does after a read
depends on the byte read and on nothing else in memory. -/
inductive Reads (α : Type) where
  | done (a : α)
  | read (i : ℕ) (next : UInt8 → Reads α)

namespace Reads

variable {α β : Type}

/-- Run one program and continue with its result. -/
def bind : Reads α → (α → Reads β) → Reads β
  | done a, f => f a
  | read i next, f => read i fun b => (next b).bind f

/-- The result in a given memory. -/
def value (mem : Memory) : Reads α → α
  | done a => a
  | read i next => (next (mem i)).value mem

/-- The indices accessed in a given memory, in order. -/
def accessed (mem : Memory) : Reads α → List ℕ
  | done _ => []
  | read i next => i :: (next (mem i)).accessed mem

/-- The same program on the pointer advanced by `offset`. -/
def advance (offset : ℕ) : Reads α → Reads α
  | done a => done a
  | read i next => read (offset + i) fun b => (next b).advance offset

@[simp] theorem value_bind (mem : Memory) (p : Reads α) (f : α → Reads β) :
    (p.bind f).value mem = (f (p.value mem)).value mem := by
  induction p with
  | done a => rfl
  | read i next ih => simpa only [bind, value] using ih (mem i)

@[simp] theorem accessed_bind (mem : Memory) (p : Reads α) (f : α → Reads β) :
    (p.bind f).accessed mem = p.accessed mem ++ (f (p.value mem)).accessed mem := by
  induction p with
  | done a => rfl
  | read i next ih => simp only [bind, value, accessed, List.cons_append, ih]

@[simp] theorem value_advance (mem : Memory) (offset : ℕ) (p : Reads α) :
    (p.advance offset).value mem = p.value fun i => mem (offset + i) := by
  induction p with
  | done a => rfl
  | read i next ih => simpa only [advance, value] using ih (mem (offset + i))

@[simp] theorem accessed_advance (mem : Memory) (offset : ℕ) (p : Reads α) :
    (p.advance offset).accessed mem =
      (p.accessed fun i => mem (offset + i)).map (offset + ·) := by
  induction p with
  | done a => rfl
  | read i next ih => simp only [advance, accessed, List.map_cons, ih]

/-- What is not accessed does not matter. -/
theorem value_congr {p : Reads α} {mem mem' : Memory}
    (h : ∀ i ∈ p.accessed mem, mem i = mem' i) : p.value mem = p.value mem' := by
  induction p with
  | done a => rfl
  | read i next ih =>
    have hi : mem i = mem' i := h i List.mem_cons_self
    rw [value, value, ← hi]
    exact ih (mem i) fun k hk => h k (List.mem_cons_of_mem i hk)

end Reads

/-- A member function of an object of type `σ`: it reads a buffer, updates the
object and may throw. The updates made before a throw stay in the object. -/
def Method (σ ε α : Type) := σ → Reads (Except ε α × σ)

namespace Method

variable {σ τ ε α β : Type}

/-- Continue with the result unless an exception was thrown. -/
def bind (m : Method σ ε α) (f : α → Method σ ε β) : Method σ ε β := fun s =>
  (m s).bind fun
    | (.ok a, s') => f a s'
    | (.error e, s') => .done (.error e, s')

instance : Monad (Method σ ε) where
  pure a := fun s => .done (.ok a, s)
  bind := bind

/-- The object in its current state. -/
def get : Method σ ε σ := fun s => .done (.ok s, s)

/-- Update the object. -/
def modify (f : σ → σ) : Method σ ε Unit := fun s => .done (.ok (), f s)

/-- Throw an exception. -/
def throw (e : ε) : Method σ ε α := fun s => .done (.error e, s)

/-- Throw an exception when the condition holds. -/
def throwIf (c : Prop) [Decidable c] (e : ε) : Method σ ε Unit := fun s =>
  .done (if c then .error e else .ok (), s)

/-- The byte at an index. -/
def byte (i : ℕ) : Method σ ε UInt8 := fun s => .read i fun b => .done (.ok b, s)

/-- Call a method of a part of the object. -/
def onPart (view : σ → τ) (put : σ → τ → σ) (m : Method τ ε α) : Method σ ε α := fun s =>
  (m (view s)).bind fun r => .done (r.1, put s r.2)

/-- Hand the buffer on from index `offset`. -/
def advance (offset : ℕ) (m : Method σ ε α) : Method σ ε α := fun s => (m s).advance offset

/-- The outcome of a call on an object in a given memory, and the object after it. -/
def run (m : Method σ ε α) (s : σ) (mem : Memory) : Except ε α × σ := (m s).value mem

/-- The indices that a call accesses. -/
def accessed (m : Method σ ε α) (s : σ) (mem : Memory) : List ℕ := (m s).accessed mem

@[simp] theorem run_pure (a : α) (s : σ) (mem : Memory) :
    (pure a : Method σ ε α).run s mem = (.ok a, s) := rfl

theorem run_bind (m : Method σ ε α) (f : α → Method σ ε β) (s : σ) (mem : Memory) :
    (m >>= f).run s mem =
      match m.run s mem with
      | (.ok a, s') => (f a).run s' mem
      | (.error e, s') => (.error e, s') := by
  simp only [run, Bind.bind, bind, Reads.value_bind]
  rcases (m s).value mem with ⟨_ | _, _⟩ <;> rfl

theorem accessed_bind (m : Method σ ε α) (f : α → Method σ ε β) (s : σ) (mem : Memory) :
    (m >>= f).accessed s mem = m.accessed s mem ++
      match m.run s mem with
      | (.ok a, s') => (f a).accessed s' mem
      | (.error _, _) => [] := by
  simp only [run, accessed, Bind.bind, bind, Reads.accessed_bind]
  rcases (m s).value mem with ⟨_ | _, _⟩ <;> rfl

theorem run_bind_of_ok {m : Method σ ε α} {f : α → Method σ ε β} {s s' : σ} {mem : Memory} {a : α}
    (h : m.run s mem = (.ok a, s')) : (m >>= f).run s mem = (f a).run s' mem := by
  rw [run_bind, h]

theorem accessed_bind_of_ok {m : Method σ ε α} {f : α → Method σ ε β} {s s' : σ} {mem : Memory}
    {a : α} (h : m.run s mem = (.ok a, s')) :
    (m >>= f).accessed s mem = m.accessed s mem ++ (f a).accessed s' mem := by
  rw [accessed_bind, h]

theorem run_bind_of_error {m : Method σ ε α} {f : α → Method σ ε β} {s s' : σ} {mem : Memory}
    {e : ε} (h : m.run s mem = (.error e, s')) : (m >>= f).run s mem = (.error e, s') := by
  rw [run_bind, h]

@[simp] theorem run_get_bind (f : σ → Method σ ε α) (s : σ) (mem : Memory) :
    (get >>= f).run s mem = (f s).run s mem := rfl

@[simp] theorem run_modify (f : σ → σ) (s : σ) (mem : Memory) :
    (modify f : Method σ ε Unit).run s mem = (.ok (), f s) := rfl

@[simp] theorem run_modify_bind (f : σ → σ) (g : Unit → Method σ ε α) (s : σ) (mem : Memory) :
    (modify f >>= g).run s mem = (g ()).run (f s) mem := rfl

@[simp] theorem run_throw (e : ε) (s : σ) (mem : Memory) :
    (throw e : Method σ ε α).run s mem = (.error e, s) := rfl

@[simp] theorem run_throwIf (c : Prop) [Decidable c] (e : ε) (s : σ) (mem : Memory) :
    (throwIf c e).run s mem = (if c then .error e else .ok (), s) := rfl

@[simp] theorem run_throwIf_bind (c : Prop) [Decidable c] (e : ε) (f : Unit → Method σ ε α)
    (s : σ) (mem : Memory) :
    (throwIf c e >>= f).run s mem = if c then (.error e, s) else (f ()).run s mem := by
  rw [run_bind, run_throwIf]
  split_ifs <;> rfl

@[simp] theorem run_byte_bind (i : ℕ) (f : UInt8 → Method σ ε α) (s : σ) (mem : Memory) :
    (byte i >>= f).run s mem = (f (mem i)).run s mem := rfl

@[simp] theorem run_onPart (view : σ → τ) (put : σ → τ → σ) (m : Method τ ε α) (s : σ)
    (mem : Memory) :
    (onPart view put m).run s mem =
      ((m.run (view s) mem).1, put s (m.run (view s) mem).2) := by
  simp only [run, onPart, Reads.value_bind, Reads.value]

@[simp] theorem run_advance (offset : ℕ) (m : Method σ ε α) (s : σ) (mem : Memory) :
    (m.advance offset).run s mem = m.run s fun i => mem (offset + i) := by
  simp only [run, advance, Reads.value_advance]

@[simp] theorem accessed_pure (a : α) (s : σ) (mem : Memory) :
    (pure a : Method σ ε α).accessed s mem = [] := rfl

@[simp] theorem accessed_get_bind (f : σ → Method σ ε α) (s : σ) (mem : Memory) :
    (get >>= f).accessed s mem = (f s).accessed s mem := rfl

@[simp] theorem accessed_modify (f : σ → σ) (s : σ) (mem : Memory) :
    (modify f : Method σ ε Unit).accessed s mem = [] := rfl

@[simp] theorem accessed_modify_bind (f : σ → σ) (g : Unit → Method σ ε α) (s : σ)
    (mem : Memory) : (modify f >>= g).accessed s mem = (g ()).accessed (f s) mem := rfl

@[simp] theorem accessed_throw (e : ε) (s : σ) (mem : Memory) :
    (throw e : Method σ ε α).accessed s mem = [] := rfl

@[simp] theorem accessed_throwIf (c : Prop) [Decidable c] (e : ε) (s : σ) (mem : Memory) :
    (throwIf c e).accessed s mem = [] := rfl

@[simp] theorem accessed_throwIf_bind (c : Prop) [Decidable c] (e : ε)
    (f : Unit → Method σ ε α) (s : σ) (mem : Memory) :
    (throwIf c e >>= f).accessed s mem = if c then [] else (f ()).accessed s mem := by
  rw [accessed_bind, run_throwIf, accessed_throwIf]
  split_ifs <;> rfl

@[simp] theorem accessed_byte_bind (i : ℕ) (f : UInt8 → Method σ ε α) (s : σ) (mem : Memory) :
    (byte i >>= f).accessed s mem = i :: (f (mem i)).accessed s mem := rfl

@[simp] theorem accessed_onPart (view : σ → τ) (put : σ → τ → σ) (m : Method τ ε α) (s : σ)
    (mem : Memory) : (onPart view put m).accessed s mem = m.accessed (view s) mem := by
  simp [accessed, onPart, Reads.accessed]

@[simp] theorem accessed_advance (offset : ℕ) (m : Method σ ε α) (s : σ) (mem : Memory) :
    (m.advance offset).accessed s mem =
      (m.accessed s fun i => mem (offset + i)).map (offset + ·) := by
  simp only [accessed, advance, Reads.accessed_advance]

/-- Copy `n` bytes out of the buffer from index `i` on. -/
def bytes (i : ℕ) : (n : ℕ) → Method σ ε (List.Vector UInt8 n)
  | 0 => pure List.Vector.nil
  | n + 1 => do
    let b ← byte i
    let bs ← bytes (i + 1) n
    pure (b ::ᵥ bs)

@[simp] theorem run_bytes (i n : ℕ) (s : σ) (mem : Memory) :
    (bytes i n : Method σ ε _).run s mem = (.ok (mem.vector i n), s) := by
  induction n generalizing i with
  | zero => rfl
  | succ n ih =>
    rw [bytes, run_byte_bind, run_bind_of_ok (ih (i + 1)), run_pure, Memory.vector_succ]

@[simp] theorem accessed_bytes (i n : ℕ) (s : σ) (mem : Memory) :
    (bytes i n : Method σ ε _).accessed s mem = List.range' i n := by
  induction n generalizing i with
  | zero => rfl
  | succ n ih =>
    rw [bytes, accessed_byte_bind, accessed_bind, run_bytes, ih, List.range'_succ]
    simp only [accessed_pure, List.append_nil]

@[simp] theorem run_bytes_bind {n : ℕ} (i : ℕ) (f : List.Vector UInt8 n → Method σ ε α) (s : σ)
    (mem : Memory) : (bytes i n >>= f).run s mem = (f (mem.vector i n)).run s mem := by
  rw [run_bind, run_bytes]

/-- Call a method for each element of a list, in order. -/
def forEach {ι : Type} : List ι → (ι → Method σ ε Unit) → Method σ ε Unit
  | [], _ => pure ()
  | i :: is, f => do
    f i
    forEach is f

/-- What each call keeps is kept by all of them, whether one throws or not. -/
theorem snd_run_forEach {ι : Type} {is : List ι} {f : ι → Method σ ε Unit} {mem : Memory}
    {inv : σ → Prop} (hf : ∀ i s, inv s → inv ((f i).run s mem).2) {s : σ} (h : inv s) :
    inv ((forEach is f).run s mem).2 := by
  induction is generalizing s with
  | nil => exact h
  | cons i is ih =>
    have hstep := hf i s h
    rw [forEach, run_bind]
    rcases hrun : (f i).run s mem with ⟨_ | _, s'⟩
    · rw [hrun] at hstep
      exact hstep
    · rw [hrun] at hstep
      exact ih hstep

/-! ### Accesses within the buffer -/

/-- Whatever the object and the bytes are, only indices below `n` are accessed. -/
def Within (n : ℕ) (m : Method σ ε α) : Prop := ∀ s mem, ∀ i ∈ m.accessed s mem, i < n

namespace Within

variable {n : ℕ} {m : Method σ ε α} {f : α → Method σ ε β}

theorem pure (a : α) : Within n (Pure.pure a : Method σ ε α) := fun _ _ _ hi => by cases hi

theorem throw (e : ε) : Within n (Method.throw e : Method σ ε α) := fun _ _ _ hi => by cases hi

theorem throwIf (c : Prop) [Decidable c] (e : ε) : Within n (Method.throwIf c e : Method σ ε _) :=
  fun _ _ _ hi => by cases hi

theorem modify (g : σ → σ) : Within n (Method.modify g : Method σ ε _) := fun _ _ _ hi => by
  cases hi

theorem bytes {i k : ℕ} (h : i + k ≤ n) : Within n (Method.bytes i k : Method σ ε _) := by
  intro s mem j hj
  rw [accessed_bytes, List.mem_range'_1] at hj
  omega

/-- The continuation may rely on the value being one that the first call returns. -/
theorem bind_of_returned (hm : Within n m)
    (hf : ∀ a, (∃ s mem s', m.run s mem = (.ok a, s')) → Within n (f a)) : Within n (m >>= f) := by
  intro s mem i hi
  rw [accessed_bind, List.mem_append] at hi
  rcases hi with hi | hi
  · exact hm s mem i hi
  · split at hi
    · next a s' hrun => exact hf a ⟨s, mem, s', hrun⟩ s' mem i hi
    · cases hi

theorem bind (hm : Within n m) (hf : ∀ a, Within n (f a)) : Within n (m >>= f) :=
  hm.bind_of_returned fun a _ => hf a

theorem get_bind {f : σ → Method σ ε α} (hf : ∀ s, Within n (f s)) : Within n (Method.get >>= f) :=
  fun s mem => hf s s mem

theorem modify_bind {g : σ → σ} {f : Unit → Method σ ε α} (hf : Within n (f ())) :
    Within n (Method.modify g >>= f) :=
  fun s mem => hf (g s) mem

/-- Behind a test the condition is known to be false. -/
theorem throwIf_bind {c : Prop} [Decidable c] {e : ε} {f : Unit → Method σ ε α}
    (hf : ¬c → Within n (f ())) : Within n (Method.throwIf c e >>= f) := by
  intro s mem i hi
  rw [accessed_throwIf_bind] at hi
  by_cases hc : c
  · rw [if_pos hc] at hi
    cases hi
  · rw [if_neg hc] at hi
    exact hf hc s mem i hi

theorem byte_bind {i : ℕ} {f : UInt8 → Method σ ε α} (hi : i < n) (hf : ∀ b, Within n (f b)) :
    Within n (Method.byte i >>= f) := by
  intro s mem j hj
  rw [accessed_byte_bind, List.mem_cons] at hj
  rcases hj with rfl | hj
  · exact hi
  · exact hf _ s mem j hj

theorem onPart {view : τ → σ} {put : τ → σ → τ} (hm : Within n m) :
    Within n (Method.onPart view put m) := by
  intro s mem i hi
  rw [accessed_onPart] at hi
  exact hm _ _ i hi

theorem advance {offset : ℕ} (hm : Within (n - offset) m) : Within n (m.advance offset) := by
  intro s mem i hi
  rw [accessed_advance, List.mem_map] at hi
  obtain ⟨k, hk, rfl⟩ := hi
  have hlt := hm _ _ k hk
  omega

theorem forEach {ι : Type} {is : List ι} {f : ι → Method σ ε Unit}
    (hf : ∀ i ∈ is, Within n (f i)) : Within n (Method.forEach is f) := by
  induction is with
  | nil => exact Within.pure ()
  | cons i is ih =>
    rw [List.forall_mem_cons] at hf
    exact hf.1.bind fun _ => ih hf.2

end Within

end Method
