import J1939.Lib.Orbit
import J1939.SPNHistory

/-!
# When a history window ends

The loop of `getWindow` ends when a time is above the end of the window. Without a step the times
stay where they are. With steps they wrap around with the 32-bit seconds, and come to some times
only.
-/

namespace J1939

/-! ### Times that wrap around -/

section Wrap

variable {c : TimeStamp} {period : UInt32}

/-- A step of whole seconds from a whole second. -/
theorem TimeStamp.addMillis_whole (hc : c.microSec.toNat = 0) (hperiod : period.toNat % 1000 = 0) :
    (c.addMillis period).microSec.toNat = 0 ∧
      (c.addMillis period).seconds.toNat = (c.seconds.toNat + period.toNat / 1000) % 2 ^ 32 := by
  have hseconds := seconds_ofMillis period
  have hfield := microSec_ofMillis period
  have hno : c.microSec.toNat + (ofMillis period).microSec.toNat < 2 ^ 32 := by omega
  rw [addMillis, microSec_add hno, seconds_add hno, if_neg (by omega), if_neg (by omega), hseconds]
  exact ⟨by omega, rfl⟩

/-- Any other step. The microseconds of the sum are from one on to a whole second. -/
theorem TimeStamp.addMillis_wraps (hc : c.microSec.toNat ≤ 1000000)
    (hpart : c.microSec.toNat ≠ 0 ∨ period.toNat % 1000 ≠ 0) :
    0 < (c.addMillis period).microSec.toNat ∧ (c.addMillis period).microSec.toNat ≤ 1000000 ∧
      (c.addMillis period).micros =
        (c.micros + period.toNat * 1000 - 1) % (2 ^ 32 * 1000000) + 1 := by
  have hseconds := seconds_ofMillis period
  have hfield := microSec_ofMillis period
  have hno : c.microSec.toNat + (ofMillis period).microSec.toNat < 2 ^ 32 := by omega
  rw [micros, micros, addMillis, microSec_add hno, seconds_add hno]
  split
  · refine ⟨by omega, by omega, ?_⟩
    omega
  · refine ⟨by omega, by omega, ?_⟩
    omega

theorem TimeStamp.addMillis_zero (hc : c.microSec.toNat ≤ 1000000) : c.addMillis 0 = c := by
  have hno : c.microSec.toNat + (ofMillis 0).microSec.toNat < 2 ^ 32 := by
    change c.microSec.toNat + 0 < 2 ^ 32
    omega
  have hmicro := microSec_add hno
  have hseconds := seconds_add hno
  have hlt := c.seconds.toNat_lt
  change _ = if c.microSec.toNat + 0 > 1000000 then _ else c.microSec.toNat + 0 at hmicro
  change _ = (c.seconds.toNat + 0 +
    if c.microSec.toNat + 0 > 1000000 then 1 else 0) % 2 ^ 32 at hseconds
  rw [if_neg (by omega)] at hmicro hseconds
  exact eq_of_toNat (hseconds.trans (Nat.mod_eq_of_lt hlt)) hmicro

namespace SPNHistory

theorem timeAfter_whole (hc : c.microSec.toNat = 0) (hperiod : period.toNat % 1000 = 0) (j : ℕ) :
    (timeAfter period c j).microSec.toNat = 0 ∧
      (timeAfter period c j).seconds.toNat =
        (c.seconds.toNat + j * (period.toNat / 1000)) % 2 ^ 32 := by
  induction j with
  | zero =>
    have hlt := c.seconds.toNat_lt
    exact ⟨hc, by rw [Nat.zero_mul, Nat.add_zero, Nat.mod_eq_of_lt hlt]; rfl⟩
  | succ j ih =>
    obtain ⟨hmicro, hseconds⟩ := TimeStamp.addMillis_whole ih.1 hperiod
    rw [timeAfter_succ']
    refine ⟨hmicro, ?_⟩
    rw [hseconds, ih.2, Nat.mod_add_mul_succ]

theorem timeAfter_wraps (hc : c.microSec.toNat ≤ 1000000)
    (hpart : c.microSec.toNat ≠ 0 ∨ period.toNat % 1000 ≠ 0) (j : ℕ) :
    0 < (timeAfter period c (j + 1)).microSec.toNat ∧
      (timeAfter period c (j + 1)).microSec.toNat ≤ 1000000 ∧
      (timeAfter period c (j + 1)).micros =
        (c.micros + period.toNat * 1000 - 1 + j * (period.toNat * 1000)) % (2 ^ 32 * 1000000) +
          1 := by
  induction j with
  | zero =>
    have hstart : c.micros + period.toNat * 1000 - 1 + 0 * (period.toNat * 1000) =
        c.micros + period.toNat * 1000 - 1 := by
      rw [Nat.zero_mul]
      exact Nat.add_zero _
    have hfirst : timeAfter period c (0 + 1) = c.addMillis period := timeAfter_succ' period c 0
    rw [hstart, hfirst]
    exact TimeStamp.addMillis_wraps hc hpart
  | succ j ih =>
    obtain ⟨hpos, hle, hmicros⟩ := ih
    obtain ⟨hpos', hle', hmicros'⟩ :=
      @TimeStamp.addMillis_wraps _ period hle (Or.inl (by omega))
    rw [timeAfter_succ']
    refine ⟨hpos', hle', ?_⟩
    rw [hmicros', hmicros, Nat.add_right_comm, Nat.add_sub_cancel, Nat.mod_add_mul_succ]

end SPNHistory

end Wrap

/-! ### Times above the end -/

namespace SPNHistory

/-- A time above the end stands at a multiple of the greatest common divisor from the start. The
steps wrap around with the seconds, or with the microseconds when these are not all zero. -/
def PassesEnd (t c : TimeStamp) (period : UInt32) : Prop :=
  if c.microSec.toNat = 0 ∧ period.toNat % 1000 = 0 then
    ∃ x, t.seconds.toNat < x ∧ x < 2 ^ 32 ∧
      x ≡ c.seconds.toNat [MOD (2 ^ 32).gcd (period.toNat / 1000)]
  else
    ∃ v, t.micros < v ∧ v ≤ 2 ^ 32 * 1000000 ∧
      v ≡ c.micros [MOD (2 ^ 32 * 1000000).gcd (period.toNat * 1000)]

section Above

variable {t c : TimeStamp} {period : UInt32}

theorem lt_whole_iff (hc : c.microSec.toNat = 0) : t < c ↔ t.seconds.toNat < c.seconds.toNat := by
  rw [← TimeStamp.lt_iff_lt, TimeStamp.lt_iff]
  omega

/-- Up to a whole second, the order is that of the microseconds. -/
theorem lt_iff_micros_of_le (ht : t.microSec.toNat ≤ 1000000) (hpos : 0 < c.microSec.toNat)
    (hle : c.microSec.toNat ≤ 1000000) : t < c ↔ t.micros < c.micros := by
  rw [← TimeStamp.lt_iff_lt, TimeStamp.lt_iff, TimeStamp.micros, TimeStamp.micros]
  omega

theorem exists_lt_timeAfter_whole (hc : c.microSec.toNat = 0)
    (hperiod : period.toNat % 1000 = 0) :
    (∃ j, t < timeAfter period c j) ↔
      ∃ x, t.seconds.toNat < x ∧ x < 2 ^ 32 ∧
        x ≡ c.seconds.toNat [MOD (2 ^ 32).gcd (period.toNat / 1000)] := by
  constructor
  · rintro ⟨j, hj⟩
    obtain ⟨hmicro, hseconds⟩ := timeAfter_whole hc hperiod j
    have hlt := (timeAfter period c j).seconds.toNat_lt
    exact ⟨_, (lt_whole_iff hmicro).mp hj, hlt,
      (Nat.exists_add_mul_mod_eq_iff hlt).mp ⟨j, hseconds.symm⟩⟩
  · rintro ⟨x, hx, hlt, hmod⟩
    obtain ⟨j, hj⟩ := (Nat.exists_add_mul_mod_eq_iff hlt).mpr hmod
    obtain ⟨hmicro, hseconds⟩ := timeAfter_whole hc hperiod j
    exact ⟨j, (lt_whole_iff hmicro).mpr (by omega)⟩

/-- One step counts as none around the cycle of the microseconds. -/
theorem modEq_pred_iff {g v start step : ℕ} (hv : 0 < v) (hstep : 0 < step) (hdvd : g ∣ step) :
    v - 1 ≡ start + step - 1 [MOD g] ↔ v ≡ start [MOD g] := by
  have hround : start + step ≡ start [MOD g] := by
    simpa using Nat.ModEq.add_left start (Nat.modEq_zero_iff_dvd.mpr hdvd)
  have hback : v - 1 + 1 = v := by omega
  have hback' : start + step - 1 + 1 = start + step := by omega
  constructor
  · intro h
    have hnext := h.add_right 1
    rw [hback, hback'] at hnext
    exact hnext.trans hround
  · intro h
    have hnext := h.trans hround.symm
    rw [← hback, ← hback'] at hnext
    exact Nat.ModEq.add_right_cancel' 1 hnext

theorem exists_lt_timeAfter_wraps (ht : t.microSec.toNat ≤ 1000000)
    (hc : c.microSec.toNat ≤ 1000000) (hle : c ≤ t) (hperiod : 0 < period.toNat)
    (hpart : c.microSec.toNat ≠ 0 ∨ period.toNat % 1000 ≠ 0) :
    (∃ j, t < timeAfter period c j) ↔
      ∃ v, t.micros < v ∧ v ≤ 2 ^ 32 * 1000000 ∧
        v ≡ c.micros [MOD (2 ^ 32 * 1000000).gcd (period.toNat * 1000)] := by
  have hstep : 0 < period.toNat * 1000 := by omega
  have hdvd := Nat.gcd_dvd_right (2 ^ 32 * 1000000) (period.toNat * 1000)
  constructor
  · rintro ⟨j, hj⟩
    cases j with
    | zero => exact absurd hj (not_lt.mpr hle)
    | succ j =>
      obtain ⟨hpos, hbound, hmicros⟩ := timeAfter_wraps hc hpart j
      have hlt : (timeAfter period c (j + 1)).micros - 1 < 2 ^ 32 * 1000000 := by omega
      have hplace := (Nat.exists_add_mul_mod_eq_iff hlt).mp ⟨j, by rw [hmicros, Nat.add_sub_cancel]⟩
      exact ⟨_, (lt_iff_micros_of_le ht hpos hbound).mp hj, by omega,
        (modEq_pred_iff (by omega) hstep hdvd).mp hplace⟩
  · rintro ⟨v, hv, hbound, hmod⟩
    have hlt : v - 1 < 2 ^ 32 * 1000000 := by omega
    obtain ⟨j, hj⟩ := (Nat.exists_add_mul_mod_eq_iff hlt).mpr
      ((modEq_pred_iff (by omega) hstep hdvd).mpr hmod)
    obtain ⟨hpos, hbound', hmicros⟩ := timeAfter_wraps hc hpart j
    exact ⟨j + 1, (lt_iff_micros_of_le ht hpos hbound').mpr (by omega)⟩

/-- Some time is above the end exactly when the steps come to one. -/
theorem exists_lt_timeAfter_iff (ht : t.microSec.toNat ≤ 1000000)
    (hc : c.microSec.toNat ≤ 1000000) (hle : c ≤ t) (hperiod : 0 < period.toNat) :
    (∃ j, t < timeAfter period c j) ↔ PassesEnd t c period := by
  rw [PassesEnd]
  split
  · next hwhole => exact exists_lt_timeAfter_whole hwhole.1 hwhole.2
  · next hpart => exact exists_lt_timeAfter_wraps ht hc hle hperiod (not_and_or.mp hpart)

/-- Without a step no time is above the end. -/
theorem not_lt_timeAfter_zero (hc : c.microSec.toNat ≤ 1000000) (hle : c ≤ t) (j : ℕ) :
    ¬t < timeAfter 0 c j := by
  have hfixed : (fun c : TimeStamp => c.addMillis 0) c = c := TimeStamp.addMillis_zero hc
  have hstay : timeAfter 0 c j = c := Function.iterate_fixed hfixed j
  rw [hstay]
  exact not_lt.mpr hle

end Above

/-- The rounds of the loop end exactly when some time is above the end of the window. -/
theorem exists_ends_windowBody_iff (samples : List Sample) (t : TimeStamp) (period : UInt32)
    (s : WindowState) :
    (∃ window, Loop.Ends (windowBody samples t period) s window) ↔
      ∃ j, t < timeAfter period s.current j := by
  refine Loop.exists_ends_iff (fun s hbefore => ?_) (fun s hafter => ?_) s
  · have hround : s.current.le t = true := TimeStamp.le_iff_le.mpr (not_lt.mp hbefore)
    exact ⟨_, if_pos hround, rfl⟩
  · have hover : ¬s.current.le t = true := by
      rw [TimeStamp.le_iff_le, not_le]
      exact hafter
    exact ⟨_, if_neg hover⟩

/-! ### The end of a window -/

/-- `getWindow` does not divide by zero, and its loop ends. -/
def Terminates (history : SPNHistory) (timeStamp : TimeStamp) (milliseconds samples : UInt32) :
    Prop :=
  ∃ rounds window, history.getWindow timeStamp milliseconds samples rounds = some (.ok window)

section Terminates

variable {history : SPNHistory} {t : TimeStamp} {milliseconds samples : UInt32}

theorem not_terminates_zero (hstored : 2 ≤ history.samples.length) :
    ¬history.Terminates t milliseconds 0 := by
  rintro ⟨rounds, window, hwindow⟩
  rw [getWindow, if_neg (by omega), if_pos rfl] at hwindow
  cases hwindow

/-- With two samples stored the loop is all that matters. -/
theorem terminates_iff_exists (hstored : 2 ≤ history.samples.length) (hsamples : samples ≠ 0) :
    history.Terminates t milliseconds samples ↔
      ∃ j, t < timeAfter (milliseconds / samples) (t.subMillis milliseconds) j := by
  have hrun : ∀ rounds, history.getWindow t milliseconds samples rounds =
      (Loop.run (windowBody history.samples t (milliseconds / samples)) rounds
        ⟨t.subMillis milliseconds, startPos history.samples (t.subMillis milliseconds), []⟩).map
          .ok := by
    intro rounds
    rw [getWindow, if_neg (by omega), if_neg hsamples]
  rw [← exists_ends_windowBody_iff history.samples t (milliseconds / samples)
    ⟨t.subMillis milliseconds, startPos history.samples (t.subMillis milliseconds), []⟩]
  constructor
  · rintro ⟨rounds, window, hwindow⟩
    rw [hrun] at hwindow
    obtain ⟨result, hresult, -⟩ := Option.map_eq_some_iff.mp hwindow
    exact ⟨result, rounds, hresult⟩
  · rintro ⟨window, rounds, hwindow⟩
    exact ⟨rounds, window, by rw [hrun, hwindow, Option.map_some]⟩

theorem microSec_subMillis_le (ht : t.microSec.toNat ≤ 1000000) :
    (t.subMillis milliseconds).microSec.toNat ≤ 1000000 := by
  obtain ⟨-, hbelow⟩ := t.subMillis_le milliseconds
  rw [TimeStamp.Below] at hbelow
  omega

theorem toNat_period : (milliseconds / samples).toNat = milliseconds.toNat / samples.toNat :=
  UInt32.toNat_div ..

/-- More samples than milliseconds leave no step. -/
theorem not_terminates_of_lt (hstored : 2 ≤ history.samples.length)
    (ht : t.microSec.toNat ≤ 1000000) (hlt : milliseconds < samples) :
    ¬history.Terminates t milliseconds samples := by
  have hless := UInt32.lt_iff_toNat_lt.mp hlt
  have hsamples : samples ≠ 0 := by
    rintro rfl
    exact absurd hless (Nat.not_lt_zero _)
  have hperiod : milliseconds / samples = 0 := by
    rw [← UInt32.toNat_inj, toNat_period, Nat.div_eq_of_lt hless]
    rfl
  rw [terminates_iff_exists hstored hsamples, hperiod]
  rintro ⟨j, hj⟩
  exact not_lt_timeAfter_zero (microSec_subMillis_le ht) (t.subMillis_le milliseconds).1 j hj

/-- A step that does not overflow at the end of the window is enough. -/
theorem terminates_of_fits (hpos : samples ≠ 0) (hle : samples ≤ milliseconds)
    (hfits : t.Fits (.ofMillis (milliseconds / samples))) (ht : t.microSec.toNat ≤ 1000000) :
    history.Terminates t milliseconds samples := by
  by_cases hstored : history.samples.length < 2
  · exact ⟨0, [], by rw [getWindow, if_pos hstored]⟩
  · have hpos' : 0 < samples.toNat :=
      Nat.pos_of_ne_zero fun hzero => hpos (UInt32.toNat_inj.mp hzero)
    have hperiod : 0 < (milliseconds / samples).toNat := by
      rw [toNat_period]
      exact Nat.div_pos (UInt32.le_iff_toNat_le.mp hle) hpos'
    obtain ⟨-, hbelow⟩ := t.subMillis_le milliseconds
    obtain ⟨count, -, hend⟩ := exists_end hperiod hfits (by omega) hbelow
    exact (terminates_iff_exists (by omega) hpos).mpr ⟨count, hend⟩

end Terminates

/-- The engine speed changes between two seconds. -/
def engineSpeedCalls : List SampleCall :=
  [⟨⟨1, 0⟩, 0, .numeric { spec := engineSpeed 3, numSpec := engineSpeedSpec, value := 0x1900 }⟩,
    ⟨⟨2, 0⟩, 0, .numeric { spec := engineSpeed 3, numSpec := engineSpeedSpec, value := 0x2EE0 }⟩]

theorem engineSpeed_stored : (recorded engineSpeedCalls).samples.length = 2 := by decide +kernel

end SPNHistory

end J1939
