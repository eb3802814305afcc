import Pacing.System
import Mathlib.Data.List.Sort

/-
Runs on a clock that never goes back, and the time a window has to offer.

Each action that reads the clock carries the value it read; a run has a
non-decreasing clock when these values, after the one the constructor read, are
sorted (`Clocks`).  `Process` notes its clock reading in `time_last_update_`
whenever it runs its first critical section, and refills for
`min(30, elapsed)` ms, the elapsed time `now - time_last_update_` read as an `int`,
so never more than the gap itself.  On a non-decreasing clock these refill
intervals of successive calls do not overlap, so those of the calls made inside a
window `(t0, t1]` add up to at most `t1 - t0`, plus one interval of 30 ms for the
call whose interval began before `t0`.  `windowTime` measures how much of that
allowance the calls up to a given `time_last_update_` have taken, and
`deltaAt_le_windowTime` is the one fact about it that the window bounds use.
-/

namespace Pacing

open PacedSender

variable {cfg : Config}

/-! ### A clock that never goes back -/

/-- The clock value a run has read last, after action `a`. -/
def Action.clockAfter (a : Action) (τ : Int) : Int := a.clock?.getD τ

/-- The clock values the actions read, starting from `τ`, never decrease. -/
def Clocks (τ : Int) (acts : List Action) : Prop := (τ :: acts.filterMap Action.clock?).Sorted (· ≤ ·)

instance (τ : Int) (acts : List Action) : Decidable (Clocks τ acts) :=
  inferInstanceAs (Decidable (List.Sorted _ _))

theorem Clocks.cons {τ : Int} {a : Action} {acts : List Action} (h : Clocks τ (a :: acts)) :
    τ ≤ a.clockAfter τ ∧ Clocks (a.clockAfter τ) acts := by
  unfold Clocks Action.clockAfter at *
  cases hc : a.clock? with
  | none => simpa [List.filterMap_cons_none hc] using h
  | some c =>
    rw [List.filterMap_cons_some hc] at h
    exact ⟨(List.sorted_cons.mp h).1 c (by simp), (List.sorted_cons.mp h).2⟩

/-- Only a `Process` call that finds the driver idle notes the clock. -/
theorem step_timeLastUpdate (s : PacedSender) (a : Action) :
    (step cfg s a).1.timeLastUpdate = s.timeLastUpdate ∨
      ∃ now, a = .process now ∧ s.phase = .idle ∧ (step cfg s a).1.timeLastUpdate = now := by
  cases a with
  | process now =>
    rcases step_process_cases s now with ⟨hi, -, hs⟩ | ⟨hi, -, hs⟩ | ⟨-, hs⟩ <;> rw [hs]
    · exact .inr ⟨now, rfl, hi, by simp [refilled]⟩
    · exact .inr ⟨now, rfl, hi, rfl⟩
    · exact .inl rfl
  | packetSent clock =>
    rcases step_packetSent_cases s clock with ⟨now, d, -, hs⟩ | ⟨-, hs⟩ <;> rw [hs]
    · exact .inl (processLoop_timeLastUpdate s now d clock)
    · exact .inl rfl
  | paddingSent n =>
    rcases step_paddingSent_cases s n with ⟨-, -, -, -, hs⟩ | ⟨-, hs⟩ <;> rw [hs] <;> exact .inl rfl
  | sendPacket | setStatus | pause | resume | updateBitrate => simp [Pacing.step]

/-- The clock `Process` noted last is never ahead of the clock read last. -/
theorem timeLastUpdate_le_clockAfter {s : PacedSender} {τ : Int} (hL : s.timeLastUpdate ≤ τ)
    {a : Action} (hτ : τ ≤ a.clockAfter τ) : (step cfg s a).1.timeLastUpdate ≤ a.clockAfter τ := by
  rcases @step_timeLastUpdate cfg s a with h | ⟨now, rfl, -, h⟩
  · omega
  · simp [h, Action.clockAfter, Action.clock?]

/-! ### The time a window offers -/

/-- How much of the refill time of the window `(t0, t1]` the `Process` calls up to one that
noted `L` have had: the part of the window up to `L`, and one interval of 30 ms for the call
whose interval began before `t0`. -/
def windowTime (t0 t1 L : Int) : Int := if t0 < L then min L t1 - t0 + kMaxIntervalTimeMs else 0

section window

variable {t0 t1 : Int}

theorem windowTime_nonneg (ht : t0 ≤ t1) (L : Int) : 0 ≤ windowTime t0 t1 L := by
  unfold windowTime kMaxIntervalTimeMs; split_ifs <;> omega

theorem windowTime_le (ht : t0 ≤ t1) (L : Int) :
    windowTime t0 t1 L ≤ t1 - t0 + kMaxIntervalTimeMs := by
  unfold windowTime kMaxIntervalTimeMs; split_ifs <;> omega

theorem windowTime_mono (ht : t0 ≤ t1) {L L' : Int} (h : L ≤ L') : windowTime t0 t1 L ≤ windowTime t0 t1 L' := by
  unfold windowTime kMaxIntervalTimeMs; split_ifs <;> omega

/-- The refill interval of a `Process` call made inside the window is time the window has to
offer and the calls before it have not had. -/
theorem deltaAt_le_windowTime {s : PacedSender} {now : Int} (hL : s.timeLastUpdate ≤ now)
    (h₀ : t0 < now) (h₁ : now ≤ t1) :
    s.deltaAt now ≤ windowTime t0 t1 now - windowTime t0 t1 s.timeLastUpdate := by
  -- the `int` elapsed time never exceeds the gap itself
  have := toInt32_le (show -2 ^ 31 ≤ now - s.timeLastUpdate by omega)
  unfold deltaAt windowTime kMaxIntervalTimeMs; split_ifs <;> omega

end window

end Pacing
