import Pacing.Window

/-
The padding cap.

`Process` asks for padding once its loop finds every band empty, for the lower of
what the padding budget (a fixed 800 kbps) and the pad-up-to budget hold; both
were refilled at the start of the call for its interval `d` of at most 30 ms, and
since then only media debits of non-negative size have touched the pad-up-to
budget.  So one request is at most `min(800, Q) * d / 8` bytes (`PadCapped`), and
as the intervals of the calls made in a window `(t0, t1]` add up to at most
`t1 - t0 + 30`, the padding those calls report adds up to at most
`min(800, Q) * (t1 - t0 + 30) / 8`.  The sum is carried through the run as a
potential: eight times the padding reported so far, plus what a call in progress
may still ask for (`paddingReserve`), never exceeds the rate times the window time
the calls so far have had (`padding_step_potential`).

The assumptions are those of the spec's data model: rates and packet sizes are
non-negative.  A negative pad-up-to rate gives the pad-up-to budget a positive
debt floor, and a negative packet size credits it, and either lets it exceed one
refill.
-/

namespace Pacing

open PacedSender IntervalBudget

variable {cfg : Config}

/-! ### Requests and returns -/

/-- `TimeToSendPadding` returned between 0 and the bytes it was asked for. -/
def paddingReturnOk (s : PacedSender) (a : Action) : Bool :=
  match a, s.phase with
  | .paddingSent n, .sendingPadding _ _ need => decide (0 ≤ n ∧ n ≤ need)
  | _, _ => true

/-- The padding bytes a step reports back to a `Process` call made inside `(t0, t1]`. -/
def paddingIn (t0 t1 : Int) (s : PacedSender) (a : Action) : Int :=
  match a, s.phase with
  | .paddingSent n, .sendingPadding now _ _ => if t0 < now ∧ now ≤ t1 then n else 0
  | _, _ => 0

/-- A turn of the loop asks for padding only with every band empty, and for the lower of the two
padding budgets. -/
theorem processLoop_timeToSendPadding {t : PacedSender} {now d clock need : Int}
    (h : (t.processLoop now d clock).2 = .timeToSendPadding need) :
    (∀ q, (t.packets q).packetList = []) ∧
      (t.processLoop now d clock).1.phase = .sendingPadding now d need ∧
      need = min t.paddingBudget.bytesRemaining t.padUpToBitrateBudget.bytesRemaining := by
  cases hn : t.nextPriority clock with
  | none =>
    rw [processLoop_of_none hn] at h ⊢
    split_ifs at h ⊢ with hc
    cases h
    exact ⟨fun q => by cases q <;> simp [hc], rfl, rfl⟩
  | some p =>
    obtain ⟨v, hv⟩ := @processLoop_of_some t now d clock p hn
    simp [hv] at h

/-- Every request for padding comes from a turn of `Process`'s loop that found every band empty,
and leaves its frame waiting for the answer. -/
theorem step_timeToSendPadding {s : PacedSender} {a : Action} {need : Int}
    (h : (step cfg s a).2 = .timeToSendPadding need) :
    (∀ q, (s.packets q).packetList = []) ∧ ∃ now d, (step cfg s a).1.phase = .sendingPadding now d need := by
  cases a with
  | process now =>
    rcases step_process_cases s now with ⟨-, -, hs⟩ | ⟨-, -, hs⟩ | ⟨-, hs⟩ <;> rw [hs] at h ⊢
    · have := processLoop_timeToSendPadding h
      exact ⟨by simpa using this.1, _, _, this.2.1⟩
    all_goals cases h
  | packetSent clock =>
    rcases step_packetSent_cases s clock with ⟨now, d, -, hs⟩ | ⟨-, hs⟩ <;> rw [hs] at h ⊢
    · exact ⟨(processLoop_timeToSendPadding h).1, _, _, (processLoop_timeToSendPadding h).2.1⟩
    · cases h
  | paddingSent n => simp [(step_paddingSent s n).2] at h
  | sendPacket | setStatus | pause | resume | updateBitrate => simp [Pacing.step] at h

/-! ### Each request is at most one refill -/

section capped

variable {Q : Int}

/-- Both padding budgets hold at most one refill of `d` ms, at 800 kbps and at `Q`. -/
def PacedSender.PadWithin (Q d : Int) (s : PacedSender) : Prop :=
  0 < d ∧ d ≤ kMaxIntervalTimeMs ∧ 8 * s.paddingBudget.bytesRemaining ≤ kMaxPaddingKbps * d ∧
    8 * s.padUpToBitrateBudget.bytesRemaining ≤ Q * d

/-- The state of a run whose pad-up-to rates lie in `[0, Q]`. -/
structure PacedSender.PadCapped (Q : Int) (s : PacedSender) : Prop where
  padding_rate : s.paddingBudget.targetRateKbps = kMaxPaddingKbps
  padUpTo_rate_nonneg : 0 ≤ s.padUpToBitrateBudget.targetRateKbps
  padUpTo_rate_le : s.padUpToBitrateBudget.targetRateKbps ≤ Q
  /-- While a `Process` call waits on `TimeToSendPacket`, both budgets hold at most its refill. -/
  sending : ∀ now d, s.phase = .sendingPacket now d → s.PadWithin Q d
  /-- A request for padding is at most one refill of its call at the lower of the two rates. -/
  padding : ∀ now d need, s.phase = .sendingPadding now d need →
    0 < d ∧ d ≤ kMaxIntervalTimeMs ∧ 8 * need ≤ min kMaxPaddingKbps Q * d

theorem padCapped_new (cfg : Config) (target now : Int) (hQ : 0 ≤ Q) :
    (PacedSender.new cfg target now).PadCapped Q :=
  ⟨rfl, le_rfl, hQ, fun _ _ h => by simp [PacedSender.new] at h,
    fun _ _ _ h => by simp [PacedSender.new] at h⟩

/-- A state with the padding budgets and phase of a capped one is capped. -/
theorem PacedSender.PadCapped.of_frame {s t : PacedSender} (h : s.PadCapped Q)
    (hp : t.paddingBudget = s.paddingBudget) (hu : t.padUpToBitrateBudget = s.padUpToBitrateBudget)
    (hph : t.phase = s.phase) : t.PadCapped Q where
  padding_rate := hp ▸ h.padding_rate
  padUpTo_rate_nonneg := hu ▸ h.padUpTo_rate_nonneg
  padUpTo_rate_le := hu ▸ h.padUpTo_rate_le
  sending now d hs := by
    obtain ⟨h₁, h₂, h₃, h₄⟩ := h.sending now d (hph ▸ hs)
    exact ⟨h₁, h₂, hp ▸ h₃, hu ▸ h₄⟩
  padding now d need hs := h.padding now d need (hph ▸ hs)

/-- A capped state that no `Process` call is in, with new padding budgets of the same rates. -/
theorem PacedSender.PadCapped.of_idle {s t : PacedSender} (h : s.PadCapped Q) (hph : t.phase = .idle)
    (hp : t.paddingBudget.targetRateKbps = s.paddingBudget.targetRateKbps)
    (hu : t.padUpToBitrateBudget.targetRateKbps = s.padUpToBitrateBudget.targetRateKbps) :
    t.PadCapped Q :=
  ⟨hp ▸ h.padding_rate, hu ▸ h.padUpTo_rate_nonneg, hu ▸ h.padUpTo_rate_le,
    fun _ _ hs => by simp [hph] at hs, fun _ _ _ hs => by simp [hph] at hs⟩

/-- A media debit of non-negative size keeps the pad-up-to budget within one refill. -/
theorem PacedSender.PadWithin.useBudget {s t : PacedSender} {d n : Int} (h : s.PadWithin Q d)
    (hr : 0 ≤ s.padUpToBitrateBudget.targetRateKbps) (hn : 0 ≤ n) (hQ : 0 ≤ Q)
    (hp : t.paddingBudget = s.paddingBudget)
    (hu : t.padUpToBitrateBudget = s.padUpToBitrateBudget.useBudget n) : t.PadWithin Q d := by
  obtain ⟨h₁, h₂, h₃, h₄⟩ := h
  have := s.padUpToBitrateBudget.useBudget_le hr hn
  have : 0 ≤ Q * d := Int.mul_nonneg hQ h₁.le
  refine ⟨h₁, h₂, hp ▸ h₃, ?_⟩
  rw [hu]; omega

/-- The refill at the start of a `Process` call leaves both padding budgets within it. -/
theorem PacedSender.PadCapped.refilled {s : PacedSender} (h : s.PadCapped Q) {now : Int}
    (hr : s.Runs now) : (s.refilled now).PadWithin Q (s.deltaAt now) := by
  have hd := deltaAt_pos hr
  have h₁ := eight_mul_credit_le (r := kMaxPaddingKbps) (by decide) hd.le
  have h₂ := credit_mono h.padUpTo_rate_nonneg h.padUpTo_rate_le hd.le (le_refl (s.deltaAt now))
  have h₃ := eight_mul_credit_le (h.padUpTo_rate_nonneg.trans h.padUpTo_rate_le) hd.le
  refine ⟨hd, deltaAt_le s now, ?_, ?_⟩ <;> simp only [PacedSender.refilled, updateBytesPerInterval,
    increaseBudget_bytesRemaining, h.padding_rate] <;> omega

/-- A turn of `Process`'s loop in a call that refilled for `d` ms keeps the state capped. -/
theorem padCapped_processLoop {t : PacedSender} {d : Int} (h : t.PadCapped Q)
    (hb : t.BandsAll (0 ≤ ·.bytes)) (hw : t.PadWithin Q d) (now clock : Int) :
    (t.processLoop now d clock).1.PadCapped Q := by
  have hQ : 0 ≤ Q := h.padUpTo_rate_nonneg.trans h.padUpTo_rate_le
  obtain ⟨hd, hd', hpad, hup⟩ := hw
  cases hn : t.nextPriority clock with
  | none =>
    rw [processLoop_of_none hn]
    split_ifs
    · refine ⟨h.padding_rate, h.padUpTo_rate_nonneg, h.padUpTo_rate_le, fun _ _ hs => by simp at hs, ?_⟩
      rintro _ _ _ ⟨⟩
      rw [min_mul_of_nonneg _ _ hd.le]
      exact ⟨hd, hd', by omega⟩
    · exact h.of_idle rfl rfl rfl
  | some p =>
    obtain ⟨v, hv⟩ := @processLoop_of_some t now d clock p hn
    have hf : 0 ≤ (t.packets p).front.bytes := hb p _ (PacketList.front_mem (nextPriority_some hn).1)
    rw [hv]
    refine ⟨h.padding_rate, h.padUpTo_rate_nonneg, h.padUpTo_rate_le, ?_, fun _ _ _ hs => by simp at hs⟩
    rintro _ _ ⟨⟩
    exact PadWithin.useBudget ⟨hd, hd', hpad, hup⟩ h.padUpTo_rate_nonneg hf hQ rfl rfl

/-- One step keeps the state capped, when an `UpdateBitrate` sets a pad-up-to rate in `[0, Q]`
and a `SendPacket` a non-negative size. -/
theorem padCapped_step {s : PacedSender} (h : s.PadCapped Q) (hb : s.BandsAll (0 ≤ ·.bytes))
    {a : Action} (hrate : ∀ t p, a = .updateBitrate t p → 0 ≤ p ∧ p ≤ Q)
    (hsize : ∀ p ssrc seq cap bytes now, a = .sendPacket p ssrc seq cap bytes now → 0 ≤ bytes) :
    (step cfg s a).1.PadCapped Q := by
  have hQ : 0 ≤ Q := h.padUpTo_rate_nonneg.trans h.padUpTo_rate_le
  cases a with
  | setStatus | pause | resume => exact h.of_frame rfl rfl rfl
  | updateBitrate t p => exact ⟨h.padding_rate, (hrate t p rfl).1, (hrate t p rfl).2, h.sending, h.padding⟩
  | sendPacket p ssrc seq cap bytes now =>
    rcases sendPacket_cases s p ssrc seq cap bytes now with ⟨hs, -⟩ | ⟨-, -, v, hs⟩ <;>
      simp only [Pacing.step, hs]
    · exact ⟨h.padding_rate, h.padUpTo_rate_nonneg, h.padUpTo_rate_le, fun now' d hs' =>
        (h.sending now' d hs').useBudget h.padUpTo_rate_nonneg (hsize _ _ _ _ _ _ rfl) hQ rfl rfl,
        h.padding⟩
    · exact h.of_frame rfl rfl rfl
  | process now =>
    rcases step_process_cases s now with ⟨hi, hr, hs⟩ | ⟨-, -, hs⟩ | ⟨-, hs⟩ <;> rw [hs]
    · exact padCapped_processLoop (t := s.refilled now) (h.of_idle (by simp [refilled, hi])
        (by simp [refilled]) (by simp [refilled])) hb (h.refilled hr) _ _
    · exact h.of_frame rfl rfl rfl
    · exact h
  | packetSent clock =>
    rcases step_packetSent_cases s clock with ⟨now, d, hph, hs⟩ | ⟨-, hs⟩ <;> rw [hs]
    · exact padCapped_processLoop h hb (h.sending now d hph) _ _
    · exact h
  | paddingSent n =>
    rcases step_paddingSent_cases s n with ⟨-, -, -, -, hs⟩ | ⟨-, hs⟩ <;> rw [hs]
    · exact h.of_idle rfl (by simp [paddingSent]) (by simp [paddingSent])
    · exact h

end capped

/-! ### The padding of a window -/

section window

variable {Q t0 t1 : Int}

/-- What a `Process` call in progress that was made inside `(t0, t1]` may still ask for: one
refill of its interval at rate `R`, in eighths of a byte. -/
def paddingReserve (R t0 t1 : Int) (s : PacedSender) : Int :=
  match s.phase with
  | .idle => 0
  | .sendingPacket now d => if t0 < now ∧ now ≤ t1 then R * d else 0
  | .sendingPadding now d _ => if t0 < now ∧ now ≤ t1 then R * d else 0

/-- A turn of the loop leaves the call's reserve in place or ends it. -/
theorem paddingReserve_processLoop {R d : Int} (hR : 0 ≤ R * d) (t0 t1 : Int) (t : PacedSender)
    (now clock : Int) :
    paddingReserve R t0 t1 (t.processLoop now d clock).1 ≤ if t0 < now ∧ now ≤ t1 then R * d else 0 := by
  rcases processLoop_phase t now d clock with h | ⟨need, h⟩ | h <;>
    simp only [paddingReserve, h, le_refl]
  all_goals split_ifs <;> omega

/-- **One step of the padding potential.**  Eight times the padding a step reports to a call made
inside the window, plus the reserve after the step, is at most the reserve before it plus what
the step adds to the window time the calls have had, at the rate `min(800, Q)`. -/
theorem padding_step_potential {s : PacedSender} (h : s.PadCapped Q) (ht : t0 ≤ t1) {a : Action}
    (hok : paddingReturnOk s a = true) (hL : ∀ now, a = .process now → s.timeLastUpdate ≤ now) :
    8 * paddingIn t0 t1 s a + paddingReserve (min kMaxPaddingKbps Q) t0 t1 (step cfg s a).1 +
        min kMaxPaddingKbps Q * windowTime t0 t1 s.timeLastUpdate ≤
      min kMaxPaddingKbps Q * windowTime t0 t1 (step cfg s a).1.timeLastUpdate +
        paddingReserve (min kMaxPaddingKbps Q) t0 t1 s := by
  set R := min kMaxPaddingKbps Q
  have hR : 0 ≤ R := le_min (by decide) (h.padUpTo_rate_nonneg.trans h.padUpTo_rate_le)
  have hmono : ∀ {L L' : Int}, L ≤ L' → R * windowTime t0 t1 L ≤ R * windowTime t0 t1 L' :=
    fun hl => mul_le_mul_of_nonneg_left (windowTime_mono ht hl) hR
  cases a with
  | process now =>
    have hin : paddingIn t0 t1 s (.process now) = 0 := rfl
    rw [hin]
    rcases step_process_cases s now with ⟨hi, hr, hs⟩ | ⟨hi, -, hs⟩ | ⟨-, hs⟩ <;> rw [hs]
    · -- the call refills for `deltaAt` and reserves that much if it is inside the window
      have h0 : paddingReserve R t0 t1 s = 0 := by simp [paddingReserve, hi]
      have hres := paddingReserve_processLoop (Int.mul_nonneg hR (deltaAt_pos hr).le) t0 t1
        (s.refilled now) now now
      rw [h0]
      simp only [processLoop_timeLastUpdate, refilled, updateBytesPerInterval] at hres ⊢
      split_ifs at hres with hw
      · have := mul_le_mul_of_nonneg_left (deltaAt_le_windowTime (hL now rfl) hw.1 hw.2) hR
        rw [mul_sub] at this; omega
      · have := hmono (hL now rfl); omega
    · simpa [paddingReserve, hi] using hmono (hL now rfl)
    · dsimp only; omega
  | packetSent clock =>
    have hin : paddingIn t0 t1 s (.packetSent clock) = 0 := rfl
    rw [hin]
    rcases step_packetSent_cases s clock with ⟨now, d, hph, hs⟩ | ⟨-, hs⟩ <;> rw [hs]
    · have hres := paddingReserve_processLoop (Int.mul_nonneg hR (h.sending now d hph).1.le) t0 t1
        s now clock
      have h0 : paddingReserve R t0 t1 s = if t0 < now ∧ now ≤ t1 then R * d else 0 := by
        simp [paddingReserve, hph]
      rw [processLoop_timeLastUpdate, h0]; omega
    · dsimp only; omega
  | paddingSent n =>
    cases hph : s.phase with
    | sendingPadding now d need =>
      -- the call reports at most what it asked for, and asked for at most its reserve
      have hn : 0 ≤ n ∧ n ≤ need := by simpa [paddingReturnOk, hph] using hok
      have hneed : 8 * need ≤ R * d := (h.padding now d need hph).2.2
      rw [step_paddingSent_of_padding hph]
      simp only [paddingIn, paddingReserve, hph, PacedSender.paddingSent]
      split_ifs <;> omega
    | idle | sendingPacket =>
      rw [step_paddingSent_of_not_padding (by simp [hph])]
      simp only [paddingIn, hph]; omega
  | sendPacket p ssrc seq cap bytes now =>
    simp only [paddingIn, paddingReserve, Pacing.step, sendPacket_phase, sendPacket_timeLastUpdate]
    omega
  | setStatus | pause | resume | updateBitrate =>
    simp only [paddingIn, paddingReserve, Pacing.step, setStatus, pause, resume, updateBitrate]
    omega

theorem paddingReserve_nonneg {s : PacedSender} (h : s.PadCapped Q) (t0 t1 : Int) :
    0 ≤ paddingReserve (min kMaxPaddingKbps Q) t0 t1 s := by
  have hR : 0 ≤ min kMaxPaddingKbps Q := le_min (by decide) (h.padUpTo_rate_nonneg.trans h.padUpTo_rate_le)
  unfold paddingReserve
  split
  · exact le_rfl
  · rename_i now d hs; have := Int.mul_nonneg hR (h.sending now d hs).1.le; split_ifs <;> omega
  · rename_i now d need hs; have := Int.mul_nonneg hR (h.padding now d need hs).1.le
    split_ifs <;> omega

/-- **The padding potential over a run**, by induction from `padding_step_potential`. -/
theorem padding_run_potential {s : PacedSender} {τ : Int} {acts : List Action} (ht : t0 ≤ t1)
    (h : s.PadCapped Q) (hb : s.BandsAll (0 ≤ ·.bytes)) (hL : s.timeLastUpdate ≤ τ)
    (hc : Clocks τ acts) (hrates : ∀ t p, .updateBitrate t p ∈ acts → 0 ≤ p ∧ p ≤ Q)
    (hsizes : ∀ p ssrc seq cap bytes now, .sendPacket p ssrc seq cap bytes now ∈ acts → 0 ≤ bytes)
    (hok : ∀ x ∈ trace cfg s acts, paddingReturnOk x.1 x.2.1 = true) :
    8 * ((trace cfg s acts).map fun x => paddingIn t0 t1 x.1 x.2.1).sum +
        paddingReserve (min kMaxPaddingKbps Q) t0 t1 (run cfg s acts) +
        min kMaxPaddingKbps Q * windowTime t0 t1 s.timeLastUpdate ≤
      min kMaxPaddingKbps Q * windowTime t0 t1 (run cfg s acts).timeLastUpdate +
        paddingReserve (min kMaxPaddingKbps Q) t0 t1 s := by
  induction acts generalizing s τ with
  | nil => simp only [trace_nil, List.map_nil, List.sum_nil, run_nil]; omega
  | cons a acts ih =>
    obtain ⟨hτ, hc'⟩ := hc.cons
    have hstep := @padding_step_potential cfg Q t0 t1 s h ht a (hok _ (List.mem_cons_self _ _))
      fun now ha => by subst ha; exact hL.trans hτ
    have hrest := ih (padCapped_step h hb (fun t p ha => hrates t p (ha ▸ List.mem_cons_self _ _))
        fun p ssrc seq cap bytes now ha => hsizes p ssrc seq cap bytes now (ha ▸ List.mem_cons_self _ _))
      (bandsAll_step hb fun p ssrc seq cap bytes now ha =>
        hsizes p ssrc seq cap bytes now (ha ▸ List.mem_cons_self _ _))
      (timeLastUpdate_le_clockAfter hL hτ) hc'
      (fun t p hm => hrates t p (List.mem_cons_of_mem _ hm))
      (fun p ssrc seq cap bytes now hm => hsizes p ssrc seq cap bytes now (List.mem_cons_of_mem _ hm))
      (fun x hx => hok x (List.mem_cons_of_mem _ hx))
    simp only [trace_cons, List.map_cons, List.sum_cons, run_cons] at hrest ⊢
    omega

end window

/-! ### The padding cap -/

/-- **Padding is asked for only with the bands empty, at most one refill of the call at the lower
of 800 kbps and `Q`, and a window `(t0, t1]` gets at most `min(800, Q) * (t1 - t0 + 30) / 8`
bytes of it.**  In a run from construction on a non-decreasing clock, with pad-up-to rates in
`[0, Q]`, non-negative packet sizes, and every `TimeToSendPadding` returning between 0 and the
bytes asked for.  `d` is the call's refill interval, `min(elapsed, 30)`. -/
theorem padding_rate_capped (cfg : Config) (target now : Int) (acts : List Action) (Q t0 t1 : Int)
    (hQ : 0 ≤ Q) (ht : t0 ≤ t1) (hclock : Clocks now acts)
    (hrates : ∀ t p, .updateBitrate t p ∈ acts → 0 ≤ p ∧ p ≤ Q)
    (hsizes : ∀ p ssrc seq cap bytes clock, .sendPacket p ssrc seq cap bytes clock ∈ acts → 0 ≤ bytes)
    (hreturn : ∀ x ∈ trace cfg (PacedSender.new cfg target now) acts, paddingReturnOk x.1 x.2.1 = true) :
    (∀ x ∈ trace cfg (PacedSender.new cfg target now) acts, ∀ need,
      x.2.2 = .timeToSendPadding need → (∀ q, (x.1.packets q).packetList = []) ∧
        ∃ call d, (step cfg x.1 x.2.1).1.phase = .sendingPadding call d need ∧ 0 < d ∧
          d ≤ kMaxIntervalTimeMs ∧ need ≤ min kMaxPaddingKbps Q * d / 8) ∧
    ((trace cfg (PacedSender.new cfg target now) acts).map fun x => paddingIn t0 t1 x.1 x.2.1).sum ≤
      min kMaxPaddingKbps Q * (t1 - t0 + kMaxIntervalTimeMs) / 8 := by
  have h0 : (PacedSender.new cfg target now).PadCapped Q ∧
      (PacedSender.new cfg target now).BandsAll (0 ≤ ·.bytes) :=
    ⟨padCapped_new cfg target now hQ, fun _ _ h => by simp [PacedSender.new] at h⟩
  have hstep : ∀ t a, a ∈ acts → t.PadCapped Q ∧ t.BandsAll (0 ≤ ·.bytes) →
      (step cfg t a).1.PadCapped Q ∧ (step cfg t a).1.BandsAll (0 ≤ ·.bytes) :=
    fun t a ha ht => ⟨padCapped_step ht.1 ht.2 (fun t p he => hrates t p (he ▸ ha))
      fun p ssrc seq cap bytes clock he => hsizes p ssrc seq cap bytes clock (he ▸ ha),
      bandsAll_step ht.2 fun p ssrc seq cap bytes clock he => hsizes p ssrc seq cap bytes clock (he ▸ ha)⟩
  refine ⟨fun x hx need hout => ?_, ?_⟩
  · -- one request: the frame of its call bounds it
    obtain ⟨pre, post, hacts, -, hout'⟩ := mem_trace hx
    obtain ⟨hempty, call, d, hph⟩ := step_timeToSendPadding (hout' ▸ hout)
    have hinv := trace_invariant h0 hstep x hx
    obtain ⟨hd, hd', hneed⟩ := (hstep x.1 x.2.1 (by simp [hacts]) hinv).1.padding call d need hph
    exact ⟨hempty, call, d, hph, hd, hd', by omega⟩
  · -- the window: the potential starts at zero and ends within the window's time
    have hR : 0 ≤ min kMaxPaddingKbps Q := le_min (by decide) hQ
    have hrun := padding_run_potential ht h0.1 h0.2 (le_refl now) hclock hrates hsizes hreturn
    have hres := paddingReserve_nonneg (run_invariant h0 hstep).1 t0 t1
    have hnew : paddingReserve (min kMaxPaddingKbps Q) t0 t1 (PacedSender.new cfg target now) = 0 := rfl
    have h₁ := Int.mul_nonneg hR (windowTime_nonneg ht (PacedSender.new cfg target now).timeLastUpdate)
    have h₂ := mul_le_mul_of_nonneg_left
      (windowTime_le ht (run cfg (PacedSender.new cfg target now) acts).timeLastUpdate) hR
    omega

/-- The cap at a run that sets a pad-up-to rate of 100 kbps, asks for padding once and is sent
50 bytes. -/
theorem padding_rate_capped_example :
    ((trace ⟨id⟩ (PacedSender.new ⟨id⟩ 0 0) [.updateBitrate 0 100, .process 10, .paddingSent 50]).map
        fun x => paddingIn 0 10 x.1 x.2.1).sum ≤
      min kMaxPaddingKbps 100 * (10 - 0 + kMaxIntervalTimeMs) / 8 :=
  (padding_rate_capped ⟨id⟩ 0 0 _ 100 0 10 (by decide) (by decide) (by decide) (by simp) (by simp)
    (by decide)).2

end Pacing
