import Pacing.Window

/-
The media rate over a window.

The media budget is a token bucket: every packet the pacer lets onto the wire,
whether `SendPacket` returns `true` for it or `Process` hands it to
`TimeToSendPacket`, is debited from it, and it is refilled only at the start of a
`Process` call that runs, for `min(elapsed, 30)` ms at its rate `R`.  When every
release happens while the budget is positive (the fast path checks that, and the
starvation override is assumed not to release) and no packet is larger than the
debt floor `100 * R / 8`, a debit is exact and the budget never drops below
`-S_max`, nor rises above one refill of 30 ms.  Then the budget is a ledger
(`media_step`): eight times what a step releases, plus eight times the budget
after it, is at most eight times the budget before it plus `R` times the step's
refill interval.

Over a window `(t0, t1]` the refill intervals add up to at most `t1 - t0 + 30`
(`windowTime`), the budget holds at most one refill of 30 ms when the window
opens, and at least `-S_max` when it closes; so the window releases at most
`R * (t1 - t0 + 60) / 8 + S_max` bytes.  The run is followed with the last clock
value read, which says whether the window has not opened yet, is open, or has
closed (`MediaWindow`).
-/

namespace Pacing

open PacedSender IntervalBudget

variable {cfg : Config}

/-! ### Releases -/

/-- The bytes a step lets onto the wire: a packet `SendPacket` lets through, or one `Process`
hands to `TimeToSendPacket`. -/
def releasedBytes : Action → Output → Int
  | .sendPacket _ _ _ _ bytes _, .sendPacket true => bytes
  | _, .timeToSendPacket _ packet => packet.bytes
  | _, _ => 0

/-- The bytes a step lets onto the wire at a clock reading in `(t0, t1]`. -/
def releasedIn (t0 t1 : Int) (a : Action) (o : Output) : Int :=
  match a.clock? with
  | some c => if t0 < c ∧ c ≤ t1 then releasedBytes a o else 0
  | none => 0

/-- The largest packet size passed to `SendPacket` in a run, or 0. -/
def maxPacketBytes : List Action → Int
  | [] => 0
  | .sendPacket _ _ _ _ bytes _ :: acts => max bytes (maxPacketBytes acts)
  | _ :: acts => maxPacketBytes acts

/-- The step's `GetNextPacket` call, if it makes one, finds the media budget spent and still
releases a packet: the starvation override. -/
def overrideReleases (s : PacedSender) : Action → Bool
  | .process now =>
    decide (s.phase = .idle ∧ s.Runs now ∧ (s.refilled now).mediaBudget.bytesRemaining ≤ 0 ∧
      (s.refilled now).nextPriority now ≠ none)
  | .packetSent clock =>
    match s.phase with
    | .sendingPacket _ _ => decide (s.mediaBudget.bytesRemaining ≤ 0 ∧ s.nextPriority clock ≠ none)
    | _ => false
  | _ => false

/-- The interval a step refills the budgets for: that of a `Process` call that runs. -/
def refillInterval (s : PacedSender) : Action → Int
  | .process now => if s.phase = .idle ∧ s.Runs now then s.deltaAt now else 0
  | _ => 0

theorem maxPacketBytes_nonneg (acts : List Action) : 0 ≤ maxPacketBytes acts := by
  induction acts with
  | nil => exact le_rfl
  | cons a acts ih => cases a <;> simp only [maxPacketBytes] <;> omega

theorem le_maxPacketBytes {acts : List Action} {p : Priority} {ssrc : UInt32} {seq : UInt16}
    {cap bytes clock : Int} (h : .sendPacket p ssrc seq cap bytes clock ∈ acts) :
    bytes ≤ maxPacketBytes acts := by
  induction acts with
  | nil => simp at h
  | cons a acts ih =>
    rcases List.mem_cons.mp h with rfl | hm
    · simp only [maxPacketBytes]; omega
    · have := ih hm
      cases a <;> simp only [maxPacketBytes] <;> omega

theorem maxPacketBytes_le {acts : List Action} {B : Int} (hB : 0 ≤ B)
    (h : ∀ p ssrc seq cap bytes clock, .sendPacket p ssrc seq cap bytes clock ∈ acts → bytes ≤ B) :
    maxPacketBytes acts ≤ B := by
  induction acts with
  | nil => exact hB
  | cons a acts ih =>
    have ih := ih fun p ssrc seq cap bytes clock hm => h p ssrc seq cap bytes clock
      (List.mem_cons_of_mem _ hm)
    cases a with
    | sendPacket p ssrc seq cap bytes clock =>
      simp only [maxPacketBytes]; have := h p ssrc seq cap bytes clock (List.mem_cons_self _ _); omega
    | _ => exact ih

@[simp] theorem releasedBytes_timeToSendPacket (a : Action) (p : Priority) (pkt : Packet) :
    releasedBytes a (.timeToSendPacket p pkt) = pkt.bytes := by
  cases a <;> rfl

@[simp] theorem releasedBytes_none (a : Action) : releasedBytes a .none = 0 := by
  cases a <;> rfl

/-! ### The media budget as a ledger -/

section ledger

variable {R S : Int}

/-- The state of a run at media rate `R` and pad-up-to rate 0, in which no packet is larger than
`S`. -/
structure PacedSender.MediaCapped (R S : Int) (s : PacedSender) : Prop where
  rate : s.mediaBudget.targetRateKbps = R
  padUpTo_rate : s.padUpToBitrateBudget.targetRateKbps = 0
  /-- The pad-up-to budget is never positive, so `Process` never asks for padding. -/
  padUpTo_nonpos : s.padUpToBitrateBudget.bytesRemaining ≤ 0
  not_padding : ∀ now d need, s.phase ≠ .sendingPadding now d need
  /-- The budget owes less than one packet ... -/
  lower : -S ≤ s.mediaBudget.bytesRemaining
  /-- ... and holds at most one refill of 30 ms. -/
  upper : s.mediaBudget.bytesRemaining ≤ credit R kMaxIntervalTimeMs

theorem mediaCapped_new (cfg : Config) (target now : Int) (hR : 0 ≤ cfg.paceRate target)
    (hS : 0 ≤ S) : (PacedSender.new cfg target now).MediaCapped (cfg.paceRate target) S where
  rate := rfl
  padUpTo_rate := rfl
  padUpTo_nonpos := by simp [PacedSender.new]
  not_padding _ _ _ := by simp [PacedSender.new]
  lower := by
    have := credit_nonneg hR (show (0 : Int) ≤ kMinPacketLimitMs by decide)
    simp only [PacedSender.new, updateBytesPerInterval, increaseBudget_bytesRemaining, IntervalBudget.new]
    omega
  upper := by
    have := credit_mono hR le_rfl (show (0 : Int) ≤ kMinPacketLimitMs by decide)
      (show kMinPacketLimitMs ≤ kMaxIntervalTimeMs by decide)
    simp only [PacedSender.new, updateBytesPerInterval, increaseBudget_bytesRemaining, IntervalBudget.new]
    omega

/-- A step that leaves both budgets alone and starts no padding keeps the state capped. -/
theorem PacedSender.MediaCapped.of_frame {s t : PacedSender} (h : s.MediaCapped R S)
    (hm : t.mediaBudget = s.mediaBudget) (hp : t.padUpToBitrateBudget = s.padUpToBitrateBudget)
    (hph : ∀ now d need, t.phase ≠ .sendingPadding now d need) : t.MediaCapped R S :=
  ⟨hm ▸ h.rate, hp ▸ h.padUpTo_rate, hp ▸ h.padUpTo_nonpos, hph, hm ▸ h.lower, hm ▸ h.upper⟩

/-- The refill at the start of a `Process` call keeps the state capped, and adds at most the
rate times its interval, in eighths of a byte. -/
theorem PacedSender.MediaCapped.refilled {s : PacedSender} (h : s.MediaCapped R S) (hR : 0 ≤ R)
    (hS : 0 ≤ S) (hi : s.phase = .idle) {now : Int} (hr : s.Runs now) :
    (s.refilled now).MediaCapped R S ∧
      8 * (s.refilled now).mediaBudget.bytesRemaining ≤ 8 * s.mediaBudget.bytesRemaining + R * s.deltaAt now := by
  have hd := deltaAt_pos hr
  have h₁ := credit_nonneg hR hd.le
  have h₂ : credit R (s.deltaAt now) ≤ credit R kMaxIntervalTimeMs :=
    credit_mono hR le_rfl hd.le (deltaAt_le s now)
  have h₃ := eight_mul_credit_le hR hd.le
  have := h.lower; have := h.padUpTo_nonpos
  refine ⟨⟨by simpa [PacedSender.refilled] using h.rate, by simpa [PacedSender.refilled] using h.padUpTo_rate,
    ?_, by simp [PacedSender.refilled, hi], ?_, ?_⟩, ?_⟩ <;>
    simp only [PacedSender.refilled, updateBytesPerInterval, increaseBudget_bytesRemaining, h.rate,
      h.padUpTo_rate, credit_zero] <;> omega

/-- A turn of `Process`'s loop that does not take the override debits exactly what it hands to
`TimeToSendPacket`. -/
theorem media_processLoop {t : PacedSender} (h : t.MediaCapped R S) (hR : 0 ≤ R)
    (hS : S ≤ 100 * R / 8) (hb : t.BandsAll (fun pkt => 0 ≤ pkt.bytes ∧ pkt.bytes ≤ S)) {clock : Int}
    (ho : ¬ (t.mediaBudget.bytesRemaining ≤ 0 ∧ t.nextPriority clock ≠ none)) (a : Action)
    (now d : Int) :
    (t.processLoop now d clock).1.MediaCapped R S ∧
      8 * releasedBytes a (t.processLoop now d clock).2 +
        8 * (t.processLoop now d clock).1.mediaBudget.bytesRemaining ≤ 8 * t.mediaBudget.bytesRemaining := by
  cases hn : t.nextPriority clock with
  | none =>
    have hc : ¬ 0 < t.padUpToBitrateBudget.bytesRemaining := not_lt.mpr h.padUpTo_nonpos
    rw [processLoop_of_none hn, if_neg (fun hc' => hc hc'.2.2.2.2)]
    exact ⟨h.of_frame rfl rfl (by simp), by simp⟩
  | some p =>
    obtain ⟨v, hv⟩ := @processLoop_of_some t now d clock p hn
    have hpos : 0 < t.mediaBudget.bytesRemaining := by
      by_contra hc; exact ho ⟨not_lt.mp hc, by simp [hn]⟩
    obtain ⟨hf₀, hfS⟩ := hb p _ (PacketList.front_mem (nextPriority_some hn).1)
    have hexact := useBudget_of_pos (h.rate ▸ hR) hpos (n := (t.packets p).front.bytes)
      (by rw [h.rate]; omega)
    have hup := useBudget_nonpos (h.padUpTo_rate ▸ le_rfl) hf₀ h.padUpTo_nonpos
    have := h.upper
    rw [hv]
    refine ⟨⟨by simpa using h.rate, by simpa using h.padUpTo_rate, by simpa using hup, by simp, ?_, ?_⟩,
      ?_⟩ <;> simp only [updateMediaBytesSent, setPackets, hexact, releasedBytes_timeToSendPacket] <;> omega

/-- **One step of the media ledger.**  In a run at media rate `R` with pad-up-to rate 0, where
`SendPacket` is only called while enabled, no packet is larger than `S ≤ 100 * R / 8`, and the
starvation override never releases: a step keeps the state capped, and eight times the bytes
it releases plus eight times the budget after it is at most eight times the budget before it
plus `R` times its refill interval. -/
theorem media_step {s : PacedSender} (h : s.MediaCapped R S) (hR : 0 ≤ R) (hS₀ : 0 ≤ S)
    (hS : S ≤ 100 * R / 8) (hb : s.BandsAll (fun pkt => 0 ≤ pkt.bytes ∧ pkt.bytes ≤ S)) {a : Action}
    (hrate : ∀ t p, a = .updateBitrate t p → cfg.paceRate t = R ∧ p = 0)
    (hsize : ∀ p ssrc seq cap bytes now, a = .sendPacket p ssrc seq cap bytes now →
      0 ≤ bytes ∧ bytes ≤ S)
    (he : a.IsSendPacket → s.enabled = true) (ho : overrideReleases s a = false) :
    (step cfg s a).1.MediaCapped R S ∧
      8 * releasedBytes a (step cfg s a).2 + 8 * (step cfg s a).1.mediaBudget.bytesRemaining ≤
        8 * s.mediaBudget.bytesRemaining + R * refillInterval s a := by
  cases a with
  | setStatus | pause | resume =>
    exact ⟨h.of_frame rfl rfl h.not_padding, by simp [Pacing.step, refillInterval]⟩
  | updateBitrate t p =>
    obtain ⟨ht, hp⟩ := hrate t p rfl
    exact ⟨⟨ht, hp, h.padUpTo_nonpos, h.not_padding, h.lower, by simpa [ht] using h.upper⟩,
      by simp [Pacing.step, refillInterval]⟩
  | sendPacket p ssrc seq cap bytes now =>
    obtain ⟨hn₀, hnS⟩ := hsize p ssrc seq cap bytes now rfl
    rcases sendPacket_cases s p ssrc seq cap bytes now with ⟨hs, hd | hq⟩ | ⟨-, -, v, hs⟩
    · simp [he trivial] at hd
    · -- the fast path: the budget is positive, so the debit is exact
      have hexact := useBudget_of_pos (h.rate ▸ hR) hq.2.2 (n := bytes) (by rw [h.rate]; omega)
      have hup := useBudget_nonpos (h.padUpTo_rate ▸ le_rfl) hn₀ h.padUpTo_nonpos
      have := h.upper
      simp only [Pacing.step, hs, updateMediaBytesSent]
      refine ⟨⟨by simpa using h.rate, by simpa using h.padUpTo_rate, hup, h.not_padding, ?_, ?_⟩, ?_⟩ <;>
        simp only [hexact, releasedBytes, refillInterval] <;> omega
    · simp only [Pacing.step, hs]
      exact ⟨h.of_frame rfl rfl h.not_padding, by simp [releasedBytes, refillInterval]⟩
  | process now =>
    rcases step_process_cases s now with ⟨hi, hr, hs⟩ | ⟨-, hr, hs⟩ | ⟨hi, hs⟩ <;> rw [hs]
    · -- the refill, then one turn of the loop
      obtain ⟨hcap, hrefill⟩ := h.refilled hR hS₀ hi hr
      have ho' : ¬ ((s.refilled now).mediaBudget.bytesRemaining ≤ 0 ∧
          (s.refilled now).nextPriority now ≠ none) := by
        simpa [overrideReleases, hi, hr] using ho
      obtain ⟨hcap', hloop⟩ := media_processLoop hcap hR hS hb ho' (.process now) now (s.deltaAt now)
      exact ⟨hcap', by simp only [refillInterval, if_pos (And.intro hi hr)]; omega⟩
    · exact ⟨h.of_frame rfl rfl h.not_padding, by simp [refillInterval, hr]⟩
    · exact ⟨h, by simp [refillInterval, hi]⟩
  | packetSent clock =>
    rcases step_packetSent_cases s clock with ⟨now, d, hph, hs⟩ | ⟨-, hs⟩ <;> rw [hs]
    · have ho' : ¬ (s.mediaBudget.bytesRemaining ≤ 0 ∧ s.nextPriority clock ≠ none) := by
        simpa [overrideReleases, hph] using ho
      exact (media_processLoop h hR hS hb ho' (.packetSent clock) now d).imp_right
        fun hl => by simpa [refillInterval] using hl
    · exact ⟨h, by simp [refillInterval]⟩
  | paddingSent n =>
    rw [step_paddingSent_of_not_padding h.not_padding]; exact ⟨h, by simp [refillInterval]⟩

end ledger

/-! ### The window -/

section window

variable {R S t0 t1 : Int}

/-- A step that reads no clock releases nothing, refills nothing and notes no clock. -/
theorem step_of_clock_none {s : PacedSender} {a : Action} (h : a.clock? = none) :
    releasedBytes a (step cfg s a).2 = 0 ∧ refillInterval s a = 0 ∧
      (step cfg s a).1.timeLastUpdate = s.timeLastUpdate := by
  cases a with
  | paddingSent n =>
    refine ⟨by rw [(step_paddingSent s n).2]; rfl, rfl, (@step_timeLastUpdate cfg s _).resolve_right ?_⟩
    rintro ⟨_, ⟨⟩, -⟩
  | sendPacket | process | packetSent => simp [Action.clock?] at h
  | setStatus | pause | resume | updateBitrate => exact ⟨rfl, rfl, rfl⟩

theorem refillInterval_cases (s : PacedSender) (a : Action) :
    refillInterval s a = 0 ∨
      ∃ now, a = .process now ∧ s.phase = .idle ∧ s.Runs now ∧ refillInterval s a = s.deltaAt now := by
  cases a <;> simp only [refillInterval, true_or]
  split_ifs with h
  · exact .inr ⟨_, rfl, h.1, h.2, rfl⟩
  · exact .inl rfl

/-- The refill of a step made inside the window is window time the calls before it have not
had. -/
theorem refill_le_windowTime {s : PacedSender} {a : Action} {τ : Int} (ht : t0 ≤ t1) (hR : 0 ≤ R)
    (hL : s.timeLastUpdate ≤ τ) (hτ : τ ≤ a.clockAfter τ) (h₀ : t0 < a.clockAfter τ)
    (h₁ : a.clockAfter τ ≤ t1) :
    R * refillInterval s a + R * windowTime t0 t1 s.timeLastUpdate ≤
      R * windowTime t0 t1 (step cfg s a).1.timeLastUpdate := by
  rcases refillInterval_cases s a with h0 | ⟨now, rfl, hi, hr, hδ⟩
  · -- no refill: the clock `Process` noted can only have moved forward
    rw [h0, mul_zero, zero_add]
    refine mul_le_mul_of_nonneg_left (windowTime_mono ht ?_) hR
    rcases @step_timeLastUpdate cfg s a with h | ⟨now, rfl, -, h⟩
    · exact h.ge
    · rw [h]; exact hL.trans hτ
  · have hL' : (step cfg s (.process now)).1.timeLastUpdate = now := by
      rw [step_process_of_idle hi, process_of_runs hr]; simp [PacedSender.refilled]
    have := mul_le_mul_of_nonneg_left (deltaAt_le_windowTime (hL.trans hτ) h₀ h₁) hR
    simp only [Action.clockAfter, Action.clock?, Option.getD] at this
    rw [hδ, hL', ← sub_nonneg]; rw [mul_sub] at this; linarith

/-- The ledger of the window after a run whose last clock reading was `τ` and which let `A`
bytes onto the wire in `(t0, t1]`: nothing is counted before the window opens; while it is
open, the bytes counted and the budget together are at most one refill of 30 ms and the
window time the calls have had; once it has closed, the count is final and bounded. -/
def MediaWindow (R S t0 t1 τ A : Int) (s : PacedSender) : Prop :=
  (τ ≤ t0 → A = 0) ∧
    (τ ≤ t1 → 8 * A + 8 * s.mediaBudget.bytesRemaining ≤
      8 * credit R kMaxIntervalTimeMs + R * windowTime t0 t1 s.timeLastUpdate) ∧
    (t1 < τ → 8 * A ≤ 8 * credit R kMaxIntervalTimeMs + R * (t1 - t0 + kMaxIntervalTimeMs) + 8 * S)

/-- **One step of the window ledger**, from `media_step`. -/
theorem mediaWindow_step {s : PacedSender} {a : Action} {τ A : Int} (ht : t0 ≤ t1) (hR : 0 ≤ R)
    (h : s.MediaCapped R S) (h' : (step cfg s a).1.MediaCapped R S)
    (hledger : 8 * releasedBytes a (step cfg s a).2 + 8 * (step cfg s a).1.mediaBudget.bytesRemaining ≤
      8 * s.mediaBudget.bytesRemaining + R * refillInterval s a)
    (hw : MediaWindow R S t0 t1 τ A s) (hL : s.timeLastUpdate ≤ τ) (hτ : τ ≤ a.clockAfter τ) :
    MediaWindow R S t0 t1 (a.clockAfter τ) (A + releasedIn t0 t1 a (step cfg s a).2) (step cfg s a).1 := by
  obtain ⟨hw₀, hw₁, hw₂⟩ := hw
  have hWL := Int.mul_nonneg hR (windowTime_nonneg ht (step cfg s a).1.timeLastUpdate)
  have hWle := mul_le_mul_of_nonneg_left (windowTime_le ht s.timeLastUpdate) hR
  have := h.lower; have := h'.upper
  cases hc : a.clock? with
  | none =>
    obtain ⟨hrb, hδ, hL'⟩ := @step_of_clock_none cfg s a hc
    have hτ' : a.clockAfter τ = τ := by simp [Action.clockAfter, hc]
    have hrel : releasedIn t0 t1 a (step cfg s a).2 = 0 := by simp [releasedIn, hc]
    rw [hτ', hrel, add_zero]
    rw [hrb, hδ] at hledger
    refine ⟨hw₀, fun h₁ => ?_, hw₂⟩
    have := hw₁ h₁; rw [hL']; omega
  | some c =>
    have hτ' : a.clockAfter τ = c := by simp [Action.clockAfter, hc]
    have hrel : releasedIn t0 t1 a (step cfg s a).2 =
        if t0 < c ∧ c ≤ t1 then releasedBytes a (step cfg s a).2 else 0 := by simp [releasedIn, hc]
    have hC := credit_nonneg hR (show (0 : Int) ≤ kMaxIntervalTimeMs by decide)
    by_cases h₀ : c ≤ t0
    · -- before the window: nothing is counted
      have hA := hw₀ (by omega)
      rw [hτ', hrel, if_neg (by omega), hA]
      exact ⟨fun _ => rfl, fun _ => by omega, fun _ => by omega⟩
    by_cases h₁ : c ≤ t1
    · -- inside the window: the ledger of the step, and the window time its refill takes
      have key := @refill_le_windowTime cfg R t0 t1 s a τ ht hR hL hτ (by omega) (by omega)
      have := hw₁ (by omega)
      rw [hτ', hrel, if_pos ⟨by omega, h₁⟩]
      exact ⟨fun _ => by omega, fun _ => by omega, fun _ => by omega⟩
    · -- after the window: the count is final
      rw [hτ', hrel, if_neg (by omega), add_zero]
      refine ⟨fun _ => by omega, fun _ => by omega, fun _ => ?_⟩
      by_cases hτ₁ : τ ≤ t1
      · have := hw₁ hτ₁; omega
      · exact hw₂ (by omega)

/-- Whatever the last clock reading, the window ledger bounds the count. -/
theorem MediaWindow.bound {s : PacedSender} {τ A : Int} (hw : MediaWindow R S t0 t1 τ A s)
    (ht : t0 ≤ t1) (hR : 0 ≤ R) (hS : 0 ≤ S) (h : s.MediaCapped R S) :
    8 * A ≤ 8 * credit R kMaxIntervalTimeMs + R * (t1 - t0 + kMaxIntervalTimeMs) + 8 * S := by
  have hC := credit_nonneg hR (show (0 : Int) ≤ kMaxIntervalTimeMs by decide)
  have hW := mul_le_mul_of_nonneg_left (windowTime_le ht s.timeLastUpdate) hR
  have hW₀ := Int.mul_nonneg hR (show 0 ≤ t1 - t0 + kMaxIntervalTimeMs by unfold kMaxIntervalTimeMs; omega)
  have := h.lower
  by_cases h₀ : τ ≤ t0
  · rw [hw.1 h₀]; omega
  by_cases h₁ : τ ≤ t1
  · have := hw.2.1 h₁; omega
  · exact hw.2.2 (by omega)

/-- **The window ledger over a run**, by induction from `media_step` and `mediaWindow_step`. -/
theorem media_run_window {s : PacedSender} {τ A : Int} {acts : List Action} (ht : t0 ≤ t1)
    (hR : 0 ≤ R) (hS₀ : 0 ≤ S) (hS : S ≤ 100 * R / 8) (h : s.MediaCapped R S)
    (hb : s.BandsAll (fun pkt => 0 ≤ pkt.bytes ∧ pkt.bytes ≤ S)) (hw : MediaWindow R S t0 t1 τ A s)
    (hL : s.timeLastUpdate ≤ τ) (hc : Clocks τ acts)
    (hrates : ∀ t p, .updateBitrate t p ∈ acts → cfg.paceRate t = R ∧ p = 0)
    (hsizes : ∀ p ssrc seq cap bytes now, .sendPacket p ssrc seq cap bytes now ∈ acts →
      0 ≤ bytes ∧ bytes ≤ S)
    (he : ∀ x ∈ trace cfg s acts, x.2.1.IsSendPacket → x.1.enabled = true)
    (ho : ∀ x ∈ trace cfg s acts, overrideReleases x.1 x.2.1 = false) :
    (run cfg s acts).MediaCapped R S ∧ ∃ τ', MediaWindow R S t0 t1 τ'
      (A + ((trace cfg s acts).map fun x => releasedIn t0 t1 x.2.1 x.2.2).sum) (run cfg s acts) := by
  induction acts generalizing s τ A with
  | nil => exact ⟨h, τ, by simpa using hw⟩
  | cons a acts ih =>
    obtain ⟨hτ, hc'⟩ := hc.cons
    have hrate : ∀ t p, a = .updateBitrate t p → cfg.paceRate t = R ∧ p = 0 :=
      fun t p ha => hrates t p (ha ▸ List.mem_cons_self _ _)
    have hsize : ∀ p ssrc seq cap bytes now, a = .sendPacket p ssrc seq cap bytes now →
        0 ≤ bytes ∧ bytes ≤ S :=
      fun p ssrc seq cap bytes now ha => hsizes p ssrc seq cap bytes now (ha ▸ List.mem_cons_self _ _)
    obtain ⟨h', hledger⟩ := media_step h hR hS₀ hS hb hrate hsize (he _ (List.mem_cons_self _ _))
      (ho _ (List.mem_cons_self _ _))
    have hw' := mediaWindow_step ht hR h h' hledger hw hL hτ
    obtain ⟨hrun, τ', hrest⟩ := ih h' (bandsAll_step hb hsize) hw' (timeLastUpdate_le_clockAfter hL hτ) hc'
      (fun t p hm => hrates t p (List.mem_cons_of_mem _ hm))
      (fun p ssrc seq cap bytes now hm => hsizes p ssrc seq cap bytes now (List.mem_cons_of_mem _ hm))
      (fun x hx => he x (List.mem_cons_of_mem _ hx)) (fun x hx => ho x (List.mem_cons_of_mem _ hx))
    refine ⟨hrun, τ', ?_⟩
    simpa only [trace_cons, List.map_cons, List.sum_cons, run_cons, add_assoc] using hrest

end window

/-! ### The media rate bound -/

/-- **A window `(t0, t1]` lets at most `R * (t1 - t0 + 60) / 8 + S_max` bytes of media onto the
wire.**  In a run from construction on a non-decreasing clock, at a media rate `R ≥ 0` that no
`UpdateBitrate` changes, with pad-up-to rate 0, every `SendPacket` made while enabled with a
size in `[0, 100 * R / 8]`, and the starvation override never releasing; the released bytes
are those for which `SendPacket` returned `true` and those `Process` handed to
`TimeToSendPacket`, each counted at the clock reading of its critical section.  The bound is on
the model's arithmetic, which is that of `int` while the rates stay within `[0, 21474836]`
(`IntervalBudget.InRange.noOverflow`). -/
theorem media_rate_bounded (cfg : Config) (target now : Int) (acts : List Action) (t0 t1 : Int)
    (ht : t0 ≤ t1) (hR : 0 ≤ cfg.paceRate target) (hclock : Clocks now acts)
    (hrates : ∀ t p, .updateBitrate t p ∈ acts → cfg.paceRate t = cfg.paceRate target ∧ p = 0)
    (hsizes : ∀ p ssrc seq cap bytes clock, .sendPacket p ssrc seq cap bytes clock ∈ acts →
      0 ≤ bytes ∧ bytes ≤ 100 * cfg.paceRate target / 8)
    (henabled : ∀ x ∈ trace cfg (PacedSender.new cfg target now) acts,
      x.2.1.IsSendPacket → x.1.enabled = true)
    (hoverride : ∀ x ∈ trace cfg (PacedSender.new cfg target now) acts,
      overrideReleases x.1 x.2.1 = false) :
    ((trace cfg (PacedSender.new cfg target now) acts).map
        fun x => releasedIn t0 t1 x.2.1 x.2.2).sum ≤
      cfg.paceRate target * (t1 - t0 + 60) / 8 + maxPacketBytes acts := by
  have hS₀ : 0 ≤ maxPacketBytes acts := maxPacketBytes_nonneg acts
  have hS : maxPacketBytes acts ≤ 100 * cfg.paceRate target / 8 :=
    maxPacketBytes_le (by omega) fun p ssrc seq cap bytes clock hm => (hsizes p ssrc seq cap bytes clock hm).2
  have h0 := mediaCapped_new cfg target now hR hS₀
  have hw0 : MediaWindow (cfg.paceRate target) (maxPacketBytes acts) t0 t1 now 0
      (PacedSender.new cfg target now) := by
    have := h0.upper
    have := Int.mul_nonneg hR (windowTime_nonneg ht (PacedSender.new cfg target now).timeLastUpdate)
    have := credit_nonneg hR (show (0 : Int) ≤ kMaxIntervalTimeMs by decide)
    have := Int.mul_nonneg hR (show 0 ≤ t1 - t0 + kMaxIntervalTimeMs by unfold kMaxIntervalTimeMs; omega)
    exact ⟨fun _ => rfl, fun _ => by omega, fun _ => by omega⟩
  obtain ⟨hrun, τ', hw⟩ := media_run_window ht hR hS₀ hS h0 (fun _ _ h => by simp [PacedSender.new] at h)
    hw0 (le_refl now) hclock hrates
    (fun p ssrc seq cap bytes clock hm => ⟨(hsizes p ssrc seq cap bytes clock hm).1, le_maxPacketBytes hm⟩)
    henabled hoverride
  have hbound := hw.bound ht hR hS₀ hrun
  have hC := eight_mul_credit_le hR (show (0 : Int) ≤ kMaxIntervalTimeMs by decide)
  have h60 : cfg.paceRate target * (t1 - t0 + 60) =
      cfg.paceRate target * (t1 - t0 + kMaxIntervalTimeMs) + cfg.paceRate target * kMaxIntervalTimeMs := by
    unfold kMaxIntervalTimeMs; ring
  omega

/-- The bound at a run that sends one packet through the fast path and ticks, over a window
that holds that release. -/
theorem media_rate_bounded_example :
    ((trace ⟨id⟩ (PacedSender.new ⟨id⟩ 800 0)
        [.setStatus true, .sendPacket .kNormalPriority 1 1 0 1200 0, .process 10]).map
        fun x => releasedIn (-1) 10 x.2.1 x.2.2).sum ≤
      (⟨id⟩ : Config).paceRate 800 * (10 - (-1) + 60) / 8 +
        maxPacketBytes [.setStatus true, .sendPacket .kNormalPriority 1 1 0 1200 0, .process 10] :=
  media_rate_bounded ⟨id⟩ 800 0 _ (-1) 10 (by decide) (by decide) (by decide) (by simp)
    (by simp only [List.mem_cons, Action.sendPacket.injEq]; aesop) (by decide) (by decide)

end Pacing
