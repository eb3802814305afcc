import Pacing.System

/-
Priority across the bands.

`GetNextPacket` looks at the bands from high to low and pops the first non-empty
one, so a packet `Process` hands to `TimeToSendPacket` never passes a packet of a
higher band; that holds in every run.  The fast path of `SendPacket` looks only at
the band of the packet's own priority, and it relies on a property of the state:
that while the media budget is positive the bands are empty.  That property holds
outside `Process`'s `TimeToSendPacket` windows in a run that is never paused,
with non-negative rates and padding returns (`Drained`); a `Pause()` (packets are
queued whatever the budget) or a `SendPacket` from inside the callback (the budget
is refilled while packets wait) breaks it, and then a packet of low priority may
be let through ahead of queued packets of higher priority.

The starvation override takes the high or normal band once more than 30 ms have
passed since `time_last_send_`, whatever the budget; so a `Process` call that
starts so hands out the head of the higher of the two first, and a drain loop
that ends with either band waiting was within 30 ms of a send.  The call returns
in the state its loop ends in unless it asks for padding: while
`TimeToSendPadding` runs, `SendPacket` may queue behind a spent budget.  The override's timer,
`time_last_send_`, is the clock of the last media packet released; padding never moves it
(`timeLastSend_last_release`).
-/

namespace Pacing

open PacedSender

variable {cfg : Config}

/-! ### The packets `Process` hands out -/

/-- `Process` is inside `TimeToSendPacket`. -/
def Phase.IsSendingPacket : Phase → Prop
  | .sendingPacket _ _ => True
  | _ => False

instance : DecidablePred Phase.IsSendingPacket := fun ph => by
  cases ph <;> simp only [Phase.IsSendingPacket] <;> infer_instance

/-- The state of a pacer that never paused, between `TimeToSendPacket` windows. -/
structure PacedSender.Drained (s : PacedSender) : Prop where
  unpaused : s.paused = false
  rate_nonneg : 0 ≤ s.mediaBudget.targetRateKbps
  /-- Outside a `TimeToSendPacket` window, a positive media budget means all bands are empty. -/
  empty_of_pos : ¬ s.phase.IsSendingPacket → 0 < s.mediaBudget.bytesRemaining →
    ∀ q, (s.packets q).packetList = []

theorem drained_new (cfg : Config) (target now : Int) (h : 0 ≤ cfg.paceRate target) :
    (PacedSender.new cfg target now).Drained :=
  ⟨rfl, by simpa [PacedSender.new] using h, fun _ _ _ => rfl⟩

/-- A turn of `Process`'s loop either opens a `TimeToSendPacket` window or ends with the bands
empty whenever the budget is positive. -/
theorem drained_processLoop {t : PacedSender} (hp : t.paused = false)
    (hr : 0 ≤ t.mediaBudget.targetRateKbps) (now d clock : Int) :
    (t.processLoop now d clock).1.Drained := by
  refine ⟨by simpa using hp, ?_, fun hw hpos => ?_⟩
  · rcases processLoop_cases t now d clock with ⟨-, h, -⟩ | ⟨q, -, -, -, h, -⟩ <;> simp [h, hr]
  cases hn : t.nextPriority clock with
  | none =>
    rw [processLoop_of_none hn] at hw hpos ⊢
    split_ifs at hw hpos ⊢ <;> exact (nextPriority_none hn).1 hpos
  | some p =>
    obtain ⟨v, hv⟩ := @processLoop_of_some t now d clock p hn
    simp [hv, Phase.IsSendingPacket] at hw

theorem PacedSender.Drained.of_frame {s t : PacedSender} (h : s.Drained) (hp : t.paused = s.paused)
    (hm : t.mediaBudget = s.mediaBudget) (hph : t.phase = s.phase) (hq : t.packets = s.packets) :
    t.Drained :=
  ⟨hp ▸ h.unpaused, hm ▸ h.rate_nonneg, by rw [hm, hph, hq]; exact h.empty_of_pos⟩

/-- With the high or normal band waiting and more than 30 ms since the last send,
`GetNextPacket` takes the higher of the two, whatever the budget. -/
theorem nextPriority_of_starved {s : PacedSender} {now : Int}
    (hq : (s.packets .kHighPriority).packetList ≠ [] ∨ (s.packets .kNormalPriority).packetList ≠ [])
    (ht : kMaxQueueTimeWithoutSendingMs < now - s.timeLastSend) :
    s.nextPriority now = some (if (s.packets .kHighPriority).packetList ≠ [] then .kHighPriority
      else .kNormalPriority) := by
  by_cases hh : (s.packets .kHighPriority).packetList = []
  · have hn := hq.resolve_left (not_not.mpr hh)
    simp [nextPriority, hh, hn, ht]
  · simp [nextPriority, hh, ht]

/-- **A call that finds the high or normal band waiting for more than 30 ms hands out the head of
the higher of the two first; a drain loop that returns with either band waiting was within 30 ms
of a send.**  The first critical section of a `Process` call that runs does so whatever the budget;
a turn of the loop in which `GetNextPacket` finds nothing and no padding is asked for ends the
call, with `time_last_send_` at most 30 ms before that `GetNextPacket`'s clock if the high or
normal band holds a packet; and a turn that ends the loop asking for padding does so with every
band empty, the call then waiting on `TimeToSendPadding`. -/
theorem starved_band_sent_first :
    (∀ (s : PacedSender) (now : Int), s.Runs now →
      ((s.packets .kHighPriority).packetList ≠ [] ∨ (s.packets .kNormalPriority).packetList ≠ []) →
      kMaxQueueTimeWithoutSendingMs < now - s.timeLastSend →
      (s.process now).2 = .timeToSendPacket
        (if (s.packets .kHighPriority).packetList ≠ [] then .kHighPriority else .kNormalPriority)
        (s.packets (if (s.packets .kHighPriority).packetList ≠ [] then .kHighPriority
          else .kNormalPriority)).front) ∧
    (∀ (t : PacedSender) (now d clock : Int), (t.processLoop now d clock).2 = .none →
      (t.processLoop now d clock).1.phase = .idle ∧
      (((t.processLoop now d clock).1.packets .kHighPriority).packetList ≠ [] ∨
          ((t.processLoop now d clock).1.packets .kNormalPriority).packetList ≠ [] →
        clock - (t.processLoop now d clock).1.timeLastSend ≤ kMaxQueueTimeWithoutSendingMs)) ∧
    ∀ (t : PacedSender) (now d clock need : Int),
      (t.processLoop now d clock).2 = .timeToSendPadding need →
      (t.processLoop now d clock).1.phase = .sendingPadding now d need ∧
        ∀ q, ((t.processLoop now d clock).1.packets q).packetList = [] := by
  refine ⟨fun s now hr hq ht => ?_, fun t now d clock hout => ?_,
    fun t now d clock need hout => ?_⟩
  · -- the refill touches neither the bands nor `time_last_send_`
    have hp := @nextPriority_of_starved (s.refilled now) now hq ht
    obtain ⟨v, hv⟩ := @processLoop_of_some (s.refilled now) now (s.deltaAt now) now _ hp
    rw [process_of_runs hr, hv]
    rfl
  · -- the loop ends only when `GetNextPacket` finds nothing
    cases hn : t.nextPriority clock with
    | some p =>
      obtain ⟨v, hv⟩ := @processLoop_of_some t now d clock p hn
      simp [hv] at hout
    | none =>
      rw [processLoop_of_none hn] at hout ⊢
      split_ifs at hout ⊢
      refine ⟨rfl, fun hq => not_lt.mp fun ht => ?_⟩
      have := (nextPriority_none hn).2 ht
      exact hq.elim (· this.1) (· this.2)
  · -- the loop asks for padding only once it finds every band empty
    cases hn : t.nextPriority clock with
    | some p =>
      obtain ⟨v, hv⟩ := @processLoop_of_some t now d clock p hn
      simp [hv] at hout
    | none =>
      rw [processLoop_of_none hn] at hout ⊢
      split_ifs at hout ⊢ with hc
      obtain rfl := Output.timeToSendPadding.inj hout
      obtain ⟨hh, hnm, hl, -, -⟩ := hc
      exact ⟨rfl, fun q => by cases q <;> assumption⟩

/-- A call that asks for padding returns after `TimeToSendPadding`, during which `SendPacket`
queues a packet of high priority behind a spent budget: the call returns with it waiting and
`time_last_send_` 100 ms before the clock of its only `GetNextPacket`. -/
theorem padding_call_returns_starved :
    let acts : List Action := [.setStatus true, .sendPacket .kNormalPriority 1 1 0 5000 0,
      .updateBitrate 800 100, .process 100, .sendPacket .kHighPriority 1 2 0 100 100, .paddingSent 375]
    (trace ⟨id⟩ (PacedSender.new ⟨id⟩ 800 0) acts).map (·.2.2) =
        [.none, .sendPacket true, .none, .timeToSendPadding 375, .sendPacket false, .none] ∧
      (run ⟨id⟩ (PacedSender.new ⟨id⟩ 800 0) acts).phase = .idle ∧
      ((run ⟨id⟩ (PacedSender.new ⟨id⟩ 800 0) acts).packets .kHighPriority).packetList ≠ [] ∧
      kMaxQueueTimeWithoutSendingMs < 100 - (run ⟨id⟩ (PacedSender.new ⟨id⟩ 800 0) acts).timeLastSend := by
  decide

/-! ### The starvation timer

`time_last_send_` is written only by `UpdateMediaBytesSent`: when `SendPacket` lets a packet
through and when `GetNextPacket` pops one.  `TimeToSendPadding`'s debit does not call it, so the
override's 30 ms count from the last media packet, however much padding was sent since. -/

/-- The clock at which a step releases a media packet: a `SendPacket` call that returns `true`,
or a turn of `Process`'s loop that hands a packet to `TimeToSendPacket`. -/
def releaseClock? : Action → Output → Option Int
  | .sendPacket _ _ _ _ _ now, .sendPacket true => some now
  | .process now, .timeToSendPacket _ _ => some now
  | .packetSent clock, .timeToSendPacket _ _ => some clock
  | _, _ => none

theorem releaseClock?_process (now : Int) (o : Output) :
    releaseClock? (.process now) o = releaseClock? (.packetSent now) o := by
  cases o <;> rfl

/-- A turn of the loop notes its clock as the time of the last send exactly when it hands out
a packet. -/
theorem processLoop_timeLastSend (t : PacedSender) (now d clock : Int) :
    (t.processLoop now d clock).1.timeLastSend =
      (releaseClock? (.packetSent clock) (t.processLoop now d clock).2).getD t.timeLastSend := by
  cases hn : t.nextPriority clock with
  | none => rw [processLoop_of_none hn]; split_ifs <;> rfl
  | some p => obtain ⟨v, hv⟩ := @processLoop_of_some t now d clock p hn; rw [hv]; rfl

/-- What one step does to `time_last_send_`. -/
theorem step_timeLastSend (s : PacedSender) (a : Action) :
    (step cfg s a).1.timeLastSend = (releaseClock? a (step cfg s a).2).getD s.timeLastSend := by
  cases a with
  | sendPacket p ssrc seq cap bytes now =>
    rcases sendPacket_cases s p ssrc seq cap bytes now with ⟨hs, -⟩ | ⟨-, -, v, hs⟩ <;>
      simp [Pacing.step, hs, releaseClock?]
  | process now =>
    rw [releaseClock?_process]
    rcases step_process_cases s now with ⟨-, -, hs⟩ | ⟨-, -, hs⟩ | ⟨-, hs⟩ <;> rw [hs]
    · exact processLoop_timeLastSend ..
    all_goals rfl
  | packetSent clock =>
    rcases step_packetSent_cases s clock with ⟨now, d, -, hs⟩ | ⟨-, hs⟩ <;> rw [hs]
    · exact processLoop_timeLastSend ..
    · rfl
  | paddingSent n =>
    rcases step_paddingSent_cases s n with ⟨-, -, -, -, hs⟩ | ⟨-, hs⟩ <;> rw [hs] <;> rfl
  | setStatus | pause | resume | updateBitrate => rfl

/-- **`time_last_send_` is the clock of the last media release.**  After any run from any state,
it is the clock at which the run last let a packet through `SendPacket` or handed one to
`TimeToSendPacket`, or its value at the start if the run released none: no other step moves it,
padding included. -/
theorem timeLastSend_last_release (cfg : Config) (s : PacedSender) (acts : List Action) :
    (run cfg s acts).timeLastSend =
      ((trace cfg s acts).filterMap fun x => releaseClock? x.2.1 x.2.2).getLast?.getD
        s.timeLastSend := by
  induction acts using List.reverseRecOn with
  | nil => rfl
  | append_singleton acts a ih =>
    rw [run_append, run_cons, run_nil, trace_snoc, List.filterMap_append, step_timeLastSend, ih]
    cases h : releaseClock? a (step cfg (run cfg s acts) a).2 <;> simp [h]

end Pacing
