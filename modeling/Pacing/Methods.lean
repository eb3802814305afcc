import Pacing.Sender

/-
What each method of the pacer does, stated once.

Later proofs read the methods only through these lemmas.  `sendPacket_cases`
says everything one `SendPacket` can do; `getNextPacket_eq` reduces
`GetNextPacket` to the band it picks, `nextPriority`, whose two lemmas say which
band that is; `processLoop_of_some` and `processLoop_of_none` are the two ways a
turn of `Process`'s loop ends, and `process_of_runs` / `process_of_skip` the two
ways its first critical section starts.
-/

namespace Pacing

/-- The order of the classes: high above normal above low. -/
def Priority.rank : Priority → Nat
  | .kHighPriority => 2
  | .kNormalPriority => 1
  | .kLowPriority => 0

/-- The packet `SendPacket` builds; a negative capture time is replaced by the clock. -/
def Packet.ofSendPacket (ssrc : UInt32) (sequenceNumber : UInt16) (captureTimeMs bytes now : Int) :
    Packet :=
  ⟨ssrc, sequenceNumber, if captureTimeMs < 0 then now else captureTimeMs, bytes⟩

namespace PacedSender

/-- The band `SendPacket` queues a packet of priority `p` in: while paused, low-priority
packets go with the normal ones. -/
def queueFor (s : PacedSender) (p : Priority) : Priority :=
  if s.paused ∧ p = .kLowPriority then .kNormalPriority else p

/-! ### `SendPacket` -/

theorem sendPacket_of_disabled {s : PacedSender} (he : s.enabled = false) (p : Priority)
    (ssrc : UInt32) (seq : UInt16) (cap bytes now : Int) :
    s.sendPacket p ssrc seq cap bytes now = (s.updateMediaBytesSent bytes now, true) := by
  simp [sendPacket, he]

theorem sendPacket_of_fast {s : PacedSender} {p : Priority} (he : s.enabled = true)
    (hp : s.paused = false) (hq : (s.packets p).packetList = [] ∧ 0 < s.mediaBudget.bytesRemaining)
    (ssrc : UInt32) (seq : UInt16) (cap bytes now : Int) :
    s.sendPacket p ssrc seq cap bytes now = (s.updateMediaBytesSent bytes now, true) := by
  simp [sendPacket, he, hp, hq.1, hq.2]

theorem sendPacket_of_queue {s : PacedSender} {p : Priority} (he : s.enabled = true)
    (hq : s.paused = true ∨ (s.packets p).packetList ≠ [] ∨ s.mediaBudget.bytesRemaining ≤ 0)
    (ssrc : UInt32) (seq : UInt16) (cap bytes now : Int) :
    ∃ v, s.sendPacket p ssrc seq cap bytes now =
      ({ s with
          captureTimeMsLastQueued := v
          packets := Function.update s.packets (s.queueFor p)
            ((s.packets (s.queueFor p)).pushBack (Packet.ofSendPacket ssrc seq cap bytes now)) },
        false) := by
  unfold sendPacket queueFor Packet.ofSendPacket
  cases hp : s.paused
  · have hn : ¬((s.packets p).packetList = [] ∧ 0 < s.mediaBudget.bytesRemaining) := by
      rcases hq with hq | hq | hq
      · simp [hp] at hq
      · exact fun h => hq h.1
      · exact fun h => by omega
    simp [he, hp, hn]
  · cases p <;> simp [he, hp]

/-- `SendPacket` either lets the caller send now, debiting the budgets, or queues the packet in
`queueFor` (where `push_back` may drop it); nothing else changes. -/
theorem sendPacket_cases (s : PacedSender) (p : Priority) (ssrc : UInt32) (seq : UInt16)
    (cap bytes now : Int) :
    (s.sendPacket p ssrc seq cap bytes now = (s.updateMediaBytesSent bytes now, true) ∧
      (s.enabled = false ∨
        (s.paused = false ∧ (s.packets p).packetList = [] ∧ 0 < s.mediaBudget.bytesRemaining))) ∨
    (s.enabled = true ∧
      (s.paused = true ∨ (s.packets p).packetList ≠ [] ∨ s.mediaBudget.bytesRemaining ≤ 0) ∧
      ∃ v, s.sendPacket p ssrc seq cap bytes now =
        ({ s with
            captureTimeMsLastQueued := v
            packets := Function.update s.packets (s.queueFor p)
              ((s.packets (s.queueFor p)).pushBack (Packet.ofSendPacket ssrc seq cap bytes now)) },
          false)) := by
  rcases Bool.eq_false_or_eq_true s.enabled with he | he
  swap
  · exact .inl ⟨sendPacket_of_disabled he .., .inl he⟩
  by_cases hq : s.paused = false ∧ (s.packets p).packetList = [] ∧ 0 < s.mediaBudget.bytesRemaining
  · exact .inl ⟨sendPacket_of_fast he hq.1 hq.2 .., .inr hq⟩
  · have hq' : s.paused = true ∨ (s.packets p).packetList ≠ [] ∨ s.mediaBudget.bytesRemaining ≤ 0 := by
      simp only [not_and_or, Bool.not_eq_false, not_lt] at hq; exact hq
    exact .inr ⟨he, hq', sendPacket_of_queue he hq' ..⟩

/-- An enabled `SendPacket` returns `true` only on the fast path. -/
theorem sendPacket_fast_of_true {s : PacedSender} (he : s.enabled = true) {p : Priority}
    {ssrc : UInt32} {seq : UInt16} {cap bytes now : Int}
    (h : (s.sendPacket p ssrc seq cap bytes now).2 = true) :
    s.paused = false ∧ (s.packets p).packetList = [] ∧ 0 < s.mediaBudget.bytesRemaining := by
  rcases sendPacket_cases s p ssrc seq cap bytes now with ⟨-, he' | hq⟩ | ⟨-, -, v, hs⟩
  · simp [he] at he'
  · exact hq
  · simp [hs] at h

/-- What `SendPacket` leaves alone. -/
theorem sendPacket_frame (s : PacedSender) (p : Priority) (ssrc : UInt32) (seq : UInt16)
    (cap bytes now : Int) :
    (s.sendPacket p ssrc seq cap bytes now).1.enabled = s.enabled ∧
      (s.sendPacket p ssrc seq cap bytes now).1.paused = s.paused ∧
      (s.sendPacket p ssrc seq cap bytes now).1.paddingBudget = s.paddingBudget ∧
      (s.sendPacket p ssrc seq cap bytes now).1.timeLastUpdate = s.timeLastUpdate ∧
      (s.sendPacket p ssrc seq cap bytes now).1.phase = s.phase := by
  rcases sendPacket_cases s p ssrc seq cap bytes now with ⟨h, -⟩ | ⟨-, -, v, h⟩ <;> simp [h]

@[simp] theorem sendPacket_enabled (s : PacedSender) (p : Priority) (ssrc : UInt32) (seq : UInt16)
    (cap bytes now : Int) : (s.sendPacket p ssrc seq cap bytes now).1.enabled = s.enabled :=
  (sendPacket_frame ..).1

@[simp] theorem sendPacket_paused (s : PacedSender) (p : Priority) (ssrc : UInt32) (seq : UInt16)
    (cap bytes now : Int) : (s.sendPacket p ssrc seq cap bytes now).1.paused = s.paused :=
  (sendPacket_frame ..).2.1

@[simp] theorem sendPacket_paddingBudget (s : PacedSender) (p : Priority) (ssrc : UInt32)
    (seq : UInt16) (cap bytes now : Int) :
    (s.sendPacket p ssrc seq cap bytes now).1.paddingBudget = s.paddingBudget :=
  (sendPacket_frame ..).2.2.1

@[simp] theorem sendPacket_timeLastUpdate (s : PacedSender) (p : Priority) (ssrc : UInt32)
    (seq : UInt16) (cap bytes now : Int) :
    (s.sendPacket p ssrc seq cap bytes now).1.timeLastUpdate = s.timeLastUpdate :=
  (sendPacket_frame ..).2.2.2.1

@[simp] theorem sendPacket_phase (s : PacedSender) (p : Priority) (ssrc : UInt32) (seq : UInt16)
    (cap bytes now : Int) : (s.sendPacket p ssrc seq cap bytes now).1.phase = s.phase :=
  (sendPacket_frame ..).2.2.2.2

/-! ### `GetNextPacket` -/

/-- The band `GetNextPacket` takes its packet from, if any. -/
def nextPriority (s : PacedSender) (now : Int) : Option Priority :=
  if s.mediaBudget.bytesRemaining ≤ 0 then
    if now - s.timeLastSend > kMaxQueueTimeWithoutSendingMs then
      if !(s.packets .kHighPriority).empty then some .kHighPriority
      else if !(s.packets .kNormalPriority).empty then some .kNormalPriority
      else none
    else none
  else if !(s.packets .kHighPriority).empty then some .kHighPriority
  else if !(s.packets .kNormalPriority).empty then some .kNormalPriority
  else if !(s.packets .kLowPriority).empty then some .kLowPriority
  else none

theorem getNextPacket_eq (s : PacedSender) (now : Int) :
    s.getNextPacket now = (s.nextPriority now).map fun p => (p, s.getNextPacketFromList p now) := by
  unfold getNextPacket nextPriority
  split_ifs <;> rfl

/-- The band picked is non-empty and every band above it empty; past the budget it is only
taken after 30 ms without a send, and never the low band. -/
theorem nextPriority_some {s : PacedSender} {now : Int} {p : Priority}
    (h : s.nextPriority now = some p) :
    (s.packets p).packetList ≠ [] ∧
      (∀ q, p.rank < q.rank → (s.packets q).packetList = []) ∧
      (0 < s.mediaBudget.bytesRemaining ∨
        (kMaxQueueTimeWithoutSendingMs < now - s.timeLastSend ∧ p ≠ .kLowPriority)) := by
  unfold nextPriority at h
  split_ifs at h <;> cases h <;>
    refine ⟨by simp_all, fun q hq => by cases q <;> simp_all [Priority.rank], ?_⟩ <;>
    first | exact .inl (by omega) | exact .inr ⟨by assumption, by decide⟩

theorem nextPriority_of_empty {s : PacedSender} (h : ∀ q, (s.packets q).packetList = [])
    (now : Int) : s.nextPriority now = none := by
  simp [nextPriority, h]

/-- Nothing is picked only when the budget is spent and the override does not apply, or when
there is nothing to pick. -/
theorem nextPriority_none {s : PacedSender} {now : Int} (h : s.nextPriority now = none) :
    (0 < s.mediaBudget.bytesRemaining → ∀ q, (s.packets q).packetList = []) ∧
      (kMaxQueueTimeWithoutSendingMs < now - s.timeLastSend →
        (s.packets .kHighPriority).packetList = [] ∧ (s.packets .kNormalPriority).packetList = []) := by
  unfold nextPriority at h
  split_ifs at h <;> simp_all
  intro q; cases q <;> assumption

/-! ### `Process` -/

/-- The state after one turn of the loop popped band `p`. -/
theorem processLoop_of_some {s : PacedSender} {now d clock : Int} {p : Priority}
    (h : s.nextPriority clock = some p) :
    ∃ v, s.processLoop now d clock =
      ({ (s.updateMediaBytesSent (s.packets p).front.bytes clock).setPackets p
            (s.packets p).popFront with
          captureTimeMsLastSent := v
          phase := .sendingPacket now d },
        .timeToSendPacket p (s.packets p).front) := by
  simp only [processLoop, getNextPacket_eq, h, Option.map_some']
  exact ⟨_, rfl⟩

/-- The loop ends: padding is asked for when all bands are empty and both padding budgets are
positive, and the call returns otherwise. -/
theorem processLoop_of_none {s : PacedSender} {now d clock : Int}
    (h : s.nextPriority clock = none) :
    s.processLoop now d clock =
      if (s.packets .kHighPriority).packetList = [] ∧ (s.packets .kNormalPriority).packetList = [] ∧
          (s.packets .kLowPriority).packetList = [] ∧ 0 < s.paddingBudget.bytesRemaining ∧
          0 < s.padUpToBitrateBudget.bytesRemaining then
        ({ s with
            phase := .sendingPadding now d
              (min s.paddingBudget.bytesRemaining s.padUpToBitrateBudget.bytesRemaining) },
          .timeToSendPadding
            (min s.paddingBudget.bytesRemaining s.padUpToBitrateBudget.bytesRemaining))
      else ({ s with phase := .idle }, .none) := by
  simp only [processLoop, getNextPacket_eq, h, Option.map_none', PacketList.empty_iff, gt_iff_lt]

/-- What a turn of the loop leaves alone. -/
theorem processLoop_frame (s : PacedSender) (now d clock : Int) :
    (s.processLoop now d clock).1.enabled = s.enabled ∧
      (s.processLoop now d clock).1.paused = s.paused ∧
      (s.processLoop now d clock).1.paddingBudget = s.paddingBudget ∧
      (s.processLoop now d clock).1.timeLastUpdate = s.timeLastUpdate := by
  cases h : s.nextPriority clock with
  | none => rw [processLoop_of_none h]; split_ifs <;> exact ⟨rfl, rfl, rfl, rfl⟩
  | some p => obtain ⟨v, hv⟩ := @processLoop_of_some s now d clock p h; rw [hv]; simp

@[simp] theorem processLoop_enabled (s : PacedSender) (now d clock : Int) :
    (s.processLoop now d clock).1.enabled = s.enabled := (processLoop_frame ..).1

@[simp] theorem processLoop_paused (s : PacedSender) (now d clock : Int) :
    (s.processLoop now d clock).1.paused = s.paused := (processLoop_frame ..).2.1

@[simp] theorem processLoop_paddingBudget (s : PacedSender) (now d clock : Int) :
    (s.processLoop now d clock).1.paddingBudget = s.paddingBudget := (processLoop_frame ..).2.2.1

@[simp] theorem processLoop_timeLastUpdate (s : PacedSender) (now d clock : Int) :
    (s.processLoop now d clock).1.timeLastUpdate = s.timeLastUpdate := (processLoop_frame ..).2.2.2

/-- A turn of the loop either pops the head of one band, hands it to `TimeToSendPacket` and
debits its size from the media and pad-up-to budgets, or leaves bands and budgets alone. -/
theorem processLoop_cases (s : PacedSender) (now d clock : Int) :
    ((s.processLoop now d clock).1.packets = s.packets ∧
        (s.processLoop now d clock).1.mediaBudget = s.mediaBudget ∧
        (s.processLoop now d clock).1.padUpToBitrateBudget = s.padUpToBitrateBudget ∧
        ∀ p pkt, (s.processLoop now d clock).2 ≠ .timeToSendPacket p pkt) ∨
      ∃ q, (s.packets q).packetList ≠ [] ∧
        (s.processLoop now d clock).2 = .timeToSendPacket q (s.packets q).front ∧
        (s.processLoop now d clock).1.packets = Function.update s.packets q (s.packets q).popFront ∧
        (s.processLoop now d clock).1.mediaBudget = s.mediaBudget.useBudget (s.packets q).front.bytes ∧
        (s.processLoop now d clock).1.padUpToBitrateBudget =
          s.padUpToBitrateBudget.useBudget (s.packets q).front.bytes := by
  cases h : s.nextPriority clock with
  | none => left; rw [processLoop_of_none h]; split_ifs <;> simp
  | some p =>
    obtain ⟨v, hv⟩ := @processLoop_of_some s now d clock p h
    exact .inr ⟨p, (nextPriority_some h).1, by simp [hv]⟩

/-- A turn of the loop leaves the call's frame in place, waiting on `TimeToSendPacket` or
`TimeToSendPadding`, or ends the call. -/
theorem processLoop_phase (s : PacedSender) (now d clock : Int) :
    (s.processLoop now d clock).1.phase = .sendingPacket now d ∨
      (∃ need, (s.processLoop now d clock).1.phase = .sendingPadding now d need) ∨
      (s.processLoop now d clock).1.phase = .idle := by
  cases h : s.nextPriority clock with
  | none => rw [processLoop_of_none h]; split_ifs <;> simp
  | some p => obtain ⟨v, hv⟩ := @processLoop_of_some s now d clock p h; simp [hv]

/-- `Process` goes past its first check: not paused, and time has passed, as the `int`
elapsed time reads it. -/
def Runs (s : PacedSender) (now : Int) : Prop :=
  s.paused = false ∧ 0 < toInt32 (now - s.timeLastUpdate)

instance (s : PacedSender) (now : Int) : Decidable (s.Runs now) := inferInstanceAs (Decidable (_ ∧ _))

/-- The refill interval of a `Process` call at `now`. -/
def deltaAt (s : PacedSender) (now : Int) : Int :=
  min kMaxIntervalTimeMs (toInt32 (now - s.timeLastUpdate))

/-- The state `Process` at `now` starts its loop in: clock noted and budgets refilled. -/
def refilled (s : PacedSender) (now : Int) : PacedSender :=
  { s with timeLastUpdate := now }.updateBytesPerInterval (s.deltaAt now)

@[simp] theorem refilled_packets (s : PacedSender) (now : Int) :
    (s.refilled now).packets = s.packets := rfl

theorem process_of_runs {s : PacedSender} {now : Int} (h : s.Runs now) :
    s.process now = (s.refilled now).processLoop now (s.deltaAt now) now := by
  simp [process, refilled, deltaAt, h.1, h.2]

theorem process_of_skip {s : PacedSender} {now : Int} (h : ¬ s.Runs now) :
    s.process now = ({ s with timeLastUpdate := now }, .none) := by
  simp only [Runs, not_and_or] at h
  unfold process
  rcases h with h | h <;> simp [h]

theorem deltaAt_pos {s : PacedSender} {now : Int} (h : s.Runs now) : 0 < s.deltaAt now := by
  simp only [deltaAt, kMaxIntervalTimeMs]; have := h.2; omega

theorem deltaAt_le (s : PacedSender) (now : Int) : s.deltaAt now ≤ 30 := by
  simp only [deltaAt, kMaxIntervalTimeMs]; omega

@[simp] theorem process_enabled (s : PacedSender) (now : Int) :
    (s.process now).1.enabled = s.enabled := by
  by_cases h : s.Runs now
  · simp [process_of_runs h, refilled]
  · simp [process_of_skip h]

@[simp] theorem process_paused (s : PacedSender) (now : Int) :
    (s.process now).1.paused = s.paused := by
  by_cases h : s.Runs now
  · simp [process_of_runs h, refilled]
  · simp [process_of_skip h]

end PacedSender

end Pacing
