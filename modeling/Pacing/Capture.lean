import Pacing.System
import Mathlib.Algebra.Order.Group.MinMax

/-
Capture times, and what `QueueInMs` measures.

`QueueInMs` looks only at the head of each band, and reports how long ago the
oldest of the three heads was captured, or 0 when none is older than the clock
(`queueInMs_eq`), as an `int`: an age of `2 ^ 31` ms or more wraps.  That is the
age of the oldest packet the pacer holds only
when every band lists its packets in the order of their capture times.
`push_back` appends and `pop_front` takes the head, so a band keeps that order as
long as no `SendPacket` call is given a packet older than one already queued:
capture times stamped by one clock, and no old packet sent again with its
original capture time.  In every run of such a producer, `QueueInMs` is the age
of the oldest queued packet (`queueInMs_oldest_queued`).  A packet queued behind
newer ones is not seen until the packets ahead of it have left.  For the same
producer, the `last_packet` flag of `GetNextPacketFromList`, on which `Process`
ends the trace of a frame, is true exactly when no packet of the released one's
capture time is left in its band (`lastPacket_iff_last_of_capture_time`).
-/

namespace Pacing

open PacedSender

variable {cfg : Config}

/-! ### Bands in capture order -/

/-- A band lists its packets in the order of their capture times. -/
def CaptureSorted (l : List Packet) : Prop := l.Pairwise fun a b => a.captureTimeMs ≤ b.captureTimeMs

/-- Every band lists its packets in the order of their capture times. -/
def PacedSender.CaptureOrdered (s : PacedSender) : Prop := ∀ q, CaptureSorted (s.packets q).packetList

/-- The producer stamps in order: a `SendPacket` call is given a packet no older than any packet
queued when it is made. -/
def Action.InCaptureOrder (s : PacedSender) : Action → Prop
  | .sendPacket _ ssrc seq cap bytes now =>
    ∀ q, ∀ pkt ∈ (s.packets q).packetList,
      pkt.captureTimeMs ≤ (Packet.ofSendPacket ssrc seq cap bytes now).captureTimeMs
  | _ => True

instance (s : PacedSender) : DecidablePred (Action.InCaptureOrder s)
  | .sendPacket _ ssrc seq cap bytes now =>
    inferInstanceAs (Decidable (∀ q, ∀ pkt ∈ (s.packets q).packetList,
      pkt.captureTimeMs ≤ (Packet.ofSendPacket ssrc seq cap bytes now).captureTimeMs))
  | .setStatus _ | .pause | .resume | .updateBitrate _ _ | .process _ | .packetSent _
  | .paddingSent _ => isTrue trivial

/-- `push_back` of a packet no older than any in the band keeps it sorted, whether it appends
the packet or drops it. -/
theorem captureSorted_pushBack {l : PacketList} (h : CaptureSorted l.packetList) {p : Packet}
    (hp : ∀ x ∈ l.packetList, x.captureTimeMs ≤ p.captureTimeMs) :
    CaptureSorted (l.pushBack p).packetList := by
  unfold PacketList.pushBack
  split
  · exact h
  · exact List.pairwise_append.mpr ⟨h, List.pairwise_singleton _ _,
      fun x hx y hy => (List.mem_singleton.mp hy) ▸ hp x hx⟩

theorem captureSorted_popFront {l : PacketList} (h : CaptureSorted l.packetList) :
    CaptureSorted l.popFront.packetList := by
  rw [PacketList.popFront_packetList]
  exact h.sublist (List.tail_sublist _)

/-- Replacing one band by a sorted one keeps every band sorted. -/
theorem captureSorted_update {P : Priority → PacketList} (h : ∀ q, CaptureSorted (P q).packetList)
    {q : Priority} {l : PacketList} (hl : CaptureSorted l.packetList) (x : Priority) :
    CaptureSorted (Function.update P q l x).packetList := by
  by_cases hx : x = q
  · subst hx; simpa using hl
  · simpa [hx] using h x

theorem captureOrdered_processLoop {t : PacedSender} (h : t.CaptureOrdered) (now d clock : Int) :
    (t.processLoop now d clock).1.CaptureOrdered := fun x => by
  rcases processLoop_cases t now d clock with ⟨hp, -⟩ | ⟨q, -, -, hp, -⟩ <;> rw [hp]
  · exact h x
  · exact captureSorted_update h (captureSorted_popFront (h q)) x

/-- **Every step of an in-order producer's run keeps the bands in capture order.** -/
theorem captureOrdered_step {s : PacedSender} (h : s.CaptureOrdered) {a : Action}
    (ha : a.InCaptureOrder s) : (step cfg s a).1.CaptureOrdered := by
  cases a with
  | sendPacket p ssrc seq cap bytes now =>
    rcases sendPacket_cases s p ssrc seq cap bytes now with ⟨hs, -⟩ | ⟨-, -, v, hs⟩
    · simpa [CaptureOrdered, Pacing.step, hs] using h
    · intro x
      simp only [Pacing.step, hs]
      exact captureSorted_update h (captureSorted_pushBack (h _) (ha _)) x
  | process now =>
    rcases step_process_cases s now with ⟨-, -, hs⟩ | ⟨-, -, hs⟩ | ⟨-, hs⟩ <;> rw [hs]
    · exact captureOrdered_processLoop (t := s.refilled now) h _ _ _
    all_goals exact h
  | packetSent clock =>
    rcases step_packetSent_cases s clock with ⟨now, d, -, hs⟩ | ⟨-, hs⟩ <;> rw [hs]
    · exact captureOrdered_processLoop h _ _ _
    · exact h
  | paddingSent n => intro q; rw [(step_paddingSent s n).1]; exact h q
  | setStatus | pause | resume | updateBitrate => exact h

/-- In a band in capture order the head is the oldest packet. -/
theorem CaptureSorted.front_le {l : PacketList} (h : CaptureSorted l.packetList) {pkt : Packet}
    (hp : pkt ∈ l.packetList) : l.front.captureTimeMs ≤ pkt.captureTimeMs := by
  obtain ⟨x, rest, hl⟩ := List.exists_cons_of_ne_nil (List.ne_nil_of_mem hp)
  rw [PacketList.front_eq hl]
  rw [hl, CaptureSorted, List.pairwise_cons] at h
  rw [hl] at hp
  rcases List.mem_cons.mp hp with rfl | hp
  · exact le_rfl
  · exact h.1 pkt hp

/-- An in-order producer's run from construction keeps every band in capture order. -/
theorem captureOrdered_run (cfg : Config) (target now : Int) (acts : List Action)
    (hin : ∀ x ∈ trace cfg (PacedSender.new cfg target now) acts, x.2.1.InCaptureOrder x.1) :
    (run cfg (PacedSender.new cfg target now) acts).CaptureOrdered :=
  run_trace_induction (fun _ => List.Pairwise.nil) fun x hx h => captureOrdered_step h (hin x hx)

/-! ### `QueueInMs` -/

/-- The age at `nowMs` of the head of band `q`, or 0 when the band is empty. -/
def PacedSender.headAge (s : PacedSender) (nowMs : Int) (q : Priority) : Int :=
  if (s.packets q).packetList ≠ [] then nowMs - (s.packets q).front.captureTimeMs else 0

/-- **What `QueueInMs` computes**: the largest age of a head of a band, or 0, as an `int`. -/
theorem queueInMs_eq (s : PacedSender) (nowMs : Int) :
    s.queueInMs nowMs = toInt32 (max (max (max 0 (s.headAge nowMs .kHighPriority))
      (s.headAge nowMs .kNormalPriority)) (s.headAge nowMs .kLowPriority)) := by
  unfold queueInMs headAge
  simp only [Bool.not_eq_true', PacketList.empty_eq_false_iff]
  congr 1
  split_ifs <;> simp only [← max_sub_sub_left, sub_self, max_self] <;> omega

/-- While no head is `2 ^ 31` ms old, the `int` holds that age as it is. -/
theorem queueInMs_of_lt {s : PacedSender} {nowMs : Int} (h : ∀ q, s.headAge nowMs q < 2 ^ 31) :
    s.queueInMs nowMs = max (max (max 0 (s.headAge nowMs .kHighPriority))
      (s.headAge nowMs .kNormalPriority)) (s.headAge nowMs .kLowPriority) := by
  have := h .kHighPriority; have := h .kNormalPriority; have := h .kLowPriority
  rw [queueInMs_eq, toInt32_of_lt (by omega) (by omega)]

/-- **`QueueInMs` is the age of the oldest queued packet, for a producer that stamps in order.**
In every run from construction in which no `SendPacket` call is given a packet older than one
then queued, `QueueInMs` at any clock at which no queued packet is `2 ^ 31` ms old (older ages
wrap in the `int` it returns) is the largest age of a packet the pacer holds, or 0 when none is
older than the clock. -/
theorem queueInMs_oldest_queued (cfg : Config) (target now : Int) (acts : List Action)
    (hin : ∀ x ∈ trace cfg (PacedSender.new cfg target now) acts, x.2.1.InCaptureOrder x.1)
    (nowMs : Int)
    (hage : ∀ q, ∀ pkt ∈ ((run cfg (PacedSender.new cfg target now) acts).packets q).packetList,
      nowMs - pkt.captureTimeMs < 2 ^ 31) :
    0 ≤ (run cfg (PacedSender.new cfg target now) acts).queueInMs nowMs ∧
      (∀ q, ∀ pkt ∈ ((run cfg (PacedSender.new cfg target now) acts).packets q).packetList,
        nowMs - pkt.captureTimeMs ≤ (run cfg (PacedSender.new cfg target now) acts).queueInMs nowMs) ∧
      ((run cfg (PacedSender.new cfg target now) acts).queueInMs nowMs = 0 ∨
        ∃ q, ∃ pkt ∈ ((run cfg (PacedSender.new cfg target now) acts).packets q).packetList,
          (run cfg (PacedSender.new cfg target now) acts).queueInMs nowMs = nowMs - pkt.captureTimeMs) := by
  have hord := captureOrdered_run cfg target now acts hin
  have hQ := @queueInMs_of_lt (run cfg (PacedSender.new cfg target now) acts) nowMs fun q => by
    unfold headAge
    split_ifs with h
    · exact hage q _ (PacketList.front_mem h)
    · omega
  have hhead : ∀ q, (run cfg (PacedSender.new cfg target now) acts).headAge nowMs q ≤
      (run cfg (PacedSender.new cfg target now) acts).queueInMs nowMs := fun q => by
    cases q <;> omega
  refine ⟨by omega, fun q pkt hp => ?_, ?_⟩
  · -- the head of a band in capture order is its oldest packet
    have h1 := (hord q).front_le hp
    have h2 := hhead q
    rw [headAge, if_pos (List.ne_nil_of_mem hp)] at h2
    omega
  · -- a positive value that no queued packet's age reaches would exceed every head's age
    by_contra hne
    push_neg at hne
    have hlt : ∀ q, (run cfg (PacedSender.new cfg target now) acts).headAge nowMs q <
        (run cfg (PacedSender.new cfg target now) acts).queueInMs nowMs := fun q => by
      have := hhead q
      unfold headAge at this ⊢
      split_ifs at this ⊢ with h
      · exact lt_of_le_of_ne this (hne.2 q _ (PacketList.front_mem h)).symm
      · omega
    have := hlt .kHighPriority
    have := hlt .kNormalPriority
    have := hlt .kLowPriority
    omega

/-! ### The last packet of a capture time -/

/-- In a band in capture order, the flag `GetNextPacketFromList` computes for the head (nothing
left, or the new head captured later) says that no packet of the head's capture time is left. -/
theorem CaptureSorted.lastPacket_iff {l : PacketList} (h : CaptureSorted l.packetList) :
    (l.popFront.empty || decide (l.popFront.front.captureTimeMs > l.front.captureTimeMs)) = true ↔
      ∀ x ∈ l.popFront.packetList, x.captureTimeMs ≠ l.front.captureTimeMs := by
  rcases hl : l.packetList with _ | ⟨p, _ | ⟨y, ys⟩⟩
  · simp [PacketList.empty, hl]
  · simp [PacketList.empty, hl]
  · rw [hl, CaptureSorted, List.pairwise_cons, List.pairwise_cons] at h
    simp only [PacketList.empty, PacketList.front, PacketList.popFront_packetList, hl,
      List.tail_cons, List.isEmpty_cons, List.headD_cons, Bool.false_or, decide_eq_true_eq]
    constructor
    · intro hy x hx
      rcases List.mem_cons.mp hx with rfl | hx
      · omega
      · have := h.2.1 x hx; omega
    · intro hne
      exact lt_of_le_of_ne (h.1 y (List.mem_cons_self _ _)) (hne y (List.mem_cons_self _ _)).symm

/-- **`last_packet` marks the last packet of its capture time, for a producer that stamps in
order.** In every run from construction in which no `SendPacket` call is given a packet older
than one then queued, `GetNextPacketFromList` on the bands of a state of the run (which is what
`GetNextPacket` returns, `getNextPacket_eq`, before or after `Process` refills the budgets)
returns `last_packet` true exactly when no packet of the released one's capture time is left
in its band. -/
theorem lastPacket_iff_last_of_capture_time (cfg : Config) (target now : Int) (acts : List Action)
    (hin : ∀ x ∈ trace cfg (PacedSender.new cfg target now) acts, x.2.1.InCaptureOrder x.1)
    (t : PacedSender) (ht : t.packets = (run cfg (PacedSender.new cfg target now) acts).packets)
    (q : Priority) (clock : Int) :
    (t.getNextPacketFromList q clock).2.2 = true ↔
      ∀ x ∈ ((t.getNextPacketFromList q clock).1.packets q).packetList,
        x.captureTimeMs ≠ (t.getNextPacketFromList q clock).2.1.captureTimeMs := by
  have hq : CaptureSorted (t.packets q).packetList := by
    rw [ht]; exact captureOrdered_run cfg target now acts hin q
  simpa only [getNextPacketFromList, setPackets, updateMediaBytesSent, Function.update_same]
    using hq.lastPacket_iff

/-- Three packets of one frame and one of the next, queued while paused: the second of the
frame is not its last. -/
theorem lastPacket_iff_last_of_capture_time_example :
    (∀ x ∈ trace ⟨id⟩ (PacedSender.new ⟨id⟩ 800 0)
        [.setStatus true, .pause, .sendPacket .kNormalPriority 1 1 10 100 20,
          .sendPacket .kNormalPriority 1 2 10 100 20, .sendPacket .kNormalPriority 1 3 10 100 20,
          .sendPacket .kNormalPriority 1 4 40 100 45],
        x.2.1.InCaptureOrder x.1) ∧
    ((run ⟨id⟩ (PacedSender.new ⟨id⟩ 800 0)
        [.setStatus true, .pause, .sendPacket .kNormalPriority 1 1 10 100 20,
          .sendPacket .kNormalPriority 1 2 10 100 20, .sendPacket .kNormalPriority 1 3 10 100 20,
          .sendPacket .kNormalPriority 1 4 40 100 45]).getNextPacketFromList
        .kNormalPriority 50).2.2 = false :=
  ⟨by decide, Bool.eq_false_iff.mpr fun h =>
    (lastPacket_iff_last_of_capture_time ⟨id⟩ 800 0 _ (by decide) _ rfl .kNormalPriority 50).mp h
      ⟨1, 2, 10, 100⟩ (by decide) rfl⟩

/-- Two packets queued while paused, the low one in the normal band, and a third behind it. -/
theorem queueInMs_oldest_queued_example :
    (∀ x ∈ trace ⟨id⟩ (PacedSender.new ⟨id⟩ 800 0)
        [.setStatus true, .pause, .sendPacket .kHighPriority 1 1 10 100 20,
          .sendPacket .kLowPriority 1 2 12 100 20, .resume, .sendPacket .kNormalPriority 1 3 15 100 20],
        x.2.1.InCaptureOrder x.1) ∧
    ∀ q, ∀ pkt ∈ ((run ⟨id⟩ (PacedSender.new ⟨id⟩ 800 0)
        [.setStatus true, .pause, .sendPacket .kHighPriority 1 1 10 100 20,
          .sendPacket .kLowPriority 1 2 12 100 20, .resume,
          .sendPacket .kNormalPriority 1 3 15 100 20]).packets q).packetList,
      50 - pkt.captureTimeMs ≤ (run ⟨id⟩ (PacedSender.new ⟨id⟩ 800 0)
        [.setStatus true, .pause, .sendPacket .kHighPriority 1 1 10 100 20,
          .sendPacket .kLowPriority 1 2 12 100 20, .resume,
          .sendPacket .kNormalPriority 1 3 15 100 20]).queueInMs 50 :=
  ⟨by decide, (queueInMs_oldest_queued ⟨id⟩ 800 0 _ (by decide) 50 (by decide)).2.1⟩

end Pacing
