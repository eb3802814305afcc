import Pacing.Queues
import Pacing.Priority
import Mathlib.Algebra.Order.BigOperators.Group.Finset
import Mathlib.Data.List.Chain

/-
The queues drain under a regular driver.

The driver thread calls `Process` again and again.  When the callbacks a call
starts return at once and no other thread takes the lock, a call refills the
media budget for `min(elapsed, 30)` ms and then hands out packets while the budget
is positive, or once through the starvation override.  If the calls are at least
`dmin` ms apart and one refill of `dmin` ms is worth at least a byte, every call
that finds a packet queued makes progress: either its refill leaves the budget
positive and it hands out a packet, or the budget is in debt and the refill pays
at least a byte of it.  A packet handed out may push the budget into debt, but
never below the debt floor `-F` (`F = 100 * R / 8`).  So the measure

    μ = n · (F + 1) + D

(`n` the packets queued, `D` the media budget's debt) falls by at least one at
every call while a packet waits, and `μ` calls hand out every packet that was
queued, each band in its order (`driver_drains_queues`).  `Process` keeps its elapsed time in
an `int`, so a call `2 ^ 31` ms or more after the last one may skip its refill and its loop:
the calls are taken less than that apart.  The module's process thread, which
sleeps what `TimeUntilNextProcess` asks before each call, spaces its calls 5 ms apart, so it
drains the queues at every media rate of 2 kbps or more (`process_thread_drains_queues`).

The other side: the pacer never holds a packet back while it may send.  Outside a call's packet
loop, a positive media budget finds every band empty in every run that never pauses
(`no_packet_held_back`).
-/

namespace Pacing

open PacedSender IntervalBudget

variable {cfg : Config}

/-! ### The driver -/

/-- The critical sections of one `Process` call of the driver at clock `call.1`, when every
callback returns at once and no other thread takes the lock: the call's start, a re-entry after
each `TimeToSendPacket` (`turns` of them), and the re-entry after `TimeToSendPadding`, which
reports `call.2` bytes sent.  A re-entry that finds no callback under way does nothing
(`step_packetSent_cases`, `step_paddingSent_cases`), so `turns` only has to be large enough. -/
def callActions (turns : Nat) (call : Int × Int) : List Action :=
  .process call.1 :: (List.replicate turns (.packetSent call.1) ++ [.paddingSent call.2])

/-- The driver's calls, one after the other. -/
def driverActions (turns : Nat) (calls : List (Int × Int)) : List Action :=
  calls.flatMap (callActions turns)

@[simp] theorem driverActions_nil (turns : Nat) : driverActions turns [] = [] := rfl

@[simp] theorem driverActions_cons (turns : Nat) (call : Int × Int) (calls : List (Int × Int)) :
    driverActions turns (call :: calls) = callActions turns call ++ driverActions turns calls :=
  List.flatMap_cons ..

/-- The driver's calls queue no packet. -/
theorem acceptedInto_driverActions {turns : Nat} {calls : List (Int × Int)} {a : Action}
    (ha : a ∈ driverActions turns calls) (s : PacedSender) (q : Priority) : s.acceptedInto a q = [] := by
  simp only [driverActions, callActions, List.mem_flatMap, List.mem_cons, List.mem_append,
    List.mem_replicate, List.mem_singleton, List.not_mem_nil, or_false] at ha
  obtain ⟨_, -, rfl | ⟨-, rfl⟩ | rfl⟩ := ha <;> rfl

/-- A refill of `dmin ≥ 0` ms that buys a byte is made at a positive rate. -/
theorem rate_nonneg_of_credit {r dmin : Int} (hd : 0 ≤ dmin) (hc : 1 ≤ credit r dmin) : 0 ≤ r := by
  by_contra hneg
  have := credit_nonpos (le_of_lt (not_le.mp hneg)) hd
  omega

/-! ### The measure -/

/-- The packets the bands hold. -/
def PacedSender.queued (s : PacedSender) : Nat := ∑ q, (s.packets q).packetList.length

/-- The measure of the drain: every queued packet may cost the debt floor's worth of calls and
one more, and the media budget's debt is paid off first. -/
def PacedSender.drainCalls (s : PacedSender) : Int :=
  s.queued * (1 - debtFloor s.mediaBudget.targetRateKbps) + max 0 (-s.mediaBudget.bytesRemaining)

theorem queued_eq_zero_iff (s : PacedSender) : s.queued = 0 ↔ ∀ q, (s.packets q).packetList = [] := by
  simp [queued, Finset.sum_eq_zero_iff]

/-- Popping a non-empty band takes one packet from the count. -/
theorem sum_length_update_popFront (P : Priority → PacketList) {q : Priority}
    (h : (P q).packetList ≠ []) :
    ∑ x, (Function.update P q (P q).popFront x).packetList.length + 1 =
      ∑ x, (P x).packetList.length := by
  have hrest : ∑ x ∈ Finset.univ.erase q, (Function.update P q (P q).popFront x).packetList.length =
      ∑ x ∈ Finset.univ.erase q, (P x).packetList.length :=
    Finset.sum_congr rfl fun x hx => by rw [Function.update_noteq (Finset.ne_of_mem_erase hx)]
  have hlen : (P q).popFront.packetList.length + 1 = (P q).packetList.length := by
    rw [PacketList.popFront_packetList, List.length_tail]
    have := List.length_pos.mpr h
    omega
  rw [← Finset.add_sum_erase _ _ (Finset.mem_univ q),
    ← Finset.add_sum_erase _ (fun x => (P x).packetList.length) (Finset.mem_univ q), hrest,
    Function.update_same]
  omega

section turn

variable {t : PacedSender} {now d clock : Int}

/-- A state that has one packet fewer than `t`, the same media rate, and a budget not below the
floor has a measure below what the packets of `t` alone account for. -/
theorem drainCalls_lt_of_pop {t' : PacedSender} (hR : 0 ≤ t.mediaBudget.targetRateKbps)
    (hq : t'.queued + 1 = t.queued) (hrate : t'.mediaBudget.targetRateKbps = t.mediaBudget.targetRateKbps)
    (hfloor : debtFloor t'.mediaBudget.targetRateKbps ≤ t'.mediaBudget.bytesRemaining) :
    t'.drainCalls + 1 ≤ t.queued * (1 - debtFloor t.mediaBudget.targetRateKbps) := by
  have hF := debtFloor_nonpos hR
  have hcount : (t.queued : Int) * (1 - debtFloor t.mediaBudget.targetRateKbps) =
      t'.queued * (1 - debtFloor t.mediaBudget.targetRateKbps) + (1 - debtFloor t.mediaBudget.targetRateKbps) := by
    rw [← hq]; push_cast; ring
  rw [hrate] at hfloor
  unfold drainCalls
  rw [hrate]
  omega

/-- A turn of the loop that finds nothing to send leaves bands and budgets alone, and ends the
packet loop: it returns, or asks for padding with every band empty. -/
theorem processLoop_drain_of_none (hn : t.nextPriority clock = none) :
    (t.processLoop now d clock).1.packets = t.packets ∧
      (t.processLoop now d clock).1.mediaBudget = t.mediaBudget ∧
      (∀ now' d', (t.processLoop now d clock).1.phase ≠ .sendingPacket now' d') ∧
      ∀ now' d' need, (t.processLoop now d clock).1.phase = .sendingPadding now' d' need →
        ∀ q, (t.packets q).packetList = [] := by
  rw [processLoop_of_none hn]
  split_ifs with h
  · refine ⟨rfl, rfl, fun _ _ => by simp, fun _ _ _ _ q => ?_⟩
    cases q
    exacts [h.1, h.2.1, h.2.2.1]
  · exact ⟨rfl, rfl, fun _ _ => by simp, fun _ _ _ h => by simp at h⟩

/-- A turn of the loop that hands out a packet takes it from the count and may leave the budget
in debt, but no deeper than the floor: the measure after it is below what the packets queued
before it alone account for. -/
theorem processLoop_drain_of_some {p : Priority} (hR : 0 ≤ t.mediaBudget.targetRateKbps)
    (hp : t.nextPriority clock = some p) :
    (t.processLoop now d clock).1.phase = .sendingPacket now d ∧
      (t.processLoop now d clock).1.mediaBudget.targetRateKbps = t.mediaBudget.targetRateKbps ∧
      (t.processLoop now d clock).1.queued + 1 = t.queued ∧
      (t.processLoop now d clock).1.drainCalls + 1 ≤
        t.queued * (1 - debtFloor t.mediaBudget.targetRateKbps) := by
  obtain ⟨v, hv⟩ := @processLoop_of_some t now d clock p hp
  have hm : (t.processLoop now d clock).1.mediaBudget =
      t.mediaBudget.useBudget (t.packets p).front.bytes := by rw [hv]; rfl
  have hq : (t.processLoop now d clock).1.queued + 1 = t.queued := by
    rw [hv]; exact sum_length_update_popFront t.packets (nextPriority_some hp).1
  have hrate : (t.processLoop now d clock).1.mediaBudget.targetRateKbps =
      t.mediaBudget.targetRateKbps := by rw [hm]; rfl
  exact ⟨by rw [hv], hrate, hq,
    drainCalls_lt_of_pop hR hq hrate (by rw [hm, useBudget_targetRateKbps]; exact debtFloor_le_useBudget _ _)⟩

/-- The measure is at least what the queued packets account for. -/
theorem queued_mul_le_drainCalls (t : PacedSender) :
    t.queued * (1 - debtFloor t.mediaBudget.targetRateKbps) ≤ t.drainCalls := by
  unfold drainCalls; omega

end turn

/-! ### One call -/

/-- Where a driver's call at `now` from `s` stands once its first critical section has run:
rate, pause flag and noted clock as the call left them, no packet added, and either every band
empty or the measure at least one below the call's start.  While the packet loop is under way,
fewer packets are queued than re-entries remain (`left`), so the re-entries see the loop end. -/
structure PacedSender.CallProgress (s : PacedSender) (now : Int) (left : Nat) (t : PacedSender) :
    Prop where
  rate : t.mediaBudget.targetRateKbps = s.mediaBudget.targetRateKbps
  paused : t.paused = s.paused
  clock : t.timeLastUpdate = now
  queued_le : t.queued ≤ s.queued
  progress : t.queued = 0 ∨ t.drainCalls + 1 ≤ s.drainCalls
  loop : ∀ now' d', t.phase = .sendingPacket now' d' → t.queued < left
  padding : ∀ now' d' need, t.phase = .sendingPadding now' d' need → t.queued = 0

section call

variable {s t : PacedSender} {now : Int} {k : Nat}

/-- A call outside its packet loop needs no more re-entries. -/
theorem PacedSender.CallProgress.of_not_sending (h : s.CallProgress now (k + 1) t)
    (hph : ∀ now' d', t.phase ≠ .sendingPacket now' d') : s.CallProgress now k t :=
  { h with loop := fun _ _ hp => absurd hp (hph _ _) }

/-- **A turn of the loop keeps the call's progress**, and uses up a re-entry. -/
theorem PacedSender.CallProgress.turn (h : s.CallProgress now (k + 1) t)
    (hR : 0 ≤ s.mediaBudget.targetRateKbps) {now' d' : Int} (hph : t.phase = .sendingPacket now' d')
    (clock : Int) : s.CallProgress now k (t.processLoop now' d' clock).1 := by
  cases hn : t.nextPriority clock with
  | none =>
    obtain ⟨hpk, hmb, hnot, hpad⟩ := @processLoop_drain_of_none t now' d' clock hn
    have hq : (t.processLoop now' d' clock).1.queued = t.queued := by simp only [queued, hpk]
    have hΦ : (t.processLoop now' d' clock).1.drainCalls = t.drainCalls := by
      simp only [drainCalls, hq, hmb]
    exact ⟨hmb ▸ h.rate, by simp [h.paused], by simp [h.clock], hq ▸ h.queued_le,
      hq ▸ hΦ ▸ h.progress, fun _ _ hp => absurd hp (hnot _ _),
      fun _ _ _ hp => hq ▸ (queued_eq_zero_iff t).mpr (hpad _ _ _ hp)⟩
  | some p =>
    obtain ⟨hph', hrate, hq, hΦ⟩ := @processLoop_drain_of_some t now' d' clock p (h.rate ▸ hR) hn
    have hΦt := queued_mul_le_drainCalls t
    have hprog : t.drainCalls + 1 ≤ s.drainCalls := h.progress.resolve_left (by omega)
    have hloop := h.loop _ _ hph
    have hle := h.queued_le
    exact ⟨hrate.trans h.rate, by simp [h.paused], by simp [h.clock], by omega, .inr (by omega),
      fun _ _ _ => by omega, fun _ _ _ hp => by simp [hph'] at hp⟩

/-- The re-entries after `TimeToSendPacket` keep the call's progress and see its loop end. -/
theorem PacedSender.CallProgress.reentries (h : s.CallProgress now k t)
    (hR : 0 ≤ s.mediaBudget.targetRateKbps) (clock : Int) :
    s.CallProgress now 0 (run cfg t (List.replicate k (.packetSent clock))) := by
  induction k generalizing t with
  | zero => exact h
  | succ k ih =>
    rw [List.replicate_succ, run_cons]
    apply ih
    rcases step_packetSent_cases t clock with ⟨now', d', hph, hs⟩ | ⟨hph, hs⟩ <;> rw [hs]
    · exact h.turn hR hph clock
    · exact h.of_not_sending hph

/-- **The first critical section of a call makes progress.**  A call at least `dmin` ms after
the last one refills at least a byte: if that leaves the budget positive it hands out a packet,
and otherwise the refill has paid a byte of the debt. -/
theorem callProgress_process {dmin : Int} (hi : s.phase = .idle) (hp : s.paused = false)
    (hd : 1 ≤ dmin) (hd30 : dmin ≤ kMaxIntervalTimeMs)
    (hc : 1 ≤ credit s.mediaBudget.targetRateKbps dmin)
    (hnow : s.timeLastUpdate + dmin ≤ now ∧ now < s.timeLastUpdate + 2 ^ 31)
    (hturns : s.queued ≤ k) : s.CallProgress now k (step cfg s (.process now)).1 := by
  have hR := rate_nonneg_of_credit (by omega) hc
  -- a gap an `int` holds is the elapsed time itself
  have hel : toInt32 (now - s.timeLastUpdate) = now - s.timeLastUpdate :=
    toInt32_of_lt (by omega) (by omega)
  have hδ : dmin ≤ s.deltaAt now := by rw [deltaAt, hel]; omega
  have hcδ : 1 ≤ credit s.mediaBudget.targetRateKbps (s.deltaAt now) :=
    hc.trans (credit_mono hR le_rfl (by omega) hδ)
  rw [step_process_of_idle hi, process_of_runs ⟨hp, by rw [hel]; omega⟩]
  have hrq : (s.refilled now).queued = s.queued := rfl
  have hrm : (s.refilled now).mediaBudget = s.mediaBudget.increaseBudget (s.deltaAt now) := rfl
  have hrate : (s.refilled now).mediaBudget.targetRateKbps = s.mediaBudget.targetRateKbps := by
    rw [hrm, increaseBudget_targetRateKbps]
  cases hn : (s.refilled now).nextPriority now with
  | none =>
    obtain ⟨hpk, hmb, hnot, hpad⟩ := @processLoop_drain_of_none _ now (s.deltaAt now) now hn
    have hq : ((s.refilled now).processLoop now (s.deltaAt now) now).1.queued = s.queued := by
      simp only [queued, hpk, refilled_packets]
    refine ⟨by rw [hmb, hrate], by simp [refilled], by simp [refilled], hq.le, ?_,
      fun _ _ hp => absurd hp (hnot _ _), fun _ _ _ hp => hq ▸ (queued_eq_zero_iff s).mpr (hpad _ _ _ hp)⟩
    -- nothing handed out: the budget is not positive, so the refill went to the debt
    by_cases hq0 : s.queued = 0
    · exact .inl (hq.trans hq0)
    have hspent : ¬ 0 < (s.refilled now).mediaBudget.bytesRemaining := fun hpos =>
      hq0 ((queued_eq_zero_iff s).mpr ((nextPriority_none hn).1 hpos))
    rw [hrm, increaseBudget_bytesRemaining] at hspent
    refine .inr ?_
    unfold drainCalls
    rw [hq, hmb, hrm, increaseBudget_targetRateKbps, increaseBudget_bytesRemaining]
    omega
  | some p =>
    obtain ⟨hph', hrate', hq, hΦ⟩ := @processLoop_drain_of_some _ now (s.deltaAt now) now p
      (hrate ▸ hR) hn
    have hΦs := queued_mul_le_drainCalls s
    rw [hrate, hrq] at hΦ
    exact ⟨hrate'.trans hrate, by simp [refilled], by simp [refilled], by omega, .inr (by omega),
      fun _ _ _ => by omega, fun _ _ _ hp => by simp [hph'] at hp⟩

/-- **A whole call makes progress and ends.**  With at least as many re-entries as packets
queued, the driver's call returns to idle, with its clock noted, no packet added, and every band
empty or the measure at least one lower. -/
theorem callProgress_call {dmin pad : Int} (hi : s.phase = .idle) (hp : s.paused = false)
    (hd : 1 ≤ dmin) (hd30 : dmin ≤ kMaxIntervalTimeMs)
    (hc : 1 ≤ credit s.mediaBudget.targetRateKbps dmin)
    (hnow : s.timeLastUpdate + dmin ≤ now ∧ now < s.timeLastUpdate + 2 ^ 31)
    (hturns : s.queued ≤ k) :
    s.CallProgress now 0 (run cfg s (callActions k (now, pad))) ∧
      (run cfg s (callActions k (now, pad))).phase = .idle := by
  have h : s.CallProgress now 0
      (run cfg (step cfg s (.process now)).1 (List.replicate k (.packetSent now))) :=
    (callProgress_process hi hp hd hd30 hc hnow hturns).reentries (rate_nonneg_of_credit (by omega) hc) now
  simp only [callActions, run_cons, run_append, run_nil]
  generalize run cfg (step cfg s (.process now)).1 (List.replicate k (.packetSent now)) = t at h ⊢
  rcases step_paddingSent_cases t pad with ⟨now', d', need, hph, hs⟩ | ⟨hph, hs⟩ <;> rw [hs]
  · -- padding is asked for only with every band empty
    exact ⟨⟨by simpa [paddingSent] using h.rate, by simpa [paddingSent] using h.paused,
      by simpa [paddingSent] using h.clock, h.queued_le, .inl (h.padding _ _ _ hph),
      fun _ _ hp => by simp [paddingSent] at hp, fun _ _ _ hp => by simp [paddingSent] at hp⟩, rfl⟩
  · refine ⟨h, ?_⟩
    cases hph' : t.phase with
    | idle => rfl
    | sendingPacket now' d' => exact absurd (h.loop _ _ hph') (Nat.not_lt_zero _)
    | sendingPadding now' d' need => exact absurd hph' (hph _ _ _)

end call

/-! ### Nothing is held back

The other side of the drain: the pacer never holds a packet back while it may send.  Once a
call's loop ends, `GetNextPacket` found the media budget spent or every band empty; `SendPacket`
queues only behind a packet or with the budget spent, and a debit of a size that is not
negative never raises the budget.  This is the invariant `Drained` that strict priority rests
on, here for every run that never pauses, with `SendPacket` called at any time: while disabled,
and from inside a callback.  Only `Pause()` breaks it, since a paused pacer queues every packet
whatever its budget. -/

/-- A critical section of a run that never pauses, with media rates, packet sizes and padding
reports that are not negative. -/
def Action.Unpaused (cfg : Config) : Action → Prop
  | .pause => False
  | .updateBitrate targetBitrateKbps _ => 0 ≤ cfg.paceRate targetBitrateKbps
  | .sendPacket _ _ _ _ bytes _ => 0 ≤ bytes
  | .paddingSent bytesSent => 0 ≤ bytesSent
  | .setStatus _ | .resume | .process _ | .packetSent _ => True

instance (cfg : Config) : DecidablePred (Action.Unpaused cfg)
  | .pause => isFalse id
  | .updateBitrate t _ => inferInstanceAs (Decidable (0 ≤ cfg.paceRate t))
  | .sendPacket _ _ _ _ bytes _ => inferInstanceAs (Decidable (0 ≤ bytes))
  | .paddingSent n => inferInstanceAs (Decidable (0 ≤ n))
  | .setStatus _ | .resume | .process _ | .packetSent _ => isTrue trivial

section unpaused

variable {s t : PacedSender}

/-- A debit of a size that is not negative never lifts a spent budget. -/
theorem PacedSender.Drained.debit (h : s.Drained) {n : Int} (hn : 0 ≤ n) (hp : t.paused = false)
    (hm : t.mediaBudget = s.mediaBudget.useBudget n) (hpk : t.packets = s.packets)
    (hph : ¬ t.phase.IsSendingPacket → ¬ s.phase.IsSendingPacket) : t.Drained := by
  have hF := debtFloor_nonpos h.rate_nonneg
  refine ⟨hp, by rw [hm]; exact h.rate_nonneg, fun hnot hpos => hpk ▸ h.empty_of_pos (hph hnot) ?_⟩
  rw [hm, useBudget_bytesRemaining] at hpos
  omega

/-- **Every critical section of a run that never pauses keeps the bands empty while the budget is
positive**, wherever `SendPacket` is called: while enabled or not, and from inside a callback. -/
theorem drained_step_unpaused (h : s.Drained) {a : Action} (ha : a.Unpaused cfg) :
    (step cfg s a).1.Drained := by
  cases a with
  | pause => exact ha.elim
  | setStatus e => exact h.of_frame rfl rfl rfl rfl
  | resume => exact ⟨rfl, h.rate_nonneg, h.empty_of_pos⟩
  | updateBitrate r u => exact ⟨h.unpaused, ha, h.empty_of_pos⟩
  | sendPacket p ssrc seq cap bytes now =>
    simp only [Pacing.step]
    rcases sendPacket_cases s p ssrc seq cap bytes now with ⟨hs, -⟩ | ⟨-, hq, v, hs⟩ <;> rw [hs]
    · exact h.debit ha h.unpaused rfl rfl id
    · -- queued behind a packet or with the budget spent
      refine ⟨h.unpaused, h.rate_nonneg, fun hn hpos => absurd (h.empty_of_pos hn hpos p) ?_⟩
      rcases hq with hq | hq | hq
      · simp [h.unpaused] at hq
      · exact hq
      · exact absurd hpos (not_lt.mpr hq)
  | process now =>
    rcases step_process_cases s now with ⟨-, -, hs⟩ | ⟨-, -, hs⟩ | ⟨-, hs⟩ <;> rw [hs]
    · exact drained_processLoop (t := s.refilled now) h.unpaused
        (by simpa [refilled] using h.rate_nonneg) ..
    · exact h.of_frame rfl rfl rfl rfl
    · exact h
  | packetSent clock =>
    rcases step_packetSent_cases s clock with ⟨now, d, -, hs⟩ | ⟨-, hs⟩ <;> rw [hs]
    · exact drained_processLoop h.unpaused h.rate_nonneg ..
    · exact h
  | paddingSent n =>
    rcases step_paddingSent_cases s n with ⟨now, d, need, hph, hs⟩ | ⟨-, hs⟩ <;> rw [hs]
    · exact h.debit ha h.unpaused rfl rfl fun _ => by simp [hph, Phase.IsSendingPacket]
    · exact h

end unpaused

/-- **The pacer holds no packet back while it has budget.**  In every run from construction that
never calls `Pause()`, with media rates, packet sizes and padding reports that are not negative,
at every reachable state outside a `Process` call's packet loop, a positive media budget finds
every band empty. -/
theorem no_packet_held_back (cfg : Config) (target now : Int) (acts : List Action)
    (hR : 0 ≤ cfg.paceRate target) (hacts : ∀ a ∈ acts, a.Unpaused cfg) :
    ¬ (run cfg (PacedSender.new cfg target now) acts).phase.IsSendingPacket →
      0 < (run cfg (PacedSender.new cfg target now) acts).mediaBudget.bytesRemaining →
      ∀ q, ((run cfg (PacedSender.new cfg target now) acts).packets q).packetList = [] :=
  (run_invariant (drained_new cfg target now hR) fun _ a ha ht =>
    drained_step_unpaused ht (hacts a ha)).empty_of_pos

/-- Two packets let through spend the budget, a third is queued, and the next `Process` call
refills 30 ms, sends it, and once its callback returns ends with budget left and every band
empty. -/
theorem no_packet_held_back_example :
    (run ⟨id⟩ (PacedSender.new ⟨id⟩ 800 0)
        [.setStatus true, .sendPacket .kHighPriority 1 1 0 100 0,
          .sendPacket .kNormalPriority 1 2 0 1000 0, .sendPacket .kNormalPriority 1 3 0 100 0,
          .process 30, .packetSent 30]).phase = .idle ∧
    0 < (run ⟨id⟩ (PacedSender.new ⟨id⟩ 800 0)
        [.setStatus true, .sendPacket .kHighPriority 1 1 0 100 0,
          .sendPacket .kNormalPriority 1 2 0 1000 0, .sendPacket .kNormalPriority 1 3 0 100 0,
          .process 30, .packetSent 30]).mediaBudget.bytesRemaining ∧
    ∀ q, ((run ⟨id⟩ (PacedSender.new ⟨id⟩ 800 0)
        [.setStatus true, .sendPacket .kHighPriority 1 1 0 100 0,
          .sendPacket .kNormalPriority 1 2 0 1000 0, .sendPacket .kNormalPriority 1 3 0 100 0,
          .process 30, .packetSent 30]).packets q).packetList = [] := by
  have hi : (run ⟨id⟩ (PacedSender.new ⟨id⟩ 800 0)
      [.setStatus true, .sendPacket .kHighPriority 1 1 0 100 0,
        .sendPacket .kNormalPriority 1 2 0 1000 0, .sendPacket .kNormalPriority 1 3 0 100 0,
        .process 30, .packetSent 30]).phase = .idle := by decide
  have hpos : 0 < (run ⟨id⟩ (PacedSender.new ⟨id⟩ 800 0)
      [.setStatus true, .sendPacket .kHighPriority 1 1 0 100 0,
        .sendPacket .kNormalPriority 1 2 0 1000 0, .sendPacket .kNormalPriority 1 3 0 100 0,
        .process 30, .packetSent 30]).mediaBudget.bytesRemaining := by decide
  exact ⟨hi, hpos, no_packet_held_back ⟨id⟩ 800 0 _ (by decide) (by decide)
    (by rw [hi]; exact id) hpos⟩

/-! ### The driver's run -/

section run

variable {s : PacedSender} {turns : Nat} {dmin : Int}

/-- **The driver's calls, one after another**: none adds a packet or changes the media rate, and
together they lower the measure by one a call while a packet waits. -/
theorem driver_run_progress (calls : List (Int × Int)) (hi : s.phase = .idle)
    (hp : s.paused = false) (hd : 1 ≤ dmin) (hd30 : dmin ≤ kMaxIntervalTimeMs)
    (hc : 1 ≤ credit s.mediaBudget.targetRateKbps dmin)
    (hspaced : List.Chain' (fun a b => a + dmin ≤ b ∧ b < a + 2 ^ 31)
      (s.timeLastUpdate :: calls.map Prod.fst))
    (hturns : s.queued ≤ turns) :
    (run cfg s (driverActions turns calls)).mediaBudget.targetRateKbps =
        s.mediaBudget.targetRateKbps ∧
      (run cfg s (driverActions turns calls)).queued ≤ s.queued ∧
      ((run cfg s (driverActions turns calls)).queued = 0 ∨
        (run cfg s (driverActions turns calls)).drainCalls + calls.length ≤ s.drainCalls) := by
  induction calls generalizing s with
  | nil => simp
  | cons call calls ih =>
    obtain ⟨now, pad⟩ := call
    rw [List.map_cons, List.chain'_cons] at hspaced
    obtain ⟨h1, hi1⟩ := @callProgress_call cfg s now turns dmin pad hi hp hd hd30 hc hspaced.1 hturns
    obtain ⟨hrate, hle, hprog⟩ := ih hi1 (h1.paused.trans hp) (h1.rate ▸ hc)
      (by rw [h1.clock]; exact hspaced.2) (h1.queued_le.trans hturns)
    rw [driverActions_cons, run_append]
    refine ⟨hrate.trans h1.rate, hle.trans h1.queued_le, ?_⟩
    rcases h1.progress with h0 | h1p
    · exact .inl (Nat.le_zero.mp (h0 ▸ hle))
    · rcases hprog with h0 | hΦ
      · exact .inl h0
      · right; simp only [List.length_cons]; push_cast; omega

end run

/-- The drain of a regular driver's run: every band empty after `drainCalls` calls, and each
band's releases exactly the packets it held. -/
theorem driver_empties_bands {s : PacedSender} {turns : Nat} {dmin : Int}
    {calls : List (Int × Int)} (hwf : s.BandsWF) (hi : s.phase = .idle) (hp : s.paused = false)
    (hd : 1 ≤ dmin) (hd30 : dmin ≤ kMaxIntervalTimeMs)
    (hc : 1 ≤ credit s.mediaBudget.targetRateKbps dmin)
    (hspaced : List.Chain' (fun a b => a + dmin ≤ b ∧ b < a + 2 ^ 31)
      (s.timeLastUpdate :: calls.map Prod.fst))
    (hturns : s.queued ≤ turns) (hlen : s.drainCalls ≤ calls.length) (q : Priority) :
    ((run cfg s (driverActions turns calls)).packets q).packetList = [] ∧
      (trace cfg s (driverActions turns calls)).flatMap (fun x => x.2.2.releasedFrom q) =
        (s.packets q).packetList := by
  obtain ⟨hrate, -, hprog⟩ := @driver_run_progress cfg s turns dmin calls hi hp hd hd30 hc hspaced hturns
  have hF := debtFloor_nonpos (rate_nonneg_of_credit (by omega) hc)
  have h0 : (run cfg s (driverActions turns calls)).queued = 0 := by
    rcases hprog with h0 | hΦ
    · exact h0
    -- a packet still queued would keep the measure at `F + 1` or more
    by_contra hne
    have hq1 : (1 : Int) ≤ (run cfg s (driverActions turns calls)).queued := by
      exact_mod_cast Nat.one_le_iff_ne_zero.mpr hne
    have hK := mul_le_mul_of_nonneg_right hq1
      (show 0 ≤ 1 - debtFloor (run cfg s (driverActions turns calls)).mediaBudget.targetRateKbps by
        rw [hrate]; omega)
    have hΦq := queued_mul_le_drainCalls (run cfg s (driverActions turns calls))
    rw [hrate] at hK hΦq
    omega
  have hempty := (queued_eq_zero_iff _).mp h0 q
  have hl := @run_ledger cfg s hwf (driverActions turns calls) q
  rw [List.flatMap_eq_nil_iff.mpr fun x hx => ?_, hempty, List.append_nil, List.append_nil] at hl
  · exact ⟨hempty, hl.symm⟩
  · obtain ⟨pre, post, hacts, -, -⟩ := mem_trace hx
    exact acceptedInto_driverActions (hacts ▸ List.mem_append_right _ (List.mem_cons_self _ _)) _ q

/-- **A regular driver drains the queues.**  Let the driver call `Process` at clocks at least
`dmin` ms apart, the first at least `dmin` ms after the last update, and each less than `2 ^ 31`
ms (about 24.8 days) after the one before, so that the call's `int` elapsed time holds the gap;
let `dmin` be at most the 30 ms cap and one refill of `dmin` ms worth at least a byte at the
media rate; let every
callback return at once, with no other thread taking the lock, and the pacer be idle and not
paused at the start.  Then after `drainCalls` calls every band is empty, and each band has
handed to `TimeToSendPacket` exactly the packets it held, in their order. -/
theorem driver_drains_queues (cfg : Config) (s : PacedSender) (turns : Nat) (dmin : Int)
    (calls : List (Int × Int)) (hwf : s.BandsWF) (hi : s.phase = .idle) (hp : s.paused = false)
    (hd : 1 ≤ dmin) (hd30 : dmin ≤ kMaxIntervalTimeMs)
    (hc : 1 ≤ credit s.mediaBudget.targetRateKbps dmin)
    (hspaced : List.Chain' (fun a b => a + dmin ≤ b ∧ b < a + 2 ^ 31)
      (s.timeLastUpdate :: calls.map Prod.fst))
    (hturns : s.queued ≤ turns) (hlen : s.drainCalls ≤ calls.length) (q : Priority) :
    ((run cfg s (driverActions turns calls)).packets q).packetList = [] ∧
      (trace cfg s (driverActions turns calls)).flatMap (fun x => x.2.2.releasedFrom q) =
        (s.packets q).packetList :=
  driver_empties_bands hwf hi hp hd hd30 hc hspaced hturns hlen q

/-- Two packets queued while paused, at a media rate of 1 kbps (a debt floor of 12 bytes), and
26 calls 30 ms apart. -/
theorem driver_drains_queues_example :
    ((run ⟨id⟩ (run ⟨id⟩ (PacedSender.new ⟨id⟩ 1 0)
        [.setStatus true, .pause, .sendPacket .kHighPriority 1 1 0 100 0,
          .sendPacket .kLowPriority 1 2 0 50 0, .resume])
        (driverActions 2 ((List.range 26).map fun i => (30 * ((i : Int) + 1), 0)))).packets
        .kNormalPriority).packetList = [] ∧
    (trace ⟨id⟩ (run ⟨id⟩ (PacedSender.new ⟨id⟩ 1 0)
        [.setStatus true, .pause, .sendPacket .kHighPriority 1 1 0 100 0,
          .sendPacket .kLowPriority 1 2 0 50 0, .resume])
        (driverActions 2 ((List.range 26).map fun i => (30 * ((i : Int) + 1), 0)))).flatMap
        (fun x => x.2.2.releasedFrom .kNormalPriority) =
      ((run ⟨id⟩ (PacedSender.new ⟨id⟩ 1 0)
        [.setStatus true, .pause, .sendPacket .kHighPriority 1 1 0 100 0,
          .sendPacket .kLowPriority 1 2 0 50 0, .resume]).packets .kNormalPriority).packetList :=
  driver_drains_queues ⟨id⟩ _ 2 30 _ (run_invariant (bandsWF_new _ _ _) fun _ a _ h => bandsWF_step h a)
    (by decide) (by decide) (by decide) (by decide) (by decide)
    (by simp [List.range_succ, run, step, PacedSender.new]) (by decide) (by decide) .kNormalPriority

/-! ### The process thread

The module's process thread asks `TimeUntilNextProcess`, sleeps for what it returns, and then
calls `Process`.  `TimeUntilNextProcess` reads only the time of the last update, which only
`Process` writes, so the pacer the thread asks is, for that call, the one its last call left.
-/

/-- The process thread's rounds after a call at `last`: each reads the clock at `round.1`, no
earlier than the last call, sleeps for what `TimeUntilNextProcess` then returns, and calls
`Process` at `round.2.1`; `round.2.2` is what that call's `TimeToSendPadding` reports. -/
def ThreadWaits (s : PacedSender) : Int → List (Int × Int × Int) → Prop
  | _, [] => True
  | last, round :: rounds =>
    last ≤ round.1 ∧
      round.1 + { s with timeLastUpdate := last }.timeUntilNextProcess round.1 ≤ round.2.1 ∧
      ThreadWaits s round.2.1 rounds

instance decidableThreadWaits (s : PacedSender) :
    (last : Int) → (rounds : List (Int × Int × Int)) → Decidable (ThreadWaits s last rounds)
  | _, [] => isTrue trivial
  | _, round :: rounds =>
    @instDecidableAnd _ _ (Int.decLe _ _)
      (@instDecidableAnd _ _ (Int.decLe _ _) (decidableThreadWaits s round.2.1 rounds))

/-- The wait `TimeUntilNextProcess` asks for puts the next call at least `kMinPacketLimitMs`
after the last update, once the clock has not gone back past it. -/
theorem timeUntilNextProcess_spacing (s : PacedSender) {t now : Int} (ht : s.timeLastUpdate ≤ t)
    (hw : t + s.timeUntilNextProcess t ≤ now) : s.timeLastUpdate + kMinPacketLimitMs ≤ now := by
  unfold timeUntilNextProcess at hw
  simp only [kMinPacketLimitMs] at hw ⊢
  split_ifs at hw <;> omega

/-- So the thread's calls are `kMinPacketLimitMs` apart, and as close as the clock keeps them. -/
theorem ThreadWaits.spaced {s : PacedSender} {last : Int} {rounds : List (Int × Int × Int)}
    (h : ThreadWaits s last rounds)
    (hgap : List.Chain' (fun a b => b < a + 2 ^ 31) (last :: rounds.map (·.2.1))) :
    List.Chain' (fun a b => a + kMinPacketLimitMs ≤ b ∧ b < a + 2 ^ 31)
      (last :: rounds.map (·.2.1)) := by
  induction rounds generalizing last with
  | nil => exact List.chain'_singleton _
  | cons round rounds ih =>
    rw [List.map_cons, List.chain'_cons] at hgap ⊢
    exact ⟨⟨timeUntilNextProcess_spacing { s with timeLastUpdate := last } h.1 h.2.1, hgap.1⟩,
      ih h.2.2 hgap.2⟩

/-- **The process thread drains the queues.**  Let the module's process thread make its rounds
(ask `TimeUntilNextProcess`, sleep that long, call `Process`) with a clock that never goes
back, each call less than `2 ^ 31` ms (about 24.8 days) after the one before, so that its
`int` elapsed time holds the gap, every callback returning at once and no other thread taking
the lock, from an idle pacer that is not paused, at a media rate at which 5 ms of refill buys a
byte.  Then after `drainCalls` rounds every band is empty and has handed to `TimeToSendPacket`
exactly the packets it held, in their order. -/
theorem process_thread_drains_queues (cfg : Config) (s : PacedSender) (turns : Nat)
    (rounds : List (Int × Int × Int)) (hwf : s.BandsWF) (hi : s.phase = .idle)
    (hp : s.paused = false) (hc : 1 ≤ credit s.mediaBudget.targetRateKbps kMinPacketLimitMs)
    (hwaits : ThreadWaits s s.timeLastUpdate rounds)
    (hgap : List.Chain' (fun a b => b < a + 2 ^ 31) (s.timeLastUpdate :: rounds.map (·.2.1)))
    (hturns : s.queued ≤ turns)
    (hlen : s.drainCalls ≤ rounds.length) (q : Priority) :
    ((run cfg s (driverActions turns (rounds.map (·.2)))).packets q).packetList = [] ∧
      (trace cfg s (driverActions turns (rounds.map (·.2)))).flatMap
          (fun x => x.2.2.releasedFrom q) =
        (s.packets q).packetList :=
  driver_empties_bands hwf hi hp (by decide) (by decide) hc
    (by simpa only [List.map_map, Function.comp_def] using hwaits.spaced hgap) hturns
    (by rwa [List.length_map]) q

/-- One packet queued while paused, at a media rate of 2 kbps (a debt floor of 25 bytes), and a
process thread that sleeps the 5 ms `TimeUntilNextProcess` asks for each round. -/
theorem process_thread_drains_queues_example :
    ((run ⟨id⟩ (run ⟨id⟩ (PacedSender.new ⟨id⟩ 2 0)
        [.setStatus true, .pause, .sendPacket .kHighPriority 1 1 0 100 0, .resume])
        (driverActions 1 (((List.range 26).map fun i => (5 * (i : Int), 5 * (i + 1 : Int), 0)).map
          (·.2)))).packets .kHighPriority).packetList = [] ∧
    (trace ⟨id⟩ (run ⟨id⟩ (PacedSender.new ⟨id⟩ 2 0)
        [.setStatus true, .pause, .sendPacket .kHighPriority 1 1 0 100 0, .resume])
        (driverActions 1 (((List.range 26).map fun i => (5 * (i : Int), 5 * (i + 1 : Int), 0)).map
          (·.2)))).flatMap (fun x => x.2.2.releasedFrom .kHighPriority) =
      ((run ⟨id⟩ (PacedSender.new ⟨id⟩ 2 0)
        [.setStatus true, .pause, .sendPacket .kHighPriority 1 1 0 100 0, .resume]).packets
        .kHighPriority).packetList :=
  process_thread_drains_queues ⟨id⟩ _ 1 _ (run_invariant (bandsWF_new _ _ _) fun _ a _ h => bandsWF_step h a)
    (by decide) (by decide) (by decide) (by decide)
    (by simp [List.range_succ, run, step, PacedSender.new]) (by decide) (by decide) .kHighPriority

end Pacing
