import Pacing.Priority
import Mathlib.Algebra.Order.BigOperators.Group.Finset

/-
The burst of one `Process` call, and why its loop ends.

A `Process` call that runs refills the media budget for `min(elapsed, 30)` ms and
then drains the bands: `GetNextPacket` pops while the budget is positive, and once
through the starvation override when more than 30 ms have passed since the last
send.  While a packet is out in `TimeToSendPacket` the lock is free, and
`SendPacket`, `Pause()`, `Resume()`, `SetStatus` and `UpdateBitrate` may run, but
not `Process` (`Action.DuringCall`).

With every clock read of the call returning the same `now`, every packet passed in
at least one byte long and every media rate non-negative, every packet but the last
is paid for by a positive budget, and the budget after the refill is at most the
refill credit `c`.  So the packets but the last add up to at most `c - 1`, the last
one may take the budget into debt, and the call hands out at most
`max(0, c - 1) + S_max` bytes, where `c` is at most one refill of 30 ms however long
the pacer was idle (`drain_burst_bounded`).

The loop ends because every packet it hands out lowers the measure

    μ = [override still due] + max(budget, 0) + Σ_{queued packets of size s ≤ 0} (1 - s)

by at least one, and nothing else raises it: a packet of positive size takes at least
a byte of a positive budget, one of size `s ≤ 0` raises the budget by `-s` but takes
`1 - s` from the sum, and the override is due at most once, since every send notes
`now` as the time of the last send.  A re-entrant `SendPacket` queues a packet of
weight 0 or debits the budget.  So a call hands out at most `μ` packets, `μ` taken
once its refill is done.
-/

namespace Pacing

open PacedSender IntervalBudget

variable {cfg : Config}

/-! ### The call and its packets -/

/-- The size of the packet an output hands to `TimeToSendPacket`, if it hands one. -/
@[simp] def Output.packetBytes? : Output → Option Int
  | .timeToSendPacket _ packet => some packet.bytes
  | _ => .none

/-- What may run while a `Process` call whose clock reads `now` is under way: any critical
section but another `Process` call, every clock read returning `now`, `SendPacket` with at least
one byte, and `UpdateBitrate` with a media rate that is not negative. -/
def Action.DuringCall (cfg : Config) (now : Int) : Action → Prop
  | .process _ => False
  | .sendPacket _ _ _ _ bytes clock => 1 ≤ bytes ∧ clock = now
  | .updateBitrate targetBitrateKbps _ => 0 ≤ cfg.paceRate targetBitrateKbps
  | .packetSent clock => clock = now
  | .setStatus _ | .pause | .resume | .paddingSent _ => True

instance (cfg : Config) (now : Int) : DecidablePred (Action.DuringCall cfg now)
  | .process _ => isFalse id
  | .sendPacket _ _ _ _ bytes clock => inferInstanceAs (Decidable (1 ≤ bytes ∧ clock = now))
  | .updateBitrate t _ => inferInstanceAs (Decidable (0 ≤ cfg.paceRate t))
  | .packetSent clock => inferInstanceAs (Decidable (clock = now))
  | .setStatus _ | .pause | .resume | .paddingSent _ => isTrue trivial

/-- The sizes of the packets a `Process` call at `now` from `s` hands to `TimeToSendPacket`, in
order: in its first critical section, and then in the steps of `acts`. -/
def callPackets (cfg : Config) (s : PacedSender) (now : Int) (acts : List Action) : List Int :=
  (s.process now).2.packetBytes?.toList ++
    (trace cfg (s.process now).1 acts).flatMap fun x => x.2.2.packetBytes?.toList

/-! ### The measure -/

/-- What a queued packet adds to the measure: a packet of size `s ≤ 0` is popped once and may
raise the budget by `-s`. -/
def Packet.drainWeight (packet : Packet) : Int := if packet.bytes ≤ 0 then 1 - packet.bytes else 0

/-- The weight of a band. -/
def PacketList.drainWeight (l : PacketList) : Int := (l.packetList.map Packet.drainWeight).sum

/-- The measure of a `Process` call at `now` that every packet it hands out lowers. -/
def PacedSender.drainMeasure (now : Int) (s : PacedSender) : Int :=
  (if kMaxQueueTimeWithoutSendingMs < now - s.timeLastSend then 1 else 0) +
    max s.mediaBudget.bytesRemaining 0 + ∑ q, (s.packets q).drainWeight

theorem Packet.drainWeight_nonneg (packet : Packet) : 0 ≤ packet.drainWeight := by
  unfold Packet.drainWeight; split_ifs <;> omega

theorem PacketList.drainWeight_nonneg (l : PacketList) : 0 ≤ l.drainWeight :=
  List.sum_nonneg fun _ hx => by
    obtain ⟨p, -, rfl⟩ := List.mem_map.mp hx
    exact p.drainWeight_nonneg

theorem drainMeasure_nonneg (now : Int) (s : PacedSender) : 0 ≤ s.drainMeasure now := by
  have := Finset.sum_nonneg fun q (_ : q ∈ Finset.univ) => (s.packets q).drainWeight_nonneg
  unfold drainMeasure; split_ifs <;> omega

/-- Queuing a packet of positive size adds no weight, whether `push_back` keeps it or not. -/
theorem PacketList.drainWeight_pushBack (l : PacketList) {packet : Packet} (h : 0 < packet.bytes) :
    (l.pushBack packet).drainWeight = l.drainWeight := by
  unfold pushBack; split
  · rfl
  · simp [drainWeight, Packet.drainWeight, not_le.mpr h]

/-- Popping the head of a non-empty band takes the head's weight from it. -/
theorem PacketList.drainWeight_popFront {l : PacketList} (h : l.packetList ≠ []) :
    l.popFront.drainWeight + l.front.drainWeight = l.drainWeight := by
  obtain ⟨p, rest, hl⟩ := List.exists_cons_of_ne_nil h
  simp [drainWeight, hl, front_eq hl, add_comm]

/-- Changing one band changes the summed weight by that band's change. -/
theorem sum_drainWeight_update (P : Priority → PacketList) (q : Priority) (l : PacketList) :
    ∑ x, (Function.update P q l x).drainWeight + (P q).drainWeight =
      ∑ x, (P x).drainWeight + l.drainWeight := by
  have hrest : ∑ x ∈ Finset.univ.erase q, (Function.update P q l x).drainWeight =
      ∑ x ∈ Finset.univ.erase q, (P x).drainWeight :=
    Finset.sum_congr rfl fun x hx => by rw [Function.update_noteq (Finset.ne_of_mem_erase hx)]
  rw [← Finset.add_sum_erase _ _ (Finset.mem_univ q),
    ← Finset.add_sum_erase _ (fun x => (P x).drainWeight) (Finset.mem_univ q), hrest,
    Function.update_same]
  ring

/-- **A packet handed out lowers the measure by at least one.** -/
theorem drainMeasure_processLoop {t : PacedSender} {now : Int} {p : Priority}
    (hr : 0 ≤ t.mediaBudget.targetRateKbps) (hp : t.nextPriority now = some p) (frame d : Int) :
    (t.processLoop frame d now).1.drainMeasure now + 1 ≤ t.drainMeasure now := by
  obtain ⟨v, hv⟩ := @processLoop_of_some t frame d now p hp
  obtain ⟨hne, -, hwhy⟩ := nextPriority_some hp
  have hw := sum_drainWeight_update t.packets p (t.packets p).popFront
  have hf := PacketList.drainWeight_popFront hne
  have hm := max_useBudget_zero hr (t.packets p).front.bytes
  have h30 : kMaxQueueTimeWithoutSendingMs = 30 := rfl
  rw [hv]
  simp only [drainMeasure, updateMediaBytesSent, setPackets, Packet.drainWeight] at hf hm ⊢
  split_ifs at hf ⊢ <;> omega

/-! ### The call as it runs -/

section call

variable {now c m : Int}

/-- A `Process` call at `now`, with refill credit `c` and starting measure `m`, at the start of a
turn of its loop, having handed out packets of sizes `L`. -/
structure PacedSender.Draining (now c m : Int) (s : PacedSender) (L : List Int) : Prop where
  rate_nonneg : 0 ≤ s.mediaBudget.targetRateKbps
  /-- Every packet but the last was paid for by a positive budget. -/
  paid : L.dropLast.sum ≤ max 0 (c - 1)
  /-- The override is only ever taken first. -/
  override : kMaxQueueTimeWithoutSendingMs < now - s.timeLastSend → L = []
  /-- A positive budget is what the credit has left after the packets handed out. -/
  budget : 0 < s.mediaBudget.bytesRemaining → L.sum + s.mediaBudget.bytesRemaining ≤ c
  /-- Every packet handed out took one from the measure. -/
  measure : (L.length : Int) + s.drainMeasure now ≤ m

/-- A `Process` call at `now` while other critical sections run: draining while it waits on
`TimeToSendPacket`, and with what it handed out final once its loop has ended. -/
structure PacedSender.InCall (now c m : Int) (s : PacedSender) (L : List Int) : Prop where
  paid : L.dropLast.sum ≤ max 0 (c - 1)
  count : (L.length : Int) ≤ m
  draining : s.phase.IsSendingPacket → s.Draining now c m L

/-- A state with the budget, last send, band weights and rate of a draining one is draining. -/
theorem PacedSender.Draining.of_frame {s t : PacedSender} {L : List Int} (h : s.Draining now c m L)
    (hr : 0 ≤ t.mediaBudget.targetRateKbps)
    (hb : t.mediaBudget.bytesRemaining = s.mediaBudget.bytesRemaining)
    (hs : t.timeLastSend = s.timeLastSend)
    (hw : ∑ q, (t.packets q).drainWeight = ∑ q, (s.packets q).drainWeight) : t.Draining now c m L where
  rate_nonneg := hr
  paid := h.paid
  override := hs ▸ h.override
  budget := hb ▸ h.budget
  measure := by have := h.measure; simp only [drainMeasure, hb, hs, hw] at this ⊢; exact this

theorem PacedSender.InCall.of_frame {s t : PacedSender} {L : List Int} (h : s.InCall now c m L)
    (hr : 0 ≤ s.mediaBudget.targetRateKbps → 0 ≤ t.mediaBudget.targetRateKbps)
    (hb : t.mediaBudget.bytesRemaining = s.mediaBudget.bytesRemaining)
    (hs : t.timeLastSend = s.timeLastSend)
    (hw : ∑ q, (t.packets q).drainWeight = ∑ q, (s.packets q).drainWeight)
    (hph : t.phase = s.phase) : t.InCall now c m L :=
  ⟨h.paid, h.count, fun hp =>
    let hd := h.draining (hph ▸ hp)
    hd.of_frame (hr hd.rate_nonneg) hb hs hw⟩

/-- A debit of at least one byte at `now`, from the fast path of a re-entrant `SendPacket`, keeps
a call draining: the override is no longer due, and the budget only shrinks. -/
theorem PacedSender.Draining.debit {s : PacedSender} {L : List Int} (h : s.Draining now c m L)
    {bytes : Int} (hb : 1 ≤ bytes) : (s.updateMediaBytesSent bytes now).Draining now c m L := by
  have hm := max_useBudget_zero h.rate_nonneg bytes
  have hfl := debtFloor_nonpos h.rate_nonneg
  have hbud := h.budget
  have hmeas := h.measure
  have h30 : kMaxQueueTimeWithoutSendingMs = 30 := rfl
  refine ⟨h.rate_nonneg, h.paid, fun ht => by simp at ht; omega, fun hpos => ?_, ?_⟩
  · simp only [updateMediaBytesSent, useBudget_bytesRemaining] at hpos ⊢; omega
  · simp only [drainMeasure, updateMediaBytesSent] at hm hmeas ⊢
    split_ifs at hmeas ⊢ <;> omega

/-- **One turn of the loop.**  A turn that hands out a packet leaves the call draining with one
more packet, paid for by the positive budget or by the override; a turn that hands out none ends
the loop. -/
theorem PacedSender.Draining.processLoop {t : PacedSender} {L : List Int} (h : t.Draining now c m L)
    (hc : 0 ≤ c) (frame d : Int) :
    (t.processLoop frame d now).1.InCall now c m
      (L ++ (t.processLoop frame d now).2.packetBytes?.toList) := by
  have hΦ := drainMeasure_nonneg now t
  have hmeas := h.measure
  cases hn : t.nextPriority now with
  | none =>
    rw [processLoop_of_none hn]
    split_ifs <;>
      exact ⟨by simpa using h.paid, by simp; omega, fun hs => by simp [Phase.IsSendingPacket] at hs⟩
  | some p =>
    obtain ⟨v, hv⟩ := @processLoop_of_some t frame d now p hn
    have hdec := drainMeasure_processLoop h.rate_nonneg hn frame d
    have hΦ' := drainMeasure_nonneg now (t.processLoop frame d now).1
    have hfl := debtFloor_nonpos h.rate_nonneg
    -- the packet is paid for by a positive budget, or it is the override's and so the first
    have hpay : L.sum + max t.mediaBudget.bytesRemaining 0 ≤ c ∧
        (t.mediaBudget.bytesRemaining ≤ 0 → L.sum = 0) := by
      by_cases hb : 0 < t.mediaBudget.bytesRemaining
      · have := h.budget hb; omega
      · obtain rfl := h.override ((nextPriority_some hn).2.2.resolve_left hb).1
        exact ⟨by simp only [List.sum_nil]; omega, fun _ => rfl⟩
    -- what the turn does
    have hout : (t.processLoop frame d now).2 = .timeToSendPacket p (t.packets p).front := by
      rw [hv]
    have hmed : (t.processLoop frame d now).1.mediaBudget =
        t.mediaBudget.useBudget (t.packets p).front.bytes := by rw [hv]; rfl
    have htls : (t.processLoop frame d now).1.timeLastSend = now := by rw [hv]; rfl
    have hlen : ((L ++ [(t.packets p).front.bytes]).length : Int) = L.length + 1 := by simp
    have h30 : kMaxQueueTimeWithoutSendingMs = 30 := rfl
    rw [hout]
    simp only [Output.packetBytes?, Option.toList]
    refine ⟨by rw [List.dropLast_concat]; omega, by rw [hlen]; omega,
      fun _ => ⟨by rw [hmed]; exact h.rate_nonneg, by rw [List.dropLast_concat]; omega,
        fun ht => by rw [htls] at ht; omega, fun hpos => ?_, by rw [hlen]; omega⟩⟩
    rw [hmed, useBudget_bytesRemaining] at hpos ⊢
    rw [List.sum_append, List.sum_singleton]
    omega

/-- **One step of the call.**  Every critical section that may run during the call keeps it
in step with what it has handed out. -/
theorem PacedSender.InCall.step {t : PacedSender} {L : List Int} (h : t.InCall now c m L)
    (hc : 0 ≤ c) {a : Action} (ha : a.DuringCall cfg now) :
    (step cfg t a).1.InCall now c m (L ++ (step cfg t a).2.packetBytes?.toList) := by
  cases a with
  | process => exact ha.elim
  | packetSent clock =>
    obtain rfl : clock = now := ha
    rcases step_packetSent_cases t clock with ⟨frame, d, hph, hs⟩ | ⟨-, hs⟩ <;> rw [hs]
    · exact (h.draining (by simp [hph, Phase.IsSendingPacket])).processLoop hc frame d
    · simpa using h
  | paddingSent n =>
    rcases step_paddingSent_cases t n with ⟨-, -, -, -, hs⟩ | ⟨-, hs⟩ <;> rw [hs]
    · exact ⟨by simpa using h.paid, by simpa using h.count,
        fun hs => by simp [paddingSent, Phase.IsSendingPacket] at hs⟩
    · simpa using h
  | sendPacket p ssrc seq cap bytes clock =>
    obtain ⟨hb, rfl⟩ := ha
    simp only [Pacing.step, Output.packetBytes?, Option.toList, List.append_nil]
    rcases sendPacket_cases t p ssrc seq cap bytes clock with ⟨hs, -⟩ | ⟨-, -, v, hs⟩ <;> rw [hs]
    · exact ⟨h.paid, h.count, fun hp => (h.draining hp).debit hb⟩
    · -- queued: a packet of positive size adds no weight
      refine h.of_frame id rfl rfl ?_ rfl
      have := sum_drainWeight_update t.packets (t.queueFor p)
        ((t.packets (t.queueFor p)).pushBack (Packet.ofSendPacket ssrc seq cap bytes clock))
      rw [PacketList.drainWeight_pushBack _ (by simp [Packet.ofSendPacket]; omega)] at this
      simp only
      omega
  | updateBitrate r u =>
    simp only [Pacing.step, Output.packetBytes?, Option.toList, List.append_nil]
    exact h.of_frame (fun _ => ha) rfl rfl rfl rfl
  | setStatus | pause | resume =>
    simp only [Pacing.step, Output.packetBytes?, Option.toList, List.append_nil]
    exact h.of_frame id rfl rfl rfl rfl

/-- **The call over a run of critical sections**, by induction from `InCall.step`. -/
theorem PacedSender.InCall.run {t : PacedSender} {L : List Int} (h : t.InCall now c m L)
    (hc : 0 ≤ c) {acts : List Action} (ha : ∀ a ∈ acts, a.DuringCall cfg now) :
    (Pacing.run cfg t acts).InCall now c m
      (L ++ (trace cfg t acts).flatMap fun x => x.2.2.packetBytes?.toList) := by
  induction acts generalizing t L with
  | nil => simpa using h
  | cons a acts ih =>
    have := ih (h.step hc (ha a (List.mem_cons_self _ _))) fun b hb => ha b (List.mem_cons_of_mem _ hb)
    simpa only [run_cons, trace_cons, List.flatMap_cons, List.append_assoc] using this

/-! ### The loop ends -/

/-- How many of `acts` re-enter `Process`'s loop once `TimeToSendPacket` has returned. -/
def reentries : List Action → Nat
  | [] => 0
  | .packetSent _ :: acts => reentries acts + 1
  | _ :: acts => reentries acts

theorem reentries_cons (a : Action) (acts : List Action) :
    reentries (a :: acts) = reentries [a] + reentries acts := by
  cases a <;> simp only [reentries] <;> omega

/-- A turn of the loop keeps it running only by handing out a packet. -/
theorem processLoop_continues {t : PacedSender} {frame d clock : Int}
    (h : (t.processLoop frame d clock).1.phase.IsSendingPacket) :
    (t.processLoop frame d clock).2.packetBytes?.toList.length = 1 := by
  cases hn : t.nextPriority clock with
  | none =>
    rw [processLoop_of_none hn] at h
    split_ifs at h <;> simp [Phase.IsSendingPacket] at h
  | some p => obtain ⟨v, hv⟩ := @processLoop_of_some t frame d clock p hn; simp [hv]

/-- **While the loop runs, it has handed out a packet at its start and at every re-entry**, and
every critical section but another `Process` call keeps that. -/
theorem loopTurns_step {t : PacedSender} {n k : Nat} (h : t.phase.IsSendingPacket → n = k + 1)
    {a : Action} (ha : ∀ clock, a ≠ .process clock) :
    (step cfg t a).1.phase.IsSendingPacket →
      n + (step cfg t a).2.packetBytes?.toList.length = k + reentries [a] + 1 := by
  cases a with
  | process clock => exact absurd rfl (ha clock)
  | packetSent clock =>
    rcases step_packetSent_cases t clock with ⟨frame, d, hph, hs⟩ | ⟨hph, hs⟩ <;> rw [hs]
    · -- a turn: it goes on only by handing out one more packet
      intro hrun
      rw [processLoop_continues hrun, h (by simp [hph, Phase.IsSendingPacket])]
      simp only [reentries]
    · -- no turn is under way, and none starts
      intro hrun
      rcases hpt : t.phase with _ | ⟨frame, d⟩ | _ <;>
        simp [hpt, Phase.IsSendingPacket] at hrun hph
  | paddingSent m =>
    rcases step_paddingSent_cases t m with ⟨-, -, -, -, hs⟩ | ⟨-, hs⟩ <;> rw [hs]
    · simp [PacedSender.paddingSent, Phase.IsSendingPacket]
    · simpa [reentries] using h
  | sendPacket | setStatus | pause | resume | updateBitrate =>
    simpa [Pacing.step, reentries] using h

/-- The same over the critical sections that run beside the call, by induction from
`loopTurns_step`. -/
theorem loopTurns_run {t : PacedSender} {n k : Nat} (h : t.phase.IsSendingPacket → n = k + 1)
    {acts : List Action} (ha : ∀ a ∈ acts, ∀ clock, a ≠ .process clock) :
    (Pacing.run cfg t acts).phase.IsSendingPacket →
      n + ((trace cfg t acts).flatMap fun x => x.2.2.packetBytes?.toList).length =
        k + reentries acts + 1 := by
  induction acts generalizing t n k with
  | nil => simpa [reentries] using h
  | cons a acts ih =>
    have hrest := ih (@loopTurns_step cfg t n k h a (ha a (List.mem_cons_self _ _)))
      fun b hb => ha b (List.mem_cons_of_mem _ hb)
    simp only [run_cons, trace_cons, List.flatMap_cons, List.length_append, reentries_cons a acts]
    intro hrun
    have := hrest hrun
    omega

end call

/-- A sum is at most the sum of all but its last element plus its largest element. -/
theorem sum_le_dropLast_add_max (L : List Int) : L.sum ≤ L.dropLast.sum + L.max?.getD 0 := by
  rcases L.eq_nil_or_concat with rfl | ⟨l, b, rfl⟩
  · simp
  · obtain ⟨a, ha⟩ := Option.isSome_iff_exists.mp
      (List.isSome_max?_of_mem (List.mem_append_right l (List.mem_singleton_self b)))
    have := (List.max?_le_iff (fun _ _ _ => max_le_iff) ha).1 le_rfl b (by simp)
    simp only [List.concat_eq_append, List.sum_append, List.sum_singleton, List.dropLast_concat, ha,
      Option.getD_some]
    omega

/-! ### The burst bound -/

/-- **The drain loop of a `Process` call ends, and the call hands out at most
`max(0, c - 1) + S_max` bytes.**  From any state whose media rate `R` is not negative, a
`Process` call at `now` that runs, while only critical sections that read `now`, queue packets of
at least one byte and set non-negative media rates run beside it: it hands out at most as many
packets as the measure of its refilled state, whatever they do; their sizes add up to at most
`max(0, c - 1)` plus the largest of them, `c = R * min(elapsed, 30) / 8` being its refill credit;
`c` is at most one refill of 30 ms, however long the pacer was idle; and once the call has
re-entered its loop as many times as that measure, the loop has ended.  The bound is on the
model's arithmetic, which is that of `int` while the rates stay within `[0, 21474836]`
(`IntervalBudget.InRange.noOverflow`). -/
theorem drain_burst_bounded (cfg : Config) (s : PacedSender) (now : Int) (acts : List Action)
    (hR : 0 ≤ s.mediaBudget.targetRateKbps) (hruns : s.Runs now)
    (hacts : ∀ a ∈ acts, a.DuringCall cfg now) :
    ((callPackets cfg s now acts).length : Int) ≤ (s.refilled now).drainMeasure now ∧
      (callPackets cfg s now acts).sum ≤
        max 0 (credit s.mediaBudget.targetRateKbps (s.deltaAt now) - 1) +
          (callPackets cfg s now acts).max?.getD 0 ∧
      credit s.mediaBudget.targetRateKbps (s.deltaAt now) ≤
        credit s.mediaBudget.targetRateKbps kMaxIntervalTimeMs ∧
      ((s.refilled now).drainMeasure now ≤ reentries acts →
        ¬ (run cfg (s.process now).1 acts).phase.IsSendingPacket) := by
  -- while the loop runs, every re-entry has handed out a packet
  have hloop := @loopTurns_run cfg (s.process now).1 (s.process now).2.packetBytes?.toList.length 0
    (by rw [process_of_runs hruns]; exact processLoop_continues) acts
    fun a ha clock he => by rw [he] at ha; exact hacts _ ha
  have hd := deltaAt_pos hruns
  have hc := credit_nonneg hR hd.le
  -- the refill leaves at most the credit, and no packet has been handed out yet
  have h0 : (s.refilled now).Draining now (credit s.mediaBudget.targetRateKbps (s.deltaAt now))
      ((s.refilled now).drainMeasure now) [] :=
    ⟨by simpa [refilled] using hR, by simp, fun _ => rfl,
      fun _ => by simp [refilled], by simp⟩
  have hcall := (h0.processLoop hc now (s.deltaAt now)).run hc hacts
  rw [← process_of_runs hruns, List.nil_append] at hcall
  refine ⟨hcall.count, (sum_le_dropLast_add_max _).trans ?_,
    credit_mono hR le_rfl hd.le (deltaAt_le s now), fun hμ hrun => ?_⟩
  · have := hcall.paid
    simp only [callPackets] at this ⊢
    omega
  · -- a loop still running would have handed out more packets than the measure allows
    have hcount : ((callPackets cfg s now acts).length : Int) ≤ (s.refilled now).drainMeasure now :=
      hcall.count
    have hlen : (callPackets cfg s now acts).length = reentries acts + 1 := by
      rw [callPackets, List.length_append]; have := hloop hrun; omega
    omega

/-- The bound at a call that drains a queued packet, has a packet of high priority queued while
paused from inside `TimeToSendPacket`, and drains that too. -/
theorem drain_burst_bounded_example :
    0 ≤ (run ⟨id⟩ (PacedSender.new ⟨id⟩ 800 0) [.setStatus true,
        .sendPacket .kHighPriority 1 1 0 1000 0, .sendPacket .kNormalPriority 1 2 0 500 0]).mediaBudget.targetRateKbps ∧
      (run ⟨id⟩ (PacedSender.new ⟨id⟩ 800 0) [.setStatus true,
        .sendPacket .kHighPriority 1 1 0 1000 0, .sendPacket .kNormalPriority 1 2 0 500 0]).Runs 100 ∧
      (∀ a ∈ [Action.pause, .sendPacket .kHighPriority 1 3 0 1200 100, .resume, .packetSent 100,
        .packetSent 100], a.DuringCall ⟨id⟩ 100) ∧
      (callPackets ⟨id⟩ (run ⟨id⟩ (PacedSender.new ⟨id⟩ 800 0) [.setStatus true,
        .sendPacket .kHighPriority 1 1 0 1000 0, .sendPacket .kNormalPriority 1 2 0 500 0]) 100
        [.pause, .sendPacket .kHighPriority 1 3 0 1200 100, .resume, .packetSent 100,
          .packetSent 100]).sum ≤
        max 0 (credit 800 30 - 1) + 1200 :=
  ⟨by decide, by decide, by decide,
    (drain_burst_bounded ⟨id⟩ _ 100 _ (by decide) (by decide) (by decide)).2.1.trans
      (by decide)⟩

end Pacing
