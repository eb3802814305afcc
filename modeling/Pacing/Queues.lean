import Pacing.System

/-
The three bands as queues over whole runs.

A band changes in two ways only: `SendPacket` appends a packet to the band it
routes to (`queueFor`), unless `push_back` finds its sequence number in the band's
set, and `Process` pops the head of one band and hands it to `TimeToSendPacket`.
So each band is a FIFO queue, and over a run its ledger balances: the packets it
held, followed by the packets accepted into it, are the packets released from it
followed by those it still holds (`run_ledger`).  The ledger needs the bands'
representation invariant (`BandsWF`), because `push_back` consults the set and
not the list.

From the ledger: every accepted packet is released exactly once or still queued,
and a band releases in the order it accepted.  What the ledger does not give is
an order across bands, and the source has none: `push_back` drops a packet whose
sequence number is queued under any SSRC, a low-priority packet queued while
paused goes to the normal band, and a call made while disabled is released at
once.
-/

namespace Pacing

open PacedSender

variable {cfg : Config}

/-! ### The ledger of a band -/

/-- The packet an output hands to `TimeToSendPacket` from band `q`, if any. -/
def Output.releasedFrom (o : Output) (q : Priority) : List Packet :=
  match o with
  | .timeToSendPacket p packet => if p = q then [packet] else []
  | _ => []

/-- The packet a step accepts into band `q`: a `SendPacket` call that returned `false`, was
routed to `q`, and whose sequence number was not queued there. -/
def PacedSender.acceptedInto (s : PacedSender) (a : Action) (q : Priority) : List Packet :=
  match a with
  | .sendPacket p ssrc seq cap bytes now =>
    if (s.sendPacket p ssrc seq cap bytes now).2 = false ∧ s.queueFor p = q ∧
        seq ∉ (s.packets q).seqs then
      [Packet.ofSendPacket ssrc seq cap bytes now]
    else []
  | _ => []

theorem releasedFrom_eq_nil {o : Output} (h : ∀ p pkt, o ≠ .timeToSendPacket p pkt) (q : Priority) :
    o.releasedFrom q = [] := by
  unfold Output.releasedFrom; split
  · exact absurd rfl (h _ _)
  · rfl

/-- Every band satisfies the representation invariant of `PacketList`. -/
def PacedSender.BandsWF (s : PacedSender) : Prop := ∀ q, (s.packets q).WF

theorem bandsWF_new (cfg : Config) (target now : Int) : (PacedSender.new cfg target now).BandsWF :=
  fun _ => PacketList.wf_new

/-- A turn of `Process`'s loop releases the head of the band it pops, and nothing else. -/
theorem processLoop_ledger (t : PacedSender) (now d clock : Int) (q : Priority) :
    (t.packets q).packetList =
      (t.processLoop now d clock).2.releasedFrom q ++ ((t.processLoop now d clock).1.packets q).packetList := by
  rcases processLoop_cases t now d clock with ⟨h₁, -, -, h₂⟩ | ⟨q', hq', h₁, h₂, -⟩
  · rw [releasedFrom_eq_nil h₂, h₁, List.nil_append]
  · rw [h₁, h₂]
    by_cases hq : q' = q
    · subst hq
      simp [Output.releasedFrom, PacketList.front_cons_tail hq']
    · simp [Output.releasedFrom, hq, Function.update_noteq (Ne.symm hq)]

theorem bandsWF_processLoop {t : PacedSender} (h : t.BandsWF) (now d clock : Int) :
    (t.processLoop now d clock).1.BandsWF := by
  intro q
  rcases processLoop_cases t now d clock with ⟨h₁, -⟩ | ⟨q', -, -, h₁, -⟩ <;> rw [h₁]
  · exact h q
  · by_cases hq : q = q'
    · subst hq; simpa using (h q).popFront
    · simpa [hq] using h q

/-- One step keeps every band well formed. -/
theorem bandsWF_step {s : PacedSender} (h : s.BandsWF) (a : Action) : (step cfg s a).1.BandsWF := by
  cases a with
  | sendPacket p ssrc seq cap bytes now =>
    rcases sendPacket_cases s p ssrc seq cap bytes now with ⟨hs, -⟩ | ⟨-, -, v, hs⟩
    · simpa [Pacing.step, hs] using h
    · intro q
      simp only [Pacing.step, hs]
      by_cases hq : q = s.queueFor p
      · subst hq; simpa using (h _).pushBack _
      · simpa [hq] using h q
  | process now =>
    rcases step_process_cases s now with ⟨-, -, hs⟩ | ⟨-, -, hs⟩ | ⟨-, hs⟩ <;> rw [hs]
    · exact bandsWF_processLoop (t := s.refilled now) h _ _ _
    all_goals exact h
  | packetSent clock =>
    rcases step_packetSent_cases s clock with ⟨now, d, -, hs⟩ | ⟨-, hs⟩ <;> rw [hs]
    · exact bandsWF_processLoop h _ _ _
    · exact h
  | paddingSent n => intro q; rw [(step_paddingSent s n).1]; exact h q
  | setStatus | pause | resume | updateBitrate => exact h

/-- **The ledger of one step.**  A band's packets, followed by what the step accepts into it,
are what the step releases from it followed by the band's packets after the step. -/
theorem step_ledger {s : PacedSender} (h : s.BandsWF) (a : Action) (q : Priority) :
    (s.packets q).packetList ++ s.acceptedInto a q =
      (step cfg s a).2.releasedFrom q ++ ((step cfg s a).1.packets q).packetList := by
  cases a with
  | sendPacket p ssrc seq cap bytes now =>
    rcases sendPacket_cases s p ssrc seq cap bytes now with ⟨hs, -⟩ | ⟨-, -, v, hs⟩
    · simp [PacedSender.acceptedInto, Output.releasedFrom, Pacing.step, hs]
    · simp only [PacedSender.acceptedInto, Pacing.step, hs, Output.releasedFrom, List.nil_append]
      by_cases hq : s.queueFor p = q
      · subst hq
        rw [Function.update_same, (h _).pushBack_packetList]
        by_cases hn : seq ∈ (s.packets (s.queueFor p)).seqs <;> simp [hn, Packet.ofSendPacket]
      · simp [hq, Function.update_noteq (Ne.symm hq)]
  | process now =>
    simp only [PacedSender.acceptedInto, List.append_nil]
    rcases step_process_cases s now with ⟨-, -, hs⟩ | ⟨-, -, hs⟩ | ⟨-, hs⟩ <;> rw [hs]
    · rw [← processLoop_ledger, refilled_packets]
    all_goals rfl
  | packetSent clock =>
    simp only [PacedSender.acceptedInto, List.append_nil]
    rcases step_packetSent_cases s clock with ⟨now, d, -, hs⟩ | ⟨-, hs⟩ <;> rw [hs]
    · rw [← processLoop_ledger]
    · rfl
  | paddingSent n => simp [PacedSender.acceptedInto, step_paddingSent, Output.releasedFrom]
  | setStatus | pause | resume | updateBitrate =>
    simp [PacedSender.acceptedInto, Pacing.step, Output.releasedFrom]

/-- **The ledger of a run.**  A band's packets at the start, followed by every packet accepted
into it, are every packet released from it followed by the band's packets at the end. -/
theorem run_ledger {s : PacedSender} (h : s.BandsWF) (acts : List Action) (q : Priority) :
    (s.packets q).packetList ++ (trace cfg s acts).flatMap (fun x => x.1.acceptedInto x.2.1 q) =
      (trace cfg s acts).flatMap (fun x => x.2.2.releasedFrom q) ++
        ((run cfg s acts).packets q).packetList := by
  induction acts generalizing s with
  | nil => simp
  | cons a acts ih =>
    simp only [trace_cons, List.flatMap_cons, run_cons]
    rw [← List.append_assoc, @step_ledger cfg s h a q]
    simp only [List.append_assoc, ih (@bandsWF_step cfg s h a)]

/-! ### No accepted packet is lost -/

/-- **Every packet accepted into a band is released from it exactly once or is still queued
there.**  In every run from construction, the packets each band accepted, in order, are the
packets handed to `TimeToSendPacket` from it, in order, followed by the packets it holds. -/
theorem accepted_packets_accounted (cfg : Config) (target now : Int) (acts : List Action)
    (q : Priority) :
    (trace cfg (PacedSender.new cfg target now) acts).flatMap (fun x => x.1.acceptedInto x.2.1 q) =
      (trace cfg (PacedSender.new cfg target now) acts).flatMap (fun x => x.2.2.releasedFrom q) ++
        ((run cfg (PacedSender.new cfg target now) acts).packets q).packetList :=
  run_ledger (bandsWF_new cfg target now) acts q

/-- `push_back` keys on the sequence number alone: a packet of another SSRC with a queued
number is refused, `SendPacket` still returns `false`, and the packet is never sent. -/
theorem other_ssrc_dropped :
    (trace ⟨id⟩ (PacedSender.new ⟨id⟩ 800 0)
        [.setStatus true, .pause, .sendPacket .kHighPriority 1 5 0 100 0,
          .sendPacket .kHighPriority 2 5 0 100 0, .resume, .process 10, .packetSent 10]).map
        (·.2.2) =
      [.none, .none, .sendPacket false, .sendPacket false, .none,
        .timeToSendPacket .kHighPriority ⟨1, 5, 0, 100⟩, .none] ∧
    ∀ q, ((run ⟨id⟩ (PacedSender.new ⟨id⟩ 800 0)
        [.setStatus true, .pause, .sendPacket .kHighPriority 1 5 0 100 0,
          .sendPacket .kHighPriority 2 5 0 100 0, .resume, .process 10, .packetSent 10]).packets
        q).packetList = [] := by
  decide

/-! ### Duplicate suppression -/

/-- A `SendPacket` call whose sequence number is queued in the band it routes to changes no
band. -/
theorem sendPacket_packets_of_listed {s : PacedSender} (h : s.BandsWF) {p : Priority}
    {ssrc : UInt32} {seq : UInt16} (hseq : seq ∈ (s.packets (s.queueFor p)).seqs) (cap bytes now : Int) :
    (s.sendPacket p ssrc seq cap bytes now).1.packets = s.packets := by
  rcases sendPacket_cases s p ssrc seq cap bytes now with ⟨hs, -⟩ | ⟨-, -, v, hs⟩
  · simp [hs]
  · have hl : (s.packets (s.queueFor p)).pushBack (Packet.ofSendPacket ssrc seq cap bytes now) =
        s.packets (s.queueFor p) := by
      unfold PacketList.pushBack
      exact if_pos ((h _).mem_set_iff _ |>.mpr hseq)
    simp [hs, hl]

/-- **A re-enqueue of a queued sequence number adds nothing.**  After any run from construction,
a `SendPacket` call whose sequence number is queued, under any SSRC, in the band the call
routes to leaves every band as it was. -/
theorem listed_number_not_requeued (cfg : Config) (target now : Int) (pre : List Action)
    (p : Priority) (ssrc : UInt32) (seq : UInt16) (cap bytes clock : Int)
    (h : seq ∈ ((run cfg (PacedSender.new cfg target now) pre).packets
      ((run cfg (PacedSender.new cfg target now) pre).queueFor p)).seqs) :
    (step cfg (run cfg (PacedSender.new cfg target now) pre)
        (.sendPacket p ssrc seq cap bytes clock)).1.packets =
      (run cfg (PacedSender.new cfg target now) pre).packets :=
  sendPacket_packets_of_listed (run_invariant (bandsWF_new cfg target now) fun _ a _ ht =>
    bandsWF_step ht a) h ..

/-- The suppression at a paused pacer that is sent one high-priority packet twice. -/
theorem listed_number_not_requeued_example :
    (5 : UInt16) ∈ ((run ⟨id⟩ (PacedSender.new ⟨id⟩ 800 0)
        [.setStatus true, .pause, .sendPacket .kHighPriority 1 5 0 100 0]).packets
      ((run ⟨id⟩ (PacedSender.new ⟨id⟩ 800 0)
        [.setStatus true, .pause, .sendPacket .kHighPriority 1 5 0 100 0]).queueFor
        .kHighPriority)).seqs ∧
    (step ⟨id⟩ (run ⟨id⟩ (PacedSender.new ⟨id⟩ 800 0)
        [.setStatus true, .pause, .sendPacket .kHighPriority 1 5 0 100 0])
        (.sendPacket .kHighPriority 1 5 0 100 0)).1.packets =
      (run ⟨id⟩ (PacedSender.new ⟨id⟩ 800 0)
        [.setStatus true, .pause, .sendPacket .kHighPriority 1 5 0 100 0]).packets :=
  ⟨by decide, listed_number_not_requeued ⟨id⟩ 800 0 _ .kHighPriority 1 5 0 100 0 (by decide)⟩

/-- A low-priority packet queued before a `Pause()` and enqueued again while paused lands in the
normal band too, and `TimeToSendPacket` is invoked for it twice. -/
theorem low_requeued_across_pause :
    ((trace ⟨id⟩ (PacedSender.new ⟨id⟩ 800 0)
        [.setStatus true, .sendPacket .kHighPriority 1 1 0 1000 0,
          .sendPacket .kLowPriority 1 7 0 100 0, .pause, .sendPacket .kLowPriority 1 7 0 100 0,
          .resume, .process 100, .packetSent 100]).map (·.2.2)).drop 6 =
      [.timeToSendPacket .kNormalPriority ⟨1, 7, 0, 100⟩,
        .timeToSendPacket .kLowPriority ⟨1, 7, 0, 100⟩] := by
  decide

/-! ### Order within a band -/

/-- **Each band releases in the order it accepted, and an enabled `SendPacket` overtakes no
packet of its band.**  In every run from construction, the packets handed to
`TimeToSendPacket` from a band are, in order, a prefix of the packets accepted into it; and a
`SendPacket` call that is made while enabled and returns `true` finds the pacer not paused and
the band of its priority empty. -/
theorem band_release_order (cfg : Config) (target now : Int) (acts : List Action) (q : Priority) :
    (trace cfg (PacedSender.new cfg target now) acts).flatMap (fun x => x.2.2.releasedFrom q) <+:
        (trace cfg (PacedSender.new cfg target now) acts).flatMap
          (fun x => x.1.acceptedInto x.2.1 q) ∧
      ∀ x ∈ trace cfg (PacedSender.new cfg target now) acts, ∀ p ssrc seq cap bytes clock,
        x.2.1 = .sendPacket p ssrc seq cap bytes clock → x.1.enabled = true →
          x.2.2 = .sendPacket true → x.1.paused = false ∧ (x.1.packets p).packetList = [] := by
  refine ⟨⟨_, (run_ledger (bandsWF_new cfg target now) acts q).symm⟩,
    fun x hx p ssrc seq cap bytes clock ha he ht => ?_⟩
  obtain ⟨-, -, -, -, hout⟩ := mem_trace hx
  rw [ht, ha] at hout
  have hr := sendPacket_fast_of_true he (by simpa [Pacing.step] using hout.symm)
  exact ⟨hr.1, hr.2.1⟩

/-- Low-priority packets queued while paused go to the normal band and overtake a low-priority
packet queued before the `Pause()`. -/
theorem low_overtaken_across_pause :
    ((trace ⟨id⟩ (PacedSender.new ⟨id⟩ 800 0)
        [.setStatus true, .sendPacket .kHighPriority 1 1 0 1000 0,
          .sendPacket .kLowPriority 1 2 0 100 0, .pause, .sendPacket .kLowPriority 1 3 0 100 0,
          .resume, .process 100, .packetSent 100]).map (·.2.2)).drop 6 =
      [.timeToSendPacket .kNormalPriority ⟨1, 3, 0, 100⟩,
        .timeToSendPacket .kLowPriority ⟨1, 2, 0, 100⟩] := by
  decide

end Pacing
