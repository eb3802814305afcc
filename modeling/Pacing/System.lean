import Pacing.Methods

/-
The pacer as a system of threads.

A run is one list of `Action`s: each is a critical section of some thread, in the
order the lock serialises them.  Producers call `SendPacket`, `Pause`, `Resume`,
`SetStatus` and `UpdateBitrate` at any time, also from inside a callback; the one
driver thread calls `Process`, whose critical sections are `process` (its
start), `packetSent` (re-entering the lock once `TimeToSendPacket` returned) and
`paddingSent` (once `TimeToSendPadding` returned).  The driver never re-enters
`Process`, so a driver step that does not fit the current `phase` does nothing.
The actions that read the clock carry the value they read.

`trace` lists every step of a run with the state it starts from and what it
hands out, and every result about runs is stated over it.
-/

namespace Pacing

/-- A critical section of one of the threads, with the clock value it reads. -/
inductive Action
  | setStatus (enable : Bool)
  | pause
  | resume
  | updateBitrate (targetBitrateKbps padUpToBitrateKbps : Int)
  | sendPacket (priority : Priority) (ssrc : UInt32) (sequenceNumber : UInt16)
      (captureTimeMs bytes now : Int)
  | process (now : Int)
  | packetSent (clock : Int)
  | paddingSent (bytesSent : Int)
  deriving DecidableEq, Repr

namespace Action

/-- The clock value a critical section reads, if it reads one. -/
def clock? : Action → Option Int
  | sendPacket _ _ _ _ _ now => some now
  | process now => some now
  | packetSent clock => some clock
  | _ => none

/-- `a` is a `SendPacket` call. -/
def IsSendPacket : Action → Prop
  | sendPacket .. => True
  | _ => False

instance : DecidablePred IsSendPacket := fun a => by
  cases a <;> simp only [IsSendPacket] <;> infer_instance

end Action

/-- One critical section. -/
def step (cfg : Config) (s : PacedSender) : Action → PacedSender × Output
  | .setStatus enable => (s.setStatus enable, .none)
  | .pause => (s.pause, .none)
  | .resume => (s.resume, .none)
  | .updateBitrate targetBitrateKbps padUpToBitrateKbps =>
    (s.updateBitrate cfg targetBitrateKbps padUpToBitrateKbps, .none)
  | .sendPacket priority ssrc sequenceNumber captureTimeMs bytes now =>
    let r := s.sendPacket priority ssrc sequenceNumber captureTimeMs bytes now
    (r.1, .sendPacket r.2)
  | .process now =>
    match s.phase with
    | .idle => s.process now
    | _ => (s, .none)
  | .packetSent clock =>
    match s.phase with
    | .sendingPacket now deltaTimeMs => s.processLoop now deltaTimeMs clock
    | _ => (s, .none)
  | .paddingSent bytesSent =>
    match s.phase with
    | .sendingPadding _ _ _ => (s.paddingSent bytesSent, .none)
    | _ => (s, .none)

variable (cfg : Config)

/-- The state after a run. -/
def run (s : PacedSender) (acts : List Action) : PacedSender :=
  acts.foldl (fun s a => (step cfg s a).1) s

/-- Every step of a run: the state it starts from, the action, and what it hands out. -/
def trace : PacedSender → List Action → List (PacedSender × Action × Output)
  | _, [] => []
  | s, a :: acts => (s, a, (step cfg s a).2) :: trace (step cfg s a).1 acts

variable {cfg}

@[simp] theorem run_nil (s : PacedSender) : run cfg s [] = s := rfl

@[simp] theorem run_cons (s : PacedSender) (a : Action) (acts : List Action) :
    run cfg s (a :: acts) = run cfg (step cfg s a).1 acts := rfl

@[simp] theorem run_append (s : PacedSender) (l₁ l₂ : List Action) :
    run cfg s (l₁ ++ l₂) = run cfg (run cfg s l₁) l₂ := List.foldl_append ..

@[simp] theorem trace_nil (s : PacedSender) : trace cfg s [] = [] := rfl

@[simp] theorem trace_cons (s : PacedSender) (a : Action) (acts : List Action) :
    trace cfg s (a :: acts) = (s, a, (step cfg s a).2) :: trace cfg (step cfg s a).1 acts := rfl

@[simp] theorem trace_append (s : PacedSender) (l₁ l₂ : List Action) :
    trace cfg s (l₁ ++ l₂) = trace cfg s l₁ ++ trace cfg (run cfg s l₁) l₂ := by
  induction l₁ generalizing s <;> simp_all

theorem trace_snoc (s : PacedSender) (acts : List Action) (a : Action) :
    trace cfg s (acts ++ [a]) = trace cfg s acts ++ [(run cfg s acts, a, (step cfg (run cfg s acts) a).2)] := by
  simp

@[simp] theorem length_trace (s : PacedSender) (acts : List Action) :
    (trace cfg s acts).length = acts.length := by
  induction acts generalizing s <;> simp_all

/-- A step of a trace starts where the run before it ends. -/
theorem mem_trace {s : PacedSender} {acts : List Action} {x : PacedSender × Action × Output}
    (h : x ∈ trace cfg s acts) :
    ∃ pre post, acts = pre ++ x.2.1 :: post ∧ x.1 = run cfg s pre ∧ x.2.2 = (step cfg x.1 x.2.1).2 := by
  induction acts generalizing s with
  | nil => simp at h
  | cons a acts ih =>
    rcases List.mem_cons.mp h with rfl | h
    · exact ⟨[], acts, rfl, rfl, rfl⟩
    · obtain ⟨pre, post, h1, h2, h3⟩ := ih h
      exact ⟨a :: pre, post, by simp [h1], by simp [h2], h3⟩

/-! ### The driver's steps in each phase -/

section phase

variable {s : PacedSender}

theorem step_process_of_idle (h : s.phase = .idle) (now : Int) :
    step cfg s (.process now) = s.process now := by
  simp [step, h]

theorem step_process_of_busy (h : s.phase ≠ .idle) (now : Int) :
    step cfg s (.process now) = (s, .none) := by
  unfold step; split <;> simp_all

theorem step_packetSent_of_sending {now d : Int} (h : s.phase = .sendingPacket now d) (clock : Int) :
    step cfg s (.packetSent clock) = s.processLoop now d clock := by
  simp [step, h]

theorem step_packetSent_of_not_sending (h : ∀ now d, s.phase ≠ .sendingPacket now d) (clock : Int) :
    step cfg s (.packetSent clock) = (s, .none) := by
  unfold step; split <;> simp_all

theorem step_paddingSent_of_padding {now d need : Int} (h : s.phase = .sendingPadding now d need)
    (n : Int) : step cfg s (.paddingSent n) = (s.paddingSent n, .none) := by
  simp [step, h]

theorem step_paddingSent_of_not_padding (h : ∀ now d need, s.phase ≠ .sendingPadding now d need)
    (n : Int) : step cfg s (.paddingSent n) = (s, .none) := by
  unfold step; split <;> simp_all

/-- **What a `Process` call's first critical section does**: a turn of the loop from the
refilled state when the driver is idle and the call runs; only note the clock when the call
stops at its first check; nothing while the driver is inside an earlier call. -/
theorem step_process_cases (s : PacedSender) (now : Int) :
    (s.phase = .idle ∧ s.Runs now ∧
        step cfg s (.process now) = (s.refilled now).processLoop now (s.deltaAt now) now) ∨
      (s.phase = .idle ∧ ¬ s.Runs now ∧
        step cfg s (.process now) = ({ s with timeLastUpdate := now }, .none)) ∨
      (s.phase ≠ .idle ∧ step cfg s (.process now) = (s, .none)) := by
  by_cases hi : s.phase = .idle
  · rw [step_process_of_idle hi]
    by_cases hr : s.Runs now
    · exact .inl ⟨hi, hr, PacedSender.process_of_runs hr⟩
    · exact .inr (.inl ⟨hi, hr, PacedSender.process_of_skip hr⟩)
  · exact .inr (.inr ⟨hi, step_process_of_busy hi now⟩)

/-- Re-entering the lock after `TimeToSendPacket` runs the next turn of the loop of the call the
driver is in, and does nothing outside one. -/
theorem step_packetSent_cases (s : PacedSender) (clock : Int) :
    (∃ now d, s.phase = .sendingPacket now d ∧
        step cfg s (.packetSent clock) = s.processLoop now d clock) ∨
      ((∀ now d, s.phase ≠ .sendingPacket now d) ∧ step cfg s (.packetSent clock) = (s, .none)) := by
  by_cases hs : ∃ now d, s.phase = .sendingPacket now d
  · obtain ⟨now, d, hs⟩ := hs
    exact .inl ⟨now, d, hs, step_packetSent_of_sending hs clock⟩
  · push_neg at hs; exact .inr ⟨hs, step_packetSent_of_not_sending hs clock⟩

/-- Re-entering the lock after `TimeToSendPadding` debits the padding sent, and does nothing
outside a padding phase. -/
theorem step_paddingSent_cases (s : PacedSender) (n : Int) :
    (∃ now d need, s.phase = .sendingPadding now d need ∧
        step cfg s (.paddingSent n) = (s.paddingSent n, .none)) ∨
      ((∀ now d need, s.phase ≠ .sendingPadding now d need) ∧
        step cfg s (.paddingSent n) = (s, .none)) := by
  by_cases hs : ∃ now d need, s.phase = .sendingPadding now d need
  · obtain ⟨now, d, need, hs⟩ := hs
    exact .inl ⟨now, d, need, hs, step_paddingSent_of_padding hs n⟩
  · push_neg at hs; exact .inr ⟨hs, step_paddingSent_of_not_padding hs n⟩

/-- The return of `TimeToSendPadding` touches no band and starts no callback. -/
theorem step_paddingSent (s : PacedSender) (n : Int) :
    (step cfg s (.paddingSent n)).1.packets = s.packets ∧ (step cfg s (.paddingSent n)).2 = .none := by
  simp only [step]; split <;> simp [PacedSender.paddingSent]

end phase

/-! ### What a step leaves alone -/

theorem step_enabled {s : PacedSender} {a : Action} (h : ∀ e, a ≠ .setStatus e) :
    (step cfg s a).1.enabled = s.enabled := by
  cases a <;> simp_all [step] <;> split <;> simp [PacedSender.paddingSent]

/-- A packet in a band after a step was in some band before it, or is the packet the step's
`SendPacket` call built. -/
theorem mem_step_packets {s : PacedSender} {a : Action} {q : Priority} {pkt : Packet}
    (h : pkt ∈ ((step cfg s a).1.packets q).packetList) :
    (∃ q', pkt ∈ (s.packets q').packetList) ∨
      ∃ p ssrc seq cap bytes now, a = .sendPacket p ssrc seq cap bytes now ∧
        pkt = Packet.ofSendPacket ssrc seq cap bytes now := by
  have hloop : ∀ t : PacedSender, t.packets = s.packets → ∀ now d clock,
      pkt ∈ ((t.processLoop now d clock).1.packets q).packetList → ∃ q', pkt ∈ (s.packets q').packetList := by
    intro t ht now d clock h
    rcases PacedSender.processLoop_cases t now d clock with ⟨h₁, -⟩ | ⟨q', -, -, h₁, -⟩
    · exact ⟨q, by simpa [h₁, ht] using h⟩
    · rw [h₁] at h
      by_cases hq : q = q'
      · subst hq
        rw [Function.update_same] at h
        exact ⟨q, ht ▸ PacketList.mem_of_mem_popFront h⟩
      · exact ⟨q, by simpa [hq, ht] using h⟩
  cases a with
  | sendPacket p ssrc seq cap bytes now =>
    rcases PacedSender.sendPacket_cases s p ssrc seq cap bytes now with ⟨h', -⟩ | ⟨-, -, v, h'⟩
    · exact .inl ⟨q, by simpa [step, h'] using h⟩
    · simp only [step, h'] at h
      by_cases hq : q = s.queueFor p
      · subst hq
        rcases PacketList.mem_pushBack (by simpa using h) with h | h
        · exact .inl ⟨_, h⟩
        · exact .inr ⟨p, ssrc, seq, cap, bytes, now, rfl, h⟩
      · exact .inl ⟨q, by simpa [hq] using h⟩
  | process now =>
    rcases step_process_cases s now with ⟨-, -, hs⟩ | ⟨-, -, hs⟩ | ⟨-, hs⟩ <;> rw [hs] at h
    · exact .inl (hloop _ (PacedSender.refilled_packets s now) _ _ _ h)
    all_goals exact .inl ⟨q, h⟩
  | packetSent clock =>
    rcases step_packetSent_cases s clock with ⟨now, d, -, hs⟩ | ⟨-, hs⟩ <;> rw [hs] at h
    · exact .inl (hloop s rfl _ _ _ h)
    · exact .inl ⟨q, h⟩
  | paddingSent n => exact .inl ⟨q, by rwa [(step_paddingSent s n).1] at h⟩
  | setStatus | pause | resume | updateBitrate => exact .inl ⟨q, by simpa [step] using h⟩

/-- Every queued packet satisfies `P`. -/
def PacedSender.BandsAll (P : Packet → Prop) (s : PacedSender) : Prop :=
  ∀ q, ∀ pkt ∈ (s.packets q).packetList, P pkt

/-- A property of every queued packet survives a step whose `SendPacket` call, if any, builds a
packet with the property. -/
theorem bandsAll_step {P : Packet → Prop} {s : PacedSender} (h : s.BandsAll P) {a : Action}
    (ha : ∀ p ssrc seq cap bytes now, a = .sendPacket p ssrc seq cap bytes now →
      P (Packet.ofSendPacket ssrc seq cap bytes now)) : (step cfg s a).1.BandsAll P := by
  intro q pkt hpkt
  rcases mem_step_packets hpkt with ⟨q', h'⟩ | ⟨p, ssrc, seq, cap, bytes, now, rfl, rfl⟩
  · exact h q' pkt h'
  · exact ha _ _ _ _ _ _ rfl

/-! ### Invariants -/

/-- An invariant of every step taken with an action of `acts` holds along the whole run. -/
theorem run_invariant {P : PacedSender → Prop} {s : PacedSender} {acts : List Action}
    (h0 : P s) (hstep : ∀ t a, a ∈ acts → P t → P (step cfg t a).1) : P (run cfg s acts) := by
  induction acts generalizing s with
  | nil => exact h0
  | cons a acts ih =>
    exact ih (hstep s a (by simp) h0) fun t b hb => hstep t b (List.mem_cons_of_mem _ hb)

/-- An invariant that every step of the trace keeps holds after the run. -/
theorem run_trace_induction {P : PacedSender → Prop} {s : PacedSender} {acts : List Action}
    (h0 : P s) (hstep : ∀ x ∈ trace cfg s acts, P x.1 → P (step cfg x.1 x.2.1).1) :
    P (run cfg s acts) := by
  induction acts generalizing s with
  | nil => exact h0
  | cons a acts ih =>
    simp only [trace_cons, List.mem_cons, forall_eq_or_imp] at hstep
    exact ih (hstep.1 h0) hstep.2

/-- Such an invariant holds at the start of every step of the trace. -/
theorem trace_invariant {P : PacedSender → Prop} {s : PacedSender} {acts : List Action}
    (h0 : P s) (hstep : ∀ t a, a ∈ acts → P t → P (step cfg t a).1) :
    ∀ x ∈ trace cfg s acts, P x.1 := by
  intro x hx
  obtain ⟨pre, post, rfl, h1, -⟩ := mem_trace hx
  exact h1 ▸ run_invariant h0 fun t a ha => hstep t a (by simp [ha])

end Pacing
