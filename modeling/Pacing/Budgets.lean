import Pacing.System

/-
The three budgets over whole runs.

Within one critical section a budget is refilled for an interval of at most
`kMaxIntervalTimeMs`, debited by a packet or padding size, or given a new rate by
`UpdateBitrate`, at most two of these in a row (`Evolves`).  `step_mediaBudget`,
`step_paddingBudget` and `step_padUpToBitrateBudget` say that of every step once,
and each invariant below is then a matter of the three budget operations.

`UseBudget` clamps to the floor of the rate in force at the debit, and
`UpdateBitrate` changes the rate without touching `bytes_remaining`.  So the
floor of the *current* rate is not an invariant: after the rate is lowered, a
budget may owe more than 100 ms of the new rate.  What is invariant is the floor
of the largest rate the budget may have (`AboveFloor`), and with rates and sizes
in the ranges of `budget_arithmetic_fits_int` the budgets stay in a range in which
no `int` computation of `IncreaseBudget` or `UseBudget` overflows.
-/

namespace Pacing

open PacedSender

/-- What one critical section can do to a budget: refill it for an interval of at most
`kMaxIntervalTimeMs`, debit it by one of `sizes`, or set its rate to one of `rates`. -/
inductive IntervalBudget.Evolves (rates sizes : Int → Prop) : IntervalBudget → IntervalBudget → Prop
  | refl (b : IntervalBudget) : Evolves rates sizes b b
  | refill {b b' : IntervalBudget} (d : Int) : 0 < d → d ≤ kMaxIntervalTimeMs →
      Evolves rates sizes (b.increaseBudget d) b' → Evolves rates sizes b b'
  | debit {b b' : IntervalBudget} (n : Int) : sizes n →
      Evolves rates sizes (b.useBudget n) b' → Evolves rates sizes b b'
  | rate {b b' : IntervalBudget} (r : Int) : rates r →
      Evolves rates sizes (b.setTargetRateKbps r) b' → Evolves rates sizes b b'

namespace IntervalBudget.Evolves

variable {rates sizes : Int → Prop} {b b' : IntervalBudget}

/-- A property that refills, the allowed debits and the allowed rates keep holds all along. -/
theorem preserve {P : IntervalBudget → Prop}
    (hinc : ∀ b d, 0 < d → d ≤ kMaxIntervalTimeMs → P b → P (b.increaseBudget d))
    (huse : ∀ b n, sizes n → P b → P (b.useBudget n))
    (hset : ∀ b r, rates r → P b → P (b.setTargetRateKbps r))
    (h : Evolves rates sizes b b') (hb : P b) : P b' := by
  induction h with
  | refl => exact hb
  | refill d hd hd' _ ih => exact ih (hinc _ d hd hd' hb)
  | debit n hn _ ih => exact ih (huse _ n hn hb)
  | rate r hr _ ih => exact ih (hset _ r hr hb)

theorem mono {rates' sizes' : Int → Prop} (hr : ∀ r, rates r → rates' r)
    (hs : ∀ n, sizes n → sizes' n) (h : Evolves rates sizes b b') : Evolves rates' sizes' b b' := by
  induction h with
  | refl => exact .refl _
  | refill d hd hd' _ ih => exact .refill d hd hd' ih
  | debit n hn _ ih => exact .debit n (hs n hn) ih
  | rate r hr' _ ih => exact .rate r (hr r hr') ih

theorem trans {b'' : IntervalBudget} (h : Evolves rates sizes b b')
    (h' : Evolves rates sizes b' b'') : Evolves rates sizes b b'' := by
  induction h with
  | refl => exact h'
  | refill d hd hd' _ ih => exact .refill d hd hd' (ih h')
  | debit n hn _ ih => exact .debit n hn (ih h')
  | rate r hr _ ih => exact .rate r hr (ih h')

end IntervalBudget.Evolves

open IntervalBudget

/-- The sizes a step may debit by: what a `SendPacket` call passes, what `TimeToSendPadding`
returned, or the size of a head `Process` pops. -/
def DebitSize (s : PacedSender) (a : Action) (n : Int) : Prop :=
  (∃ p ssrc seq cap now, a = .sendPacket p ssrc seq cap n now) ∨ a = .paddingSent n ∨
    ∃ q, (s.packets q).packetList ≠ [] ∧ n = (s.packets q).front.bytes

/-- `t'` has the media and pad-up-to budgets of `t` after the same refills and debits. -/
def DebitedAlike (sizes : Int → Prop) (t t' : PacedSender) : Prop :=
  ∃ g : IntervalBudget → IntervalBudget, (∀ b, Evolves (fun _ => False) sizes b (g b)) ∧
    t'.mediaBudget = g t.mediaBudget ∧ t'.padUpToBitrateBudget = g t.padUpToBitrateBudget

namespace DebitedAlike

variable {sizes : Int → Prop} {t t' t'' : PacedSender}

theorem of_eq (h₁ : t'.mediaBudget = t.mediaBudget)
    (h₂ : t'.padUpToBitrateBudget = t.padUpToBitrateBudget) : DebitedAlike sizes t t' :=
  ⟨id, fun b => .refl b, h₁, h₂⟩

theorem trans (h : DebitedAlike sizes t t') (h' : DebitedAlike sizes t' t'') :
    DebitedAlike sizes t t'' := by
  obtain ⟨g, hg, h₁, h₂⟩ := h
  obtain ⟨g', hg', h₁', h₂'⟩ := h'
  exact ⟨g' ∘ g, fun b => (hg b).trans (hg' (g b)), by simp [h₁', h₁], by simp [h₂', h₂]⟩

end DebitedAlike

variable {cfg : Config}

/-- A turn of `Process`'s loop debits by the size of a head of a band of `s`. -/
theorem debitedAlike_processLoop {s t : PacedSender} {a : Action} (ht : t.packets = s.packets)
    (now d clock : Int) : DebitedAlike (DebitSize s a) t (t.processLoop now d clock).1 := by
  rcases processLoop_cases t now d clock with ⟨-, h₁, h₂, -⟩ | ⟨q, hq, -, -, h₁, h₂⟩
  · exact .of_eq h₁ h₂
  · exact ⟨(·.useBudget (t.packets q).front.bytes),
      fun b => .debit _ (.inr (.inr ⟨q, ht ▸ hq, by rw [ht]⟩)) (.refl _), h₁, h₂⟩

/-- Outside `UpdateBitrate`, the media and pad-up-to budgets undergo the same refills and
debits. -/
theorem step_debits {s : PacedSender} {a : Action} (ha : ∀ t p, a ≠ .updateBitrate t p) :
    DebitedAlike (DebitSize s a) s (step cfg s a).1 := by
  cases a with
  | updateBitrate t p => exact absurd rfl (ha t p)
  | setStatus | pause | resume => exact .of_eq rfl rfl
  | sendPacket p ssrc seq cap bytes now =>
    rcases sendPacket_cases s p ssrc seq cap bytes now with ⟨h, -⟩ | ⟨-, -, v, h⟩
    · exact ⟨(·.useBudget bytes), fun b => .debit _ (.inl ⟨p, ssrc, seq, cap, now, rfl⟩) (.refl _),
        by simp [Pacing.step, h], by simp [Pacing.step, h]⟩
    · exact .of_eq (by simp [Pacing.step, h]) (by simp [Pacing.step, h])
  | process now =>
    rcases step_process_cases s now with ⟨-, hr, hs⟩ | ⟨-, -, hs⟩ | ⟨-, hs⟩ <;> rw [hs]
    · -- the refill, then one turn of the loop
      refine .trans ⟨(·.increaseBudget (s.deltaAt now)),
        fun b => .refill _ (deltaAt_pos hr) (deltaAt_le s now) (.refl _), rfl, rfl⟩
        (debitedAlike_processLoop (by rfl) _ _ _)
    all_goals exact .of_eq rfl rfl
  | packetSent clock =>
    rcases step_packetSent_cases s clock with ⟨now, d, -, hs⟩ | ⟨-, hs⟩ <;> rw [hs]
    · exact debitedAlike_processLoop rfl _ _ _
    · exact .of_eq rfl rfl
  | paddingSent n =>
    rcases step_paddingSent_cases s n with ⟨-, -, -, -, hs⟩ | ⟨-, hs⟩ <;> rw [hs]
    · exact ⟨(·.useBudget n), fun b => .debit _ (.inr (.inl rfl)) (.refl _), rfl, rfl⟩
    · exact .of_eq rfl rfl

/-- What a step does to the media budget. -/
theorem step_mediaBudget (s : PacedSender) (a : Action) :
    Evolves (fun r => ∃ t p, a = .updateBitrate t p ∧ r = cfg.paceRate t) (DebitSize s a)
      s.mediaBudget (step cfg s a).1.mediaBudget := by
  by_cases ha : ∃ t p, a = .updateBitrate t p
  · obtain ⟨t, p, rfl⟩ := ha
    exact .rate _ ⟨t, p, rfl, rfl⟩ (by simpa [Pacing.step] using .refl _)
  · push_neg at ha
    obtain ⟨g, hg, h₁, -⟩ : DebitedAlike (DebitSize s a) s (step cfg s a).1 := step_debits ha
    exact h₁ ▸ (hg _).mono (fun _ h => h.elim) fun _ h => h

/-- What a step does to the pad-up-to budget. -/
theorem step_padUpToBitrateBudget (s : PacedSender) (a : Action) :
    Evolves (fun r => ∃ t, a = .updateBitrate t r) (DebitSize s a)
      s.padUpToBitrateBudget (step cfg s a).1.padUpToBitrateBudget := by
  by_cases ha : ∃ t p, a = .updateBitrate t p
  · obtain ⟨t, p, rfl⟩ := ha
    exact .rate _ ⟨t, rfl⟩ (by simpa [Pacing.step] using .refl _)
  · push_neg at ha
    obtain ⟨g, hg, -, h₂⟩ : DebitedAlike (DebitSize s a) s (step cfg s a).1 := step_debits ha
    exact h₂ ▸ (hg _).mono (fun _ h => h.elim) fun _ h => h

/-- What a step does to the padding budget: a refill by `Process`, or the debit of what
`TimeToSendPadding` returned.  Its rate never changes. -/
theorem step_paddingBudget (s : PacedSender) (a : Action) :
    Evolves (fun _ => False) (fun n => a = .paddingSent n)
      s.paddingBudget (step cfg s a).1.paddingBudget := by
  cases a with
  | sendPacket => simpa [Pacing.step] using .refl _
  | process now =>
    rcases step_process_cases s now with ⟨-, hr, hs⟩ | ⟨-, -, hs⟩ | ⟨-, hs⟩ <;> rw [hs]
    · rw [processLoop_paddingBudget]
      exact .refill _ (deltaAt_pos hr) (deltaAt_le s now) (by simpa [refilled] using .refl _)
    all_goals exact .refl _
  | packetSent clock =>
    rcases step_packetSent_cases s clock with ⟨now, d, -, hs⟩ | ⟨-, hs⟩ <;> rw [hs]
    · rw [processLoop_paddingBudget]; exact .refl _
    · exact .refl _
  | paddingSent n =>
    rcases step_paddingSent_cases s n with ⟨-, -, -, -, hs⟩ | ⟨-, hs⟩ <;> rw [hs]
    · exact .debit n rfl (.refl _)
    · exact .refl _
  | setStatus | pause | resume | updateBitrate => simpa [Pacing.step] using .refl _

/-- The budgets of a new pacer, before its first refill. -/
theorem new_budgets (target now : Int) :
    (PacedSender.new cfg target now).mediaBudget =
        (IntervalBudget.new (cfg.paceRate target)).increaseBudget kMinPacketLimitMs ∧
      (PacedSender.new cfg target now).paddingBudget =
        (IntervalBudget.new kMaxPaddingKbps).increaseBudget kMinPacketLimitMs ∧
      (PacedSender.new cfg target now).padUpToBitrateBudget =
        (IntervalBudget.new 0).increaseBudget kMinPacketLimitMs :=
  ⟨rfl, rfl, rfl⟩

/-- Every debit of a step is by a size of the step's own `SendPacket` or `TimeToSendPadding`, or of
a packet in a band. -/
theorem DebitSize.of_bounds {s : PacedSender} {a : Action} {P : Int → Prop}
    (hsend : ∀ p ssrc seq cap bytes now, a = .sendPacket p ssrc seq cap bytes now → P bytes)
    (hpad : ∀ n, a = .paddingSent n → P n)
    (hqueued : ∀ q, ∀ pkt ∈ (s.packets q).packetList, P pkt.bytes) {n : Int}
    (h : DebitSize s a n) : P n := by
  rcases h with ⟨p, ssrc, seq, cap, now, rfl⟩ | rfl | ⟨q, hq, rfl⟩
  · exact hsend _ _ _ _ _ _ rfl
  · exact hpad _ rfl
  · obtain ⟨pkt, rest, hl⟩ := List.exists_cons_of_ne_nil hq
    exact hqueued q _ (by simp [hl, PacketList.front_eq hl])

/-! ### The floor of the largest rate -/

namespace IntervalBudget

/-- `b` owes no more than 100 ms of a rate `M` that bounds its own. -/
structure AboveFloor (M : Int) (b : IntervalBudget) : Prop where
  rate_nonneg : 0 ≤ b.targetRateKbps
  rate_le : b.targetRateKbps ≤ M
  floor_le : debtFloor M ≤ b.bytesRemaining

namespace AboveFloor

variable {M : Int} {b : IntervalBudget}

theorem new {r : Int} (h₀ : 0 ≤ r) (h : r ≤ M) : (IntervalBudget.new r).AboveFloor M :=
  ⟨h₀, h, by simpa using debtFloor_nonpos (h₀.trans h)⟩

theorem increaseBudget (h : b.AboveFloor M) {d : Int} (hd : 0 ≤ d) : (b.increaseBudget d).AboveFloor M := by
  have := debtFloor_nonpos (h.rate_nonneg.trans h.rate_le)
  have := credit_nonneg h.rate_nonneg hd
  exact ⟨by simpa using h.rate_nonneg, by simpa using h.rate_le, by simp; have := h.floor_le; omega⟩

theorem useBudget (h : b.AboveFloor M) (n : Int) : (b.useBudget n).AboveFloor M :=
  ⟨h.rate_nonneg, h.rate_le,
    (debtFloor_antitone h.rate_nonneg h.rate_le).trans (debtFloor_le_useBudget b n)⟩

theorem setTargetRateKbps (h : b.AboveFloor M) {r : Int} (h₀ : 0 ≤ r) (hr : r ≤ M) :
    (b.setTargetRateKbps r).AboveFloor M :=
  ⟨h₀, hr, h.floor_le⟩

theorem evolves {rates sizes : Int → Prop} (hrates : ∀ r, rates r → 0 ≤ r ∧ r ≤ M) {b' : IntervalBudget}
    (he : Evolves rates sizes b b') (h : b.AboveFloor M) : b'.AboveFloor M :=
  he.preserve (fun _ _ hd _ hb => hb.increaseBudget hd.le) (fun _ n _ hb => hb.useBudget n)
    (fun _ r hr hb => hb.setTargetRateKbps (hrates r hr).1 (hrates r hr).2) h

end AboveFloor

end IntervalBudget

/-- **No budget ever owes more than 100 ms of the largest rate it may have.**  With media rates
bounded by `Mm` and pad-up-to rates by `Mu`, every reachable state has the media budget above
`-100 * Mm / 8`, the pad-up-to budget above `-100 * Mu / 8`, and the padding budget, whose rate
stays `kMaxPaddingKbps`, above the floor of that rate.  The floors are those of the model's
arithmetic, which is that of `int` while the rates stay within `[0, 21474836]`
(`IntervalBudget.InRange.noOverflow`). -/
theorem debt_floor_of_largest_rate (cfg : Config) (target now : Int) (acts : List Action)
    (Mm Mu : Int) (hMu : 0 ≤ Mu) (hm : 0 ≤ cfg.paceRate target ∧ cfg.paceRate target ≤ Mm)
    (hrates : ∀ t p, .updateBitrate t p ∈ acts →
      (0 ≤ cfg.paceRate t ∧ cfg.paceRate t ≤ Mm) ∧ 0 ≤ p ∧ p ≤ Mu) :
    debtFloor Mm ≤ (run cfg (PacedSender.new cfg target now) acts).mediaBudget.bytesRemaining ∧
      (run cfg (PacedSender.new cfg target now) acts).paddingBudget.targetRateKbps = kMaxPaddingKbps ∧
      debtFloor kMaxPaddingKbps ≤
        (run cfg (PacedSender.new cfg target now) acts).paddingBudget.bytesRemaining ∧
      debtFloor Mu ≤
        (run cfg (PacedSender.new cfg target now) acts).padUpToBitrateBudget.bytesRemaining := by
  let Inv (s : PacedSender) : Prop := s.mediaBudget.AboveFloor Mm ∧
    (s.paddingBudget.targetRateKbps = kMaxPaddingKbps ∧ s.paddingBudget.AboveFloor kMaxPaddingKbps) ∧
    s.padUpToBitrateBudget.AboveFloor Mu
  have h0 : Inv (PacedSender.new cfg target now) := by
    obtain ⟨h₁, h₂, h₃⟩ := @new_budgets cfg target now
    refine ⟨h₁ ▸ (AboveFloor.new hm.1 hm.2).increaseBudget (by decide), ⟨by simp [h₂], h₂ ▸
      (AboveFloor.new (by decide) le_rfl).increaseBudget (by decide)⟩,
      h₃ ▸ (AboveFloor.new le_rfl hMu).increaseBudget (by decide)⟩
  have hstep : ∀ s a, a ∈ acts → Inv s → Inv (step cfg s a).1 := by
    rintro s a ha ⟨hm', ⟨hp₁, hp₂⟩, hu⟩
    refine ⟨hm'.evolves ?_ (step_mediaBudget s a), ⟨?_, hp₂.evolves (fun _ h => h.elim)
      (step_paddingBudget s a)⟩, hu.evolves ?_ (step_padUpToBitrateBudget s a)⟩
    · rintro r ⟨t, p, rfl, rfl⟩; exact (hrates t p ha).1
    · exact (step_paddingBudget s a).preserve (P := fun b => b.targetRateKbps = kMaxPaddingKbps)
        (fun _ _ _ _ h => by simpa using h) (fun _ _ _ h => by simpa using h)
        (fun _ _ h => h.elim) hp₁
    · rintro r ⟨t, rfl⟩; exact (hrates t r ha).2
  obtain ⟨hm', ⟨hp₁, hp₂⟩, hu⟩ := run_invariant h0 hstep
  exact ⟨hm'.floor_le, hp₁, hp₂.floor_le, hu.floor_le⟩

/-- The floor at a run that halves the media rate and sets a pad-up-to rate. -/
theorem debt_floor_of_largest_rate_example :
    debtFloor 800 ≤ (run ⟨id⟩ (PacedSender.new ⟨id⟩ 800 0)
      [.updateBitrate 400 100]).mediaBudget.bytesRemaining :=
  (debt_floor_of_largest_rate ⟨id⟩ 800 0 [.updateBitrate 400 100] 800 100 (by decide)
    ⟨by decide, by decide⟩ (by simp)).1

/-- A disabled pacer debits a 100000-byte packet down to the floor of its 800 kbps media rate,
-10000 bytes; lowering the rate to 8 kbps leaves it 100 times below the new floor. -/
theorem lowered_rate_breaks_floor :
    let s := run ⟨id⟩ (PacedSender.new ⟨id⟩ 800 0)
      [.sendPacket .kNormalPriority 1 1 0 100000 0, .updateBitrate 8 0]
    s.mediaBudget.bytesRemaining = -10000 ∧ s.mediaBudget.targetRateKbps = 8 ∧
      s.mediaBudget.bytesRemaining < debtFloor s.mediaBudget.targetRateKbps := by
  decide

/-! ### No overflow -/

/-- `x` is a value of a 32-bit `int`. -/
def Fits32 (x : Int) : Prop := -2 ^ 31 ≤ x ∧ x < 2 ^ 31

namespace IntervalBudget

/-- The `int`s `IncreaseBudget(d)` computes on `b` fit: `target_rate_kbps_ * delta_time_ms`, and
`bytes_remaining_ + bytes` when in debt. -/
def IncreaseFits (b : IntervalBudget) (d : Int) : Prop :=
  Fits32 (b.targetRateKbps * d) ∧
    (b.bytesRemaining < 0 → Fits32 (b.bytesRemaining + credit b.targetRateKbps d))

/-- The `int`s `UseBudget(n)` computes on `b` fit: `bytes_remaining_ - bytes` and
`-100 * target_rate_kbps_`. -/
def UseFits (b : IntervalBudget) (n : Int) : Prop :=
  Fits32 (b.bytesRemaining - n) ∧ Fits32 (-100 * b.targetRateKbps)

/-- Whatever one critical section computes on `b` fits: a refill for at most
`kMaxIntervalTimeMs`, a debit of at most 65535 bytes, or a refill and then such a debit. -/
def NoOverflow (b : IntervalBudget) : Prop :=
  ∀ d, 0 ≤ d → d ≤ kMaxIntervalTimeMs → ∀ n, 0 ≤ n → n ≤ 65535 →
    b.IncreaseFits d ∧ b.UseFits n ∧ (b.increaseBudget d).UseFits n

/-- The range a budget keeps when its rates stay in `[0, M]` and its debits are sizes: above the
floor of `M`, and below one 30 ms refill at `M`. -/
structure InRange (M : Int) (b : IntervalBudget) extends AboveFloor M b : Prop where
  le_credit : b.bytesRemaining ≤ credit M kMaxIntervalTimeMs

namespace InRange

variable {M : Int} {b : IntervalBudget}

theorem new {r : Int} (h₀ : 0 ≤ r) (h : r ≤ M) : (IntervalBudget.new r).InRange M :=
  ⟨.new h₀ h, by simpa using credit_nonneg (h₀.trans h) (by decide : (0 : Int) ≤ 30)⟩

theorem increaseBudget (h : b.InRange M) {d : Int} (hd : 0 ≤ d) (hd' : d ≤ kMaxIntervalTimeMs) :
    (b.increaseBudget d).InRange M := by
  have := credit_mono h.rate_nonneg h.rate_le hd hd'
  exact ⟨h.toAboveFloor.increaseBudget hd, by simp; omega⟩

theorem useBudget (h : b.InRange M) {n : Int} (hn : 0 ≤ n) : (b.useBudget n).InRange M := by
  have := useBudget_le (b := b) h.rate_nonneg hn
  have := credit_nonneg (h.rate_nonneg.trans h.rate_le) (by decide : (0 : Int) ≤ kMaxIntervalTimeMs)
  exact ⟨h.toAboveFloor.useBudget n, by have := h.le_credit; omega⟩

theorem evolves {rates sizes : Int → Prop} (hrates : ∀ r, rates r → 0 ≤ r ∧ r ≤ M)
    (hsizes : ∀ n, sizes n → 0 ≤ n) {b' : IntervalBudget} (he : Evolves rates sizes b b')
    (h : b.InRange M) : b'.InRange M :=
  he.preserve (fun _ _ hd hd' hb => hb.increaseBudget hd.le hd') (fun _ n hn hb => hb.useBudget (hsizes n hn))
    (fun _ r hr hb => ⟨hb.toAboveFloor.setTargetRateKbps (hrates r hr).1 (hrates r hr).2, hb.le_credit⟩) h

/-- In the range of the largest rate whose 100 ms floor fits in an `int`, a debit fits. -/
theorem useFits (h : b.InRange M) (hM : M ≤ 21474836) {n : Int} (hn : 0 ≤ n) (hn' : n ≤ 65535) :
    b.UseFits n := by
  have hf := h.floor_le
  have hc := h.le_credit
  have hr := h.rate_le
  have := h.rate_nonneg
  rw [debtFloor_eq (this.trans hr)] at hf
  rw [credit_eq (this.trans hr) (by decide)] at hc
  simp only [UseFits, Fits32, kMaxIntervalTimeMs] at *
  omega

theorem noOverflow (h : b.InRange M) (hM : M ≤ 21474836) : b.NoOverflow := by
  intro d hd hd' n hn hn'
  have hrd : b.targetRateKbps * d ≤ M * 30 :=
    Int.mul_le_mul h.rate_le hd' hd (h.rate_nonneg.trans h.rate_le)
  have hrd₀ : 0 ≤ b.targetRateKbps * d := Int.mul_nonneg h.rate_nonneg hd
  have hi := h.increaseBudget hd hd'
  refine ⟨⟨⟨by omega, by omega⟩, fun hneg => ?_⟩, h.useFits hM hn hn', hi.useFits hM hn hn'⟩
  have hf := hi.floor_le
  have hc := hi.le_credit
  have := h.rate_nonneg.trans h.rate_le
  simp only [increaseBudget_bytesRemaining, min_eq_left hneg.le] at hf hc
  rw [debtFloor_eq this] at hf
  rw [credit_eq this (by decide)] at hc
  simp only [Fits32, kMaxIntervalTimeMs] at *
  omega

end InRange

end IntervalBudget

/-- **No `int` computation of the budgets overflows** in a run whose media and pad-up-to rates
stay in `[0, 21474836]`, the largest rate whose `-100 * rate` fits, and whose packet and padding
sizes stay in `[0, 65535]`: not in the constructor's refill, and not in any critical section from
any reachable state. -/
theorem budget_arithmetic_fits_int (cfg : Config) (target now : Int) (acts : List Action)
    (hm : 0 ≤ cfg.paceRate target ∧ cfg.paceRate target ≤ 21474836)
    (hrates : ∀ t p, .updateBitrate t p ∈ acts →
      (0 ≤ cfg.paceRate t ∧ cfg.paceRate t ≤ 21474836) ∧ 0 ≤ p ∧ p ≤ 21474836)
    (hsizes : ∀ p ssrc seq cap bytes clock, .sendPacket p ssrc seq cap bytes clock ∈ acts →
      0 ≤ bytes ∧ bytes ≤ 65535)
    (hpadding : ∀ n, .paddingSent n ∈ acts → 0 ≤ n ∧ n ≤ 65535) :
    ((IntervalBudget.new (cfg.paceRate target)).NoOverflow ∧
      (IntervalBudget.new kMaxPaddingKbps).NoOverflow ∧ (IntervalBudget.new 0).NoOverflow) ∧
    ((run cfg (PacedSender.new cfg target now) acts).mediaBudget.NoOverflow ∧
      (run cfg (PacedSender.new cfg target now) acts).paddingBudget.NoOverflow ∧
      (run cfg (PacedSender.new cfg target now) acts).padUpToBitrateBudget.NoOverflow) := by
  let Inv (s : PacedSender) : Prop := s.mediaBudget.InRange 21474836 ∧
    s.paddingBudget.InRange 21474836 ∧ s.padUpToBitrateBudget.InRange 21474836 ∧
    s.BandsAll fun pkt => 0 ≤ pkt.bytes ∧ pkt.bytes ≤ 65535
  have hm₀ := InRange.new hm.1 hm.2
  have hp₀ : (IntervalBudget.new kMaxPaddingKbps).InRange 21474836 := .new (by decide) (by decide)
  have hu₀ : (IntervalBudget.new 0).InRange 21474836 := .new le_rfl (by decide)
  have h0 : Inv (PacedSender.new cfg target now) := by
    obtain ⟨h₁, h₂, h₃⟩ := @new_budgets cfg target now
    refine ⟨h₁ ▸ hm₀.increaseBudget (by decide) (by decide), h₂ ▸ hp₀.increaseBudget (by decide)
      (by decide), h₃ ▸ hu₀.increaseBudget (by decide) (by decide), fun q pkt h => ?_⟩
    simp [PacedSender.new] at h
  have hstep : ∀ s a, a ∈ acts → Inv s → Inv (step cfg s a).1 := by
    rintro s a ha ⟨hm', hp', hu', hq⟩
    have hdebit : ∀ n, DebitSize s a n → 0 ≤ n := fun n hn =>
      (hn.of_bounds (P := fun n => 0 ≤ n ∧ n ≤ 65535)
        (fun _ _ _ _ _ _ h => hsizes _ _ _ _ _ _ (h ▸ ha)) (fun _ h => hpadding _ (h ▸ ha)) hq).1
    refine ⟨hm'.evolves ?_ hdebit (step_mediaBudget s a),
      hp'.evolves (fun _ h => h.elim) (fun n (h : a = .paddingSent n) => (hpadding n (h ▸ ha)).1)
        (step_paddingBudget s a),
      hu'.evolves ?_ hdebit (step_padUpToBitrateBudget s a),
      bandsAll_step hq fun p ssrc seq cap bytes clock h => hsizes p ssrc seq cap bytes clock (h ▸ ha)⟩
    · rintro r ⟨t, p, rfl, rfl⟩; exact (hrates t p ha).1
    · rintro r ⟨t, rfl⟩; exact (hrates t r ha).2
  obtain ⟨hm', hp', hu', -⟩ := run_invariant h0 hstep
  exact ⟨⟨hm₀.noOverflow le_rfl, hp₀.noOverflow le_rfl, hu₀.noOverflow le_rfl⟩,
    hm'.noOverflow le_rfl, hp'.noOverflow le_rfl, hu'.noOverflow le_rfl⟩

/-- The bound at a run that queues a 1200-byte packet and drains it. -/
theorem budget_arithmetic_fits_int_example :
    (run ⟨id⟩ (PacedSender.new ⟨id⟩ 800 0)
      [.setStatus true, .sendPacket .kNormalPriority 1 1 0 1200 0, .process 5]).mediaBudget.NoOverflow :=
  (budget_arithmetic_fits_int ⟨id⟩ 800 0 _ ⟨by decide, by decide⟩ (by simp)
    (by simp only [List.mem_cons, Action.sendPacket.injEq]; aesop) (by simp)).2.1

end Pacing
