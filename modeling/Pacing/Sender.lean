import Pacing.Packet
import Pacing.Budget
import Mathlib.Logic.Function.Basic

/-
The pacer of `paced_sender.cc`, one function per method.

Every method runs under the pacer's one critical section, and each is modelled as
a function of the state and of the clock value it reads.  `Process` is the one
method that leaves the critical section while it runs: around each
`TimeToSendPacket` and around `TimeToSendPadding`.  Its frame while the callback
runs is kept in `phase`, so that the pieces between those callbacks are functions
too: `process` (the first critical section), `processLoop` (one turn of the drain
loop, or its exit into padding) and `paddingSent` (the last one).

Two things of the source are taken as given rather than modelled: the media rate
`pace_multiplier_ * target_bitrate_kbps`, a `float` product converted to `int`
(`Config.paceRate`), and the `TRACE_EVENT` calls, which change no state.  Clock
values are milliseconds, kept as `int64_t` by the source and as `Int` here; where
the source stores a difference of two of them in an `int` (the elapsed time of
`Process`, the result of `QueueInMs`) the model narrows it the same way (`toInt32`).
-/

namespace Pacing

/-- Time limit in milliseconds between packet bursts. -/
def kMinPacketLimitMs : Int := 5
/-- Upper cap on the interval one `Process` call refills. -/
def kMaxIntervalTimeMs : Int := 30
/-- How long the head of the queue may wait while nothing is sent. -/
def kMaxQueueTimeWithoutSendingMs : Int := 30
/-- Max padding kbit per second. -/
def kMaxPaddingKbps : Int := 800

/-- An `int64_t` converted to a 32-bit `int`: its value modulo `2 ^ 32`, read in two's
complement. -/
def toInt32 (x : Int) : Int := (x + 2 ^ 31) % 2 ^ 32 - 2 ^ 31

/-- The conversion keeps every value an `int` can hold. -/
theorem toInt32_of_lt {x : Int} (h₀ : -2 ^ 31 ≤ x) (h₁ : x < 2 ^ 31) : toInt32 x = x := by
  unfold toInt32; omega

/-- Of a value no lower than the least `int`, the conversion keeps it or wraps it below. -/
theorem toInt32_le {x : Int} (h : -2 ^ 31 ≤ x) : toInt32 x ≤ x := by
  unfold toInt32; omega

/-- The media rate the pacer stores for a target rate, `pace_multiplier_ * target_bitrate_kbps`. -/
structure Config where
  paceRate : Int → Int

/-- Where the driver thread's `Process` call is.  While a callback runs, the lock is released
and the call's frame holds its clock reading `now` and its refill interval `deltaTimeMs`. -/
inductive Phase
  | idle
  | sendingPacket (now deltaTimeMs : Int)
  | sendingPadding (now deltaTimeMs paddingNeeded : Int)
  deriving DecidableEq, Repr

/-- What a critical section hands out: `SendPacket`'s result, or the callback it starts. -/
inductive Output
  | none
  | sendPacket (sendNow : Bool)
  | timeToSendPacket (priority : Priority) (packet : Packet)
  | timeToSendPadding (bytes : Int)
  deriving DecidableEq, Repr

/-- The state of a `PacedSender`.  The three packet lists are indexed by priority. -/
structure PacedSender where
  enabled : Bool
  paused : Bool
  mediaBudget : IntervalBudget
  paddingBudget : IntervalBudget
  padUpToBitrateBudget : IntervalBudget
  timeLastUpdate : Int
  timeLastSend : Int
  captureTimeMsLastQueued : Int
  captureTimeMsLastSent : Int
  packets : Priority → PacketList
  phase : Phase

namespace PacedSender

@[simp] def setPackets (s : PacedSender) (priority : Priority) (l : PacketList) : PacedSender :=
  { s with packets := Function.update s.packets priority l }

/-- `UpdateBytesPerInterval`: refill all three budgets. -/
@[simp] def updateBytesPerInterval (s : PacedSender) (deltaTimeMs : Int) : PacedSender :=
  { s with
    mediaBudget := s.mediaBudget.increaseBudget deltaTimeMs
    paddingBudget := s.paddingBudget.increaseBudget deltaTimeMs
    padUpToBitrateBudget := s.padUpToBitrateBudget.increaseBudget deltaTimeMs }

/-- The constructor, at clock `now`.  `time_last_send_` is a default `TickTime`, i.e. 0. -/
def new (cfg : Config) (targetBitrateKbps now : Int) : PacedSender :=
  updateBytesPerInterval
    { enabled := false
      paused := false
      mediaBudget := .new (cfg.paceRate targetBitrateKbps)
      paddingBudget := .new kMaxPaddingKbps
      padUpToBitrateBudget := .new 0
      timeLastUpdate := now
      timeLastSend := 0
      captureTimeMsLastQueued := 0
      captureTimeMsLastSent := 0
      packets := fun _ => .new
      phase := .idle }
    kMinPacketLimitMs

@[simp] def pause (s : PacedSender) : PacedSender := { s with paused := true }

@[simp] def resume (s : PacedSender) : PacedSender := { s with paused := false }

@[simp] def setStatus (s : PacedSender) (enable : Bool) : PacedSender := { s with enabled := enable }

@[simp] def updateBitrate (cfg : Config) (s : PacedSender) (targetBitrateKbps padUpToBitrateKbps : Int) :
    PacedSender :=
  { s with
    mediaBudget := s.mediaBudget.setTargetRateKbps (cfg.paceRate targetBitrateKbps)
    padUpToBitrateBudget := s.padUpToBitrateBudget.setTargetRateKbps padUpToBitrateKbps }

@[simp] def updateMediaBytesSent (s : PacedSender) (numBytes now : Int) : PacedSender :=
  { s with
    timeLastSend := now
    mediaBudget := s.mediaBudget.useBudget numBytes
    padUpToBitrateBudget := s.padUpToBitrateBudget.useBudget numBytes }

/-- `SendPacket` at clock `now`: `true` means the caller may send the packet itself. -/
def sendPacket (s : PacedSender) (priority : Priority) (ssrc : UInt32) (sequenceNumber : UInt16)
    (captureTimeMs bytes now : Int) : PacedSender × Bool :=
  if !s.enabled then (s.updateMediaBytesSent bytes now, true)
  else
    let captureTimeMs := if captureTimeMs < 0 then now else captureTimeMs
    let packet : Packet := ⟨ssrc, sequenceNumber, captureTimeMs, bytes⟩
    if s.paused then
      match priority with
      | .kHighPriority =>
        (s.setPackets .kHighPriority ((s.packets .kHighPriority).pushBack packet), false)
      | .kNormalPriority =>
        let s := { s with
          captureTimeMsLastQueued := if captureTimeMs > s.captureTimeMsLastQueued then captureTimeMs
            else s.captureTimeMsLastQueued }
        (s.setPackets .kNormalPriority ((s.packets .kNormalPriority).pushBack packet), false)
      | .kLowPriority =>
        (s.setPackets .kNormalPriority ((s.packets .kNormalPriority).pushBack packet), false)
    else
      let packetList := s.packets priority
      if packetList.empty ∧ s.mediaBudget.bytesRemaining > 0 then
        (s.updateMediaBytesSent bytes now, true)
      else (s.setPackets priority (packetList.pushBack packet), false)

/-- `QueueInMs` at clock `nowMs`: the age of the oldest head of a band, returned as an `int`. -/
def queueInMs (s : PacedSender) (nowMs : Int) : Int :=
  let oldest := nowMs
  let oldest := if !(s.packets .kHighPriority).empty then
    min oldest (s.packets .kHighPriority).front.captureTimeMs else oldest
  let oldest := if !(s.packets .kNormalPriority).empty then
    min oldest (s.packets .kNormalPriority).front.captureTimeMs else oldest
  let oldest := if !(s.packets .kLowPriority).empty then
    min oldest (s.packets .kLowPriority).front.captureTimeMs else oldest
  toInt32 (nowMs - oldest)

/-- `TimeUntilNextProcess` at clock `now`. -/
def timeUntilNextProcess (s : PacedSender) (now : Int) : Int :=
  let elapsedTimeMs := now - s.timeLastUpdate
  if elapsedTimeMs ≤ 0 then kMinPacketLimitMs
  else if elapsedTimeMs ≥ kMinPacketLimitMs then 0
  else kMinPacketLimitMs - elapsedTimeMs

/-- `GetNextPacketFromList`: the head, whether it is the last of its capture time, and the
state after it is debited and popped. -/
def getNextPacketFromList (s : PacedSender) (priority : Priority) (now : Int) :
    PacedSender × Packet × Bool :=
  let packets := s.packets priority
  let packet := packets.front
  let s := s.updateMediaBytesSent packet.bytes now
  let packets := packets.popFront
  (s.setPackets priority packets, packet,
    packets.empty || decide (packets.front.captureTimeMs > packet.captureTimeMs))

/-- `GetNextPacket` at clock `now`: high before normal before low while the media budget is
positive; past it, only high or normal, and only after 30 ms without a send. -/
def getNextPacket (s : PacedSender) (now : Int) : Option (Priority × PacedSender × Packet × Bool) :=
  if s.mediaBudget.bytesRemaining ≤ 0 then
    if now - s.timeLastSend > kMaxQueueTimeWithoutSendingMs then
      if !(s.packets .kHighPriority).empty then
        some (.kHighPriority, s.getNextPacketFromList .kHighPriority now)
      else if !(s.packets .kNormalPriority).empty then
        some (.kNormalPriority, s.getNextPacketFromList .kNormalPriority now)
      else none
    else none
  else if !(s.packets .kHighPriority).empty then
    some (.kHighPriority, s.getNextPacketFromList .kHighPriority now)
  else if !(s.packets .kNormalPriority).empty then
    some (.kNormalPriority, s.getNextPacketFromList .kNormalPriority now)
  else if !(s.packets .kLowPriority).empty then
    some (.kLowPriority, s.getNextPacketFromList .kLowPriority now)
  else none

/-- One turn of `Process`'s loop under the lock, for the call with frame `now`, `deltaTimeMs`:
`GetNextPacket` at clock `clock` and the callback it starts, or, once it finds nothing, the
padding check. -/
def processLoop (s : PacedSender) (now deltaTimeMs clock : Int) : PacedSender × Output :=
  match s.getNextPacket clock with
  | some (priority, s, packet, _lastPacket) =>
    ({ s with
        captureTimeMsLastSent :=
          if priority = .kNormalPriority ∧ packet.captureTimeMs > s.captureTimeMsLastSent then
            packet.captureTimeMs
          else s.captureTimeMsLastSent
        phase := .sendingPacket now deltaTimeMs },
      .timeToSendPacket priority packet)
  | none =>
    if (s.packets .kHighPriority).empty ∧ (s.packets .kNormalPriority).empty ∧
        (s.packets .kLowPriority).empty ∧ s.paddingBudget.bytesRemaining > 0 ∧
        s.padUpToBitrateBudget.bytesRemaining > 0 then
      let paddingNeeded := min s.paddingBudget.bytesRemaining s.padUpToBitrateBudget.bytesRemaining
      ({ s with phase := .sendingPadding now deltaTimeMs paddingNeeded },
        .timeToSendPadding paddingNeeded)
    else ({ s with phase := .idle }, .none)

/-- The first critical section of `Process` at clock `now`, whose elapsed time is an `int`. -/
def process (s : PacedSender) (now : Int) : PacedSender × Output :=
  let elapsedTimeMs := toInt32 (now - s.timeLastUpdate)
  let s := { s with timeLastUpdate := now }
  if !s.paused ∧ elapsedTimeMs > 0 then
    let deltaTimeMs := min kMaxIntervalTimeMs elapsedTimeMs
    (s.updateBytesPerInterval deltaTimeMs).processLoop now deltaTimeMs now
  else (s, .none)

/-- The last critical section of `Process`, once `TimeToSendPadding` returned `bytesSent`. -/
def paddingSent (s : PacedSender) (bytesSent : Int) : PacedSender :=
  { s with
    mediaBudget := s.mediaBudget.useBudget bytesSent
    paddingBudget := s.paddingBudget.useBudget bytesSent
    padUpToBitrateBudget := s.padUpToBitrateBudget.useBudget bytesSent
    phase := .idle }

end PacedSender

end Pacing
