import Mathlib.Data.Finset.Basic
import Mathlib.Tactic.DeriveFintype

/-
Packets and the packet lists of `paced_sender.cc`.

The pacer keeps three `PacketList`s, one per priority.  A `PacketList` is a
`std::list<Packet>` beside a `std::set<uint16_t>` of the sequence numbers in it;
`push_back` consults only the set, and `pop_front` erases the head's number from
it.  The two are updated separately, so that they agree is an invariant, `WF`:
the set is exactly the numbers in the list, and no number occurs twice.  Under it
`push_back` appends exactly when the number is absent from the *list*, and
`pop_front` removes exactly the head, which is what every statement about bands
is phrased in.
-/

namespace Pacing

/-- The priority classes a packet is enqueued with (`PacedSender::Priority`). -/
inductive Priority
  | kHighPriority
  | kNormalPriority
  | kLowPriority
  deriving DecidableEq, Repr, Fintype

/-- `paced_sender::Packet`: what the pacer stores of a packet.  It never sees the payload. -/
structure Packet where
  ssrc : UInt32
  sequenceNumber : UInt16
  captureTimeMs : Int
  bytes : Int
  deriving DecidableEq, Repr, Inhabited

/-- `paced_sender::PacketList`: the packets in order and the set of their sequence numbers. -/
structure PacketList where
  packetList : List Packet
  sequenceNumberSet : Finset UInt16
  deriving DecidableEq

namespace PacketList

/-- The list a band starts with. -/
def new : PacketList := ⟨[], ∅⟩

def empty (l : PacketList) : Bool := l.packetList.isEmpty

/-- `front`; the pacer only calls it on a non-empty list. -/
def front (l : PacketList) : Packet := l.packetList.headD default

def popFront (l : PacketList) : PacketList :=
  match l.packetList with
  | [] => l
  | packet :: rest => ⟨rest, l.sequenceNumberSet.erase packet.sequenceNumber⟩

/-- `push_back`: a packet whose sequence number is in the set is dropped. -/
def pushBack (l : PacketList) (packet : Packet) : PacketList :=
  if packet.sequenceNumber ∈ l.sequenceNumberSet then l
  else ⟨l.packetList ++ [packet], insert packet.sequenceNumber l.sequenceNumberSet⟩

/-- The sequence numbers of the packets in the list, in order. -/
def seqs (l : PacketList) : List UInt16 := l.packetList.map Packet.sequenceNumber

@[simp] theorem new_packetList : new.packetList = [] := rfl

@[simp] theorem empty_iff (l : PacketList) : l.empty = true ↔ l.packetList = [] := by
  simp [empty]

@[simp] theorem empty_eq_false_iff (l : PacketList) : l.empty = false ↔ l.packetList ≠ [] := by
  simp [empty]

@[simp] theorem popFront_packetList (l : PacketList) : l.popFront.packetList = l.packetList.tail := by
  unfold popFront; split <;> simp_all

theorem mem_pushBack {l : PacketList} {p x : Packet} (h : x ∈ (l.pushBack p).packetList) :
    x ∈ l.packetList ∨ x = p := by
  unfold pushBack at h; split at h <;> simp_all

theorem mem_of_mem_popFront {l : PacketList} {x : Packet} (h : x ∈ l.popFront.packetList) :
    x ∈ l.packetList := by
  simpa using List.mem_of_mem_tail (by simpa using h)

theorem front_eq {l : PacketList} {p : Packet} {rest : List Packet}
    (h : l.packetList = p :: rest) : l.front = p := by
  simp [front, h]

/-- A non-empty list is its front followed by what `pop_front` leaves. -/
theorem front_cons_tail {l : PacketList} (h : l.packetList ≠ []) :
    l.front :: l.packetList.tail = l.packetList := by
  obtain ⟨p, rest, hl⟩ := List.exists_cons_of_ne_nil h
  simp [front, hl]

theorem front_mem {l : PacketList} (h : l.packetList ≠ []) : l.front ∈ l.packetList := by
  rw [← front_cons_tail h]; exact List.mem_cons_self _ _

/-! ### The set agrees with the list -/

/-- The representation invariant of a `PacketList`. -/
structure WF (l : PacketList) : Prop where
  /-- The set holds exactly the sequence numbers of the listed packets. -/
  set_eq : l.sequenceNumberSet = l.seqs.toFinset
  /-- No sequence number is listed twice. -/
  nodup : l.seqs.Nodup

theorem wf_new : new.WF := ⟨rfl, List.nodup_nil⟩

namespace WF

variable {l : PacketList}

theorem mem_set_iff (h : l.WF) (n : UInt16) : n ∈ l.sequenceNumberSet ↔ n ∈ l.seqs := by
  rw [h.set_eq, List.mem_toFinset]

/-- Under the invariant `push_back` drops a packet exactly when its number is listed. -/
theorem pushBack_packetList (h : l.WF) (p : Packet) :
    (l.pushBack p).packetList =
      if p.sequenceNumber ∈ l.seqs then l.packetList else l.packetList ++ [p] := by
  unfold pushBack
  by_cases hp : p.sequenceNumber ∈ l.seqs <;> simp [hp, h.mem_set_iff]

theorem pushBack (h : l.WF) (p : Packet) : (l.pushBack p).WF := by
  unfold PacketList.pushBack
  split
  · exact h
  · rename_i hp
    rw [h.mem_set_iff] at hp
    refine ⟨?_, ?_⟩
    · simp [seqs, h.set_eq, Finset.insert_eq, Finset.union_comm]
    · simpa [seqs, List.nodup_append] using And.intro h.nodup hp

theorem popFront (h : l.WF) : l.popFront.WF := by
  unfold PacketList.popFront
  split
  · exact h
  · rename_i p rest hl
    have hnd : (p.sequenceNumber :: rest.map Packet.sequenceNumber).Nodup := by
      simpa [seqs, hl] using h.nodup
    refine ⟨?_, (List.nodup_cons.mp hnd).2⟩
    simp only [h.set_eq, seqs, hl, List.map_cons, List.toFinset_cons]
    exact Finset.erase_insert (by simpa using (List.nodup_cons.mp hnd).1)

end WF

/-! ### Sequences of calls -/

/-- A call on a `PacketList`. -/
inductive Op
  | pushBack (packet : Packet)
  | popFront
  deriving DecidableEq, Repr

/-- The list after one call. -/
def apply (l : PacketList) : Op → PacketList
  | .pushBack packet => l.pushBack packet
  | .popFront => l.popFront

/-- The list after a sequence of calls. -/
def applyAll (l : PacketList) (ops : List Op) : PacketList := ops.foldl apply l

/-- Every `pop_front` of the sequence finds a non-empty list, as its call of `front()` needs. -/
def Admissible : PacketList → List Op → Prop
  | _, [] => True
  | l, .pushBack packet :: ops => Admissible (l.pushBack packet) ops
  | l, .popFront :: ops => l.packetList ≠ [] ∧ Admissible l.popFront ops

instance decidableAdmissible : (l : PacketList) → (ops : List Op) → Decidable (Admissible l ops)
  | _, [] => isTrue trivial
  | l, .pushBack packet :: ops => decidableAdmissible (l.pushBack packet) ops
  | l, .popFront :: ops =>
    @instDecidableAnd _ _ (instDecidableNot) (decidableAdmissible l.popFront ops)

@[simp] theorem applyAll_nil (l : PacketList) : l.applyAll [] = l := rfl

@[simp] theorem applyAll_cons (l : PacketList) (op : Op) (ops : List Op) :
    l.applyAll (op :: ops) = (l.apply op).applyAll ops := rfl

/-- Every call keeps the invariant, so every admissible sequence does. -/
theorem WF.applyAll {l : PacketList} {ops : List Op} (h : l.WF) (ha : Admissible l ops) :
    (l.applyAll ops).WF := by
  induction ops generalizing l with
  | nil => exact h
  | cons op ops ih =>
    cases op with
    | pushBack packet => exact ih (h.pushBack packet) ha
    | popFront => exact ih h.popFront ha.2

/-- Under the invariant, `pop_front` of a non-empty list removes the head, and its number is
then listed nowhere. -/
theorem WF.popFront_removes {l : PacketList} (h : l.WF) (hne : l.packetList ≠ []) :
    l.popFront.packetList = l.packetList.tail ∧ l.front.sequenceNumber ∉ l.popFront.seqs := by
  refine ⟨popFront_packetList l, ?_⟩
  have hnd : (l.front :: l.packetList.tail).map Packet.sequenceNumber |>.Nodup := by
    rw [front_cons_tail hne]; exact h.nodup
  simpa [seqs] using (List.nodup_cons.mp hnd).1

/-- **The set agrees with the list after every sequence of calls.**  From a new list, after
`push_back` and `pop_front` calls in which every `pop_front` finds a non-empty list, the set
holds exactly the listed sequence numbers and no number is listed twice; so the next
`push_back` appends exactly when its number is not listed, and the next `pop_front` of a
non-empty list removes exactly the head, whose number is then in neither the set nor the
list. -/
theorem packetList_set_agrees (ops : List Op) (h : Admissible new ops) :
    (new.applyAll ops).sequenceNumberSet = (new.applyAll ops).seqs.toFinset ∧
      (new.applyAll ops).seqs.Nodup ∧
      (∀ p, ((new.applyAll ops).pushBack p).packetList =
        if p.sequenceNumber ∈ (new.applyAll ops).seqs then (new.applyAll ops).packetList
        else (new.applyAll ops).packetList ++ [p]) ∧
      ((new.applyAll ops).packetList ≠ [] →
        (new.applyAll ops).popFront.packetList = (new.applyAll ops).packetList.tail ∧
        (new.applyAll ops).front.sequenceNumber ∉ (new.applyAll ops).popFront.sequenceNumberSet ∧
        (new.applyAll ops).front.sequenceNumber ∉ (new.applyAll ops).popFront.seqs) := by
  have hwf := wf_new.applyAll h
  refine ⟨hwf.set_eq, hwf.nodup, hwf.pushBack_packetList, fun hne => ?_⟩
  obtain ⟨htail, hnot⟩ := hwf.popFront_removes hne
  exact ⟨htail, by rwa [hwf.popFront.mem_set_iff], hnot⟩

/-- The law after a duplicate is dropped and the head popped. -/
theorem packetList_set_agrees_example :
    Admissible new [.pushBack ⟨1, 7, 0, 100⟩, .pushBack ⟨1, 7, 5, 200⟩, .pushBack ⟨1, 8, 0, 100⟩,
      .popFront] ∧
    (new.applyAll [.pushBack ⟨1, 7, 0, 100⟩, .pushBack ⟨1, 7, 5, 200⟩, .pushBack ⟨1, 8, 0, 100⟩,
      .popFront]).seqs.Nodup :=
  ⟨by decide, (packetList_set_agrees _ (by decide)).2.1⟩

end PacketList

end Pacing
