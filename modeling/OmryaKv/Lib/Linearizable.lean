import OmryaKv.Lib.Serial

set_option autoImplicit false

namespace OmryaKv.Lib

-- A call that has returned. position is the number of writes that took effect
-- before it, and wrote says whether it added one itself. The clock behind
-- calledAt and returnedAt counts the steps of the whole run.
structure CallRecord (Action : Type) where
  action : Action
  calledAt : Nat
  returnedAt : Nat
  position : Nat
  wrote : Bool

-- The number of writes in effect right after the call.
def CallRecord.after {Action : Type} (record : CallRecord Action) : Nat :=
  record.position + if record.wrote then 1 else 0

section

variable {Place Value Action : Type} (Holds : Action → (Place → Value) → Prop)
  (apply : Action → (Place → Value) → Place → Value) (initial : Place → Value)

-- The call got the answer that the writes before its position give, and what it
-- made of them is the next write, or nothing at all.
structure Explained (writes : List Action) (record : CallRecord Action) : Prop where
  reached : record.after ≤ writes.length
  holds : Holds record.action (after apply initial (writes.take record.position))
  wrote : record.wrote = true → writes[record.position]? = some record.action
  idle : record.wrote = false →
    apply record.action (after apply initial (writes.take record.position)) = after apply initial (writes.take record.position)

-- A call that was made after another one had returned has its place after it.
def RealTime (records : List (CallRecord Action)) : Prop :=
  ∀ first ∈ records, ∀ second ∈ records, first.returnedAt < second.calledAt → first.after ≤ second.position

structure Linearizes (clock : Nat) (writes : List Action) (records : List (CallRecord Action)) : Prop where
  explained : ∀ record ∈ records, Explained Holds apply initial writes record
  called : ∀ record ∈ records, record.calledAt < clock
  realTime : RealTime records

-- A call still on its way: since many writes were in effect when it was made.
structure Pending (clock : Nat) (records : List (CallRecord Action)) (calledAt since : Nat) : Prop where
  called : calledAt < clock
  earlier : ∀ record ∈ records, record.returnedAt < calledAt → record.after ≤ since

variable {Holds apply initial}

theorem Explained.grow {writes : List Action} {record : CallRecord Action}
    (explained : Explained Holds apply initial writes record) (more : List Action) :
    Explained Holds apply initial (writes ++ more) record := by
  have within : record.position ≤ writes.length := Nat.le_trans (Nat.le_add_right _ _) explained.reached
  have same : (writes ++ more).take record.position = writes.take record.position := List.take_append_of_le_length within
  refine ⟨?_, ?_, ?_, ?_⟩
  · rw [List.length_append]
    exact Nat.le_add_right_of_le explained.reached
  · rw [same]
    exact explained.holds
  · intro wrote
    obtain ⟨bound, found⟩ := List.getElem?_eq_some_iff.mp (explained.wrote wrote)
    rw [List.getElem?_append_left bound]
    exact explained.wrote wrote
  · rw [same]
    exact explained.idle

theorem Linearizes.tick {clock : Nat} {writes : List Action} {records : List (CallRecord Action)}
    (linearizes : Linearizes Holds apply initial clock writes records) (more : List Action) :
    Linearizes Holds apply initial (clock + 1) (writes ++ more) records where
  explained := fun record member => (linearizes.explained record member).grow more
  called := fun record member => Nat.lt_succ_of_lt (linearizes.called record member)
  realTime := linearizes.realTime

theorem Linearizes.call {clock : Nat} {writes : List Action} {records : List (CallRecord Action)}
    (linearizes : Linearizes Holds apply initial clock writes records) : Pending (clock + 1) records clock writes.length :=
  ⟨Nat.lt_succ_self _, fun record member _ => (linearizes.explained record member).reached⟩

theorem Pending.tick {clock calledAt since : Nat} {records : List (CallRecord Action)} (pending : Pending clock records calledAt since) :
    Pending (clock + 1) records calledAt since :=
  ⟨Nat.lt_succ_of_lt pending.called, pending.earlier⟩

-- Whoever returns now does so after every call that is on its way.
theorem Pending.beside {clock calledAt since : Nat} {records : List (CallRecord Action)} (pending : Pending clock records calledAt since)
    (record : CallRecord Action) (now : record.returnedAt = clock) :
    Pending (clock + 1) (records ++ [record]) calledAt since := by
  refine ⟨Nat.lt_succ_of_lt pending.called, ?_⟩
  intro other member before
  rcases List.mem_append.mp member with old | new
  · exact pending.earlier other old before
  · rw [List.mem_singleton.mp new, now] at before
    exact absurd pending.called (Nat.lt_asymm before)

theorem Linearizes.finish {clock calledAt since : Nat} {writes : List Action} {records : List (CallRecord Action)}
    (linearizes : Linearizes Holds apply initial clock writes records) (pending : Pending clock records calledAt since)
    (record : CallRecord Action) (called : record.calledAt = calledAt) (now : record.returnedAt = clock)
    (later : since ≤ record.position) (explained : Explained Holds apply initial writes record) :
    Linearizes Holds apply initial (clock + 1) writes (records ++ [record]) := by
  have onTime : record.calledAt < clock := called ▸ pending.called
  refine ⟨?_, ?_, ?_⟩
  · exact List.forall_mem_append.mpr ⟨linearizes.explained, by simpa using explained⟩
  · refine List.forall_mem_append.mpr ⟨fun other member => Nat.lt_succ_of_lt (linearizes.called other member), ?_⟩
    simpa using Nat.lt_succ_of_lt onTime
  · intro first firstMember second secondMember before
    rcases List.mem_append.mp firstMember with firstOld | firstNew
    · rcases List.mem_append.mp secondMember with secondOld | secondNew
      · exact linearizes.realTime first firstOld second secondOld before
      · rw [List.mem_singleton.mp secondNew] at before ⊢
        rw [called] at before
        exact Nat.le_trans (pending.earlier first firstOld before) later
    · rw [List.mem_singleton.mp firstNew, now] at before
      rcases List.mem_append.mp secondMember with secondOld | secondNew
      · exact absurd before (Nat.lt_asymm (linearizes.called second secondOld))
      · rw [List.mem_singleton.mp secondNew] at before
        exact absurd before (Nat.lt_asymm onTime)

end

end OmryaKv.Lib
