import HotPath.SharedMemory.ProducerSteps
import Mathlib.Logic.Relation

/-!
# Single loads of `PollZeroCopy`

`PollZeroCopy` with every load of shared memory as one step, next to the producer of
`ProducerSteps`. The source loads the length of the frame three times: for the length check, for
`header_out` and for the span. A call that nobody disturbs answers what `pollZeroCopy` says
(`view_alone`).
-/

namespace HotPath.SharedMemory.Access

open HotPath.Foundation

/-- The program points of `PollZeroCopy`, named by the load that comes next. -/
inductive ViewPc where
  | idle
  | loadCommit
  | loadProducer
  | loadLength
  | loadType
  | loadTimestamp
  | loadHeaderLength
  | loadSpanLength
  | returned (result : Except Status Span)

/-- A call of `PollZeroCopy`: the cursor of its reader, its output parameter and its program
point. -/
structure View where
  current : UInt64 := 0
  headerOut : FrameHeader := ⟨0, 0, 0⟩
  pc : ViewPc := .idle

/-- Go on to another program point. -/
def View.goto (view : View) (pc : ViewPc) : View := { view with pc }

/-- The next load of the call. -/
def View.load (capacity : UInt64) (shared : Shared) (view : View) : Option View :=
  let frame := frameAddress capacity view.current
  match view.pc with
  | .idle | .returned _ => none
  | .loadCommit =>
      if view.current ≥ shared.header.commitCursor then
        some (view.goto (.returned (.error ⟨.notFound, "No data"⟩)))
      else
        some (view.goto .loadProducer)
  | .loadProducer =>
      if shared.header.producerCursor - view.current > capacity then
        some (view.goto (.returned
          (.error ⟨.resourceExhausted, "Consumer was evicted and lapped"⟩)))
      else
        some (view.goto .loadLength)
  | .loadLength =>
      if (loadLength capacity shared.data frame).toUInt64 > capacity then
        some (view.goto (.returned (.error ⟨.dataLoss, "Corrupt frame length detected"⟩)))
      else
        some (view.goto .loadType)
  | .loadType =>
      some { view with
        headerOut := { view.headerOut with type := loadType capacity shared.data frame }
        pc := .loadTimestamp }
  | .loadTimestamp =>
      some { view with
        headerOut := { view.headerOut with timestamp := loadTimestamp capacity shared.data frame }
        pc := .loadHeaderLength }
  | .loadHeaderLength =>
      some { view with
        headerOut := { view.headerOut with length := loadLength capacity shared.data frame }
        pc := .loadSpanLength }
  | .loadSpanLength =>
      some (view.goto (.returned (.ok
        ⟨frame + kFrameHeaderSize, (loadLength capacity shared.data frame).toNat⟩)))

/-! ## A call on its own -/

/-- The outcome of an atomic `pollZeroCopy`, as the end of a call. -/
def View.Ends (view : View) : Except Status (FrameHeader × Span) → Prop
  | .ok (header, span) => view.pc = .returned (.ok span) ∧ view.headerOut = header
  | .error status => view.pc = .returned (.error status)

/-- While shared memory stays as it is, the loads of a call add up to `pollZeroCopy`. -/
theorem view_alone (capacity : UInt64) (shared : Shared) (reader : BroadcastReader) {view : View}
    (hbegun : view.pc = .loadCommit) (hcurrent : view.current = reader.cursor) :
    ∃ final, Relation.ReflTransGen (fun before after => before.load capacity shared = some after)
        view final ∧ final.Ends (pollZeroCopy capacity shared reader) := by
  obtain ⟨current, headerOut, pc⟩ := view
  obtain rfl : pc = .loadCommit := hbegun
  obtain rfl : current = reader.cursor := hcurrent
  unfold pollZeroCopy
  by_cases hdata : reader.cursor ≥ shared.header.commitCursor
  · have hnone : View.load capacity shared ⟨reader.cursor, headerOut, .loadCommit⟩ =
        some ⟨reader.cursor, headerOut, .returned (.error ⟨.notFound, "No data"⟩)⟩ := if_pos hdata
    rw [if_pos hdata]
    exact ⟨_, .single hnone, rfl⟩
  · have hcommit : View.load capacity shared ⟨reader.cursor, headerOut, .loadCommit⟩ =
        some ⟨reader.cursor, headerOut, .loadProducer⟩ := if_neg hdata
    rw [if_neg hdata]
    by_cases hlapped : shared.header.producerCursor - reader.cursor > capacity
    · have hevicted : View.load capacity shared ⟨reader.cursor, headerOut, .loadProducer⟩ =
          some ⟨reader.cursor, headerOut,
            .returned (.error ⟨.resourceExhausted, "Consumer was evicted and lapped"⟩)⟩ :=
        if_pos hlapped
      rw [if_pos hlapped]
      exact ⟨_, .tail (.single hcommit) hevicted, rfl⟩
    · have hproducer : View.load capacity shared ⟨reader.cursor, headerOut, .loadProducer⟩ =
          some ⟨reader.cursor, headerOut, .loadLength⟩ := if_neg hlapped
      rw [if_neg hlapped]
      dsimp only
      split
      · next hcorrupt =>
          have hstop : View.load capacity shared ⟨reader.cursor, headerOut, .loadLength⟩ =
              some ⟨reader.cursor, headerOut,
                .returned (.error ⟨.dataLoss, "Corrupt frame length detected"⟩)⟩ :=
            if_pos hcorrupt
          exact ⟨_, .tail (.tail (.single hcommit) hproducer) hstop, rfl⟩
      · next hcorrupt =>
          have hlength : View.load capacity shared ⟨reader.cursor, headerOut, .loadLength⟩ =
              some ⟨reader.cursor, headerOut, .loadType⟩ := if_neg hcorrupt
          exact ⟨_, .tail (.tail (.tail (.tail (.tail (.tail (.single hcommit) hproducer) hlength)
            rfl) rfl) rfl) rfl, rfl, rfl⟩

/-! ## The system -/

/-- The producer with one consumer that polls. -/
structure Viewing where
  machine : Machine
  view : View

/-- The producer's steps, the calls of `PollZeroCopy` and their loads. -/
inductive ViewEvent where
  | producer (event : Event)
  | pollZeroCopy (cursor : UInt64)
  | load

/-- The consumer has no call open. -/
def View.ready (view : View) : Bool :=
  match view.pc with
  | .idle | .returned _ => true
  | _ => false

/-- One step. A call starts with the cursor of its reader. -/
def viewStep (cfg : Config) (viewing : Viewing) : ViewEvent → Option Viewing
  | .producer event => (step cfg viewing.machine event).map fun machine => { viewing with machine }
  | .pollZeroCopy cursor =>
      if viewing.view.ready then
        some { viewing with view := { viewing.view with current := cursor, pc := .loadCommit } }
      else none
  | .load => (viewing.view.load cfg.capacity viewing.machine.shared).map fun view =>
      { viewing with view }

/-- The producer and a polling consumer as a transition system. -/
def viewing (cfg : Config) : System Viewing ViewEvent where
  init viewing := ∃ clock, viewing = ⟨created cfg clock, {}⟩
  step := viewStep cfg

end HotPath.SharedMemory.Access
