import HotPath.Foundation.StoreBuffers
import HotPath.Foundation.Transition

/-!
# The store-load litmus test

`RunStoreLoadLitmusTest` on an x86 processor. In every trial each of two threads stores 1 to its own
variable and then loads the other's. A barrier before and after the trial keeps the threads
together, and the second thread clears both variables before a trial and counts the trials in which
both loads gave 0. Arriving at a barrier is a locked instruction.

`litmus_outcomes` says which counts are possible. With `std::memory_order_seq_cst` it is only 0.
With `std::memory_order_relaxed` it is every number up to the number of trials.
-/

namespace HotPath.StoreBuffer.Litmus

open HotPath.Foundation

/-- The two threads. -/
inductive Core where
  | t0
  | t1
  deriving DecidableEq

/-- The shared variables. -/
inductive Var where
  | x
  | y
  | r1
  | r2
  deriving DecidableEq

/-- The variable that a thread stores 1 to. -/
def Core.own : Core → Var
  | .t0 => .x
  | .t1 => .y

/-- The variable that a thread loads. -/
def Core.other : Core → Var
  | .t0 => .y
  | .t1 => .x

/-- Where a thread puts what it loaded. -/
def Core.result : Core → Var
  | .t0 => .r1
  | .t1 => .r2

/-- Where a thread is. A thread in a barrier keeps the phase in which it arrived. -/
inductive Pc where
  | clearX
  | clearY
  | arriveStart
  | waitStart (token : Nat)
  | store
  | load
  | record (value : Int)
  | arriveEnd
  | waitEnd (token : Nat)
  | checkR1
  | checkR2
  | done

/-- The template argument and the number of trials. -/
structure Config where
  useSeqCst : Bool
  iterations : Nat

/-- Memory with the store buffers, the barrier with the number of threads that have arrived in its
phase, the threads with their loop counters, and the count. -/
structure State where
  memory : Buffered Core Var Int
  phase : Nat
  arrived : Nat
  pc : Core → Pc
  trial : Core → Nat
  reorderedCount : Nat

/-- A step of a thread, or a store that reaches memory. -/
inductive Event where
  | run (core : Core)
  | drain (core : Core)

/-- A thread moves on. -/
def State.goto (state : State) (core : Core) (pc : Pc) : State :=
  { state with pc := Function.update state.pc core pc }

/-- The test of the loop. Only the second thread clears the variables. -/
def loopPc (cfg : Config) (core : Core) (trial : Nat) : Pc :=
  if trial < cfg.iterations then
    match core with
    | .t0 => .arriveStart
    | .t1 => .clearX
  else .done

/-- A thread tests whether there is another trial. -/
def State.loop (cfg : Config) (state : State) (core : Core) (trial : Nat) : State :=
  { state.goto core (loopPc cfg core trial) with
    trial := Function.update state.trial core trial }

/-- A thread arrives at the barrier. The second one to arrive ends the phase. -/
def State.arrive (state : State) (core : Core) (pc : Pc) : Option State :=
  if state.memory.flushed core then
    if state.arrived = 0 then some { state.goto core pc with arrived := 1 }
    else some { state.goto core pc with arrived := 0, phase := state.phase + 1 }
  else none

/-- The next step of a thread. -/
def runCore (cfg : Config) (state : State) (core : Core) : Option State :=
  match state.pc core with
  | .clearX => some { state.goto core .clearY with memory := state.memory.store core .x 0 }
  | .clearY => some { state.goto core .arriveStart with memory := state.memory.store core .y 0 }
  | .arriveStart => state.arrive core (.waitStart state.phase)
  | .waitStart token => if state.phase = token then none else some (state.goto core .store)
  | .store =>
      if cfg.useSeqCst then
        (state.memory.exchange core core.own 1).map fun memory =>
          { state.goto core .load with memory := memory }
      else some { state.goto core .load with memory := state.memory.store core core.own 1 }
  | .load => some (state.goto core (.record (state.memory.load core core.other)))
  | .record value => some
      { state.goto core .arriveEnd with memory := state.memory.store core core.result value }
  | .arriveEnd => state.arrive core (.waitEnd state.phase)
  | .waitEnd token =>
      if state.phase = token then none
      else match core with
        | .t0 => some (state.loop cfg .t0 (state.trial .t0 + 1))
        | .t1 => some (state.goto .t1 .checkR1)
  | .checkR1 =>
      if state.memory.load core .r1 = 0 then some (state.goto core .checkR2)
      else some (state.loop cfg core (state.trial core + 1))
  | .checkR2 =>
      if state.memory.load core .r2 = 0 then
        some { state.loop cfg core (state.trial core + 1) with
          reorderedCount := state.reorderedCount + 1 }
      else some (state.loop cfg core (state.trial core + 1))
  | .done => none

/-- One step. -/
def step (cfg : Config) (state : State) : Event → Option State
  | .run core => runCore cfg state core
  | .drain core => (state.memory.drain core).map fun memory => { state with memory := memory }

/-- Before the threads start. -/
def start : State where
  memory := ⟨fun _ => 0, fun _ => []⟩
  phase := 0
  arrived := 0
  pc _ := .done
  trial _ := 0
  reorderedCount := 0

/-- The litmus test as a transition system. The threads begin with the test of their loops. -/
def litmus (cfg : Config) : System State Event where
  init state := state = (start.loop cfg .t0 0).loop cfg .t1 0
  step := step cfg

/-- Both threads have returned. -/
def finished (state : State) : Prop := ∀ core, state.pc core = .done

/-- The counts that complete runs return. -/
def Outcomes (cfg : Config) (count : Nat) : Prop :=
  ∃ state, (litmus cfg).Reachable (fun _ _ => True) state ∧ finished state ∧
    state.reorderedCount = count

/-! ## Sequentially consistent stores -/

/-- The other thread. -/
def Core.peer : Core → Core
  | .t0 => .t1
  | .t1 => .t0

/-- A thread at this place waits for the present phase to end. -/
def waits (phase : Nat) (pc : Pc) : Prop := pc = .waitStart phase ∨ pc = .waitEnd phase

/-- What the thread has loaded in this trial. -/
def observed (memory : Buffered Core Var Int) (core : Core) : Pc → Option Int
  | .record value => some value
  | .arriveEnd | .waitEnd _ => some (memory.load core core.result)
  | _ => none

/-- The first thread stores nothing between two trials, and the second has cleared the variables. -/
def Cleared (memory : Buffered Core Var Int) : Core → Prop
  | .t0 => memory.buffers .t0 = []
  | .t1 => memory.load .t1 .x = 0 ∧ memory.load .t1 .y = 0

/-- One of the loads of the last trial gave the other thread's store. -/
def Ordered (memory : Buffered Core Var Int) : Prop :=
  ¬ (memory.memory .r1 = 0 ∧ memory.memory .r2 = 0)

/-- What holds where a thread is. Trials are the odd phases. -/
def CoreInv (memory : Buffered Core Var Int) (phase : Nat) (core : Core) : Pc → Prop
  | .clearX => core = .t1 ∧ phase % 2 = 0 ∧ memory.buffers core = []
  | .clearY => core = .t1 ∧ phase % 2 = 0 ∧ memory.load core .x = 0
  | .arriveStart => phase % 2 = 0 ∧ Cleared memory core
  | .waitStart token => memory.buffers core = [] ∧
      (token = phase ∧ phase % 2 = 0 ∧ Cleared memory core ∨
        token + 1 = phase ∧ phase % 2 = 1 ∧ memory.memory core.own = 0)
  | .store => phase % 2 = 1 ∧ memory.buffers core = [] ∧ memory.memory core.own = 0
  | .load | .record _ => phase % 2 = 1 ∧ memory.buffers core = [] ∧ memory.memory core.own = 1
  | .arriveEnd => phase % 2 = 1 ∧ (∀ store ∈ memory.buffers core, store.1 = core.result) ∧
      memory.memory core.own = 1
  | .waitEnd token => memory.buffers core = [] ∧
      (token = phase ∧ phase % 2 = 1 ∧ memory.memory core.own = 1 ∨
        token + 1 = phase ∧ phase % 2 = 0 ∧ (core = .t1 → Ordered memory))
  | .checkR1 => core = .t1 ∧ phase % 2 = 0 ∧ memory.buffers core = [] ∧ Ordered memory
  | .checkR2 => core = .t1 ∧ phase % 2 = 0 ∧ memory.buffers core = [] ∧ Ordered memory ∧
      memory.memory .r1 = 0
  | .done => phase % 2 = 0 ∧ memory.buffers core = []

/-- The invariant. In a trial the two threads have not both loaded 0. -/
structure Inv (state : State) : Prop where
  cores : ∀ core, CoreInv state.memory state.phase core (state.pc core)
  barrier : state.arrived = 0 ∧ (∀ core, ¬ waits state.phase (state.pc core)) ∨
    state.arrived = 1 ∧ ∃ core, waits state.phase (state.pc core) ∧
      ¬ waits state.phase (state.pc core.peer)
  outcome : state.phase % 2 = 1 →
    ¬ ∀ core, observed state.memory core (state.pc core) = some 0
  count : state.reorderedCount = 0

section Cores

variable {memory memory' : Buffered Core Var Int} {phase : Nat} {core other : Core} {pc : Pc}

@[simp] theorem Core.peer_peer (core : Core) : core.peer.peer = core := by
  cases core <;> rfl

theorem Core.peer_ne (core : Core) : core.peer ≠ core := by
  cases core <;> decide

theorem Core.eq_or_peer (core other : Core) : other = core ∨ other = core.peer := by
  cases core <;> cases other <;> decide

theorem Core.own_ne_peer (core : Core) : core.peer.own ≠ core.own := by
  cases core <;> decide

theorem Core.result_ne_peer (core : Core) : core.peer.result ≠ core.result := by
  cases core <;> decide

theorem Core.own_ne_result (core other : Core) : core.own ≠ other.result := by
  cases core <;> cases other <;> decide

theorem Core.other_eq (core : Core) : core.other = core.peer.own := by
  cases core <;> rfl

/-- Nothing is loaded before the thread has stored, and in a trial its store is in memory then. -/
theorem CoreInv.own_of_observed (h : CoreInv memory phase core pc) (hodd : phase % 2 = 1)
    {value : Int} (hvalue : observed memory core pc = some value) :
    memory.memory core.own = 1 := by
  cases pc with
  | record v => exact h.2.2
  | arriveEnd => exact h.2.2
  | waitEnd token =>
      obtain ⟨-, ⟨-, -, hown⟩ | ⟨-, heven, -⟩⟩ := h
      · exact hown
      · omega
  | clearX | clearY | arriveStart | waitStart | store | load | checkR1 | checkR2 | done =>
      cases hvalue

/-- Between two trials only the second thread has stores in its buffer. -/
theorem CoreInv.core_of_pending (h : CoreInv memory phase core pc) (heven : phase % 2 = 0)
    (hpending : memory.buffers core ≠ []) : core = .t1 ∧ (pc = .clearY ∨ pc = .arriveStart) := by
  cases pc with
  | clearY => exact ⟨h.1, .inl rfl⟩
  | arriveStart =>
      cases core with
      | t0 => exact absurd h.2 hpending
      | t1 => exact ⟨rfl, .inr rfl⟩
  | clearX => exact absurd h.2.2 hpending
  | waitStart token => exact absurd h.1 hpending
  | store | load | record value =>
      have hodd := h.1
      omega
  | arriveEnd =>
      have hodd := h.1
      omega
  | waitEnd token => exact absurd h.1 hpending
  | checkR1 => exact absurd h.2.2.1 hpending
  | checkR2 => exact absurd h.2.2.1 hpending
  | done => exact absurd h.2 hpending

/-- In a trial a thread's buffer holds what it loaded. -/
theorem CoreInv.pending_result (h : CoreInv memory phase core pc) (hodd : phase % 2 = 1)
    {var : Var} {value : Int} (hmem : (var, value) ∈ memory.buffers core) :
    var = core.result := by
  have hnone : memory.buffers core ≠ [] := List.ne_nil_of_mem hmem
  cases pc with
  | arriveEnd => exact h.2.1 (var, value) hmem
  | clearX | clearY =>
      have heven := h.2.1
      omega
  | arriveStart =>
      have heven := h.1
      omega
  | waitStart token => exact absurd h.1 hnone
  | store => exact absurd h.2.1 hnone
  | load | record value => exact absurd h.2.1 hnone
  | waitEnd token => exact absurd h.1 hnone
  | checkR1 | checkR2 => exact absurd h.2.2.1 hnone
  | done => exact absurd h.2 hnone

/-- What holds where a thread is outlives the stores of the other thread. In a trial these are not
to the variable it stores to, and between two trials the first thread stores nothing. -/
theorem CoreInv.frame (h : CoreInv memory phase core pc)
    (hbuffer : memory'.buffers core = memory.buffers core)
    (hodd : phase % 2 = 1 → memory'.memory core.own = memory.memory core.own)
    (heven : core = .t1 → phase % 2 = 0 → memory'.memory = memory.memory) :
    CoreInv memory' phase core pc := by
  have hload : core = .t1 → phase % 2 = 0 →
      ∀ var, memory'.load core var = memory.load core var := by
    intro hcore hphase var
    rw [Buffered.load, Buffered.load, hbuffer, heven hcore hphase]
  have hcleared : phase % 2 = 0 → Cleared memory core → Cleared memory' core := by
    intro hphase hold
    cases core with
    | t0 => exact hbuffer.trans hold
    | t1 => exact ⟨(hload rfl hphase .x).trans hold.1, (hload rfl hphase .y).trans hold.2⟩
  have hordered : core = .t1 → phase % 2 = 0 → Ordered memory → Ordered memory' := by
    intro hcore hphase hold
    rw [Ordered, heven hcore hphase]
    exact hold
  cases pc with
  | clearX => exact ⟨h.1, h.2.1, hbuffer.trans h.2.2⟩
  | clearY => exact ⟨h.1, h.2.1, (hload h.1 h.2.1 .x).trans h.2.2⟩
  | arriveStart => exact ⟨h.1, hcleared h.1 h.2⟩
  | waitStart token =>
      obtain ⟨hempty, ⟨htoken, hphase, hold⟩ | ⟨htoken, hphase, hown⟩⟩ := h
      · exact ⟨hbuffer.trans hempty, .inl ⟨htoken, hphase, hcleared hphase hold⟩⟩
      · exact ⟨hbuffer.trans hempty, .inr ⟨htoken, hphase, (hodd hphase).trans hown⟩⟩
  | store | load | record value =>
      exact ⟨h.1, hbuffer.trans h.2.1, (hodd h.1).trans h.2.2⟩
  | arriveEnd => exact ⟨h.1, hbuffer ▸ h.2.1, (hodd h.1).trans h.2.2⟩
  | waitEnd token =>
      obtain ⟨hempty, ⟨htoken, hphase, hown⟩ | ⟨htoken, hphase, hold⟩⟩ := h
      · exact ⟨hbuffer.trans hempty, .inl ⟨htoken, hphase, (hodd hphase).trans hown⟩⟩
      · exact ⟨hbuffer.trans hempty,
          .inr ⟨htoken, hphase, fun hcore => hordered hcore hphase (hold hcore)⟩⟩
  | checkR1 => exact ⟨h.1, h.2.1, hbuffer.trans h.2.2.1, hordered h.1 h.2.1 h.2.2.2⟩
  | checkR2 =>
      obtain ⟨hcore, hphase, hempty, hold, hr1⟩ := h
      refine ⟨hcore, hphase, hbuffer.trans hempty, hordered hcore hphase hold, ?_⟩
      rw [heven hcore hphase]
      exact hr1
  | done => exact ⟨h.1, hbuffer.trans h.2⟩

theorem observed_frame (hbuffer : memory'.buffers core = memory.buffers core)
    (hresult : memory'.memory core.result = memory.memory core.result) (pc : Pc) :
    observed memory' core pc = observed memory core pc := by
  cases pc with
  | arriveEnd | waitEnd token =>
      show some (newest _ _ _) = some (newest _ _ _)
      rw [hbuffer, hresult]
  | clearX | clearY | arriveStart | waitStart | store | load | record | checkR1 | checkR2 | done =>
      rfl

end Cores

section Steps

variable {cfg : Config} {state next : State} {core : Core}

/-- The variables that a thread's step does not change, as the other thread needs it. -/
structure Leaves (phase : Nat) (core : Core) (memory memory' : Buffered Core Var Int) : Prop where
  buffer : memory'.buffers core.peer = memory.buffers core.peer
  own : phase % 2 = 1 → memory'.memory core.peer.own = memory.memory core.peer.own
  result : phase % 2 = 1 → memory'.memory core.peer.result = memory.memory core.peer.result
  between : core = .t0 → phase % 2 = 0 → memory'.memory = memory.memory

theorem Leaves.refl (phase : Nat) (core : Core) (memory : Buffered Core Var Int) :
    Leaves phase core memory memory :=
  ⟨rfl, fun _ => rfl, fun _ => rfl, fun _ _ => rfl⟩

theorem Leaves.store (phase : Nat) (core : Core) (memory : Buffered Core Var Int) (var : Var)
    (value : Int) : Leaves phase core memory (memory.store core var value) :=
  ⟨Buffered.buffers_store_of_ne core.peer_ne, fun _ => rfl, fun _ => rfl, fun _ _ => rfl⟩

/-- A thread that is not in the barrier moves on without arriving. -/
theorem Inv.moves (h : Inv state) {pc : Pc} (hphase : next.phase = state.phase)
    (harrived : next.arrived = state.arrived) (hpc : next.pc = Function.update state.pc core pc)
    (hcount : next.reorderedCount = state.reorderedCount)
    (hold : ¬ waits state.phase (state.pc core)) (hnew : ¬ waits state.phase pc)
    (hleaves : Leaves state.phase core state.memory next.memory)
    (hcore : CoreInv next.memory state.phase core pc)
    (hobserved : state.phase % 2 = 1 → observed next.memory core pc = some 0 →
      observed state.memory core (state.pc core) = some 0 ∨
        state.memory.memory core.peer.own = 0) : Inv next := by
  have hself : next.pc core = pc := by rw [hpc, Function.update_self]
  have hpeer : next.pc core.peer = state.pc core.peer := by
    rw [hpc, Function.update_of_ne core.peer_ne]
  have hwaits : ∀ other, waits next.phase (next.pc other) ↔
      waits state.phase (state.pc other) := by
    intro other
    rw [hphase]
    cases core.eq_or_peer other with
    | inl heq =>
        subst heq
        rw [hself]
        exact ⟨fun hw => absurd hw hnew, fun hw => absurd hw hold⟩
    | inr heq =>
        subst heq
        rw [hpeer]
  refine ⟨fun other => ?_, ?_, fun hodd hboth => ?_, hcount.trans h.count⟩
  · rw [hphase]
    cases core.eq_or_peer other with
    | inl heq =>
        subst heq
        rw [hself]
        exact hcore
    | inr heq =>
        subst heq
        rw [hpeer]
        refine (h.cores core.peer).frame hleaves.buffer hleaves.own fun hsecond => ?_
        refine hleaves.between ?_
        cases core with
        | t0 => rfl
        | t1 => cases hsecond
  · simp only [hwaits, harrived]
    exact h.barrier
  · rw [hphase] at hodd
    have hfirst := hboth core
    have hsecond := hboth core.peer
    rw [hself] at hfirst
    rw [hpeer, observed_frame hleaves.buffer (hleaves.result hodd)] at hsecond
    cases hobserved hodd hfirst with
    | inl hbefore =>
        refine h.outcome hodd fun other => ?_
        cases core.eq_or_peer other with
        | inl heq => rwa [heq]
        | inr heq => rwa [heq]
    | inr hzero =>
        have hone := (h.cores core.peer).own_of_observed hodd hsecond
        rw [hzero] at hone
        cases hone

/-- The first of the two threads arrives at the barrier. -/
theorem Inv.arrive_first (h : Inv state) {pc : Pc} (hnobody : state.arrived = 0)
    (hwait : waits state.phase pc)
    (hobserved : observed state.memory core pc = observed state.memory core (state.pc core))
    (hcore : CoreInv state.memory state.phase core pc) :
    Inv { state.goto core pc with arrived := 1 } := by
  obtain ⟨-, hnone⟩ | ⟨hone, -⟩ := h.barrier
  · refine ⟨fun other => ?_, .inr ⟨rfl, core, ?_, ?_⟩, fun hodd hboth => ?_, h.count⟩
    · show CoreInv state.memory state.phase other (Function.update state.pc core pc other)
      cases core.eq_or_peer other with
      | inl heq =>
          subst heq
          rw [Function.update_self]
          exact hcore
      | inr heq =>
          subst heq
          rw [Function.update_of_ne core.peer_ne]
          exact h.cores core.peer
    · show waits state.phase (Function.update state.pc core pc core)
      rw [Function.update_self]
      exact hwait
    · show ¬ waits state.phase (Function.update state.pc core pc core.peer)
      rw [Function.update_of_ne core.peer_ne]
      exact hnone core.peer
    · refine h.outcome hodd fun other => ?_
      have hother : observed state.memory other (Function.update state.pc core pc other) =
          some 0 := hboth other
      cases core.eq_or_peer other with
      | inl heq =>
          subst heq
          rwa [Function.update_self, hobserved] at hother
      | inr heq =>
          subst heq
          rwa [Function.update_of_ne core.peer_ne] at hother
  · omega

/-- A thread that waits for the present phase to end does not wait for the next one. -/
theorem not_waits_next {phase : Nat} {pc : Pc} (h : waits phase pc) : ¬ waits (phase + 1) pc := by
  intro hlate
  have hsame : phase = phase + 1 := by
    cases h with
    | inl hp =>
        rw [hp] at hlate
        cases hlate with
        | inl hq => injection hq
        | inr hq => cases hq
    | inr hp =>
        rw [hp] at hlate
        cases hlate with
        | inl hq => cases hq
        | inr hq => injection hq
  omega

/-- The second thread to arrive at the barrier ends the phase. -/
theorem Inv.arrive_last (h : Inv state) {pc : Pc} (hwait : waits state.phase pc)
    (hpeer : waits state.phase (state.pc core.peer))
    (hcores : ∀ other, CoreInv state.memory (state.phase + 1) other
      (Function.update state.pc core pc other))
    (hnone : (state.phase + 1) % 2 = 1 → observed state.memory core pc = none) :
    Inv { state.goto core pc with arrived := 0, phase := state.phase + 1 } := by
  refine ⟨hcores, .inl ⟨rfl, fun other => ?_⟩, fun hodd hboth => ?_, h.count⟩
  · show ¬ waits (state.phase + 1) (Function.update state.pc core pc other)
    cases core.eq_or_peer other with
    | inl heq =>
        subst heq
        rw [Function.update_self]
        exact not_waits_next hwait
    | inr heq =>
        subst heq
        rw [Function.update_of_ne core.peer_ne]
        exact not_waits_next hpeer
  · have hself : observed state.memory core (Function.update state.pc core pc core) = some 0 :=
      hboth core
    rw [Function.update_self, hnone hodd] at hself
    cases hself

/-- A thread arrives at the barrier, and waits there at `pc`. -/
theorem Inv.arrive (h : Inv state) {pc : Pc} (hstep : state.arrive core pc = some next)
    (hold : ¬ waits state.phase (state.pc core)) (hwait : waits state.phase pc)
    (hobserved : observed state.memory core pc = observed state.memory core (state.pc core))
    (hfirst : state.memory.buffers core = [] → CoreInv state.memory state.phase core pc)
    (hends : state.memory.buffers core = [] → waits state.phase (state.pc core.peer) →
      (∀ other, CoreInv state.memory (state.phase + 1) other
        (Function.update state.pc core pc other)) ∧
      ((state.phase + 1) % 2 = 1 → observed state.memory core pc = none)) : Inv next := by
  unfold State.arrive at hstep
  split at hstep
  · next hflushed =>
      have hempty := Buffered.flushed_iff.mp hflushed
      split at hstep
      · next hnobody =>
          obtain rfl := Option.some.inj hstep
          exact h.arrive_first hnobody hwait hobserved (hfirst hempty)
      · next hsome =>
          obtain rfl := Option.some.inj hstep
          obtain ⟨hzero, -⟩ | ⟨-, waiting, hwaiting, -⟩ := h.barrier
          · exact absurd hzero hsome
          · have hpeer : waits state.phase (state.pc core.peer) := by
              cases core.eq_or_peer waiting with
              | inl heq =>
                  subst heq
                  exact absurd hwaiting hold
              | inr heq =>
                  subst heq
                  exact hwaiting
            obtain ⟨hcores, hnone⟩ := hends hempty hpeer
            exact h.arrive_last hwait hpeer hcores hnone
  · cases hstep

theorem not_waits_done {phase : Nat} : ¬ waits phase .done := by
  simp [waits]

theorem load_of_nil {memory : Buffered Core Var Int} (h : memory.buffers core = []) (var : Var) :
    memory.load core var = memory.memory var :=
  Buffered.load_of_flushed (Buffered.flushed_iff.mpr h)

/-- Both threads have arrived before a trial. -/
theorem Inv.start_trial (h : Inv state) (hpc : state.pc core = .arriveStart)
    (hempty : state.memory.buffers core = []) (hpeer : waits state.phase (state.pc core.peer)) :
    ∀ other, CoreInv state.memory (state.phase + 1) other
      (Function.update state.pc core (.waitStart state.phase) other) := by
  have hcore := h.cores core
  have hother := h.cores core.peer
  rw [hpc] at hcore
  obtain ⟨heven, hcleared⟩ := hcore
  have hwaiting : state.pc core.peer = .waitStart state.phase := by
    cases hpeer with
    | inl heq => exact heq
    | inr heq =>
        rw [heq] at hother
        obtain ⟨-, ⟨-, hodd, -⟩ | ⟨htoken, -, -⟩⟩ := hother
        · omega
        · omega
  rw [hwaiting] at hother
  obtain ⟨hpeerEmpty, ⟨-, -, hpeerCleared⟩ | ⟨htoken, -, -⟩⟩ := hother
  · have hzero : state.memory.memory .x = 0 ∧ state.memory.memory .y = 0 := by
      cases core with
      | t0 =>
          have hx := load_of_nil hpeerEmpty .x
          have hy := load_of_nil hpeerEmpty .y
          exact ⟨hx.symm.trans hpeerCleared.1, hy.symm.trans hpeerCleared.2⟩
      | t1 =>
          have hx := load_of_nil hempty .x
          have hy := load_of_nil hempty .y
          exact ⟨hx.symm.trans hcleared.1, hy.symm.trans hcleared.2⟩
    have hown : ∀ other : Core, state.memory.memory other.own = 0 := by
      intro other
      cases other with
      | t0 => exact hzero.1
      | t1 => exact hzero.2
    intro other
    cases core.eq_or_peer other with
    | inl heq =>
        subst heq
        rw [Function.update_self]
        exact ⟨hempty, .inr ⟨rfl, by omega, hown other⟩⟩
    | inr heq =>
        subst heq
        rw [Function.update_of_ne core.peer_ne, hwaiting]
        exact ⟨hpeerEmpty, .inr ⟨rfl, by omega, hown core.peer⟩⟩
  · omega

/-- Both threads have arrived after a trial. What they loaded is in memory. -/
theorem Inv.end_trial (h : Inv state) (hpc : state.pc core = .arriveEnd)
    (hempty : state.memory.buffers core = []) (hpeer : waits state.phase (state.pc core.peer)) :
    ∀ other, CoreInv state.memory (state.phase + 1) other
      (Function.update state.pc core (.waitEnd state.phase) other) := by
  have hcore := h.cores core
  have hother := h.cores core.peer
  rw [hpc] at hcore
  obtain ⟨hodd, -, -⟩ := hcore
  have hwaiting : state.pc core.peer = .waitEnd state.phase := by
    cases hpeer with
    | inr heq => exact heq
    | inl heq =>
        rw [heq] at hother
        obtain ⟨-, ⟨-, heven, -⟩ | ⟨htoken, -, -⟩⟩ := hother
        · omega
        · omega
  rw [hwaiting] at hother
  obtain ⟨hpeerEmpty, -⟩ := hother
  have hordered : Ordered state.memory := by
    intro hzero
    refine h.outcome hodd fun other => ?_
    have hresult : state.memory.memory other.result = 0 := by
      cases other with
      | t0 => exact hzero.1
      | t1 => exact hzero.2
    cases core.eq_or_peer other with
    | inl heq =>
        subst heq
        rw [hpc]
        exact congrArg some ((load_of_nil hempty other.result).trans hresult)
    | inr heq =>
        subst heq
        rw [hwaiting]
        exact congrArg some ((load_of_nil hpeerEmpty core.peer.result).trans hresult)
  intro other
  cases core.eq_or_peer other with
  | inl heq =>
      subst heq
      rw [Function.update_self]
      exact ⟨hempty, .inr ⟨rfl, by omega, fun _ => hordered⟩⟩
  | inr heq =>
      subst heq
      rw [Function.update_of_ne core.peer_ne, hwaiting]
      exact ⟨hpeerEmpty, .inr ⟨rfl, by omega, fun _ => hordered⟩⟩

/-- The test of the loop between two trials. -/
theorem Inv.loops (h : Inv state) (cfg : Config) (core : Core)
    (hold : ¬ waits state.phase (state.pc core))
    (heven : state.phase % 2 = 0) (hempty : state.memory.buffers core = []) (trial : Nat) :
    Inv (state.loop cfg core trial) := by
  have hcore : CoreInv state.memory state.phase core (loopPc cfg core trial) ∧
      ¬ waits state.phase (loopPc cfg core trial) := by
    unfold loopPc
    split
    · cases core with
      | t0 => exact ⟨⟨heven, hempty⟩, by simp [waits]⟩
      | t1 => exact ⟨⟨rfl, heven, hempty⟩, by simp [waits]⟩
    · exact ⟨⟨heven, hempty⟩, not_waits_done⟩
  exact h.moves rfl rfl rfl rfl hold hcore.2 (.refl ..) hcore.1 fun hodd => by omega

/-- The second thread clears `X`. -/
theorem Inv.run_clearX (h : Inv state) (hpc : state.pc core = .clearX)
    (hstep : runCore cfg state core = some next) : Inv next := by
  have hcore := h.cores core
  simp only [runCore, hpc, Option.some.injEq] at hstep hcore
  subst hstep
  obtain ⟨hsecond, heven, hempty⟩ := hcore
  refine h.moves rfl rfl rfl rfl (by simp [waits, hpc])
    (by simp [waits]) (.store ..) ⟨hsecond, heven, ?_⟩ (by simp [observed])
  exact Buffered.load_store_self

/-- The second thread clears `Y`. -/
theorem Inv.run_clearY (h : Inv state) (hpc : state.pc core = .clearY)
    (hstep : runCore cfg state core = some next) : Inv next := by
  have hcore := h.cores core
  simp only [runCore, hpc, Option.some.injEq] at hstep hcore
  subst hstep
  obtain ⟨rfl, heven, hx⟩ := hcore
  refine h.moves rfl rfl rfl rfl (by simp [waits, hpc])
    (by simp [waits]) (.store ..) ⟨heven, ?_, Buffered.load_store_self⟩ (by simp [observed])
  show (state.memory.store .t1 .y 0).load .t1 .x = 0
  rw [Buffered.load, Buffered.buffers_store_self, newest_concat, if_neg (by decide)]
  exact hx

/-- A thread arrives before the trial. -/
theorem Inv.run_arriveStart (h : Inv state) (hpc : state.pc core = .arriveStart)
    (hstep : runCore cfg state core = some next) : Inv next := by
  have hcore := h.cores core
  simp only [runCore, hpc] at hstep hcore
  exact h.arrive hstep (by simp [waits, hpc]) (.inl rfl) (by rw [hpc]; rfl)
    (fun hempty => ⟨hempty, .inl ⟨rfl, hcore⟩⟩)
    fun hempty hpeer => ⟨h.start_trial hpc hempty hpeer, fun _ => rfl⟩

/-- The trial begins. -/
theorem Inv.run_waitStart (h : Inv state) {token : Nat} (hpc : state.pc core = .waitStart token)
    (hstep : runCore cfg state core = some next) : Inv next := by
  have hcore := h.cores core
  simp only [runCore, hpc] at hstep hcore
  split at hstep
  · cases hstep
  · next hends =>
      obtain rfl := Option.some.inj hstep
      obtain ⟨hempty, ⟨htoken, -, -⟩ | ⟨-, hodd, hown⟩⟩ := hcore
      · exact absurd htoken.symm hends
      · refine h.moves rfl rfl rfl rfl ?_ (by simp [waits]) (.refl ..)
          ⟨hodd, hempty, hown⟩ (by simp [observed])
        rw [hpc]
        intro hw
        cases hw with
        | inl heq =>
            injection heq with heq
            exact hends heq.symm
        | inr heq => cases heq

/-- A thread stores to its own variable. -/
theorem Inv.run_store (h : Inv state) (hcfg : cfg.useSeqCst = true) (hpc : state.pc core = .store)
    (hstep : runCore cfg state core = some next) : Inv next := by
  have hcore := h.cores core
  simp only [runCore, hpc, hcfg, if_true] at hstep hcore
  obtain ⟨hodd, hempty, -⟩ := hcore
  obtain ⟨memory, hexchange, rfl⟩ := Option.map_eq_some_iff.mp hstep
  obtain ⟨-, rfl⟩ := Buffered.exchange_eq_some hexchange
  refine h.moves rfl rfl rfl rfl (by simp [waits, hpc])
    (by simp [waits]) ⟨rfl, fun _ => ?_, fun _ => ?_, fun _ heven => ?_⟩
    ⟨hodd, hempty, Function.update_self ..⟩ (by simp [observed])
  · exact Function.update_of_ne core.own_ne_peer ..
  · exact Function.update_of_ne (core.own_ne_result core.peer).symm ..
  · omega

/-- A thread loads the other's variable. -/
theorem Inv.run_load (h : Inv state) (hpc : state.pc core = .load)
    (hstep : runCore cfg state core = some next) : Inv next := by
  have hcore := h.cores core
  simp only [runCore, hpc, Option.some.injEq] at hstep hcore
  subst hstep
  obtain ⟨hodd, hempty, hown⟩ := hcore
  refine h.moves rfl rfl rfl rfl (by simp [waits, hpc])
    (by simp [waits]) (.refl ..) ⟨hodd, hempty, hown⟩ fun _ hzero => .inr ?_
  rw [load_of_nil hempty, core.other_eq] at hzero
  exact Option.some.inj hzero

/-- A thread records what it has loaded. -/
theorem Inv.run_record (h : Inv state) {value : Int} (hpc : state.pc core = .record value)
    (hstep : runCore cfg state core = some next) : Inv next := by
  have hcore := h.cores core
  simp only [runCore, hpc, Option.some.injEq] at hstep hcore
  subst hstep
  obtain ⟨hodd, hempty, hown⟩ := hcore
  refine h.moves rfl rfl rfl rfl (by simp [waits, hpc])
    (by simp [waits]) (.store ..) ⟨hodd, fun store hmem => ?_, hown⟩
    fun _ hzero => .inl ?_
  · rw [Buffered.buffers_store_self, hempty] at hmem
    rw [List.mem_singleton.mp hmem]
  · rw [hpc]
    change some ((state.memory.store core core.result value).load core core.result) = _ at hzero
    rw [Buffered.load_store_self] at hzero
    exact hzero

/-- A thread arrives after the trial. -/
theorem Inv.run_arriveEnd (h : Inv state) (hpc : state.pc core = .arriveEnd)
    (hstep : runCore cfg state core = some next) : Inv next := by
  have hcore := h.cores core
  simp only [runCore, hpc] at hstep hcore
  obtain ⟨hodd, -, hown⟩ := hcore
  exact h.arrive hstep (by simp [waits, hpc]) (.inr rfl) (by rw [hpc]; rfl)
    (fun hempty => ⟨hempty, .inl ⟨rfl, hodd, hown⟩⟩)
    fun hempty hpeer => ⟨h.end_trial hpc hempty hpeer, fun hlater => by omega⟩

/-- The trial has ended. -/
theorem Inv.run_waitEnd (h : Inv state) {token : Nat} (hpc : state.pc core = .waitEnd token)
    (hstep : runCore cfg state core = some next) : Inv next := by
  have hcore := h.cores core
  simp only [runCore, hpc] at hstep hcore
  split at hstep
  · cases hstep
  · next hends =>
      obtain ⟨hempty, ⟨htoken, -, -⟩ | ⟨-, heven, hordered⟩⟩ := hcore
      · exact absurd htoken.symm hends
      have hold : ¬ waits state.phase (state.pc core) := by
        rw [hpc]
        intro hw
        cases hw with
        | inl heq => cases heq
        | inr heq =>
            injection heq with heq
            exact hends heq.symm
      cases core with
      | t0 =>
          obtain rfl := Option.some.inj hstep
          exact h.loops cfg _ hold heven hempty _
      | t1 =>
          obtain rfl := Option.some.inj hstep
          exact h.moves rfl rfl rfl rfl hold (by simp [waits]) (.refl ..)
            ⟨rfl, heven, hempty, hordered rfl⟩ (by simp [observed])

/-- The second thread reads the first result. -/
theorem Inv.run_checkR1 (h : Inv state) (hpc : state.pc core = .checkR1)
    (hstep : runCore cfg state core = some next) : Inv next := by
  have hcore := h.cores core
  simp only [runCore, hpc] at hstep hcore
  obtain ⟨hsecond, heven, hempty, hordered⟩ := hcore
  have hold : ¬ waits state.phase (state.pc core) := by
    simp [waits, hpc]
  split at hstep
  · next hr1 =>
      obtain rfl := Option.some.inj hstep
      rw [load_of_nil hempty] at hr1
      exact h.moves rfl rfl rfl rfl hold (by simp [waits]) (.refl ..)
        ⟨hsecond, heven, hempty, hordered, hr1⟩ (by simp [observed])
  · obtain rfl := Option.some.inj hstep
    exact h.loops cfg _ hold heven hempty _

/-- The second thread reads the second result. It cannot find both of them zero. -/
theorem Inv.run_checkR2 (h : Inv state) (hpc : state.pc core = .checkR2)
    (hstep : runCore cfg state core = some next) : Inv next := by
  have hcore := h.cores core
  simp only [runCore, hpc] at hstep hcore
  obtain ⟨hsecond, heven, hempty, hordered, hr1⟩ := hcore
  split at hstep
  · next hr2 =>
      rw [load_of_nil hempty] at hr2
      exact absurd ⟨hr1, hr2⟩ hordered
  · obtain rfl := Option.some.inj hstep
    refine h.loops cfg core ?_ heven hempty _
    simp [waits, hpc]

/-- A step of a thread keeps the invariant. -/
theorem Inv.run (h : Inv state) (hcfg : cfg.useSeqCst = true)
    (hstep : runCore cfg state core = some next) : Inv next := by
  cases hpc : state.pc core with
  | clearX => exact h.run_clearX hpc hstep
  | clearY => exact h.run_clearY hpc hstep
  | arriveStart => exact h.run_arriveStart hpc hstep
  | waitStart token => exact h.run_waitStart hpc hstep
  | store => exact h.run_store hcfg hpc hstep
  | load => exact h.run_load hpc hstep
  | record value => exact h.run_record hpc hstep
  | arriveEnd => exact h.run_arriveEnd hpc hstep
  | waitEnd token => exact h.run_waitEnd hpc hstep
  | checkR1 => exact h.run_checkR1 hpc hstep
  | checkR2 => exact h.run_checkR2 hpc hstep
  | done => simp [runCore, hpc] at hstep

/-- What holds where a thread is outlives its own stores' way to memory. -/
theorem CoreInv.drain {memory memory' : Buffered Core Var Int} {phase : Nat} {pc : Pc}
    (h : CoreInv memory phase core pc) (hdrain : memory.drain core = some memory') :
    CoreInv memory' phase core pc := by
  obtain ⟨var, value, hbuffer, hmemory, -⟩ := Buffered.drain_eq_some hdrain
  have hpending : memory.buffers core ≠ [] := by simp [hbuffer]
  have hload : ∀ other, memory'.load core other = memory.load core other :=
    fun _ => Buffered.load_drain_self hdrain
  cases Nat.mod_two_eq_zero_or_one phase with
  | inl heven =>
      obtain ⟨rfl, rfl | rfl⟩ := h.core_of_pending heven hpending
      · exact ⟨h.1, h.2.1, (hload .x).trans h.2.2⟩
      · exact ⟨h.1, (hload .x).trans h.2.1, (hload .y).trans h.2.2⟩
  | inr hodd =>
      have hresult : var = core.result :=
        h.pending_result hodd (hbuffer ▸ List.mem_cons_self)
      cases pc with
      | arriveEnd =>
          refine ⟨hodd, fun store hmem => h.2.1 store (hbuffer ▸ List.mem_cons_of_mem _ hmem), ?_⟩
          rw [hmemory, hresult, Function.update_of_ne (core.own_ne_result core)]
          exact h.2.2
      | clearX | clearY =>
          have heven := h.2.1
          omega
      | arriveStart =>
          have heven := h.1
          omega
      | waitStart token => exact absurd h.1 hpending
      | store | load | record value => exact absurd h.2.1 hpending
      | waitEnd token => exact absurd h.1 hpending
      | checkR1 | checkR2 => exact absurd h.2.2.1 hpending
      | done => exact absurd h.2 hpending

/-- A store that reaches memory keeps the invariant. -/
theorem Inv.drain (h : Inv state) {memory : Buffered Core Var Int}
    (hdrain : state.memory.drain core = some memory) : Inv { state with memory := memory } := by
  have hcore := h.cores core
  obtain ⟨var, value, hbuffer, hmemory, hothers⟩ := Buffered.drain_eq_some hdrain
  have hpending : state.memory.buffers core ≠ [] := by simp [hbuffer]
  have hresult : state.phase % 2 = 1 → var = core.result := fun hodd =>
    hcore.pending_result hodd (hbuffer ▸ List.mem_cons_self)
  have hnotwaiting : ¬ waits state.phase (state.pc core) := by
    intro hwaits
    cases hwaits with
    | inl heq =>
        rw [heq] at hcore
        exact hpending hcore.1
    | inr heq =>
        rw [heq] at hcore
        exact hpending hcore.1
  refine h.moves rfl rfl (Function.update_eq_self ..).symm rfl hnotwaiting hnotwaiting
    ⟨hothers _ core.peer_ne, fun hodd => ?_, fun hodd => ?_, fun hfirst heven => ?_⟩
    (hcore.drain hdrain) fun _ hzero => .inl ?_
  · show memory.memory core.peer.own = _
    rw [hmemory, hresult hodd, Function.update_of_ne (core.peer.own_ne_result core)]
  · show memory.memory core.peer.result = _
    rw [hmemory, hresult hodd, Function.update_of_ne core.result_ne_peer]
  · obtain ⟨hsecond, -⟩ := hcore.core_of_pending heven hpending
    rw [hfirst] at hsecond
    cases hsecond
  · have hload : memory.load core core.result = state.memory.load core core.result :=
      Buffered.load_drain_self hdrain
    cases hpc : state.pc core with
    | arriveEnd | waitEnd token =>
        rw [hpc] at hzero
        exact (congrArg some hload).symm.trans hzero
    | clearX | clearY | arriveStart | waitStart | store | load | record | checkR1 | checkR2
    | done =>
        rw [hpc] at hzero
        exact hzero

/-- With sequentially consistent stores no trial is counted. -/
theorem inv_of_reachable (hcfg : cfg.useSeqCst = true)
    (h : (litmus cfg).Reachable (fun _ _ => True) state) : Inv state := by
  refine h.invariant Inv ?_ ?_
  · intro state hinit
    obtain rfl : state = _ := hinit
    have hstart : Inv start := by
      exact ⟨fun core => ⟨rfl, rfl⟩, .inl ⟨rfl, fun core => not_waits_done⟩, nofun, rfl⟩
    have hfirst := hstart.loops cfg .t0 not_waits_done rfl rfl 0
    exact hfirst.loops cfg .t1 not_waits_done rfl rfl 0
  · intro state event next hinv _ hstep
    cases event with
    | run core => exact hinv.run hcfg hstep
    | drain core =>
        obtain ⟨memory, hdrain, rfl⟩ := Option.map_eq_some_iff.mp hstep
        exact hinv.drain hdrain

end Steps

/-! ## Runs with any count -/

/-- A value for each thread. -/
def pair {α : Type} (first second : α) : Core → α
  | .t0 => first
  | .t1 => second

section Rounds

variable {cfg : Config} {values : Var → Int} {phase trial count : Nat}

@[simp] theorem pair_t0 {α : Type} (first second : α) : pair first second .t0 = first := rfl

@[simp] theorem pair_t1 {α : Type} (first second : α) : pair first second .t1 = second := rfl

@[simp] theorem update_pair_t0 {α : Type} (first second value : α) :
    Function.update (pair first second) .t0 value = pair value second := by
  funext core
  cases core <;> rfl

@[simp] theorem update_pair_t1 {α : Type} (first second value : α) :
    Function.update (pair first second) .t1 value = pair first value := by
  funext core
  cases core <;> rfl

/-- The threads are at these places, nothing is in a buffer and nobody is in the barrier. -/
def settled (values : Var → Int) (phase : Nat) (first second : Pc) (trial count : Nat) : State where
  memory := ⟨values, pair [] []⟩
  phase := phase
  arrived := 0
  pc := pair first second
  trial := pair trial trial
  reorderedCount := count

/-- The state in which a trial begins, or both threads have returned. -/
def ready (cfg : Config) (values : Var → Int) (phase trial count : Nat) : State :=
  settled values phase (loopPc cfg .t0 trial) (loopPc cfg .t1 trial) trial count

/-- The second thread clears the variables and both pass the barrier. -/
theorem replay_setup (h : trial < cfg.iterations) :
    (litmus cfg).replay (fun _ _ => True) (ready cfg values phase trial count)
      [.run .t1, .run .t1, .drain .t1, .drain .t1, .run .t1, .run .t0, .run .t0, .run .t1] =
    some (settled (Function.update (Function.update values .x 0) .y 0) (phase + 1) .store .store
      trial count) := by
  simp [System.replay, litmus, step, runCore, ready, settled, loopPc, h, State.goto, State.arrive,
    Buffered.store, Buffered.drain, Buffered.flushed]

/-- With relaxed stores both threads load before either store reaches memory. -/
theorem replay_reordered (h : cfg.useSeqCst = false) (hx : values .x = 0) (hy : values .y = 0) :
    ∃ values', values' .r1 = 0 ∧ values' .r2 = 0 ∧
      (litmus cfg).replay (fun _ _ => True) (settled values phase .store .store trial count)
        [.run .t0, .run .t1, .run .t0, .run .t1, .run .t0, .run .t1, .drain .t0, .drain .t0,
          .drain .t1, .drain .t1] =
        some (settled values' phase .arriveEnd .arriveEnd trial count) := by
  refine ⟨Function.update (Function.update (Function.update (Function.update values .x 1) .r1 0)
    .y 1) .r2 0, rfl, rfl, ?_⟩
  simp [System.replay, litmus, step, runCore, settled, h, hx, hy, State.goto, Buffered.store,
    Buffered.drain, Buffered.load, newest, Core.own, Core.other, Core.result]

/-- With either kind of store the first thread can be through before the second one stores. -/
theorem replay_ordered (cfg : Config) (hy : values .y = 0) :
    ∃ events values', values' .r1 = 0 ∧ values' .r2 = 1 ∧
      (litmus cfg).replay (fun _ _ => True) (settled values phase .store .store trial count)
          events =
        some (settled values' phase .arriveEnd .arriveEnd trial count) := by
  cases hcfg : cfg.useSeqCst with
  | true =>
      refine ⟨[.run .t0, .run .t0, .run .t0, .drain .t0, .run .t1, .run .t1, .run .t1, .drain .t1],
        Function.update (Function.update (Function.update (Function.update values .x 1) .r1 0)
          .y 1) .r2 1, rfl, rfl, ?_⟩
      simp [System.replay, litmus, step, runCore, settled, hcfg, hy, State.goto, Buffered.store,
        Buffered.drain, Buffered.load, Buffered.exchange, Buffered.flushed, newest, Core.own,
        Core.other, Core.result]
  | false =>
      refine ⟨[.run .t0, .drain .t0, .run .t0, .run .t0, .drain .t0, .run .t1, .drain .t1, .run .t1,
        .run .t1, .drain .t1],
        Function.update (Function.update (Function.update (Function.update values .x 1) .r1 0)
          .y 1) .r2 1, rfl, rfl, ?_⟩
      simp [System.replay, litmus, step, runCore, settled, hcfg, hy, State.goto, Buffered.store,
        Buffered.drain, Buffered.load, newest, Core.own, Core.other, Core.result]

/-- Both pass the barrier, and the second thread counts the trial if both loads gave 0. -/
theorem replay_check (cfg : Config) (hr1 : values .r1 = 0) :
    (litmus cfg).replay (fun _ _ => True) (settled values phase .arriveEnd .arriveEnd trial count)
      [.run .t0, .run .t1, .run .t0, .run .t1, .run .t1, .run .t1] =
    some (ready cfg values (phase + 1) (trial + 1)
      (if values .r2 = 0 then count + 1 else count)) := by
  split
  · next hr2 =>
      simp [System.replay, litmus, step, runCore, ready, settled, hr1, hr2, State.goto,
        State.arrive, State.loop, Buffered.load, Buffered.flushed, newest]
  · next hr2 =>
      simp [System.replay, litmus, step, runCore, ready, settled, hr1, hr2, State.goto,
        State.arrive, State.loop, Buffered.load, Buffered.flushed, newest]

/-- One trial that is not counted, and with relaxed stores one that is. -/
theorem reach_round (h : trial < cfg.iterations)
    (hreach : (litmus cfg).Reachable (fun _ _ => True) (ready cfg values phase trial count)) :
    (∃ values' phase', (litmus cfg).Reachable (fun _ _ => True)
      (ready cfg values' phase' (trial + 1) count)) ∧
    (cfg.useSeqCst = false → ∃ values' phase', (litmus cfg).Reachable (fun _ _ => True)
      (ready cfg values' phase' (trial + 1) (count + 1))) := by
  have hsetup := hreach.replay (replay_setup h)
  have hx : Function.update (Function.update values .x 0) .y 0 .x = 0 := rfl
  have hy : Function.update (Function.update values .x 0) .y 0 .y = 0 := rfl
  constructor
  · obtain ⟨events, values', hr1, hr2, htrial⟩ := replay_ordered cfg hy
    have hdone := (hsetup.replay htrial).replay (replay_check cfg hr1)
    rw [hr2, if_neg (by decide)] at hdone
    exact ⟨_, _, hdone⟩
  · intro hcfg
    obtain ⟨values', hr1, hr2, htrial⟩ := replay_reordered hcfg hx hy
    have hdone := (hsetup.replay htrial).replay (replay_check cfg hr1)
    rw [if_pos hr2] at hdone
    exact ⟨_, _, hdone⟩

theorem start_ready (cfg : Config) :
    (start.loop cfg .t0 0).loop cfg .t1 0 = ready cfg (fun _ => 0) 0 0 0 := by
  have hpair : ∀ {α : Type} (value : α), (fun _ => value : Core → α) = pair value value := by
    intro α value
    funext core
    cases core <;> rfl
  simp [start, State.loop, State.goto, ready, settled, hpair]

/-- Every number of counted trials can be reached, with relaxed stores. -/
theorem reach_ready (cfg : Config) (trial count : Nat) (htrial : trial ≤ cfg.iterations)
    (hcount : count ≤ if cfg.useSeqCst then 0 else trial) :
    ∃ values phase, (litmus cfg).Reachable (fun _ _ => True)
      (ready cfg values phase trial count) := by
  induction trial generalizing count with
  | zero =>
      obtain rfl : count = 0 := by
        split at hcount
        · omega
        · omega
      exact ⟨_, _, .init (start_ready cfg).symm⟩
  | succ trial ih =>
      cases hcfg : cfg.useSeqCst with
      | true =>
          simp only [hcfg, if_true] at hcount ih
          obtain ⟨values, phase, hreach⟩ := ih count (by omega) hcount
          exact (reach_round (by omega) hreach).1
      | false =>
          simp only [hcfg, Bool.false_eq_true, if_false] at hcount ih
          cases Nat.lt_or_ge trial count with
          | inr hle =>
              obtain ⟨values, phase, hreach⟩ := ih count (by omega) hle
              exact (reach_round (by omega) hreach).1
          | inl hlt =>
              obtain rfl : count = trial + 1 := by omega
              obtain ⟨values, phase, hreach⟩ := ih trial (by omega) (Nat.le_refl _)
              exact (reach_round (by omega) hreach).2 hcfg

end Rounds

/-! ## At most one count in a trial -/

/-- The second thread counts at most once in a trial, and the first one never counts. -/
structure Counted (cfg : Config) (state : State) : Prop where
  first : state.pc .t0 ≠ .checkR1 ∧ state.pc .t0 ≠ .checkR2
  count : state.reorderedCount ≤ state.trial .t1
  trial : state.trial .t1 ≤ cfg.iterations
  running : state.pc .t1 ≠ .done → state.trial .t1 < cfg.iterations

section Counting

variable {cfg : Config} {state next : State} {core : Core}

/-- A step that begins no trial. -/
theorem Counted.goto (h : Counted cfg state) {pc : Pc}
    (hpc : next.pc = Function.update state.pc core pc) (htrial : next.trial = state.trial)
    (hcount : next.reorderedCount = state.reorderedCount) (hrunning : state.pc core ≠ .done)
    (hcheck : core = .t0 → pc ≠ .checkR1 ∧ pc ≠ .checkR2) : Counted cfg next := by
  refine ⟨?_, ?_, ?_, fun hdone => ?_⟩
  · rw [hpc]
    cases core with
    | t0 =>
        rw [Function.update_self]
        exact hcheck rfl
    | t1 => exact h.first
  · rw [hcount, htrial]
    exact h.count
  · rw [htrial]
    exact h.trial
  · rw [htrial]
    cases core with
    | t0 =>
        rw [hpc, Function.update_of_ne (by decide)] at hdone
        exact h.running hdone
    | t1 => exact h.running hrunning

/-- The first thread tests its loop. -/
theorem Counted.loop_first (h : Counted cfg state) (trial : Nat) :
    Counted cfg (state.loop cfg .t0 trial) := by
  refine ⟨?_, h.count, h.trial, h.running⟩
  show loopPc cfg .t0 trial ≠ .checkR1 ∧ loopPc cfg .t0 trial ≠ .checkR2
  unfold loopPc
  split
  · exact ⟨nofun, nofun⟩
  · exact ⟨nofun, nofun⟩

/-- The second thread tests its loop after a trial. -/
theorem Counted.loop_second (h : Counted cfg state) (hrunning : state.pc .t1 ≠ .done)
    {count : Nat} (hcount : count ≤ state.reorderedCount + 1) :
    Counted cfg { state.loop cfg .t1 (state.trial .t1 + 1) with reorderedCount := count } := by
  have hlt := h.running hrunning
  have hold := h.count
  refine ⟨h.first, ?_, hlt, fun hdone => ?_⟩
  · show count ≤ state.trial .t1 + 1
    omega
  · show state.trial .t1 + 1 < cfg.iterations
    change loopPc cfg .t1 (state.trial .t1 + 1) ≠ .done at hdone
    unfold loopPc at hdone
    split at hdone
    · next hmore => exact hmore
    · exact absurd rfl hdone

theorem Counted.arrive (h : Counted cfg state) {pc : Pc} (hstep : state.arrive core pc = some next)
    (hrunning : state.pc core ≠ .done) (hcheck : pc ≠ .checkR1 ∧ pc ≠ .checkR2) :
    Counted cfg next := by
  unfold State.arrive at hstep
  split at hstep
  · split at hstep
    · obtain rfl := Option.some.inj hstep
      exact h.goto rfl rfl rfl hrunning fun _ => hcheck
    · obtain rfl := Option.some.inj hstep
      exact h.goto rfl rfl rfl hrunning fun _ => hcheck
  · cases hstep

theorem Counted.run (h : Counted cfg state) (hstep : runCore cfg state core = some next) :
    Counted cfg next := by
  unfold runCore at hstep
  cases hpc : state.pc core with
  | clearX | clearY | load | record =>
      simp only [hpc, Option.some.injEq] at hstep
      subst hstep
      exact h.goto rfl rfl rfl (by simp [hpc]) fun _ => ⟨nofun, nofun⟩
  | arriveStart | arriveEnd =>
      simp only [hpc] at hstep
      exact h.arrive hstep (by simp [hpc]) ⟨nofun, nofun⟩
  | waitStart token =>
      simp only [hpc] at hstep
      split at hstep
      · cases hstep
      · obtain rfl := Option.some.inj hstep
        exact h.goto rfl rfl rfl (by simp [hpc]) fun _ => ⟨nofun, nofun⟩
  | store =>
      simp only [hpc] at hstep
      split at hstep
      · obtain ⟨memory, -, rfl⟩ := Option.map_eq_some_iff.mp hstep
        exact h.goto rfl rfl rfl (by simp [hpc]) fun _ => ⟨nofun, nofun⟩
      · obtain rfl := Option.some.inj hstep
        exact h.goto rfl rfl rfl (by simp [hpc]) fun _ => ⟨nofun, nofun⟩
  | waitEnd token =>
      simp only [hpc] at hstep
      split at hstep
      · cases hstep
      · cases core with
        | t0 =>
            obtain rfl := Option.some.inj hstep
            exact h.loop_first _
        | t1 =>
            obtain rfl := Option.some.inj hstep
            exact h.goto rfl rfl rfl (by simp [hpc]) nofun
  | checkR1 =>
      simp only [hpc] at hstep
      cases core with
      | t0 => exact absurd hpc h.first.1
      | t1 =>
          split at hstep
          · obtain rfl := Option.some.inj hstep
            exact h.goto rfl rfl rfl (by simp [hpc]) nofun
          · obtain rfl := Option.some.inj hstep
            exact h.loop_second (by simp [hpc]) (Nat.le_succ _)
  | checkR2 =>
      simp only [hpc] at hstep
      cases core with
      | t0 => exact absurd hpc h.first.2
      | t1 =>
          split at hstep
          · obtain rfl := Option.some.inj hstep
            exact h.loop_second (by simp [hpc]) (Nat.le_refl _)
          · obtain rfl := Option.some.inj hstep
            exact h.loop_second (by simp [hpc]) (Nat.le_succ _)
  | done => simp [hpc] at hstep

theorem counted_of_reachable (h : (litmus cfg).Reachable (fun _ _ => True) state) :
    Counted cfg state := by
  refine h.invariant (Counted cfg) ?_ ?_
  · intro state hinit
    obtain rfl : state = _ := hinit
    rw [start_ready]
    refine ⟨?_, Nat.le_refl _, Nat.zero_le _, fun hdone => ?_⟩
    · show loopPc cfg .t0 0 ≠ .checkR1 ∧ loopPc cfg .t0 0 ≠ .checkR2
      unfold loopPc
      split
      · exact ⟨nofun, nofun⟩
      · exact ⟨nofun, nofun⟩
    · change loopPc cfg .t1 0 ≠ .done at hdone
      unfold loopPc at hdone
      split at hdone
      · next hmore => exact hmore
      · exact absurd rfl hdone
  · intro state event next hcounted _ hstep
    cases event with
    | run core => exact hcounted.run hstep
    | drain core =>
        obtain ⟨memory, -, rfl⟩ := Option.map_eq_some_iff.mp hstep
        exact ⟨hcounted.first, hcounted.count, hcounted.trial, hcounted.running⟩

end Counting

/-- The possible counts of the litmus test. Sequentially consistent stores leave only 0, and
relaxed stores allow every number of trials. -/
theorem litmus_outcomes (cfg : Config) (count : Nat) :
    Outcomes cfg count ↔ count ≤ if cfg.useSeqCst then 0 else cfg.iterations := by
  constructor
  · intro ⟨state, hreach, _, hcount⟩
    cases hcfg : cfg.useSeqCst with
    | true =>
        have hzero := (inv_of_reachable hcfg hreach).count
        simp only [if_true]
        omega
    | false =>
        have hcounted := counted_of_reachable hreach
        have hle := hcounted.count
        have htrial := hcounted.trial
        simp only [Bool.false_eq_true, if_false]
        omega
  · intro hle
    obtain ⟨values, phase, hreach⟩ := reach_ready cfg cfg.iterations count (Nat.le_refl _) hle
    refine ⟨_, hreach, fun core => ?_, rfl⟩
    have hdone : loopPc cfg core cfg.iterations = .done := if_neg (Nat.lt_irrefl _)
    cases core with
    | t0 => exact hdone
    | t1 => exact hdone

end HotPath.StoreBuffer.Litmus
