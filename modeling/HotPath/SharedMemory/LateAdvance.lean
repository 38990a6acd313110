import HotPath.SharedMemory.Eviction

/-!
# Advances that outlive their registration

`Advance` compares the generation of its slot with the reader's, and then stores a cursor and a
heartbeat there. `LandsInOwnSlot` says that both stores find the reader's generation in the slot,
and that nobody else has claimed the slot since the reader registered.

The check and the two stores are separate accesses, so the slot may be evicted and claimed by
another reader in between, whose cursor the late store replaces (`late_advance_lands`). A new
owner claims a slot before it counts the generation up, so the check can also pass for the old
owner when the slot is taken already, and a registration that has lost its slot may still count
the generation up. `advances_land` shows that these are the only ways to leave the own slot.
-/

namespace HotPath.SharedMemory.Access

open HotPath.Foundation

/-! ## Who has claimed a slot -/

/-- The reader that has claimed each slot last, whether or not it has been evicted since. -/
abbrev Claimants : Type := Fin kMaxReaders → Option ReaderId

/-- The recorder of the claims. -/
def claimants : Recorder Group GroupEvent Claimants where
  start _ := fun _ => none
  observe group event _ owner :=
    match event with
    | .access reader =>
        match (group.clients reader).pc with
        | .claimSlot (index :: _) =>
            if (group.machine.shared.header.readers index).active then owner
            else Function.update owner index (some reader)
        | _ => owner
    | _ => owner

/-- The slot that the next access of an `Advance` stores in. -/
def ClientPc.advanceStore : ClientPc → Option (Fin kMaxReaders)
  | .publishCursor index | .publishHeartbeat index _ => some index
  | _ => none

/-- In every run whose steps meet `allow`, the stores of `Advance` only hit a slot that has the
reader's generation and that the reader was the last to claim. -/
def LandsInOwnSlot (cfg : Config) (allow : Group × Claimants → GroupEvent → Prop) : Prop :=
  ∀ pair, ((group cfg).withHistory claimants).Reachable allow pair →
    ∀ reader index, (pair.1.clients reader).pc.advanceStore = some index →
      (pair.1.machine.shared.header.readers index).generationId =
        (pair.1.clients reader).reader.generationId ∧
      pair.2 index = some reader

/-- An `Advance` has passed its generation check and has not stored its heartbeat yet. -/
def ClientPc.advancing (index : Fin kMaxReaders) : ClientPc → Prop
  | .publishCursor target | .readAdvanceClock target | .publishHeartbeat target _ =>
      target = index
  | _ => False

/-- The generation that a registration has drawn for a slot and not yet handed to its reader. -/
def ClientPc.drawn (index : Fin kMaxReaders) (generationId : UInt32) : ClientPc → Prop
  | .storeSlotCursor target drawn | .readRegisterClock target drawn |
    .storeFirstHeartbeat target drawn _ => target = index ∧ drawn = generationId
  | _ => False

/-- A consumer carries a generation for a slot, in its handle or in its open registration. -/
def Client.carries (client : Client) (index : Fin kMaxReaders) (generationId : UInt32) : Prop :=
  (client.reader.slotIndex = some index ∧ client.reader.generationId = generationId) ∨
    client.pc.drawn index generationId

/-- The last claimant of a slot has not counted the generation up yet. -/
def Unbumped (clients : ReaderId → Client) (owner : Claimants) (index : Fin kMaxReaders) : Prop :=
  ∃ other, owner index = some other ∧ (clients other).pc = .bumpGeneration index

/-- A slot is claimed while nobody is between the check and the stores of an `Advance` on it, no
check passes between the claim of a new owner and its count, and a registration that counts the
generation up still has the slot, or the new owner is still to count. The count does not come
round to a generation that another consumer carries. -/
def AdvancesInTime (pair : Group × Claimants) : GroupEvent → Prop
  | .access reader =>
      let slots := pair.1.machine.shared.header.readers
      match (pair.1.clients reader).pc with
      | .claimSlot (index :: _) => (slots index).active = false →
          ∀ other, ¬ (pair.1.clients other).pc.advancing index
      | .checkGeneration index =>
          (slots index).generationId = (pair.1.clients reader).reader.generationId →
          ¬ Unbumped pair.1.clients pair.2 index
      | .bumpGeneration index =>
          (∃ other, pair.2 index = some other ∧
            (other = reader ∨ (pair.1.clients other).pc = .bumpGeneration index)) ∧
          ∀ other, other ≠ reader →
            ¬ (pair.1.clients other).carries index ((slots index).generationId + 1)
      | _ => True
  | _ => True

/-! ## The invariant -/

/-- Whoever carries the generation of a slot has claimed it last, unless a new owner is still to
count. An `Advance` that has passed its check is in its own slot. -/
structure OwnInv (slots : Fin kMaxReaders → ReaderSlot) (clients : ReaderId → Client)
    (owner : Claimants) : Prop where
  carried : ∀ reader index, (clients reader).carries index (slots index).generationId →
    owner index = some reader ∨ Unbumped clients owner index
  checking : ∀ reader index, (clients reader).pc = .checkGeneration index →
    (clients reader).reader.slotIndex = some index
  advancing : ∀ reader index, (clients reader).pc.advancing index →
    (slots index).generationId = (clients reader).reader.generationId ∧
      owner index = some reader

section Steps

variable {cfg : Config} {slots slots' : Fin kMaxReaders → ReaderSlot}
  {clients : ReaderId → Client} {owner : Claimants} {reader : ReaderId} {client : Client}
  {index : Fin kMaxReaders} {group next : Group}

/-- A slot whose last claimant is not the consumer that goes on stays unbumped. -/
theorem Unbumped.update (h : Unbumped clients owner index)
    (hbump : (clients reader).pc ≠ .bumpGeneration index) :
    Unbumped (Function.update clients reader client) owner index := by
  obtain ⟨other, howner, hat⟩ := h
  have hne : other ≠ reader := by
    intro heq
    subst heq
    exact hbump hat
  exact ⟨other, howner, by rw [Function.update_of_ne hne]; exact hat⟩

/-- An access that leaves the generations, and gives its consumer no new generation to carry. -/
theorem OwnInv.quiet (h : OwnInv slots clients owner)
    (hslots : ∀ i, (slots' i).generationId = (slots i).generationId)
    (hbump : ∀ i, (clients reader).pc ≠ .bumpGeneration i)
    (hcarries : ∀ i generationId, client.carries i generationId →
      (clients reader).carries i generationId)
    (hchecking : ∀ i, client.pc = .checkGeneration i → client.reader.slotIndex = some i)
    (hadvancing : ∀ i, client.pc.advancing i →
      (slots i).generationId = client.reader.generationId ∧ owner i = some reader) :
    OwnInv slots' (Function.update clients reader client) owner where
  carried other i hother := by
    rw [hslots] at hother
    have hcarried : (clients other).carries i (slots i).generationId := by
      by_cases hne : other = reader
      · subst hne
        rw [Function.update_self] at hother
        exact hcarries i _ hother
      · rwa [Function.update_of_ne hne] at hother
    exact (h.carried other i hcarried).imp_right fun hopen => hopen.update (hbump i)
  checking other i hother := by
    by_cases hne : other = reader
    · subst hne
      rw [Function.update_self] at hother ⊢
      exact hchecking i hother
    · rw [Function.update_of_ne hne] at hother ⊢
      exact h.checking other i hother
  advancing other i hother := by
    rw [hslots]
    by_cases hne : other = reader
    · subst hne
      rw [Function.update_self] at hother ⊢
      exact hadvancing i hother
    · rw [Function.update_of_ne hne] at hother ⊢
      exact h.advancing other i hother

/-- A claim, while no `Advance` is about to store in the slot. -/
theorem OwnInv.claim (h : OwnInv slots clients owner)
    (hslots : ∀ i, (slots' i).generationId = (slots i).generationId)
    (hquiet : ∀ other, ¬ (clients other).pc.advancing index)
    (hbump : ∀ i, (clients reader).pc ≠ .bumpGeneration i) :
    OwnInv slots' (Function.update clients reader ((clients reader).goto (.bumpGeneration index)))
      (Function.update owner index (some reader)) where
  carried other i hother := by
    by_cases hi : i = index
    · subst hi
      exact .inr ⟨reader, Function.update_self .., by rw [Function.update_self]; rfl⟩
    · rw [hslots] at hother
      have hcarried : (clients other).carries i (slots i).generationId := by
        by_cases hne : other = reader
        · subst hne
          rw [Function.update_self] at hother
          exact .inl (hother.resolve_right (by simp [Client.goto, ClientPc.drawn]))
        · rwa [Function.update_of_ne hne] at hother
      rw [Function.update_of_ne hi]
      refine (h.carried other i hcarried).imp_right fun hopen => ?_
      obtain ⟨last, hlast, hat⟩ := hopen.update (hbump i)
      exact ⟨last, by rw [Function.update_of_ne hi]; exact hlast, hat⟩
  checking other i hother := by
    by_cases hne : other = reader
    · subst hne
      simp [Client.goto] at hother
    · rw [Function.update_of_ne hne] at hother ⊢
      exact h.checking other i hother
  advancing other i hother := by
    rw [hslots]
    by_cases hne : other = reader
    · subst hne
      simp [Client.goto, ClientPc.advancing] at hother
    · rw [Function.update_of_ne hne] at hother ⊢
      have hi : i ≠ index := by
        intro heq
        subst heq
        exact hquiet other hother
      rw [Function.update_of_ne hi]
      exact h.advancing other i hother

/-- A generation is counted up by the last claimant, or before the last claimant counts. -/
theorem OwnInv.bump (h : OwnInv slots clients owner)
    (hslots : slots' = Function.update slots index
      { slots index with generationId := (slots index).generationId + 1 })
    (hat : (clients reader).pc = .bumpGeneration index)
    (hlast : ∃ other, owner index = some other ∧
      (other = reader ∨ (clients other).pc = .bumpGeneration index))
    (hfresh : ∀ other, other ≠ reader →
      ¬ (clients other).carries index ((slots index).generationId + 1)) :
    OwnInv slots' (Function.update clients reader ((clients reader).goto
      (.storeSlotCursor index ((slots index).generationId + 1)))) owner := by
  have hother : ∀ i, i ≠ index → slots' i = slots i := by
    intro i hi
    rw [hslots, Function.update_of_ne hi]
  constructor
  · intro other i hcarries
    by_cases hi : i = index
    · subst hi
      by_cases hne : other = reader
      · subst hne
        obtain ⟨last, howner, hbump⟩ := hlast
        by_cases hself : last = other
        · exact .inl (hself ▸ howner)
        · refine .inr ⟨last, howner, ?_⟩
          rw [Function.update_of_ne hself]
          exact hbump.resolve_left hself
      · rw [Function.update_of_ne hne, hslots, Function.update_self] at hcarries
        exact absurd hcarries (hfresh other hne)
    · rw [hother i hi] at hcarries
      have hcarried : (clients other).carries i (slots i).generationId := by
        by_cases hne : other = reader
        · subst hne
          rw [Function.update_self] at hcarries
          refine .inl (hcarries.resolve_right fun hdrawn => hi ?_)
          exact hdrawn.1.symm
        · rwa [Function.update_of_ne hne] at hcarries
      exact (h.carried other i hcarried).imp_right fun hopen => hopen.update (by
        rw [hat]
        intro heq
        exact hi (ClientPc.bumpGeneration.inj heq).symm)
  · intro other i hchecking
    by_cases hne : other = reader
    · subst hne
      simp [Client.goto] at hchecking
    · rw [Function.update_of_ne hne] at hchecking ⊢
      exact h.checking other i hchecking
  · intro other i hadvancing
    by_cases hne : other = reader
    · subst hne
      simp [Client.goto, ClientPc.advancing] at hadvancing
    · rw [Function.update_of_ne hne] at hadvancing ⊢
      obtain ⟨hgeneration, howner⟩ := h.advancing other i hadvancing
      have hi : i ≠ index := by
        intro heq
        subst heq
        obtain ⟨last, hlast, hwhich⟩ := hlast
        obtain rfl : last = other := Option.some.inj (hlast.symm.trans howner)
        rw [hwhich.resolve_left hne] at hadvancing
        exact hadvancing
      rw [hother i hi]
      exact ⟨hgeneration, howner⟩

/-- A store to a slot that keeps its generation. -/
theorem setSlot_generation (shared : Shared) {slot : ReaderSlot}
    (hslot : slot.generationId = (shared.header.readers index).generationId)
    (i : Fin kMaxReaders) :
    ((shared.setSlot index slot).header.readers i).generationId =
      (shared.header.readers i).generationId := by
  show (Function.update shared.header.readers index slot i).generationId = _
  by_cases hi : i = index
  · subst hi
    rw [Function.update_self]
    exact hslot
  · rw [Function.update_of_ne hi]

/-- The accesses of the consumers keep the invariant. -/
theorem client_access_own
    (hinv : OwnInv group.machine.shared.header.readers group.clients owner)
    (hallow : AdvancesInTime (group, owner) (.access reader)) {result : Shared × Client}
    (h : (group.clients reader).access group.machine.clock group.machine.shared = some result) :
    OwnInv result.1.header.readers (Function.update group.clients reader result.2)
      (claimants.observe group (.access reader) next owner) := by
  have hchecking := hinv.checking reader
  have hadvancing := hinv.advancing reader
  obtain ⟨shared, client⟩ := result
  cases Client.access_cases h with
  | rosterFull hat =>
      simp only [claimants, hat]
      exact hinv.quiet (fun _ => rfl) (by simp [hat])
        (by simp [Client.carries, ClientPc.drawn, hat]) (by simp) (by simp [ClientPc.advancing])
  | passSlot index slots hat hactive =>
      simp only [claimants, hat]
      rw [if_pos hactive]
      exact hinv.quiet (fun _ => rfl) (by simp [hat])
        (by simp [Client.carries, ClientPc.drawn, hat]) (by simp)
        (by simp [ClientPc.advancing])
  | claimSlot index slots hat hactive =>
      simp only [claimants, hat]
      rw [if_neg hactive]
      simp only [AdvancesInTime, hat] at hallow
      exact hinv.claim (setSlot_generation _ rfl) (hallow (by simpa using hactive)) (by simp [hat])
  | bumpGeneration index hat =>
      simp only [claimants, hat]
      simp only [AdvancesInTime, hat] at hallow
      exact hinv.bump rfl hat hallow.1 hallow.2
  | storeSlotCursor index generationId hat =>
      simp only [claimants, hat]
      exact hinv.quiet (setSlot_generation _ rfl) (by simp [hat])
        (by simp [Client.carries, ClientPc.drawn, hat]) (by simp)
        (by simp [ClientPc.advancing])
  | readRegisterClock index generationId hat =>
      simp only [claimants, hat]
      exact hinv.quiet (fun _ => rfl) (by simp [hat])
        (by simp [Client.carries, ClientPc.drawn, hat]) (by simp)
        (by simp [ClientPc.advancing])
  | storeFirstHeartbeat index generationId now hat =>
      simp only [claimants, hat]
      refine hinv.quiet (setSlot_generation _ rfl) (by simp [hat]) ?_ (by simp)
        (by simp [ClientPc.advancing])
      -- The handle takes over what the registration has drawn.
      intro i carried hcarries
      obtain ⟨hslot, hgeneration⟩ := hcarries.resolve_right (by simp [ClientPc.drawn])
      refine .inr ?_
      rw [hat]
      exact ⟨Option.some.inj hslot, hgeneration⟩
  | release index hat =>
      simp only [claimants, hat]
      exact hinv.quiet (setSlot_generation _ rfl) (by simp [hat])
        (by simp [Client.carries, ClientPc.drawn]) (by simp) (by simp [ClientPc.advancing])
  | checkGeneration index hat hsame =>
      simp only [claimants, hat]
      simp only [AdvancesInTime, hat] at hallow
      refine hinv.quiet (fun _ => rfl) (by simp [hat])
        (by simp [Client.carries, ClientPc.drawn, hat]) (by simp) ?_
      -- The handle carries the generation of its slot, and nobody is about to count.
      intro i hi
      obtain rfl : index = i := hi
      have hown := hinv.carried reader index (.inl ⟨hchecking index hat, hsame.symm⟩)
      exact ⟨hsame, hown.resolve_right (hallow hsame)⟩
  | unbind index hat =>
      simp only [claimants, hat]
      exact hinv.quiet (fun _ => rfl) (by simp [hat])
        (by simp [Client.carries, ClientPc.drawn]) (by simp) (by simp [ClientPc.advancing])
  | publishCursor index hat =>
      simp only [claimants, hat]
      refine hinv.quiet (setSlot_generation _ rfl) (by simp [hat])
        (by simp [Client.carries, ClientPc.drawn, hat]) (by simp) ?_
      intro i hi
      exact hadvancing i (by rw [hat]; exact hi)
  | readAdvanceClock index hat =>
      simp only [claimants, hat]
      refine hinv.quiet (fun _ => rfl) (by simp [hat])
        (by simp [Client.carries, ClientPc.drawn, hat]) (by simp) ?_
      intro i hi
      exact hadvancing i (by rw [hat]; exact hi)
  | publishHeartbeat index now hat =>
      simp only [claimants, hat]
      exact hinv.quiet (setSlot_generation _ rfl) (by simp [hat])
        (by simp [Client.carries, ClientPc.drawn, hat]) (by simp)
        (by simp [ClientPc.advancing])

/-! ## The producer -/

/-- An access of the producer leaves the generations. -/
theorem access_generation {process : Process} {capacity tsc : UInt64} {clock : Int}
    {shared : Shared} {result : Shared × Process}
    (h : process.access capacity clock tsc shared = some result) (i : Fin kMaxReaders) :
    (result.1.header.readers i).generationId = (shared.header.readers i).generationId := by
  unfold Process.access at h
  rcases Option.or_eq_some_iff.mp h with hscan | ⟨-, hrest⟩
  · rcases (scan_cases hscan).roster with hsame | ⟨_, _, _, _, -, hclear⟩
    · rw [hsame]
    · rw [hclear]
      refine setSlot_generation shared ?_ i
      rfl
  · obtain ⟨hslots, -⟩ := stores_apart {} ((Option.or_eq_some_iff.mp hrest).imp_right And.right)
    rw [hslots]

/-- The producer's steps leave the generations. -/
theorem producer_generation {event : Event} {machine after : Machine}
    (hconsumer : ∀ index slot, event ≠ .consumer index slot)
    (h : step cfg machine event = some after) (i : Fin kMaxReaders) :
    (after.shared.header.readers i).generationId =
      (machine.shared.header.readers i).generationId := by
  cases step_cases h with
  | access tsc hprocess haccess => exact access_generation haccess i
  | write offset bytes hprocess hwrite => rw [write_header hwrite]
  | consumer index slot => exact absurd rfl (hconsumer index slot)
  | _ => rfl

/-! ## The system -/

/-- A call of a consumer that has no call open. -/
theorem OwnInv.call (hinv : OwnInv group.machine.shared.header.readers group.clients owner)
    {call : Client → Client} (h : group.call reader call = some next)
    (hcarries : ∀ client i generationId, client.pc = .idle →
      (call client).carries i generationId → client.carries i generationId)
    (hchecking : ∀ client i, client.pc = .idle → (call client).pc = .checkGeneration i →
      (call client).reader.slotIndex = some i)
    (hadvancing : ∀ client i, client.pc = .idle → ¬ (call client).pc.advancing i) :
    OwnInv next.machine.shared.header.readers next.clients owner := by
  unfold Group.call at h
  split at h
  · next hidle =>
      obtain rfl := Option.some.inj h
      exact hinv.quiet (fun _ => rfl) (by simp [hidle])
        (fun i generationId => hcarries _ i generationId hidle) (fun i => hchecking _ i hidle)
        fun i hi => absurd hi (hadvancing _ i hidle)
  · simp at h

/-- One step keeps the invariant. -/
theorem group_step_own {event : GroupEvent}
    (hinv : OwnInv group.machine.shared.header.readers group.clients owner)
    (hallow : AdvancesInTime (group, owner) event) (h : groupStep cfg group event = some next) :
    OwnInv next.machine.shared.header.readers next.clients
      (claimants.observe group event next owner) := by
  cases event with
  | producer event =>
      obtain ⟨machine, hmachine, hconsumer, rfl⟩ := groupStep_producer h
      have hslots := producer_generation hconsumer hmachine
      constructor
      · intro reader index hcarries
        rw [hslots] at hcarries
        exact hinv.carried reader index hcarries
      · exact hinv.checking
      · intro reader index hadvancing
        rw [hslots]
        exact hinv.advancing reader index hadvancing
  | setCursor reader cursor =>
      simp only [groupStep] at h
      refine hinv.call h ?_ ?_ ?_
      · intro client i generationId hidle hcarries
        exact hcarries
      · intro client i hidle hat
        simp [hidle] at hat
      · intro client i hidle
        simp [hidle, ClientPc.advancing]
  | register reader =>
      refine hinv.call h ?_ ?_ ?_
      · intro client i generationId hidle hcarries
        unfold Client.register at hcarries
        split at hcarries
        · exact hcarries
        · exact .inl (hcarries.resolve_right (by simp [Client.goto, ClientPc.drawn]))
      · intro client i hidle hat
        unfold Client.register at hat
        split at hat <;> simp [hidle, Client.goto] at hat
      · intro client i hidle
        unfold Client.register
        split <;> simp [hidle, Client.goto, ClientPc.advancing]
  | unregister reader =>
      refine hinv.call h ?_ ?_ ?_
      · intro client i generationId hidle hcarries
        unfold Client.unregister at hcarries
        split at hcarries
        · exact .inl (hcarries.resolve_right (by simp [Client.goto, ClientPc.drawn]))
        · exact hcarries
      · intro client i hidle hat
        unfold Client.unregister at hat
        split at hat <;> simp [hidle, Client.goto] at hat
      · intro client i hidle
        unfold Client.unregister
        split <;> simp [hidle, Client.goto, ClientPc.advancing]
  | advance reader totalFrameLength =>
      simp only [groupStep] at h
      refine hinv.call h ?_ ?_ ?_
      · intro client i generationId hidle hcarries
        simp only [Client.advance] at hcarries
        split at hcarries
        · exact .inl (hcarries.resolve_right (by simp [Client.goto, ClientPc.drawn]))
        · exact hcarries
      · intro client i hidle hat
        simp only [Client.advance] at hat ⊢
        split at hat
        · next index hslot =>
            obtain rfl := ClientPc.checkGeneration.inj hat
            exact hslot
        · simp [hidle] at hat
      · intro client i hidle
        simp only [Client.advance]
        split <;> simp [hidle, Client.goto, ClientPc.advancing]
  | access reader =>
      obtain ⟨result, haccess, rfl⟩ := Option.map_eq_some_iff.mp h
      exact client_access_own hinv hallow haccess

/-- The invariant holds in every run whose advances are in time. -/
theorem reachable_own {pair : Group × Claimants}
    (h : ((Access.group cfg).withHistory claimants).Reachable AdvancesInTime pair) :
    OwnInv pair.1.machine.shared.header.readers pair.1.clients pair.2 := by
  refine h.invariant
    (fun pair => OwnInv pair.1.machine.shared.header.readers pair.1.clients pair.2) ?_ ?_
  · intro ⟨group, owner⟩ ⟨⟨clock, hgroup⟩, _⟩
    obtain rfl : group = ⟨created cfg clock, fun _ => {}⟩ := hgroup
    refine ⟨?_, by simp, by simp [ClientPc.advancing]⟩
    simp [Client.carries, ClientPc.drawn]
  · intro ⟨group, owner⟩ event ⟨next, after⟩ hinv hallow hnext
    obtain ⟨hstep, hobserve⟩ := System.withHistory_step.mp hnext
    obtain rfl : after = claimants.observe group event next owner := hobserve
    exact group_step_own hinv hallow hstep

end Steps

/-- The stores of `Advance` land in the reader's own slot, as long as nobody claims the slot
between the check and the stores, no check passes between the claim of a new owner and its count,
and no registration counts for a slot that it has lost. -/
theorem advances_land (cfg : Config) : LandsInOwnSlot cfg AdvancesInTime := by
  intro pair hreach reader index hstore
  have hinv := reachable_own hreach
  refine hinv.advancing reader index ?_
  cases hat : (pair.1.clients reader).pc with
  | publishCursor target =>
      rw [hat] at hstore
      exact Option.some.inj hstore
  | publishHeartbeat target now =>
      rw [hat] at hstore
      exact Option.some.inj hstore
  | _ =>
      rw [hat] at hstore
      simp [ClientPc.advanceStore] at hstore

/-! ## A late advance -/

/-- Reader 0 registers, and its `Advance` over the first frame passes the generation check. Half a
second later the producer scans the roster and evicts it, and reader 1 registers in its slot. -/
def lateAdvance : List GroupEvent := List.flatten [
  [.register 0], List.replicate 5 (.access 0),
  [.producer (.reserve 4072 0)], List.replicate 7 (.producer (.access 0)),
  [.producer .commit], List.replicate 3 (.producer (.access 0)),
  [.advance 0 4096, .access 0, .producer (.tick 500000001)],
  [.producer (.reserve 8 0)], List.replicate 5 (.producer (.access 0)),
  [.register 1], List.replicate 5 (.access 1)]

/-- Reader 0 is about to store its cursor in slot 0, where reader 1 has registered with the next
generation and a cursor of its own. -/
def landsLate (pair : Group × Claimants) : Bool :=
  (pair.1.clients 0).pc == .publishCursor 0 && pair.2 0 == some 1 &&
    (pair.1.clients 1).reader == ⟨0, some 0, 2⟩ &&
    pair.1.machine.shared.header.readers 0 == ⟨true, 0, 500000001, 2⟩

/-- The stores of an evicted reader land in the slot of its successor. -/
theorem late_advance_lands : ¬ LandsInOwnSlot onePage fun _ _ => True := by
  intro hlands
  obtain ⟨pair, hreach, hpair⟩ := System.exists_reachable_of_replay
    ((group onePage).withHistory claimants) (fun _ _ => True)
    (⟨created onePage 0, fun _ => {}⟩, fun _ => none) lateAdvance landsLate
    (.init ⟨⟨_, rfl⟩, rfl⟩) (by decide +kernel)
  simp only [landsLate, Bool.and_eq_true, beq_iff_eq] at hpair
  obtain ⟨⟨⟨hat, howner⟩, -⟩, -⟩ := hpair
  obtain ⟨-, hown⟩ := hlands pair hreach 0 0 (by rw [hat]; rfl)
  rw [howner] at hown
  simp at hown

end HotPath.SharedMemory.Access
