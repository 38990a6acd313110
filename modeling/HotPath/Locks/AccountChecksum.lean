import HotPath.Locks.SerialLedgers
import Mathlib.Data.List.Induction

/-!
# The checksum of the protected accounts

`ProtectedState` under a sequence of `UpdateInvariants` and `ApplyTransfer` calls. Both keep the
sum of the balances and count themselves in the sequence number. The checksum covers the sequence
number, and only `UpdateInvariants` writes it: a transfer from a state whose checksum is right
always leaves a wrong one (`consistent_iff_no_transfer`).
-/

namespace HotPath.Locks

/-- The factor of the sequence number in the checksum. -/
def checksumFactor : UInt64 := 0x9E3779B97F4A7C15

/-- `UpdateInvariants`. -/
def ProtectedState.updateInvariants (state : ProtectedState) (delta : UInt64) : ProtectedState :=
  let seq := state.sequence + 1
  let balanceA := state.balanceA + delta
  let balanceB := state.balanceB - delta
  { sequence := seq
    balanceA := balanceA
    balanceB := balanceB
    checksum := (balanceA + balanceB) ^^^ (seq * checksumFactor)
    buckets := mixBuckets seq state.buckets }

/-- A call on the protected accounts. -/
inductive AccountCall where
  | updateInvariants (delta : UInt64)
  | applyTransfer (amount : UInt64)

/-- The accounts after a call. -/
def ProtectedState.call (state : ProtectedState) : AccountCall → ProtectedState
  | .updateInvariants delta => state.updateInvariants delta
  | .applyTransfer amount => state.applyTransfer amount

/-- The accounts after a sequence of calls on fresh ones. -/
def ProtectedState.afterCalls (calls : List AccountCall) : ProtectedState :=
  calls.foldl ProtectedState.call {}

/-- The sum of the balances. -/
def ProtectedState.total (state : ProtectedState) : UInt64 := state.balanceA + state.balanceB

/-- The checksum that the other fields ask for. -/
def ProtectedState.expectedChecksum (state : ProtectedState) : UInt64 :=
  state.total ^^^ (state.sequence * checksumFactor)

/-- The invariants of the accounts after a number of calls. -/
structure ProtectedState.Consistent (state : ProtectedState) (count : Nat) : Prop where
  total_eq : state.total = 2000000
  sequence_eq : state.sequence = UInt64.ofNat count
  checksum_eq : state.checksum = state.expectedChecksum

namespace ProtectedState

/-! ## One call -/

theorem call_total (state : ProtectedState) (next : AccountCall) :
    (state.call next).total = state.total := by
  have hkeeps : ∀ amount : UInt64,
      state.balanceA + amount + (state.balanceB - amount) = state.total := by
    intro amount
    rw [UInt64.add_assoc, UInt64.add_comm amount, UInt64.sub_add_cancel, total]
  cases next with
  | updateInvariants delta => exact hkeeps delta
  | applyTransfer amount => exact hkeeps amount

theorem call_sequence (state : ProtectedState) (next : AccountCall) :
    (state.call next).sequence = state.sequence + 1 := by
  cases next <;> rfl

/-- `UpdateInvariants` writes the right checksum, whatever it finds. -/
theorem updateInvariants_checksum (state : ProtectedState) (delta : UInt64) :
    (state.updateInvariants delta).checksum =
      (state.updateInvariants delta).expectedChecksum := rfl

/-- `ApplyTransfer` turns a right checksum into a wrong one. -/
theorem applyTransfer_checksum {state : ProtectedState} (amount : UInt64)
    (h : state.checksum = state.expectedChecksum) :
    (state.applyTransfer amount).checksum ≠ (state.applyTransfer amount).expectedChecksum := by
  intro hstill
  have htotal := call_total state (.applyTransfer amount)
  have hxor : state.total ^^^ (state.sequence * checksumFactor) =
      state.total ^^^ ((state.sequence + 1) * checksumFactor) := by
    calc state.total ^^^ (state.sequence * checksumFactor)
        = state.checksum := h.symm
      _ = (state.applyTransfer amount).expectedChecksum := hstill
      _ = state.total ^^^ ((state.sequence + 1) * checksumFactor) := by
        rw [expectedChecksum, ← htotal]
        rfl
  have hmul : state.sequence * checksumFactor =
      state.sequence * checksumFactor + checksumFactor := by
    have hcancel := UInt64.xor_right_inj state.total |>.mp hxor
    rwa [UInt64.add_mul, UInt64.one_mul] at hcancel
  exact absurd (UInt64.left_eq_add.mp hmul) (by decide)

/-! ## Sequences of calls -/

theorem afterCalls_concat (calls : List AccountCall) (last : AccountCall) :
    afterCalls (calls ++ [last]) = (afterCalls calls).call last := by
  simp [afterCalls]

/-- Every sequence of calls keeps the sum of the balances. -/
theorem afterCalls_total (calls : List AccountCall) : (afterCalls calls).total = 2000000 := by
  induction calls using List.reverseRecOn with
  | nil => rfl
  | append_singleton calls last ih => rw [afterCalls_concat, call_total, ih]

/-- The sequence number counts the calls. -/
theorem afterCalls_sequence (calls : List AccountCall) :
    (afterCalls calls).sequence = UInt64.ofNat calls.length := by
  induction calls using List.reverseRecOn with
  | nil => rfl
  | append_singleton calls last ih =>
      rw [afterCalls_concat, call_sequence, ih, List.length_append, UInt64.ofNat_add]
      rfl

/-- What is left to decide about a sequence of calls is the checksum. -/
theorem consistent_iff_checksum (calls : List AccountCall) :
    (afterCalls calls).Consistent calls.length ↔
      (afterCalls calls).checksum = (afterCalls calls).expectedChecksum :=
  ⟨fun h => h.checksum_eq, fun h => ⟨afterCalls_total calls, afterCalls_sequence calls, h⟩⟩

/-- One more call keeps the invariants if and only if it is not a transfer. -/
theorem concat_consistent_iff {calls : List AccountCall} (last : AccountCall)
    (h : (afterCalls calls).Consistent calls.length) :
    (afterCalls (calls ++ [last])).Consistent (calls ++ [last]).length ↔
      ∀ amount, last ≠ .applyTransfer amount := by
  rw [consistent_iff_checksum, afterCalls_concat]
  cases last with
  | updateInvariants delta => simp [call, updateInvariants_checksum]
  | applyTransfer amount => simpa [call] using applyTransfer_checksum amount h.checksum_eq

/-- The invariants hold after every call of a sequence if and only if no call is a transfer. -/
theorem consistent_iff_no_transfer (calls : List AccountCall) :
    (∀ done, done <+: calls → (afterCalls done).Consistent done.length) ↔
      ∀ amount, .applyTransfer amount ∉ calls := by
  induction calls using List.reverseRecOn with
  | nil =>
      refine ⟨fun _ amount => List.not_mem_nil, fun _ done hdone => ?_⟩
      obtain rfl : done = [] := List.prefix_nil.mp hdone
      exact (consistent_iff_checksum []).mpr rfl
  | append_singleton calls last ih =>
      constructor
      · intro h amount hmem
        have hbefore : ∀ done, done <+: calls → (afterCalls done).Consistent done.length :=
          fun done hdone => h done (hdone.trans (List.prefix_append calls [last]))
        have hlast := (concat_consistent_iff last (hbefore calls List.prefix_rfl)).mp
          (h _ List.prefix_rfl)
        cases List.mem_append.mp hmem with
        | inl hold => exact ih.mp hbefore amount hold
        | inr hnew => exact hlast amount (List.mem_singleton.mp hnew).symm
      · intro h done hdone
        have hbefore := ih.mpr fun amount hmem => h amount (List.mem_append_left _ hmem)
        cases List.prefix_concat_iff.mp hdone with
        | inl hall =>
            rw [hall]
            exact (concat_consistent_iff last (hbefore calls List.prefix_rfl)).mpr
              fun amount hlast => h amount (by simp [hlast])
        | inr hshort => exact hbefore done hshort

/-- One transfer on fresh accounts leaves the checksum that they had. -/
theorem transfer_checksum_stale :
    ¬ ∀ done, done <+: [AccountCall.applyTransfer 1] →
      (afterCalls done).Consistent done.length := by
  intro h
  exact absurd (h _ List.prefix_rfl).checksum_eq (by decide)

end ProtectedState

end HotPath.Locks
