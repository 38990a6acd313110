import Mathlib.Data.List.Nodup
import Mathlib.Data.List.Basic
import Mathlib.Logic.Function.Basic

/-!
# Loans of reused keys

A resource is known by a key, such as a descriptor number or an address, that is handed out again
after it has been given back. So every time that a key is handed out counts as a loan of its own,
and loans are numbered in order. A call that gives a key back ends the last loan of this key.

`Loans` records which loan each of these calls has ended, and `Loans.Owes` says that every ended
loan has been ended once and that the outstanding ones have not been. `Taken` compares a table of
the keys in use with what it was at the start.
-/

namespace HotPath.Foundation

variable {Key Detail Item Value : Type*}

/-! ## Updates of a table -/

section Update

variable [DecidableEq Key] {table : Key → Option Value} {key other : Key} {value value' : Value}

/-- What a table holds after an entry has been made. -/
theorem update_some_iff : Function.update table key (some value) other = some value' ↔
    other = key ∧ value = value' ∨ other ≠ key ∧ table other = some value' := by
  by_cases h : other = key
  · simp [h]
  · simp [h]

/-- What a table holds after an entry has been cleared. -/
theorem update_none_iff : Function.update table key none other = some value' ↔
    other ≠ key ∧ table other = some value' := by
  by_cases h : other = key
  · simp [h]
  · simp [h]

end Update

/-! ## Loans -/

/-- The last loan of every key, and for every call that gave a key back the loan that it has ended
and a detail of the call. -/
structure Loans (Key Detail : Type*) where
  holder : Key → Option Nat := fun _ => none
  ended : List (Option Nat × Detail) := []

/-- A key is handed out. -/
def Loans.lend [DecidableEq Key] (loans : Loans Key Detail) (key : Key) (number : Nat) :
    Loans Key Detail :=
  { loans with holder := Function.update loans.holder key (some number) }

/-- A key is given back. -/
def Loans.giveBack (loans : Loans Key Detail) (key : Key) (detail : Detail) : Loans Key Detail :=
  { loans with ended := loans.ended ++ [(loans.holder key, detail)] }

/-! ## Outstanding loans -/

/-- The items that have been lent are numbered. The outstanding ones hold their keys, and the others
have been given back once, with the right detail. -/
structure Loans.Owes (loans : Loans Key Detail) (keyOf : Item → Key) (detailOf : Item → Detail)
    (items : List Item) (outstanding : Nat → Option Item) : Prop where
  item : ∀ number item, outstanding number = some item → items[number]? = some item
  holder : ∀ number item, outstanding number = some item →
    loans.holder (keyOf item) = some number
  entry : ∀ entry ∈ loans.ended, ∃ number item, items[number]? = some item ∧
    outstanding number = none ∧ entry = (some number, detailOf item)
  nodup : (loans.ended.map Prod.fst).Nodup
  settled : ∀ number < items.length, outstanding number = none →
    some number ∈ loans.ended.map Prod.fst

section Owes

variable {loans : Loans Key Detail} {keyOf : Item → Key} {detailOf : Item → Detail}
  {items : List Item} {outstanding : Nat → Option Item} {item : Item} {number : Nat}

/-- Nothing has been lent. -/
theorem Loans.owes_nothing (keyOf : Item → Key) (detailOf : Item → Detail) :
    ({} : Loans Key Detail).Owes keyOf detailOf [] fun _ => none where
  item _ _ h := nomatch h
  holder _ _ h := nomatch h
  entry _ h := absurd h List.not_mem_nil
  nodup := List.nodup_nil
  settled _ h := absurd h (Nat.not_lt_zero _)

/-- A new loan is not outstanding yet. -/
theorem Loans.Owes.fresh (h : loans.Owes keyOf detailOf items outstanding) :
    outstanding items.length = none := by
  cases hout : outstanding items.length with
  | none => rfl
  | some item =>
      have hitem := h.item _ _ hout
      simp at hitem

/-- A loan of a key that no outstanding item has. -/
theorem Loans.Owes.lend [DecidableEq Key] (h : loans.Owes keyOf detailOf items outstanding)
    (hkey : ∀ number other, outstanding number = some other → keyOf other ≠ keyOf item) :
    (loans.lend (keyOf item) items.length).Owes keyOf detailOf (items ++ [item])
      (Function.update outstanding items.length (some item)) where
  item number other hout := by
    rcases update_some_iff.mp hout with ⟨rfl, rfl⟩ | ⟨-, hout⟩
    · simp
    · have hitem := h.item _ _ hout
      rw [List.getElem?_append_left (List.getElem?_eq_some_iff.mp hitem).1, hitem]
  holder number other hout := by
    rcases update_some_iff.mp hout with ⟨rfl, rfl⟩ | ⟨-, hout⟩
    · exact Function.update_self ..
    · exact (Function.update_of_ne (hkey _ _ hout) ..).trans (h.holder _ _ hout)
  entry entry hentry := by
    obtain ⟨number, other, hitem, hout, rfl⟩ := h.entry entry hentry
    have hlt := (List.getElem?_eq_some_iff.mp hitem).1
    refine ⟨number, other, ?_, ?_, rfl⟩
    · rw [List.getElem?_append_left hlt, hitem]
    · rw [Function.update_of_ne (Nat.ne_of_lt hlt), hout]
  nodup := h.nodup
  settled number hlt hout := by
    have hne : number ≠ items.length := by
      rintro rfl
      simp at hout
    rw [Function.update_of_ne hne] at hout
    rw [List.length_append, List.length_singleton] at hlt
    exact h.settled number (by omega) hout

/-- An outstanding loan ends. -/
theorem Loans.Owes.giveBack (h : loans.Owes keyOf detailOf items outstanding)
    (hout : outstanding number = some item) :
    (loans.giveBack (keyOf item) (detailOf item)).Owes keyOf detailOf items
      (Function.update outstanding number none) where
  item _ _ hother := h.item _ _ (update_none_iff.mp hother).2
  holder _ _ hother := h.holder _ _ (update_none_iff.mp hother).2
  entry entry hentry := by
    rcases List.mem_append.mp hentry with hentry | hentry
    · obtain ⟨other, other', hitem, hnone, rfl⟩ := h.entry entry hentry
      refine ⟨other, other', hitem, ?_, rfl⟩
      rw [Function.update_apply, hnone, ite_self]
    · obtain rfl := List.mem_singleton.mp hentry
      exact ⟨number, item, h.item _ _ hout, Function.update_self .., by
        rw [h.holder _ _ hout]⟩
  nodup := by
    rw [Loans.giveBack, h.holder _ _ hout, List.map_append, List.nodup_append]
    refine ⟨h.nodup, by simp, fun entry hentry entry' hentry' => ?_⟩
    obtain ⟨pair, hpair, rfl⟩ := List.mem_map.mp hentry
    obtain ⟨other, -, -, hnone, rfl⟩ := h.entry pair hpair
    rintro rfl
    obtain rfl : other = number := by simpa using hentry'
    rw [hout] at hnone
    cases hnone
  settled other hlt hnone := by
    rw [Loans.giveBack, List.map_append, List.mem_append]
    by_cases hnumber : other = number
    · subst hnumber
      exact .inr (by simp [h.holder _ _ hout])
    · rw [Function.update_of_ne hnumber] at hnone
      exact .inl (h.settled other hlt hnone)

end Owes

/-! ## Keys in use -/

/-- A table of the keys in use is what it was at the start, except that the outstanding items have
taken the keys that they cover. -/
structure Taken (start current : Key → Option Value) (covers : Item → Key → Prop)
    (outstanding : Nat → Option Item) : Prop where
  taken : ∀ number item key, outstanding number = some item → covers item key →
    (current key).isSome ∧ start key = none
  disjoint : ∀ number number' item item' key, outstanding number = some item →
    outstanding number' = some item' → covers item key → covers item' key → number = number'
  others : ∀ key, (∀ number item, outstanding number = some item → ¬ covers item key) →
    current key = start key

section Taken

variable {start current current' : Key → Option Value} {covers : Item → Key → Prop}
  {outstanding : Nat → Option Item} {item : Item} {number : Nat}

/-- Nothing has been taken. -/
theorem taken_nothing (start : Key → Option Value) (covers : Item → Key → Prop) :
    Taken start start covers fun _ => none where
  taken _ _ _ h := nomatch h
  disjoint _ _ _ _ _ h := nomatch h
  others _ _ := rfl

/-- The keys of a new item were free. -/
theorem Taken.take (h : Taken start current covers outstanding)
    (hfresh : outstanding number = none) (hfree : ∀ key, covers item key → current key = none)
    (hsome : ∀ key, covers item key → (current' key).isSome)
    (hsame : ∀ key, ¬ covers item key → current' key = current key) :
    Taken start current' covers (Function.update outstanding number (some item)) := by
  -- No outstanding item covers a key of the new one.
  have happart : ∀ other other' key, outstanding other = some other' → covers other' key →
      ¬ covers item key := by
    intro other other' key hother hcovers hnew
    have hsome := (h.taken other other' key hother hcovers).1
    rw [hfree key hnew] at hsome
    cases hsome
  refine ⟨fun other other' key hother hcovers => ?_, ?_, fun key hkey => ?_⟩
  · rcases update_some_iff.mp hother with ⟨-, rfl⟩ | ⟨-, hother⟩
    · refine ⟨hsome key hcovers, ?_⟩
      rw [← h.others key fun other other' hother hcovers' =>
        happart other other' key hother hcovers' hcovers, hfree key hcovers]
    · rw [hsame key (happart other other' key hother hcovers)]
      exact h.taken other other' key hother hcovers
  · intro first second item₁ item₂ key hfirst hsecond hcovers₁ hcovers₂
    rcases update_some_iff.mp hfirst with ⟨rfl, rfl⟩ | ⟨-, hold₁⟩ <;>
      rcases update_some_iff.mp hsecond with ⟨rfl, rfl⟩ | ⟨-, hold₂⟩
    · rfl
    · exact absurd hcovers₁ (happart second item₂ key hold₂ hcovers₂)
    · exact absurd hcovers₂ (happart first item₁ key hold₁ hcovers₁)
    · exact h.disjoint first second item₁ item₂ key hold₁ hold₂ hcovers₁ hcovers₂
  · rw [hsame key (hkey number item (Function.update_self ..))]
    refine h.others key fun other other' hother => hkey other other' ?_
    have hnumber : other ≠ number := by
      rintro rfl
      rw [hfresh] at hother
      cases hother
    rw [Function.update_of_ne hnumber, hother]

/-- The keys of an item that is given back are free again. -/
theorem Taken.giveBack (h : Taken start current covers outstanding)
    (hout : outstanding number = some item) (hnone : ∀ key, covers item key → current' key = none)
    (hsame : ∀ key, ¬ covers item key → current' key = current key) :
    Taken start current' covers (Function.update outstanding number none) := by
  refine ⟨fun other other' key hother hcovers => ?_, ?_, fun key hkey => ?_⟩
  · obtain ⟨hnumber, hother⟩ := update_none_iff.mp hother
    rw [hsame key fun hcovers' =>
      hnumber (h.disjoint other number other' item key hother hout hcovers hcovers')]
    exact h.taken other other' key hother hcovers
  · intro first second item₁ item₂ key hfirst hsecond hcovers₁ hcovers₂
    exact h.disjoint first second item₁ item₂ key (update_none_iff.mp hfirst).2
      (update_none_iff.mp hsecond).2 hcovers₁ hcovers₂
  · by_cases hcovers : covers item key
    · rw [hnone key hcovers, (h.taken number item key hout hcovers).2]
    · rw [hsame key hcovers]
      refine h.others key fun other other' hother hcovers' => ?_
      by_cases hnumber : other = number
      · subst hnumber
        obtain rfl := Option.some.inj (hout.symm.trans hother)
        exact hcovers hcovers'
      · exact hkey other other' (by rw [Function.update_of_ne hnumber, hother]) hcovers'

/-- With nothing outstanding the table is what it was at the start. -/
theorem Taken.all_given_back (h : Taken start current covers fun _ => none) : current = start :=
  funext fun key => h.others key fun _ _ hout => nomatch hout

end Taken

end HotPath.Foundation
