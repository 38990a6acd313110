import Mathlib.Algebra.GroupWithZero.Nat
import Mathlib.Data.List.Basic
import Mathlib.Logic.Function.Basic

/-!
# Append-only logs with independent readers

The abstract purpose of a broadcast channel: a list of entries that only grows at its end, and
for each reader the place where it joined and the number of entries it has taken since. A reader
takes the entries after its joining point in order, each of them once.
-/

namespace HotPath.Foundation

/-- A log with the joining point and the progress of every reader. -/
structure AppendLog (Entry Reader : Type*) where
  entries : List Entry
  start : Reader → Nat
  taken : Reader → Nat

namespace AppendLog

variable {Entry Reader : Type*} (log : AppendLog Entry Reader) (reader : Reader) (entry : Entry)

/-- The log without entries. -/
def empty : AppendLog Entry Reader := ⟨[], fun _ => 0, fun _ => 0⟩

/-- Append an entry. -/
def append : AppendLog Entry Reader := { log with entries := log.entries ++ [entry] }

/-- The number of entries that lie behind a reader. -/
def position : Nat := log.start reader + log.taken reader

/-- The entry that a reader takes next, if there is one. -/
def upcoming : Option Entry := log.entries[log.position reader]?

/-- The entries that a reader has taken since it joined. -/
def delivered : List Entry := (log.entries.drop (log.start reader)).take (log.taken reader)

/-- The entries that lie behind a reader. -/
def behind : List Entry := log.entries.take (log.position reader)

/-- No reader is past the end of the log. -/
def WellFormed : Prop := ∀ reader, log.position reader ≤ log.entries.length

variable {log reader entry}

/-- A reader without a next entry has every entry behind it. -/
theorem behind_eq_entries (hnext : log.upcoming reader = none) : log.behind reader = log.entries :=
  List.take_of_length_le (List.getElem?_eq_none_iff.mp hnext)

/-- The next entry comes right after the entries behind the reader. -/
theorem entries_eq_behind (hnext : log.upcoming reader = some entry) :
    ∃ rest, log.entries = log.behind reader ++ entry :: rest := by
  obtain ⟨hlt, hget⟩ := List.getElem?_eq_some_iff.mp hnext
  refine ⟨log.entries.drop (log.position reader + 1), ?_⟩
  rw [behind, ← hget, ← List.drop_eq_getElem_cons hlt, List.take_append_drop]

/-! ## Appending -/

theorem wellFormed_empty : (empty : AppendLog Entry Reader).WellFormed := fun _ => Nat.le_refl _

theorem WellFormed.append (h : log.WellFormed) : (log.append entry).WellFormed := fun reader => by
  have hle := h reader
  simp only [AppendLog.append, AppendLog.position, List.length_append] at hle ⊢
  omega

/-- An appended entry does not change what lies behind a reader. -/
theorem behind_append (h : log.WellFormed) : (log.append entry).behind reader = log.behind reader :=
  List.take_append_of_le_length (h reader)

/-- An appended entry is not delivered to anybody yet. -/
theorem delivered_append (h : log.WellFormed) :
    (log.append entry).delivered reader = log.delivered reader := by
  have hle := h reader
  rw [position] at hle
  simp only [delivered, append]
  rw [List.drop_append_of_le_length (by omega), List.take_append_of_le_length (by simp; omega)]

/-- An appended entry does not replace a next entry. -/
theorem upcoming_append (hnext : log.upcoming reader = some entry) (last : Entry) :
    (log.append last).upcoming reader = some entry := by
  obtain ⟨hlt, -⟩ := List.getElem?_eq_some_iff.mp hnext
  exact (List.getElem?_append_left hlt).trans hnext

/-! ## Joining and taking -/

variable [DecidableEq Reader]

variable (log reader) in
/-- A reader joins at the end of the log. -/
def join : AppendLog Entry Reader :=
  { log with
    start := Function.update log.start reader log.entries.length
    taken := Function.update log.taken reader 0 }

variable (log reader) in
/-- A reader moves past its next entry. -/
def take : AppendLog Entry Reader :=
  { log with taken := Function.update log.taken reader (log.taken reader + 1) }

theorem WellFormed.join (h : log.WellFormed) : (log.join reader).WellFormed := fun other => by
  have hle := h other
  by_cases hother : other = reader
  · subst hother
    simp [AppendLog.join, AppendLog.position]
  · simpa [AppendLog.join, AppendLog.position, hother] using hle

theorem WellFormed.take (h : log.WellFormed) (hnext : log.upcoming reader = some entry) :
    (log.take reader).WellFormed := fun other => by
  have hlt := (List.getElem?_eq_some_iff.mp hnext).1
  have hle := h other
  by_cases hother : other = reader
  · subst hother
    simp only [AppendLog.take, AppendLog.position, Function.update_self] at hlt ⊢
    omega
  · simpa [AppendLog.take, AppendLog.position, hother] using hle

/-- A joining reader has every entry behind it. -/
theorem behind_join : (log.join reader).behind reader = log.entries := by
  simp [behind, join, position]

/-- A reader that takes its next entry puts it behind itself. -/
theorem behind_take (hnext : log.upcoming reader = some entry) :
    (log.take reader).behind reader = log.behind reader ++ [entry] := by
  have hposition : (log.take reader).position reader = log.position reader + 1 := by
    simp [take, position, Nat.add_assoc]
  have hget : (log.take reader).entries[log.position reader]? = some entry := hnext
  rw [behind, hposition, behind]
  exact List.take_add_one.trans (by rw [hget]; rfl)

/-- A reader that joins has taken nothing. -/
theorem delivered_join : (log.join reader).delivered reader = [] := by
  simp [delivered, join]

/-- Taking an entry delivers it. -/
theorem delivered_take (hnext : log.upcoming reader = some entry) :
    (log.take reader).delivered reader = log.delivered reader ++ [entry] := by
  have hget : (log.entries.drop (log.start reader))[log.taken reader]? = some entry := by
    rw [List.getElem?_drop]
    exact hnext
  simp only [delivered, take, Function.update_self]
  exact List.take_add_one.trans (by rw [hget]; rfl)

section Others

variable {other : Reader} (hne : other ≠ reader)
include hne

/-- A reader that joins does not move the others. -/
theorem position_join : (log.join reader).position other = log.position other := by
  simp [join, position, hne]

/-- A reader that takes an entry does not move the others. -/
theorem position_take : (log.take reader).position other = log.position other := by
  simp [take, position, hne]

theorem delivered_join_of_ne : (log.join reader).delivered other = log.delivered other := by
  simp [delivered, join, hne]

theorem delivered_take_of_ne : (log.take reader).delivered other = log.delivered other := by
  simp [delivered, take, hne]

end Others

end AppendLog

end HotPath.Foundation
