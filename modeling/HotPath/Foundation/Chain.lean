import Mathlib.Data.List.Nodup
import Mathlib.Data.List.Perm.Subperm

/-!
# Null-terminated chains of pointers

A singly linked list in memory, seen from its `next` pointers: `IsChain next start nodes` says
that following the pointers from `start` visits exactly the given nodes and ends at a null
pointer. A chain is determined by its start (`IsChain.unique`), visits no node twice
(`IsChain.nodup`), and only depends on the pointers of its own nodes (`IsChain.congr`).

A store to one pointer replaces what follows it (`IsChain.relink`).
-/

namespace HotPath.Foundation

variable {Id : Type*} {next other : Id → Option Id} {start : Option Id} {nodes rest : List Id}
  {node : Id}

/-- Following `next` from `start` visits the nodes in order and then ends. -/
def IsChain (next : Id → Option Id) : Option Id → List Id → Prop
  | start, [] => start = none
  | start, node :: rest => start = some node ∧ IsChain next (next node) rest

@[simp] theorem isChain_nil : IsChain next start [] ↔ start = none := Iff.rfl

@[simp] theorem isChain_cons :
    IsChain next start (node :: rest) ↔ start = some node ∧ IsChain next (next node) rest :=
  Iff.rfl

/-- A chain from a node starts with that node. -/
theorem IsChain.of_some (h : IsChain next (some node) nodes) :
    ∃ rest, nodes = node :: rest ∧ IsChain next (next node) rest := by
  cases nodes with
  | nil => simp at h
  | cons head rest =>
      obtain ⟨hhead, hrest⟩ := h
      obtain rfl := Option.some.inj hhead
      exact ⟨rest, rfl, hrest⟩

/-- A chain from a null pointer is empty. -/
theorem IsChain.of_none (h : IsChain next none nodes) : nodes = [] := by
  cases nodes with
  | nil => rfl
  | cons head rest => simp at h

/-- The start determines the nodes. -/
theorem IsChain.unique {nodes' : List Id} (h : IsChain next start nodes)
    (h' : IsChain next start nodes') : nodes = nodes' := by
  induction nodes generalizing start nodes' with
  | nil =>
      obtain rfl : start = none := h
      exact h'.of_none.symm
  | cons node rest ih =>
      obtain ⟨rfl, hrest⟩ := h
      obtain ⟨rest', rfl, hrest'⟩ := h'.of_some
      rw [ih hrest hrest']

/-- A chain starts at its first node. -/
theorem IsChain.head_eq (h : IsChain next start nodes) : start = nodes.head? := by
  cases nodes with
  | nil => exact h
  | cons node rest => exact h.1

/-- The part of a chain from one of its nodes on is a chain. -/
theorem IsChain.suffix {before : List Id} (h : IsChain next start (before ++ node :: rest)) :
    IsChain next (some node) (node :: rest) := by
  induction before generalizing start with
  | nil => exact ⟨rfl, h.2⟩
  | cons head before ih => exact ih h.2

/-- No node occurs twice. -/
theorem IsChain.nodup (h : IsChain next start nodes) : nodes.Nodup := by
  induction nodes generalizing start with
  | nil => exact List.nodup_nil
  | cons node rest ih =>
      refine List.nodup_cons.mpr ⟨fun hmem => ?_, ih h.2⟩
      -- The chain would continue from the second occurrence as it does from the first.
      obtain ⟨before, after, rfl⟩ := List.append_of_mem hmem
      have hfirst : IsChain next (some node) (node :: (before ++ node :: after)) := ⟨rfl, h.2⟩
      have hsecond := IsChain.suffix h.2
      have hlength := congrArg List.length (hfirst.unique hsecond)
      simp only [List.length_cons, List.length_append] at hlength
      omega

/-- Only the pointers of the nodes of a chain matter to it. -/
theorem IsChain.congr (h : IsChain next start nodes)
    (hsame : ∀ node ∈ nodes, other node = next node) : IsChain other start nodes := by
  induction nodes generalizing start with
  | nil => exact h
  | cons node rest ih =>
      refine ⟨h.1, ?_⟩
      rw [hsame node (List.mem_cons_self ..)]
      exact ih h.2 fun other hother => hsame other (List.mem_cons_of_mem _ hother)

/-- The successor of a node of a chain is the next node of the chain. -/
theorem IsChain.next_mem {successor : Id} (h : IsChain next start nodes) (hmem : node ∈ nodes)
    (hnext : next node = some successor) : successor ∈ nodes := by
  induction nodes generalizing start with
  | nil => simp at hmem
  | cons head rest ih =>
      rcases List.mem_cons.mp hmem with rfl | hrest
      · have htail := h.2
        rw [hnext] at htail
        obtain ⟨_, rfl, -⟩ := htail.of_some
        exact List.mem_cons_of_mem _ (List.mem_cons_self ..)
      · exact List.mem_cons_of_mem _ (ih h.2 hrest)

/-- The successor of a node of a chain comes right behind it. -/
theorem IsChain.idxOf_next [DecidableEq Id] {successor : Id} (h : IsChain next start nodes)
    (hmem : node ∈ nodes) (hnext : next node = some successor) :
    nodes.idxOf successor = nodes.idxOf node + 1 := by
  obtain ⟨before, after, rfl⟩ := List.append_of_mem hmem
  have hafter := h.suffix.2
  rw [hnext] at hafter
  obtain ⟨rest, rfl, -⟩ := hafter.of_some
  have hnodup := h.nodup
  rw [List.nodup_append, List.nodup_cons] at hnodup
  obtain ⟨-, ⟨hne, -⟩, hbefore⟩ := hnodup
  have hnode : node ∉ before := fun hin => hbefore node hin node (by simp) rfl
  have hsuccessor : successor ∉ before := fun hin => hbefore successor hin successor (by simp) rfl
  rw [List.idxOf_append_of_notMem hnode, List.idxOf_append_of_notMem hsuccessor,
    List.idxOf_cons_self, List.idxOf_cons_ne _ (by rintro rfl; simp at hne), List.idxOf_cons_self]

/-- A pointer behind the nodes `before` is redirected: what follows is replaced. The pointer is
the start if there are no such nodes. -/
theorem IsChain.relink {before behind : List Id} {start' : Option Id}
    (h : IsChain next start (before ++ rest)) (hbehind : IsChain other behind.head? behind)
    (hlast : ∀ node, before.getLast? = some node → other node = behind.head?)
    (hkeep : ∀ node ∈ before, before.getLast? ≠ some node → other node = next node)
    (hstart : start' = if before = [] then behind.head? else start) :
    IsChain other start' (before ++ behind) := by
  induction before generalizing start start' with
  | nil => simpa [hstart] using hbehind
  | cons head before ih =>
      have hnodup := h.nodup
      rw [List.cons_append, List.nodup_cons] at hnodup
      have hgetLast : ∀ node ∈ before, before.getLast? = some node →
          (head :: before).getLast? = some node := by
        intro node _ hnode
        simp [List.getLast?_cons, hnode]
      refine ⟨hstart.trans (by simpa using h.1), ih h.2 ?_ ?_ ?_⟩
      · exact fun node hnode => hlast node (hgetLast node (List.mem_of_getLast? hnode) hnode)
      · intro node hmem hne
        refine hkeep node (List.mem_cons_of_mem _ hmem) fun hlast' => hne ?_
        cases hlast'' : before.getLast? with
        | none => simp [List.getLast?_eq_none_iff.mp hlast''] at hmem
        | some last => simpa [List.getLast?_cons, hlast''] using hlast'
      · cases before with
        | nil => simpa using hlast head (by simp)
        | cons second before =>
            rw [if_neg (List.cons_ne_nil _ _)]
            refine hkeep head (List.mem_cons_self ..) fun hlast' => hnodup.1 ?_
            rw [List.getLast?_cons_cons] at hlast'
            exact List.mem_append_left _ (List.mem_of_getLast? hlast')

/-- A chain of allocated nodes has at most as many nodes as were allocated. -/
theorem IsChain.length_le {next : Nat → Option Nat} {start : Option Nat} {nodes : List Nat}
    {bound : Nat} (h : IsChain next start nodes) (hlt : ∀ node ∈ nodes, node < bound) :
    nodes.length ≤ bound := by
  have hsub : nodes ⊆ List.range bound := fun node hnode => List.mem_range.mpr (hlt node hnode)
  simpa using (List.subperm_of_subset h.nodup hsub).length_le

end HotPath.Foundation
