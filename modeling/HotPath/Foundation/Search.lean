import HotPath.Foundation.Chain

/-!
# Searching along pointers

`Search next hit start found` follows the pointers from `start` to the first node with the property
`hit`, or to a null pointer. It ends, since it is a finite derivation. Along a chain it finds what
`List.find?` finds (`Search.of_chain`).

`Search.relink` says how the result changes when pointers are redirected in front of a search that
is under way: it is enough to look at the nodes whose pointer has changed.
-/

namespace HotPath.Foundation

variable {Id : Type*} {next next' : Id → Option Id} {hit hit' : Id → Prop}
  {start found : Option Id}

/-- The first node from `start` on that is hit, or null. -/
inductive Search (next : Id → Option Id) (hit : Id → Prop) : Option Id → Option Id → Prop where
  | miss : Search next hit none none
  | found {node : Id} : hit node → Search next hit (some node) (some node)
  | step {node : Id} {found : Option Id} :
      ¬ hit node → Search next hit (next node) found → Search next hit (some node) found

/-- A search has one result. -/
theorem Search.unique {other : Option Id} (h : Search next hit start found)
    (h' : Search next hit start other) : found = other := by
  induction h with
  | miss =>
      cases h' with
      | miss => rfl
  | found hhit =>
      cases h' with
      | found => rfl
      | step hmiss => exact absurd hhit hmiss
  | step hmiss _ ih =>
      cases h' with
      | found hhit => exact absurd hhit hmiss
      | step _ hrest => exact ih hrest

/-- Behind a node that is not hit the search goes on. -/
theorem Search.tail {node : Id} (h : Search next hit (some node) found) (hmiss : ¬ hit node) :
    Search next hit (next node) found := by
  cases h with
  | found hhit => exact absurd hhit hmiss
  | step _ hrest => exact hrest

/-- A search ends at the node that is hit. -/
theorem Search.head {node : Id} (h : Search next hit (some node) found) (hhit : hit node) :
    found = some node :=
  h.unique (.found hhit)

/-- Along a chain the search finds the first node of the list that is hit. -/
theorem Search.of_chain [DecidablePred hit] {nodes : List Id} (h : IsChain next start nodes) :
    Search next hit start (nodes.find? fun node => hit node) := by
  induction nodes generalizing start with
  | nil =>
      obtain rfl : start = none := h
      exact .miss
  | cons node rest ih =>
      obtain ⟨rfl, hrest⟩ := h
      by_cases hhit : hit node
      · rw [List.find?_cons_of_pos (by simpa using hhit)]
        exact .found hhit
      · rw [List.find?_cons_of_neg (by simpa using hhit)]
        exact .step hhit (ih hrest)

/-- What a search finds lies inside every set of nodes that is closed under the pointers. -/
theorem Search.inside {inside : Id → Prop} (h : Search next hit start found)
    (hstart : ∀ node, start = some node → inside node)
    (hclosed : ∀ node successor, inside node → next node = some successor → inside successor) :
    ∀ node, found = some node → inside node := by
  induction h with
  | miss => exact fun _ heq => by cases heq
  | found => exact hstart
  | step _ _ ih => exact ih fun successor heq => hclosed _ successor (hstart _ rfl) heq

/-- Pointers of the nodes of a closed set are redirected. The search still ends with a good result
if it does behind each of these nodes. -/
theorem Search.relink {inside : Id → Prop} (h : Search next hit start found)
    (good : Option Id → Prop) (hgood : good found)
    (hstart : ∀ node, start = some node → inside node)
    (hclosed : ∀ node successor, inside node → next node = some successor → inside successor)
    (hsame : ∀ node, inside node → (hit' node ↔ hit node))
    (hchanged : ∀ node found, inside node → next' node ≠ next node →
      Search next hit (next node) found → good found →
      ∃ found', Search next' hit' (next' node) found' ∧ good found') :
    ∃ found', Search next' hit' start found' ∧ good found' := by
  induction h with
  | miss => exact ⟨none, .miss, hgood⟩
  | @found node hhit => exact ⟨some node, .found ((hsame node (hstart node rfl)).mpr hhit), hgood⟩
  | @step node found hmiss hrest ih =>
      have hinside := hstart node rfl
      have hmiss' : ¬ hit' node := fun hhit => hmiss ((hsame node hinside).mp hhit)
      by_cases hnext : next' node = next node
      · obtain ⟨found', hfound, hgood'⟩ :=
          ih hgood fun successor heq => hclosed node successor hinside heq
        exact ⟨found', .step hmiss' (hnext ▸ hfound), hgood'⟩
      · obtain ⟨found', hfound, hgood'⟩ := hchanged node found hinside hnext hrest hgood
        exact ⟨found', .step hmiss' hfound, hgood'⟩

end HotPath.Foundation
