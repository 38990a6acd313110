import Mathlib.Data.List.Rotate
import Mathlib.Logic.Function.Iterate

/-!
# Stepping through a list in a circle

A function that leads from every element of a list to the next one, and from the last one to the
first: mapping it over the list rotates the list. Starting at the first element it visits every
element once before it returns.
-/

namespace HotPath.Foundation

variable {α : Type*} {step : α → α} {order : List α}

/-- The function leads from every element to the next one, in a circle. -/
def StepsThrough (step : α → α) (order : List α) : Prop := order.map step = order.rotate 1

namespace StepsThrough

/-- Several steps rotate the list several times. -/
theorem map_iterate (h : StepsThrough step order) (count : Nat) :
    order.map step^[count] = order.rotate count := by
  induction count with
  | zero => simp
  | succ count ih =>
      calc order.map step^[count + 1]
          = (order.map step).map step^[count] := by rw [List.map_map, Function.iterate_succ]
        _ = (order.map step^[count]).rotate 1 := by rw [h, List.map_rotate]
        _ = order.rotate (count + 1) := by rw [ih, List.rotate_rotate]

/-- Where some steps lead from the first element. -/
theorem iterate_head (h : StepsThrough step order) {first : α} (hfirst : order.head? = some first)
    (count : Nat) : (order.rotate count).head? = some (step^[count] first) := by
  rw [← h.map_iterate, List.head?_map, hfirst, Option.map_some]

/-- After as many steps as there are elements, the first one is reached again. -/
theorem returns (h : StepsThrough step order) {first : α} (hfirst : order.head? = some first) :
    step^[order.length] first = first := by
  have hlast := h.iterate_head hfirst order.length
  rw [List.rotate_length, hfirst] at hlast
  exact (Option.some.inj hlast).symm

end StepsThrough

end HotPath.Foundation
