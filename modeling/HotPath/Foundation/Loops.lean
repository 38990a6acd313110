import Mathlib.Data.List.Range

/-!
# Counted loops over arrays

Programs that run counted loops and access arrays. An access outside of an array fails, so a
program that returns makes none. `Returns` is total correctness, and the rules below are about the
ways to put programs together: a loop keeps its invariant if every pass does (`Returns.forLoop`).
-/

namespace HotPath.Foundation

universe u

variable {α β : Type u} {post : α → Prop}

/-- The program returns, and its result satisfies the postcondition. -/
def Returns (program : Option α) (post : α → Prop) : Prop :=
  ∃ value, program = some value ∧ post value

theorem Returns.pure {value : α} (h : post value) : Returns (some value) post :=
  ⟨value, rfl, h⟩

theorem Returns.mono {program : Option α} {post' : α → Prop} (h : Returns program post)
    (hpost : ∀ value, post value → post' value) : Returns program post' := by
  obtain ⟨value, hvalue, hholds⟩ := h
  exact ⟨value, hvalue, hpost value hholds⟩

theorem Returns.bind {program : Option α} {rest : α → Option β} {post' : β → Prop}
    (h : Returns program post) (hrest : ∀ value, post value → Returns (rest value) post') :
    Returns (program >>= rest) post' := by
  obtain ⟨value, rfl, hholds⟩ := h
  exact hrest value hholds

theorem returns_eq_iff {program : Option α} {value : α} :
    Returns program (· = value) ↔ program = some value := by
  simp [Returns]

/-! ## Accesses -/

/-- Read an element. -/
def load (values : List α) (i : Nat) : Option α := values[i]?

/-- Write an element. -/
def store (values : List α) (i : Nat) (value : α) : Option (List α) :=
  if i < values.length then some (values.set i value) else none

theorem Returns.load {values : List α} {i : Nat} (hi : i < values.length) (h : post values[i]) :
    Returns (load values i) post :=
  ⟨values[i], List.getElem?_eq_getElem hi, h⟩

theorem Returns.store {values : List α} {i : Nat} {value : α} {post : List α → Prop}
    (hi : i < values.length) (h : post (values.set i value)) :
    Returns (store values i value) post :=
  ⟨_, if_pos hi, h⟩

theorem Returns.read {values : List α} {i : Nat} {value : α} (h : values[i]? = some value) :
    Returns (Foundation.load values i) (· = value) :=
  ⟨value, h, rfl⟩

theorem Returns.load_getD {values : List α} {i size : Nat} (default : α)
    (hsize : values.length = size) (hi : i < size) :
    Returns (Foundation.load values i) (· = values.getD i default) := by
  refine .load (by omega) ?_
  rw [List.getD_eq_getElem?_getD, List.getElem?_eq_getElem (by omega), Option.getD_some]

theorem length_of_store {values values' : List α} {i : Nat} {value : α}
    (h : store values i value = some values') : values'.length = values.length := by
  obtain ⟨_, hvalues⟩ := Option.ite_none_right_eq_some.mp h
  rw [← Option.some.inj hvalues, List.length_set]

/-- An array whose element is written and put back. -/
theorem set_back {values : List α} {i : Nat} {value : α} (h : values[i]? = some value)
    (other : α) : (values.set i other).set i value = values := by
  obtain ⟨hi, rfl⟩ := List.getElem?_eq_some_iff.mp h
  rw [List.set_set, List.set_getElem_self]

/-! ## Loops -/

/-- The indices of `for (i = start; i < limit; i += stride)`. -/
def forIndices (start limit stride : Nat) : List Nat :=
  List.range' start ((limit - start + (stride - 1)) / stride) stride

theorem forIndices_of_le {start limit stride : Nat} (hstride : 0 < stride) (h : limit ≤ start) :
    forIndices start limit stride = [] := by
  have hnone : (limit - start + (stride - 1)) / stride = 0 :=
    Nat.div_eq_of_lt (by omega)
  rw [forIndices, hnone, List.range'_zero]

theorem forIndices_of_lt {start limit stride : Nat} (hstride : 0 < stride) (h : start < limit) :
    forIndices start limit stride = start :: forIndices (start + stride) limit stride := by
  have hpasses : (limit - start + (stride - 1)) / stride =
      (limit - (start + stride) + (stride - 1)) / stride + 1 := by
    by_cases hmore : start + stride ≤ limit
    · rw [← Nat.add_div_right _ hstride]
      congr 1
      omega
    · rw [Nat.div_eq_of_lt (a := limit - (start + stride) + (stride - 1)) (by omega)]
      exact Nat.div_eq_of_lt_le (by omega) (by omega)
  rw [forIndices, hpasses, List.range'_succ, forIndices]

/-- The loop over these indices. -/
def forLoop (start limit stride : Nat) (init : α) (body : Nat → α → Option α) : Option α :=
  (forIndices start limit stride).foldlM (fun state i => body i state) init

/-- A loop that reaches its limit exactly keeps an invariant that every pass moves on by a
stride. -/
theorem Returns.forLoop {start limit stride : Nat} {init : α} {body : Nat → α → Option α}
    (inv : Nat → α → Prop) (hstride : 0 < stride) (hle : start ≤ limit)
    (hdvd : stride ∣ limit - start) (hinit : inv start init)
    (hstep : ∀ i state, start ≤ i → i + stride ≤ limit → stride ∣ i - start → inv i state →
      Returns (body i state) (inv (i + stride))) :
    Returns (forLoop start limit stride init body) (inv limit) := by
  obtain ⟨passes, hpasses⟩ := hdvd
  induction passes generalizing start init with
  | zero =>
      obtain rfl : start = limit := by omega
      rw [Foundation.forLoop, forIndices_of_le hstride (Nat.le_refl _)]
      exact .pure hinit
  | succ passes ih =>
      rw [Nat.mul_succ] at hpasses
      rw [Foundation.forLoop, forIndices_of_lt hstride (by omega), List.foldlM_cons]
      refine .bind (hstep start init (Nat.le_refl _) (by omega) (by simp) hinit)
        fun state hstate => ?_
      refine ih (by omega) hstate (fun i state' hi hlimit hdvd hinv => ?_) (by omega)
      refine hstep i state' (by omega) hlimit ?_ hinv
      have hsplit : i - start = i - (start + stride) + stride := by omega
      rw [hsplit]
      exact Nat.dvd_add_self_right.mpr hdvd

/-- A loop over every index keeps an invariant that every pass moves on by one. -/
theorem Returns.forEach {start limit : Nat} {init : α} {body : Nat → α → Option α}
    (inv : Nat → α → Prop) (hle : start ≤ limit) (hinit : inv start init)
    (hstep : ∀ i state, start ≤ i → i < limit → inv i state →
      Returns (body i state) (inv (i + 1))) :
    Returns (Foundation.forLoop start limit 1 init body) (inv limit) :=
  .forLoop inv Nat.one_pos hle (Nat.one_dvd _) hinit fun i state hi hlimit _ =>
    hstep i state hi hlimit

theorem mem_forIndices {start limit stride i : Nat} (hstride : 0 < stride) (hi : start ≤ i)
    (hlimit : i < limit) (hdvd : stride ∣ i - start) : i ∈ forIndices start limit stride := by
  obtain ⟨pass, hpass⟩ := hdvd
  have hi : i = start + stride * pass := by omega
  refine List.mem_range'.mpr ⟨pass, ?_, hi⟩
  rw [Nat.lt_div_iff_mul_lt hstride]
  rw [Nat.mul_comm] at hpass
  omega

/-- A loop fails if one of its passes fails from every state. -/
theorem forLoop_eq_none {start limit stride i : Nat} {init : α} {body : Nat → α → Option α}
    (hi : i ∈ forIndices start limit stride) (hbody : ∀ state, body i state = none) :
    forLoop start limit stride init body = none := by
  unfold forLoop
  generalize forIndices start limit stride = indices at hi
  induction indices generalizing init with
  | nil => simp at hi
  | cons j rest ih =>
      rw [List.foldlM_cons]
      obtain rfl | hrest := List.mem_cons.mp hi
      · rw [hbody]
        rfl
      · cases body j init with
        | none => rfl
        | some state => exact ih hrest

/-- What every pass keeps holds at the end, if the loop comes there. -/
theorem forLoop_keeps {start limit stride : Nat} {init result : α} {body : Nat → α → Option α}
    (keeps : α → Prop) (hinit : keeps init)
    (hbody : ∀ i state state', body i state = some state' → keeps state → keeps state')
    (h : forLoop start limit stride init body = some result) : keeps result := by
  unfold forLoop at h
  generalize forIndices start limit stride = indices at h
  induction indices generalizing init with
  | nil =>
      obtain rfl : init = result := Option.some.inj h
      exact hinit
  | cons i rest ih =>
      rw [List.foldlM_cons] at h
      obtain ⟨state, hstate, hrest⟩ := Option.bind_eq_some_iff.mp h
      exact ih (hbody i init state hstate hinit) hrest

/-- The last index of a loop that begins at zero. -/
theorem last_index {stride limit : Nat} (hstride : 0 < stride) (hlimit : 0 < limit) :
    (limit - 1) / stride * stride < limit ∧ limit ≤ (limit - 1) / stride * stride + stride := by
  have hsplit := Nat.div_add_mod' (limit - 1) stride
  have hrest := Nat.mod_lt (limit - 1) hstride
  omega

theorem dvd_of_last_index {stride limit : Nat} (hstride : 0 < stride) (hlimit : 0 < limit)
    (h : (limit - 1) / stride * stride + stride ≤ limit) : stride ∣ limit := by
  have hlast := last_index hstride hlimit
  have heq : limit = ((limit - 1) / stride + 1) * stride := by
    rw [Nat.succ_mul]
    omega
  exact heq ▸ Nat.dvd_mul_left _ _

/-! ## Matrices, row by row -/

theorem place_div {cols row col : Nat} (h : col < cols) : (row * cols + col) / cols = row := by
  rw [Nat.mul_comm, Nat.mul_add_div (by omega), Nat.div_eq_of_lt h, Nat.add_zero]

/-- Different rows or columns are different places. -/
theorem place_inj {cols row col row' col' : Nat} (h : col < cols) (h' : col' < cols) :
    row * cols + col = row' * cols + col' ↔ row = row' ∧ col = col' := by
  constructor
  · intro heq
    refine ⟨?_, ?_⟩
    · have hdiv := @place_div cols row' col' h'
      rwa [← heq, place_div h] at hdiv
    · rw [← Nat.mul_add_mod_of_lt (a := row) h, heq, Nat.mul_add_mod_of_lt h']
  · rintro ⟨rfl, rfl⟩
    rfl

/-- A place in a matrix is in its array. -/
theorem place_lt {rows cols row col : Nat} (hrow : row < rows) (hcol : col < cols) :
    row * cols + col < rows * cols := by
  calc row * cols + col < (row + 1) * cols := by rw [Nat.succ_mul]; omega
    _ ≤ rows * cols := Nat.mul_le_mul_right cols hrow

/-! ## Arrays that are filled in order -/

/-- The array holds new values before an index, and old ones from there on. -/
structure FilledTo (new old : Nat → α) (size bound : Nat) (values : List α) : Prop where
  length_eq : values.length = size
  getElem?_eq : ∀ i < size, values[i]? = some (if i < bound then new i else old i)

namespace FilledTo

variable {new old : Nat → α} {size bound : Nat} {values : List α}

/-- At first all values are old. -/
theorem start (values : List α) (default : α) :
    FilledTo new (fun i => values.getD i default) values.length 0 values :=
  ⟨rfl, fun i hi => by simp [hi]⟩

theorem new_eq (h : FilledTo new old size bound values) {i : Nat} (hi : i < bound)
    (hsize : i < size) : values[i]? = some (new i) := by
  rw [h.getElem?_eq i hsize, if_pos hi]

/-- The next new value is written. -/
theorem store (h : FilledTo new old size bound values) {value : α} (hbound : bound < size)
    (hvalue : value = new bound) :
    Returns (Foundation.store values bound value) (FilledTo new old size (bound + 1)) := by
  have hlength := h.length_eq
  refine .store (by omega) ⟨by rw [List.length_set, hlength], fun i hi => ?_⟩
  by_cases heq : i = bound
  · subst heq
    rw [List.getElem?_set_self (by omega), if_pos (Nat.lt_succ_self i), hvalue]
  · rw [List.getElem?_set_ne (Ne.symm heq), h.getElem?_eq i hi]
    have hiff : i < bound ↔ i < bound + 1 := by omega
    simp only [hiff]

/-- Values that are not written are new if they were so before. -/
theorem skip (h : FilledTo new old size bound values) {bound' : Nat} (hle : bound ≤ bound')
    (hsame : ∀ i, bound ≤ i → i < bound' → new i = old i) :
    FilledTo new old size bound' values := by
  refine ⟨h.length_eq, fun i hi => ?_⟩
  rw [h.getElem?_eq i hi]
  by_cases hlt : i < bound
  · rw [if_pos hlt, if_pos (by omega)]
  · by_cases hlt' : i < bound'
    · rw [if_neg hlt, if_pos hlt', hsame i (by omega) hlt']
    · rw [if_neg hlt, if_neg hlt']

/-- An array whose values are all new. -/
theorem eq_map (h : FilledTo new old size size values) : values = (List.range size).map new := by
  refine List.ext_getElem? fun i => ?_
  by_cases hi : i < size
  · rw [h.new_eq hi hi, List.getElem?_map, List.getElem?_range hi, Option.map_some]
  · have hlength := h.length_eq
    rw [List.getElem?_eq_none (by omega), List.getElem?_eq_none (by simpa using hi)]

end FilledTo

end HotPath.Foundation
