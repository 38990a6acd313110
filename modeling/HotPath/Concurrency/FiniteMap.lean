import HotPath.Concurrency.Representation
import Mathlib.Data.Set.Card

/-!
# The hash map is a finite map

The abstract side knows calls only: a key is present after some calls if the last `Put` of it was
not followed by a `Remove` of it (`LastPut`). `refines_finite_map` says that a single caller sees
exactly this, for every hash function and every sequence of calls, and that the shape of the
chains survives every call and every `Resize`.
-/

namespace HotPath.Concurrency

open HotPath.Foundation

variable {K V : Type}

/-! ## Histories of calls -/

/-- The call writes the key. -/
def MapOp.Writes (key : K) : MapOp K V → Prop
  | .put other _ | .remove other => other = key
  | _ => False

/-- The last `Put` of the key stored the value and no `Remove` of the key followed. -/
def LastPut (ops : List (MapOp K V)) (key : K) (value : V) : Prop :=
  ∃ before after, ops = before ++ .put key value :: after ∧ ∀ op ∈ after, ¬ op.Writes key

/-- The key is present after the calls. -/
def Present (ops : List (MapOp K V)) (key : K) : Prop := ∃ value, LastPut ops key value

/-- What a call returns after the calls before it. -/
def Returns (before : List (MapOp K V)) : MapOp K V → MapResult V → Prop
  | .put _ _, result => result = .done
  | .remove key, result => ∃ found, result = .removed found ∧ (found = true ↔ Present before key)
  | .get key, result => ∃ value, result = .value value ∧ ∀ v, value = some v ↔ LastPut before key v
  | .size, result => result = .size {key | Present before key}.ncard

/-- The chains of the current table: the nodes of each have pairwise distinct keys that hash to
the bucket. -/
def WellShaped (cfg : MapConfig K) (map : RcuHashMap K V) : Prop :=
  ∀ i < map.tableSize, ∃ chain,
    IsChain map.next ((map.tables map.table).buckets i) chain ∧
    (chain.map fun node => (map.entry node).1).Nodup ∧
    ∀ node ∈ chain, (cfg.hash (map.entry node).1).toNat % map.tableSize = i

section History

variable [DecidableEq K]

/-- A call takes effect on the contents. -/
def MapOp.apply (contents : K → Option V) : MapOp K V → K → Option V
  | .put key value => Function.update contents key (some value)
  | .remove key => Function.update contents key none
  | _ => contents

/-- The contents after some calls. -/
def contentsAfter (ops : List (MapOp K V)) : K → Option V :=
  ops.foldl MapOp.apply fun _ => none

theorem contentsAfter_append (ops : List (MapOp K V)) (op : MapOp K V) :
    contentsAfter (ops ++ [op]) = op.apply (contentsAfter ops) := by
  simp [contentsAfter]

omit [DecidableEq K] in
/-- A call that does not write the key changes nothing for it. -/
theorem lastPut_append_of_not_writes {ops : List (MapOp K V)} {op : MapOp K V} {key : K}
    {value : V} (h : ¬ op.Writes key) :
    LastPut (ops ++ [op]) key value ↔ LastPut ops key value := by
  constructor
  · rintro ⟨before, after, hops, hafter⟩
    rcases after.eq_nil_or_concat with rfl | ⟨rest, last, rfl⟩
    · have hlast := (List.append_inj' hops rfl).2
      obtain rfl : op = .put key value := by simpa using hlast
      exact absurd rfl h
    · rw [List.concat_eq_append, ← List.cons_append, ← List.append_assoc] at hops
      obtain ⟨rfl, -⟩ := List.append_inj' hops rfl
      exact ⟨before, rest, rfl, fun op hop => hafter op (by simp [hop])⟩
  · rintro ⟨before, after, rfl, hafter⟩
    refine ⟨before, after ++ [op], by simp, fun other hother => ?_⟩
    rcases List.mem_append.mp hother with hother | hother
    · exact hafter other hother
    · obtain rfl := List.mem_singleton.mp hother
      exact h

omit [DecidableEq K] in
/-- A call that writes the key decides. -/
theorem lastPut_append_of_writes {ops : List (MapOp K V)} {op : MapOp K V} {key : K}
    {value : V} (h : op.Writes key) :
    LastPut (ops ++ [op]) key value ↔ op = .put key value := by
  constructor
  · rintro ⟨before, after, hops, hafter⟩
    rcases after.eq_nil_or_concat with rfl | ⟨rest, last, rfl⟩
    · have hlast := (List.append_inj' hops rfl).2
      simpa using hlast
    · rw [List.concat_eq_append, ← List.cons_append, ← List.append_assoc] at hops
      have hlast := (List.append_inj' hops rfl).2
      obtain rfl : op = last := by simpa using hlast
      exact absurd h (hafter op (by simp))
  · rintro rfl
    exact ⟨ops, [], rfl, by simp⟩

/-- The contents are the last values put. -/
theorem contentsAfter_eq_some (ops : List (MapOp K V)) (key : K) (value : V) :
    contentsAfter ops key = some value ↔ LastPut ops key value := by
  induction ops using List.reverseRecOn with
  | nil => simp [contentsAfter, LastPut]
  | append_singleton ops op ih =>
      rw [contentsAfter_append]
      cases op with
      | put other stored =>
          by_cases h : other = key
          · have hwrites : (MapOp.put other stored : MapOp K V).Writes key := h
            rw [lastPut_append_of_writes hwrites]
            simp [MapOp.apply, h]
          · have hwrites : ¬ (MapOp.put other stored : MapOp K V).Writes key := h
            rw [lastPut_append_of_not_writes hwrites, ← ih]
            simp [MapOp.apply, Function.update_of_ne (Ne.symm h)]
      | remove other =>
          by_cases h : other = key
          · have hwrites : (MapOp.remove other : MapOp K V).Writes key := h
            rw [lastPut_append_of_writes hwrites]
            simp [MapOp.apply, h]
          · have hwrites : ¬ (MapOp.remove other : MapOp K V).Writes key := h
            rw [lastPut_append_of_not_writes hwrites, ← ih]
            simp [MapOp.apply, Function.update_of_ne (Ne.symm h)]
      | get other =>
          rw [lastPut_append_of_not_writes id, ← ih]
          rfl
      | size =>
          rw [lastPut_append_of_not_writes id, ← ih]
          rfl

/-- A key is present if the contents have a value for it. -/
theorem contentsAfter_ne_none (ops : List (MapOp K V)) (key : K) :
    contentsAfter ops key ≠ none ↔ Present ops key := by
  rw [Option.ne_none_iff_exists']
  exact exists_congr fun value => contentsAfter_eq_some ops key value

end History

/-! ## One caller -/

/-- Between two calls the table represents the contents, and the counter counts them. -/
structure MapInv (cfg : MapConfig K) (map : RcuHashMap K V) (contents : K → Option V) : Prop where
  represents : ∃ chains, Represents cfg map chains contents
  finite : {key | contents key ≠ none}.Finite
  counted : map.count = {key | contents key ≠ none}.ncard
  fits : map.count ≤ map.tableSize

section Calls

variable {cfg : MapConfig K} {map : RcuHashMap K V} {contents : K → Option V}

/-- The constructor makes an empty map. -/
theorem MapInv.create (cfg : MapConfig K) (memory : NodeId → MapNode K V) :
    MapInv cfg (RcuHashMap.create cfg memory) fun _ => none := by
  refine ⟨⟨fun _ => [], ?_⟩, by simp, by simp [RcuHashMap.create], Nat.zero_le _⟩
  exact ⟨cfg.initialBuckets_pos, Nat.zero_lt_one, fun _ _ => rfl, by simp, by simp, by simp,
    by simp, by simp⟩

/-- The shape that the invariant describes. -/
theorem MapInv.wellShaped (h : MapInv cfg map contents) : WellShaped cfg map := by
  obtain ⟨chains, hrep⟩ := h.represents
  exact fun i hi => ⟨chains i, hrep.chain i hi, hrep.distinct i hi, hrep.hashed i hi⟩

/-- A counter does not matter to the representation. -/
theorem Represents.count_irrelevant {chains : Nat → List NodeId} {map' : RcuHashMap K V}
    (h : Represents cfg map chains contents) (hnodes : map'.nodes = map.nodes)
    (hnodeCount : map'.nodeCount = map.nodeCount) (htables : map'.tables = map.tables)
    (htableCount : map'.tableCount = map.tableCount) (htable : map'.table = map.table) :
    Represents cfg map' chains contents := by
  obtain ⟨nodes, nodeCount, tables, tableCount, table, count, generation⟩ := map
  obtain ⟨nodes', nodeCount', tables', tableCount', table', count', generation'⟩ := map'
  dsimp only at hnodes hnodeCount htables htableCount htable
  subst hnodes hnodeCount htables htableCount htable
  exact ⟨h.size_pos, h.table_lt, h.chain, h.allocated, h.hashed, h.distinct, h.even, h.holds⟩

/-- `Resize` to a table that is not smaller keeps the contents and the count. -/
theorem MapInv.resize [DecidableEq K] (h : MapInv cfg map contents) (newSize : Nat)
    (hsize : 0 < newSize) (hfits : map.count ≤ newSize) :
    ∃ resized, map.resize cfg newSize = some resized ∧ MapInv cfg resized contents ∧
      resized.tableSize = newSize ∧ resized.count = map.count := by
  obtain ⟨chains, hrep⟩ := h.represents
  obtain ⟨built, newChains, copied, hbuilt, hcopying, hnew⟩ := hrep.build hsize
  have htableSize : (built.publish map.tableCount).tableSize = newSize := hcopying.size
  refine ⟨built.publish map.tableCount, by rw [RcuHashMap.resize, hbuilt, Option.map_some],
    ⟨⟨newChains, hnew⟩, h.finite, ?_, ?_⟩, htableSize, hcopying.count⟩
  · exact hcopying.count.trans h.counted
  · rw [htableSize]
    exact hcopying.count ▸ hfits

/-- After the first part of `Put` there is room for one more key. -/
theorem MapInv.grow [DecidableEq K] (h : MapInv cfg map contents) :
    ∃ grown, map.grow cfg = some grown ∧ MapInv cfg grown contents ∧
      grown.count < grown.tableSize := by
  obtain ⟨chains, hrep⟩ := h.represents
  have hpos := hrep.size_pos
  have hfits := h.fits
  unfold RcuHashMap.grow RcuHashMap.isFull
  by_cases hfull : map.count ≥ map.tableSize
  · rw [decide_eq_true hfull, if_pos rfl]
    obtain ⟨resized, hresize, hinv, hsize, hcount⟩ :=
      h.resize (map.tableSize * 2) (by omega) (by omega)
    exact ⟨resized, hresize, hinv, by omega⟩
  · rw [decide_eq_false hfull, if_neg Bool.false_ne_true]
    exact ⟨map, rfl, h, by omega⟩

/-- `Put` adds or updates the key. -/
theorem MapInv.put [DecidableEq K] (h : MapInv cfg map contents) (key : K) (value : V) :
    ∃ map', map.put cfg key value = some map' ∧
      MapInv cfg map' (Function.update contents key (some value)) := by
  obtain ⟨grown, hgrow, ⟨⟨chains, hrep⟩, hfinite, hcounted, hfits⟩, hroom⟩ := h.grow
  obtain ⟨linked, replaced, before, old, behind, hlinkPut, hput, hreplaced, hrep'⟩ :=
    hrep.linkPut key value
  have hpresent : {other | Function.update contents key (some value) other ≠ none} =
      insert key {other | contents other ≠ none} := by
    ext other
    by_cases heq : other = key
    · simp [heq]
    · simp [heq]
  have hsize := hput.link.tableSize_eq
  have hcount := hput.link.count
  unfold RcuHashMap.put
  rw [hgrow, Option.bind_some, hlinkPut, Option.map_some]
  cases replaced with
  | some current =>
      have hmem : key ∈ {other | contents other ≠ none} := fun hnone => by
        simpa using hreplaced.mpr hnone
      refine ⟨_, rfl, ⟨_, hrep'.count_irrelevant rfl rfl rfl rfl rfl⟩, ?_, ?_, ?_⟩
      · rw [hpresent]
        exact hfinite.insert key
      · rw [hpresent, Set.insert_eq_of_mem hmem]
        exact hcount.trans hcounted
      · change linked.count ≤ linked.tableSize
        omega
  | none =>
      have hmem : key ∉ {other | contents other ≠ none} := fun hne => hne (hreplaced.mp rfl)
      refine ⟨_, rfl, ⟨_, hrep'.count_irrelevant rfl rfl rfl rfl rfl⟩, ?_, ?_, ?_⟩
      · rw [hpresent]
        exact hfinite.insert key
      · rw [hpresent, Set.ncard_insert_of_notMem hmem hfinite, ← hcounted, ← hcount]
        rfl
      · change linked.count + 1 ≤ linked.tableSize
        omega

/-- `Remove` takes the key away and says whether it was there. -/
theorem MapInv.remove [DecidableEq K] (h : MapInv cfg map contents) (key : K) :
    ∃ map' found, map.remove cfg key = some (map', found) ∧
      (found = true ↔ contents key ≠ none) ∧
      MapInv cfg map' (Function.update contents key none) := by
  obtain ⟨⟨chains, hrep⟩, hfinite, hcounted, hfits⟩ := h
  unfold RcuHashMap.remove
  rcases hrep.linkRemove key with
      ⟨hnone, hremove⟩ | ⟨linked, removed, before, behind, hremove, hsome, hlink, hrep'⟩
  · rw [hremove]
    refine ⟨map, false, rfl, by simp [hnone], ?_⟩
    rw [show Function.update contents key none = contents from
      hnone ▸ Function.update_eq_self key contents]
    exact ⟨⟨chains, hrep⟩, hfinite, hcounted, hfits⟩
  · rw [hremove]
    have hpresent : {other | Function.update contents key none other ≠ none} =
        {other | contents other ≠ none} \ {key} := by
      ext other
      by_cases heq : other = key
      · simp [heq]
      · simp [heq]
    have hcard := Set.ncard_sdiff_singleton_of_mem
      (show key ∈ {other | contents other ≠ none} from hsome)
    have hsize := hlink.link.tableSize_eq
    have hcount := hlink.link.count
    refine ⟨_, true, rfl, by simp [hsome], ⟨_, hrep'.count_irrelevant rfl rfl rfl rfl rfl⟩,
      ?_, ?_, ?_⟩
    · rw [hpresent]
      exact hfinite.sdiff
    · rw [hpresent, hcard, ← hcounted, ← hcount]
      rfl
    · change linked.count - 1 ≤ linked.tableSize
      omega

/-- Every call returns, returns what the abstract map says, and takes effect on the contents. -/
theorem MapInv.exec [DecidableEq K] {before : List (MapOp K V)}
    (h : MapInv cfg map (contentsAfter before)) (op : MapOp K V) :
    ∃ map' result, map.exec cfg op = some (map', result) ∧ Returns before op result ∧
      MapInv cfg map' (contentsAfter (before ++ [op])) := by
  rw [contentsAfter_append]
  cases op with
  | put key value =>
      obtain ⟨map', hput, hinv⟩ := h.put key value
      exact ⟨map', .done, by rw [RcuHashMap.exec, hput, Option.map_some], rfl, hinv⟩
  | remove key =>
      obtain ⟨map', found, hremove, hfound, hinv⟩ := h.remove key
      refine ⟨map', .removed found, by rw [RcuHashMap.exec, hremove, Option.map_some], ?_, hinv⟩
      exact ⟨found, rfl, hfound.trans (contentsAfter_ne_none before key)⟩
  | get key =>
      obtain ⟨chains, hrep⟩ := h.represents
      refine ⟨map, .value (contentsAfter before key), ?_, ?_, h⟩
      · rw [RcuHashMap.exec, hrep.get, Option.map_some]
      · exact ⟨_, rfl, fun v => contentsAfter_eq_some before key v⟩
  | size =>
      refine ⟨map, .size map.size, rfl, ?_, h⟩
      have hset : {key | contentsAfter before key ≠ none} = {key | Present before key} :=
        Set.ext fun key => contentsAfter_ne_none before key
      exact congrArg MapResult.size (h.counted.trans (by rw [hset]))

/-- A sequence of calls, started in the middle of a longer one. -/
theorem MapInv.execAll [DecidableEq K] (ops : List (MapOp K V)) {before : List (MapOp K V)}
    (h : MapInv cfg map (contentsAfter before)) :
    ∃ final results, map.execAll cfg ops = some (final, results) ∧
      results.length = ops.length ∧
      (∀ i op result, ops[i]? = some op → results[i]? = some result →
        Returns (before ++ ops.take i) op result) ∧
      MapInv cfg final (contentsAfter (before ++ ops)) := by
  induction ops generalizing map before with
  | nil => exact ⟨map, [], rfl, rfl, by simp, by simpa using h⟩
  | cons op ops ih =>
      obtain ⟨next, result, hexec, hreturns, hnext⟩ := h.exec op
      obtain ⟨final, results, hrest, hlength, hall, hfinal⟩ := ih hnext
      refine ⟨final, result :: results, ?_, by simp [hlength], ?_, by simpa using hfinal⟩
      · rw [RcuHashMap.execAll, hexec, Option.bind_some]
        dsimp only
        rw [hrest, Option.map_some]
      · intro i other out hop hout
        cases i with
        | zero =>
            obtain rfl : op = other := by simpa using hop
            obtain rfl : result = out := by simpa using hout
            simpa using hreturns
        | succ i => simpa using hall i other out (by simpa using hop) (by simpa using hout)

end Calls

/-- For every sequence of calls, every call returns, and it returns what a finite map returns; the
chains are well shaped, the count is the number of present keys and at most the size of the table,
and a `Resize` to twice the size changes none of this. -/
theorem refines_finite_map [DecidableEq K] (cfg : MapConfig K) (memory : NodeId → MapNode K V)
    (ops : List (MapOp K V)) :
    ∃ map results, (RcuHashMap.create cfg memory).execAll cfg ops = some (map, results) ∧
      results.length = ops.length ∧
      (∀ i op result, ops[i]? = some op → results[i]? = some result →
        Returns (ops.take i) op result) ∧
      WellShaped cfg map ∧ map.size = {key | Present ops key}.ncard ∧ map.size ≤ map.tableSize ∧
      ∃ resized, map.resize cfg (map.tableSize * 2) = some resized ∧ WellShaped cfg resized ∧
        resized.tableSize = map.tableSize * 2 ∧ resized.size = map.size ∧
        ∀ key value, resized.get cfg key = some value ↔ map.get cfg key = some value := by
  have hempty : MapInv cfg (RcuHashMap.create cfg memory) (contentsAfter []) :=
    MapInv.create cfg memory
  obtain ⟨map, results, hexec, hlength, hall, hinv⟩ := hempty.execAll ops
  have hset : {key | contentsAfter ops key ≠ none} = {key | Present ops key} :=
    Set.ext fun key => contentsAfter_ne_none ops key
  obtain ⟨chains, hrep⟩ := hinv.represents
  have hpos := hrep.size_pos
  have hfits := hinv.fits
  have hroom : 0 < map.tableSize * 2 ∧ map.count ≤ map.tableSize * 2 := by omega
  obtain ⟨resized, hresize, hresized, hsize, hcount⟩ := hinv.resize _ hroom.1 hroom.2
  obtain ⟨newChains, hnew⟩ := hresized.represents
  refine ⟨map, results, hexec, hlength, by simpa using hall, hinv.wellShaped, ?_, hfits, resized,
    hresize, hresized.wellShaped, hsize, hcount, fun key value => ?_⟩
  · exact hinv.counted.trans (by rw [List.nil_append, hset])
  · rw [hnew.get, hrep.get]

end HotPath.Concurrency
