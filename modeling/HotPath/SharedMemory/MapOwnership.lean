import HotPath.Foundation.Loans
import HotPath.Foundation.Transition
import HotPath.SharedMemory.MemoryMap

/-!
# Ownership of mapped shared memory

Any number of `MemoryMap` objects of one process: they come from `Create`, `Open` and
`CreateOrOpen`, they are moved by construction and by assignment, and they are destroyed. A ledger
beside the objects counts what the calls of `Create` and `Open` have returned, and which of these
descriptors and mappings every `close` and every `munmap` releases. The kernel hands out descriptor
numbers and addresses again, so the ledger looks up who had them last.

`released_once` says that in every run each descriptor and each mapping is released at most once,
a mapping with the length that it was mapped with, that no two objects own the same, and that
nothing stays behind when the last object has been destroyed.
-/

namespace HotPath.SharedMemory

open HotPath.Foundation
open HotPath.Foundation.Posix

/-! ## Moves and releases -/

/-- The fields that a move takes, and what it leaves behind. The name of the source is unspecified
afterwards (`left`). -/
def MemoryMap.move (other : MemoryMap) (left : String) : MemoryMap × MemoryMap :=
  ({ name := other.name
     fd := other.fd
     addr := other.addr
     size := other.size
     isMirrored := other.isMirrored },
   { name := left
     fd := -1
     addr := 0
     size := 0
     isMirrored := false })

/-- A call that releases something. -/
inductive Release where
  | unmapped (addr length : Nat)
  | closed (fd : Nat)
deriving DecidableEq

/-- The calls of `~MemoryMap`. -/
def MemoryMap.releases (map : MemoryMap) : List Release :=
  (if map.addr ≠ mapFailed ∧ map.addr ≠ 0 then [.unmapped map.addr map.mappedSize.toNat] else []) ++
    if map.fd ≠ -1 then [.closed map.fd.toNat] else []

/-- Make a call. -/
def Release.perform (os : Os) (world : World String) : Release → World String
  | .unmapped addr length => munmap os world addr length
  | .closed fd => close world fd

/-- The destructor makes its calls. -/
theorem destroy_eq_perform (os : Os) (world : World String) (map : MemoryMap) :
    map.destroy os world = map.releases.foldl (Release.perform os) world := by
  unfold MemoryMap.destroy MemoryMap.releases
  split <;> split <;> rfl

/-! ## Objects -/

/-- The live objects of a process. -/
structure MapObjects where
  world : World String
  objects : Nat → Option MemoryMap

/-- The calls on objects, and changes that other processes make to the kernel. -/
inductive MapEvent where
  | create (this : Nat) (name : String) (size : UInt64) (useMagicMirror : Bool)
  | open (this : Nat) (name : String) (size : UInt64) (readonly useMagicMirror : Bool)
  | createOrOpen (this : Nat) (name : String) (size : UInt64) (useMagicMirror : Bool)
  | moveConstruct (this other : Nat) (left : String)
  | moveAssign (this other : Nat) (left : String)
  | destroy (this : Nat)
  | others (kernel : Kernel String)

/-- A result becomes a new object. An error leaves no object. -/
def MapObjects.acquire (state : MapObjects) (this : Nat) :
    Except Status MemoryMap × World String → MapObjects
  | (.ok map, world) => { world, objects := Function.update state.objects this (some map) }
  | (.error _, world) => { state with world }

/-- The new objects of a call, if their places are free. -/
def MapObjects.construct (state : MapObjects) (this : Nat)
    (result : Except Status MemoryMap × World String) : Option MapObjects :=
  if (state.objects this).isNone then some (state.acquire this result) else none

/-- One call. -/
def MapObjects.step (os : Os) (state : MapObjects) : MapEvent → Option MapObjects
  | .create this name size useMagicMirror =>
      state.construct this (MemoryMap.create os state.world name size useMagicMirror)
  | .open this name size readonly useMagicMirror =>
      state.construct this (MemoryMap.open os state.world name size readonly useMagicMirror)
  | .createOrOpen this name size useMagicMirror =>
      state.construct this (MemoryMap.createOrOpen os state.world name size useMagicMirror)
  | .moveConstruct this other left =>
      match state.objects this, state.objects other with
      | none, some source =>
          some { state with
            objects := Function.update (Function.update state.objects this
              (some (source.move left).1)) other (some (source.move left).2) }
      | _, _ => none
  | .moveAssign this other left =>
      match state.objects this, state.objects other with
      | some target, some source =>
          if this ≠ other then
            some { world := target.destroy os state.world
                   objects := Function.update (Function.update state.objects this
                     (some (source.move left).1)) other (some (source.move left).2) }
          else some state
      | _, _ => none
  | .destroy this =>
      (state.objects this).map fun map =>
        { world := map.destroy os state.world
          objects := Function.update state.objects this none }
  | .others kernel => some { state with world := state.world.withKernel kernel }

/-- A process that starts without objects. -/
def mapSystem (os : Os) (start : World String) : System MapObjects MapEvent where
  init state := state = { world := start, objects := fun _ => none }
  step := MapObjects.step os

/-! ## The ledger -/

/-- What `Create` and `Open` have returned, and what has been released. -/
structure Ledger where
  openings : List MemoryMap := []
  descriptors : Loans Nat Unit := {}
  mappings : Loans Nat Nat := {}

/-- A call has returned a map. -/
def Ledger.opened (ledger : Ledger) (map : MemoryMap) : Ledger where
  openings := ledger.openings ++ [map]
  descriptors := ledger.descriptors.lend map.fd.toNat ledger.openings.length
  mappings := ledger.mappings.lend map.addr ledger.openings.length

/-- A call has released something. -/
def Ledger.released (ledger : Ledger) : Release → Ledger
  | .unmapped addr length => { ledger with mappings := ledger.mappings.giveBack addr length }
  | .closed fd => { ledger with descriptors := ledger.descriptors.giveBack fd () }

/-- The destructor of a map, or the same calls of its move assignment. -/
def Ledger.destroyed (ledger : Ledger) (map : Option MemoryMap) : Ledger :=
  (map.elim [] MemoryMap.releases).foldl Ledger.released ledger

/-- Keep the ledger. -/
def ledgerRecorder : Recorder MapObjects MapEvent Ledger where
  start _ := {}
  observe state event next ledger :=
    match event with
    | .create this _ _ _ | .open this _ _ _ _ | .createOrOpen this _ _ _ =>
        (next.objects this).elim ledger ledger.opened
    | .moveAssign this other _ =>
        if this ≠ other then ledger.destroyed (state.objects this) else ledger
    | .destroy this => ledger.destroyed (state.objects this)
    | .moveConstruct _ _ _ | .others _ => ledger

/-! ## What `Create` and `Open` bring -/

/-- The pages of the mapping. -/
def MemoryMap.Covers (os : Os) (map : MemoryMap) (p : Nat) : Prop :=
  map.addr / os.pageSize ≤ p ∧ p < map.addr / os.pageSize + os.pageCount map.mappedSize.toNat

/-- The length that the mapping was made with. -/
def MemoryMap.mappedLength (map : MemoryMap) : Nat :=
  if map.isMirrored then 2 * map.size.toNat else map.size.toNat

/-- A map comes with a descriptor and with pages that were free before. -/
structure Acquired (os : Os) (world : World String) (map : MemoryMap) (world' : World String) :
    Prop where
  owning : map.Owning os
  fd_free : world.process.fds map.fd.toNat = none
  fd_open : (world'.process.fds map.fd.toNat).isSome
  fds : ∀ fd, map.fd.toNat ≠ fd → world'.process.fds fd = world.process.fds fd
  page_free : ∀ p, map.Covers os p → world.process.pages p = none
  page_mapped : ∀ p, map.Covers os p → (world'.process.pages p).isSome
  pages : ∀ p, ¬ map.Covers os p → world'.process.pages p = world.process.pages p

/-- Everything that a call may return. -/
inductive Resulted (os : Os) (world : World String) :
    Except Status MemoryMap × World String → Prop where
  | failed (status : Status) (world' : World String) :
      world'.process.fds = world.process.fds → world'.process.pages = world.process.pages →
      Resulted os world (.error status, world')
  | acquired (map : MemoryMap) (world' : World String) : Acquired os world map world' →
      Resulted os world (.ok map, world')

section Results

variable {os : Os} {world world' opened : World String} {name : String} {size : UInt64}
  {fd first : Nat} {writable useMagicMirror : Bool} {object : ObjectId} {map : MemoryMap}

/-- The descriptor of a new map was opened just before its pages were mapped. -/
theorem Mapped.acquired (h : Mapped os opened object size writable useMagicMirror first world')
    (halign : useMagicMirror = true → size.toNat % os.pageSize = 0) {descriptor : Descriptor}
    (hfree : world.process.fds fd = none)
    (hfds : opened.process.fds = Function.update world.process.fds fd (some descriptor))
    (hpages : opened.process.pages = world.process.pages) :
    Acquired os world ⟨name, fd, first * os.pageSize, size, useMagicMirror⟩ world' := by
  have hcovers : ∀ p, MemoryMap.Covers os ⟨name, fd, first * os.pageSize, size, useMagicMirror⟩ p ↔
      first ≤ p ∧ p < first + copies useMagicMirror * os.pageCount size.toNat := by
    intro p
    rw [MemoryMap.Covers, h.mappedSize_eq, Nat.mul_div_cancel _ os.pageSize_pos,
      pageCount_copies halign]
  refine ⟨h.owning, hfree, ?_, fun other hother => ?_, fun p hp => ?_, fun p hp => ?_,
    fun p hp => ?_⟩
  · change (world'.process.fds fd).isSome
    rw [h.fds, hfds, Function.update_self]
    rfl
  · rw [h.fds, hfds]
    exact Function.update_of_ne (Ne.symm hother) ..
  · have hp' := (hcovers p).mp hp
    have hnone := h.free (p - first) (by omega)
    rwa [show first + (p - first) = p by omega, hpages] at hnone
  · rw [h.pages, if_pos ((hcovers p).mp hp)]
    rfl
  · rw [h.pages, if_neg fun hp' => hp ((hcovers p).mpr hp'), hpages]

theorem Acquired.congr {world'' : World String} (h : Acquired os world map world')
    (hfds : world.process.fds = world''.process.fds)
    (hpages : world.process.pages = world''.process.pages) : Acquired os world'' map world' :=
  ⟨h.owning, hfds ▸ h.fd_free, h.fd_open, hfds ▸ h.fds, hpages ▸ h.page_free, h.page_mapped,
    hpages ▸ h.pages⟩

theorem create_resulted (os : Os) (world : World String) (name : String) (size : UInt64)
    (useMagicMirror : Bool) :
    Resulted os world (MemoryMap.create os world name size useMagicMirror) := by
  have hcreate := create_cases os world name size useMagicMirror
  generalize MemoryMap.create os world name size useMagicMirror = result at hcreate ⊢
  obtain ⟨map, world'⟩ := result
  cases hcreate with
  | failed status hrestored => exact .failed _ _ hrestored.fds hrestored.pages
  | created fd first _ hfd halign hmapped =>
      exact .acquired _ _ (hmapped.acquired halign hfd rfl rfl)

theorem open_resulted (os : Os) (world : World String) (name : String) (size : UInt64)
    (readonly useMagicMirror : Bool) :
    Resulted os world (MemoryMap.open os world name size readonly useMagicMirror) := by
  have hopen := open_cases os world name size readonly useMagicMirror
  generalize MemoryMap.open os world name size readonly useMagicMirror = result at hopen ⊢
  obtain ⟨map, world'⟩ := result
  cases hopen with
  | failed status huntouched => exact .failed _ _ huntouched.fds huntouched.pages
  | opened fd first object _ hfd halign hmapped =>
      exact .acquired _ _ (hmapped.acquired halign hfd rfl rfl)

theorem createOrOpen_resulted (os : Os) (world : World String) (name : String) (size : UInt64)
    (useMagicMirror : Bool) :
    Resulted os world (MemoryMap.createOrOpen os world name size useMagicMirror) := by
  unfold MemoryMap.createOrOpen
  have hcreate := create_resulted os world name size useMagicMirror
  generalize MemoryMap.create os world name size useMagicMirror = result at hcreate ⊢
  cases hcreate with
  | acquired map world' hacquired => exact .acquired _ _ hacquired
  | failed status world₁ hfds hpages =>
      dsimp only
      split
      · have hopen := open_resulted os world₁ name size false useMagicMirror
        generalize MemoryMap.open os world₁ name size false useMagicMirror = result at hopen ⊢
        cases hopen with
        | acquired map world' hacquired => exact .acquired _ _ (hacquired.congr hfds hpages)
        | failed status world₂ hfds₂ hpages₂ =>
            exact .failed _ _ (hfds₂.trans hfds) (hpages₂.trans hpages)
      · exact .failed _ _ hfds hpages

end Results

/-! ## Steps -/

/-- Everything that a step can do to the objects and the ledger. -/
inductive MapStep (os : Os) (state : MapObjects) (ledger : Ledger) :
    MapObjects → Ledger → Prop where
  | same (world' : World String) : world'.process.fds = state.world.process.fds →
      world'.process.pages = state.world.process.pages →
      MapStep os state ledger { state with world := world' } ledger
  | opened (this : Nat) (map : MemoryMap) (world' : World String) : state.objects this = none →
      Acquired os state.world map world' →
      MapStep os state ledger
        { world := world', objects := Function.update state.objects this (some map) }
        (ledger.opened map)
  | moved (this other : Nat) (source : MemoryMap) (left : String) : state.objects this = none →
      state.objects other = some source →
      MapStep os state ledger
        { state with
          objects := Function.update (Function.update state.objects this (some source)) other
            (some (source.move left).2) }
        ledger
  | assigned (this other : Nat) (target source : MemoryMap) (left : String) : this ≠ other →
      state.objects this = some target → state.objects other = some source →
      MapStep os state ledger
        { world := target.destroy os state.world
          objects := Function.update (Function.update state.objects this (some source)) other
            (some (source.move left).2) }
        (ledger.destroyed (some target))
  | destroyed (this : Nat) (map : MemoryMap) : state.objects this = some map →
      MapStep os state ledger
        { world := map.destroy os state.world
          objects := Function.update state.objects this none }
        (ledger.destroyed (some map))

section Steps

variable {os : Os} {state next : MapObjects} {ledger : Ledger} {event : MapEvent}

/-- A call that may return a map. -/
theorem construct_cases {this : Nat} {result : Except Status MemoryMap × World String}
    (hresult : Resulted os state.world result) (h : state.construct this result = some next) :
    MapStep os state ledger next ((next.objects this).elim ledger ledger.opened) := by
  unfold MapObjects.construct at h
  split at h
  · next hnone =>
      rw [Option.isNone_iff_eq_none] at hnone
      obtain rfl := Option.some.inj h
      cases hresult with
      | failed status world' hfds hpages =>
          simp only [MapObjects.acquire, hnone, Option.elim_none]
          exact .same world' hfds hpages
      | acquired map world' hacquired =>
          simp only [MapObjects.acquire, Function.update_self, Option.elim_some]
          exact .opened this map world' hnone hacquired
  · cases h

theorem map_step_cases (h : state.step os event = some next) :
    MapStep os state ledger next (ledgerRecorder.observe state event next ledger) := by
  cases event with
  | create this name size useMagicMirror => exact construct_cases (create_resulted ..) h
  | «open» this name size readonly useMagicMirror => exact construct_cases (open_resulted ..) h
  | createOrOpen this name size useMagicMirror =>
      exact construct_cases (createOrOpen_resulted ..) h
  | moveConstruct this other left =>
      simp only [MapObjects.step] at h
      split at h
      · next source hthis hother =>
          obtain rfl := Option.some.inj h
          exact .moved this other source left hthis hother
      · cases h
  | moveAssign this other left =>
      simp only [MapObjects.step] at h
      split at h
      · next target source hthis hother =>
          simp only [ledgerRecorder]
          split at h
          · next hne =>
              obtain rfl := Option.some.inj h
              rw [if_pos hne, hthis]
              exact .assigned this other target source left hne hthis hother
          · next heq =>
              obtain rfl := Option.some.inj h
              rw [if_neg heq]
              exact .same state.world rfl rfl
      · cases h
  | destroy this =>
      simp only [MapObjects.step, Option.map_eq_some_iff] at h
      obtain ⟨map, hthis, rfl⟩ := h
      simp only [ledgerRecorder, hthis]
      exact .destroyed this map hthis
  | others kernel =>
      obtain rfl := Option.some.inj h
      exact .same (state.world.withKernel kernel) rfl rfl

end Steps

/-! ## The books -/

/-- The ledger and the tables of the process account for the maps that have not been released. -/
structure Balanced (os : Os) (start process : Process) (ledger : Ledger)
    (outstanding : Nat → Option MemoryMap) : Prop where
  owning : ∀ number map, outstanding number = some map → map.Owning os
  descriptors : ledger.descriptors.Owes (fun map => map.fd.toNat) (fun _ => ()) ledger.openings
    outstanding
  mappings : ledger.mappings.Owes MemoryMap.addr MemoryMap.mappedLength ledger.openings outstanding
  fds : Taken start.fds process.fds (fun map fd => map.fd.toNat = fd) outstanding
  pages : Taken start.pages process.pages (MemoryMap.Covers os) outstanding

section Books

variable {os : Os} {start : Process} {world world' : World String} {ledger : Ledger}
  {outstanding : Nat → Option MemoryMap} {map : MemoryMap} {number : Nat}

/-- A mapping has a first page. -/
theorem MemoryMap.Owning.covers_first (h : map.Owning os) :
    map.Covers os (map.addr / os.pageSize) := by
  refine ⟨Nat.le_refl _, Nat.lt_add_of_pos_right (Os.lt_pageCount.mpr ?_)⟩
  rw [Nat.zero_mul]
  exact h.length_pos

/-- The calls that release a map. -/
theorem MemoryMap.Owning.releases_eq (h : map.Owning os) :
    map.releases = [.unmapped map.addr map.mappedLength, .closed map.fd.toNat] := by
  have hopen : map.fd ≠ -1 := by
    have hnonneg := h.fd_nonneg
    omega
  rw [MemoryMap.releases, if_pos h.mapped, if_pos hopen, h.length]
  rfl

theorem balanced_start (os : Os) (start : Process) :
    Balanced os start start {} fun _ => none where
  owning _ _ h := nomatch h
  descriptors := Loans.owes_nothing _ _
  mappings := Loans.owes_nothing _ _
  fds := taken_nothing _ _
  pages := taken_nothing _ _

/-- Other changes leave the books alone. -/
theorem Balanced.congr (h : Balanced os start world.process ledger outstanding)
    (hfds : world'.process.fds = world.process.fds)
    (hpages : world'.process.pages = world.process.pages) :
    Balanced os start world'.process ledger outstanding :=
  ⟨h.owning, h.descriptors, h.mappings, hfds ▸ h.fds, hpages ▸ h.pages⟩

/-- A new map is entered. -/
theorem Balanced.opened (h : Balanced os start world.process ledger outstanding)
    (hacquired : Acquired os world map world') :
    Balanced os start world'.process (ledger.opened map)
      (Function.update outstanding ledger.openings.length (some map)) := by
  have hfd : ∀ number other, outstanding number = some other → other.fd.toNat ≠ map.fd.toNat := by
    intro number other hother heq
    have hsome := (h.fds.taken number other _ hother rfl).1
    rw [heq, hacquired.fd_free] at hsome
    cases hsome
  have haddr : ∀ number other, outstanding number = some other → other.addr ≠ map.addr := by
    intro number other hother heq
    have hcovers := (h.owning number other hother).covers_first
    have hsome := (h.pages.taken number other _ hother hcovers).1
    rw [heq, hacquired.page_free _ hacquired.owning.covers_first] at hsome
    cases hsome
  refine ⟨fun number other hother => ?_, h.descriptors.lend hfd, h.mappings.lend haddr, ?_, ?_⟩
  · by_cases hnumber : number = ledger.openings.length
    · subst hnumber
      obtain rfl : map = other := by simpa using hother
      exact hacquired.owning
    · rw [Function.update_of_ne hnumber] at hother
      exact h.owning number other hother
  · refine h.fds.take h.descriptors.fresh ?_ ?_ hacquired.fds
    · rintro _ rfl
      exact hacquired.fd_free
    · rintro _ rfl
      exact hacquired.fd_open
  · exact h.pages.take h.descriptors.fresh hacquired.page_free hacquired.page_mapped
      hacquired.pages

/-- A map that has not been released is struck off. -/
theorem Balanced.destroyed (h : Balanced os start world.process ledger outstanding)
    (hout : outstanding number = some map) :
    Balanced os start (map.destroy os world).process (ledger.destroyed (some map))
      (Function.update outstanding number none) := by
  have howning := h.owning number map hout
  obtain ⟨descriptor, hfd⟩ := Option.isSome_iff_exists.mp (h.fds.taken number map _ hout rfl).1
  have hledger : ledger.destroyed (some map) =
      { ledger with
        mappings := ledger.mappings.giveBack map.addr map.mappedLength
        descriptors := ledger.descriptors.giveBack map.fd.toNat () } := by
    rw [Ledger.destroyed, Option.elim_some, howning.releases_eq]
    rfl
  rw [hledger, howning.destroy_eq hfd]
  refine ⟨fun other other' hother => ?_, h.descriptors.giveBack hout, h.mappings.giveBack hout,
    ?_, ?_⟩
  · by_cases hnumber : other = number
    · subst hnumber
      simp at hother
    · rw [Function.update_of_ne hnumber] at hother
      exact h.owning other other' hother
  · refine h.fds.giveBack hout ?_ fun fd hne => Function.update_of_ne (Ne.symm hne) ..
    rintro _ rfl
    exact Function.update_self ..
  · exact h.pages.giveBack hout (fun p hp => if_pos hp) fun p hp => if_neg hp

end Books

/-! ## Owners -/

/-- The state of an object that has been moved from. -/
def MemoryMap.IsEmpty (map : MemoryMap) : Prop :=
  map.fd = -1 ∧ map.addr = 0 ∧ map.size = 0 ∧ map.isMirrored = false

/-- Every map that has not been released is in one live object, and the other live objects are
empty. -/
structure Held (objects outstanding : Nat → Option MemoryMap) : Prop where
  held : ∀ i map, objects i = some map → map.IsEmpty ∨ ∃ number, outstanding number = some map
  owner : ∀ number map, outstanding number = some map → ∃ i, objects i = some map
  unique : ∀ number map i j, outstanding number = some map → objects i = some map →
    objects j = some map → i = j

section Owners

variable {os : Os} {start process : Process} {ledger : Ledger}
  {objects outstanding : Nat → Option MemoryMap} {map source : MemoryMap} {this other number : Nat}

/-- An empty object releases nothing. -/
theorem MemoryMap.IsEmpty.releases_eq (h : map.IsEmpty) : map.releases = [] := by
  obtain ⟨hfd, haddr, -, -⟩ := h
  rw [MemoryMap.releases, if_neg (fun hmapped => hmapped.2 haddr), if_neg (fun hopen => hopen hfd),
    List.append_nil]

theorem MemoryMap.IsEmpty.destroy_eq (h : map.IsEmpty) (world : World String) :
    map.destroy os world = world := by
  rw [destroy_eq_perform, h.releases_eq, List.foldl_nil]

/-- An empty object covers no page. -/
theorem MemoryMap.IsEmpty.not_covers (h : map.IsEmpty) (p : Nat) : ¬ map.Covers os p := by
  obtain ⟨-, -, hsize, hmirrored⟩ := h
  have hpos := os.pageSize_pos
  have hcount : os.pageCount map.mappedSize.toNat = 0 := by
    rw [MemoryMap.mappedSize, hmirrored, hsize, if_neg Bool.false_ne_true]
    exact Nat.div_eq_of_lt (by simp; omega)
  rw [MemoryMap.Covers, hcount]
  omega

/-- A map that has not been released is not empty. -/
theorem Balanced.not_empty (h : Balanced os start process ledger outstanding)
    (hout : outstanding number = some map) : ¬ map.IsEmpty := by
  intro hempty
  have hnonneg := (h.owning number map hout).fd_nonneg
  rw [hempty.1] at hnonneg
  omega

/-- A map has one number. -/
theorem Balanced.number_unique (h : Balanced os start process ledger outstanding) {number' : Nat}
    (hout : outstanding number = some map) (hout' : outstanding number' = some map) :
    number = number' :=
  h.fds.disjoint number number' map map map.fd.toNat hout hout' rfl rfl

theorem held_nothing : Held (fun _ => none) fun _ => none where
  held _ _ h := nomatch h
  owner _ _ h := nomatch h
  unique _ _ _ _ h := nomatch h

/-- A new object holds a new map. -/
theorem Held.opened (h : Held objects outstanding) (hthis : objects this = none)
    (hfresh : outstanding number = none) (hfull : ¬ map.IsEmpty)
    (hnew : ∀ other, outstanding other ≠ some map) :
    Held (Function.update objects this (some map))
      (Function.update outstanding number (some map)) where
  held i item hi := by
    rcases update_some_iff.mp hi with ⟨-, rfl⟩ | ⟨-, hi⟩
    · exact .inr ⟨number, Function.update_self ..⟩
    · refine (h.held i item hi).imp_right fun ⟨other, hother⟩ => ⟨other, ?_⟩
      refine update_some_iff.mpr (.inr ⟨?_, hother⟩)
      rintro rfl
      cases hfresh.symm.trans hother
  owner other item hother := by
    rcases update_some_iff.mp hother with ⟨-, rfl⟩ | ⟨-, hother⟩
    · exact ⟨this, Function.update_self ..⟩
    · obtain ⟨i, hi⟩ := h.owner other item hother
      refine ⟨i, update_some_iff.mpr (.inr ⟨?_, hi⟩)⟩
      rintro rfl
      cases hthis.symm.trans hi
  unique other item i j hother hi hj := by
    have hold : ∀ i, objects i = some map → False := fun i hi =>
      (h.held i map hi).elim hfull fun ⟨other, hother⟩ => hnew other hother
    rcases update_some_iff.mp hi with ⟨hi₁, rfl⟩ | ⟨-, hi₁⟩ <;>
      rcases update_some_iff.mp hj with ⟨hj₁, heq⟩ | ⟨-, hj₁⟩
    · rw [hi₁, hj₁]
    · exact (hold j hj₁).elim
    · exact (hold i (heq ▸ hi₁)).elim
    · rcases update_some_iff.mp hother with ⟨-, rfl⟩ | ⟨-, hother⟩
      · exact (hold i hi₁).elim
      · exact h.unique other item i j hother hi₁ hj₁

/-- Another object takes over. -/
theorem Held.moved (h : Held objects outstanding)
    (hfull : ∀ number map, outstanding number = some map → ¬ map.IsEmpty)
    (hthis : objects this = none) (hother : objects other = some source) (left : String) :
    Held (Function.update (Function.update objects this (some source)) other
      (some (source.move left).2)) outstanding := by
  have hne : this ≠ other := by
    rintro rfl
    cases hthis.symm.trans hother
  -- An object that holds a map is the new one, or it is not involved.
  have hcases : ∀ number i item, outstanding number = some item →
      Function.update (Function.update objects this (some source)) other
        (some (source.move left).2) i = some item →
      i = this ∧ objects other = some item ∨ i ≠ this ∧ i ≠ other ∧ objects i = some item := by
    intro number i item hout hi
    rcases update_some_iff.mp hi with ⟨-, rfl⟩ | ⟨hi', hi⟩
    · exact absurd ⟨rfl, rfl, rfl, rfl⟩ (hfull number _ hout)
    · rcases update_some_iff.mp hi with ⟨rfl, rfl⟩ | ⟨hi'', hi⟩
      · exact .inl ⟨rfl, hother⟩
      · exact .inr ⟨hi'', hi', hi⟩
  refine ⟨fun i item hi => ?_, fun number item hout => ?_, fun number item i j hout hi hj => ?_⟩
  · rcases update_some_iff.mp hi with ⟨-, rfl⟩ | ⟨-, hi⟩
    · exact .inl ⟨rfl, rfl, rfl, rfl⟩
    · rcases update_some_iff.mp hi with ⟨-, rfl⟩ | ⟨-, hi⟩
      · exact h.held other source hother
      · exact h.held i item hi
  · obtain ⟨i, hi⟩ := h.owner number item hout
    by_cases hi' : i = other
    · subst hi'
      obtain rfl := Option.some.inj (hother.symm.trans hi)
      refine ⟨this, update_some_iff.mpr (.inr ⟨hne, Function.update_self ..⟩)⟩
    · refine ⟨i, update_some_iff.mpr (.inr ⟨hi', update_some_iff.mpr (.inr ⟨?_, hi⟩)⟩)⟩
      rintro rfl
      cases hthis.symm.trans hi
  · rcases hcases number i item hout hi with ⟨hi', hi₁⟩ | ⟨-, hi', hi₁⟩ <;>
      rcases hcases number j item hout hj with ⟨hj', hj₁⟩ | ⟨-, hj', hj₁⟩
    · rw [hi', hj']
    · exact absurd (h.unique number item other j hout hi₁ hj₁).symm hj'
    · exact absurd (h.unique number item i other hout hi₁ hj₁) hi'
    · exact h.unique number item i j hout hi₁ hj₁

/-- An object and what it holds go together. -/
theorem Held.destroyed (h : Held objects outstanding) (hthis : objects this = some map)
    (hout : outstanding number = some map)
    (hnumber : ∀ number', outstanding number' = some map → number' = number) :
    Held (Function.update objects this none) (Function.update outstanding number none) where
  held i item hi := by
    obtain ⟨hi', hi⟩ := update_none_iff.mp hi
    refine (h.held i item hi).imp_right fun ⟨other, hother⟩ => ⟨other, ?_⟩
    refine update_none_iff.mpr ⟨?_, hother⟩
    rintro rfl
    obtain rfl := Option.some.inj (hout.symm.trans hother)
    exact hi' (h.unique other map i this hout hi hthis)
  owner other item hother := by
    obtain ⟨hother', hother⟩ := update_none_iff.mp hother
    obtain ⟨i, hi⟩ := h.owner other item hother
    refine ⟨i, update_none_iff.mpr ⟨?_, hi⟩⟩
    rintro rfl
    obtain rfl := Option.some.inj (hthis.symm.trans hi)
    exact hother' (hnumber other hother)
  unique other item i j hother hi hj :=
    h.unique other item i j (update_none_iff.mp hother).2 (update_none_iff.mp hi).2
      (update_none_iff.mp hj).2

/-- An empty object holds nothing. -/
theorem Held.dropped (h : Held objects outstanding) (hthis : objects this = some map)
    (hout : ∀ number, outstanding number ≠ some map) :
    Held (Function.update objects this none) outstanding where
  held i item hi := h.held i item (update_none_iff.mp hi).2
  owner number item hnumber := by
    obtain ⟨i, hi⟩ := h.owner number item hnumber
    refine ⟨i, update_none_iff.mpr ⟨?_, hi⟩⟩
    rintro rfl
    obtain rfl := Option.some.inj (hthis.symm.trans hi)
    exact hout number hnumber
  unique number item i j hnumber hi hj :=
    h.unique number item i j hnumber (update_none_iff.mp hi).2 (update_none_iff.mp hj).2

end Owners

/-! ## Runs -/

/-- The ledger accounts for the live objects. -/
def Accounted (os : Os) (start : World String) (pair : MapObjects × Ledger) : Prop :=
  ∃ outstanding, Balanced os start.process pair.1.world.process pair.2 outstanding ∧
    Held pair.1.objects outstanding

section Runs

variable {os : Os} {start : World String} {state next : MapObjects} {ledger ledger' : Ledger}
  {map : MemoryMap} {this : Nat}

/-- The destructor releases what its object holds. -/
theorem accounted_destroyed (h : Accounted os start (state, ledger))
    (hthis : state.objects this = some map) :
    Accounted os start
      ({ world := map.destroy os state.world
         objects := Function.update state.objects this none },
        ledger.destroyed (some map)) := by
  obtain ⟨outstanding, hbalanced, hheld⟩ := h
  rcases hheld.held this map hthis with hempty | ⟨number, hout⟩
  · have hledger : ledger.destroyed (some map) = ledger := by
      rw [Ledger.destroyed, Option.elim_some, hempty.releases_eq, List.foldl_nil]
    rw [hempty.destroy_eq, hledger]
    exact ⟨outstanding, hbalanced, hheld.dropped hthis fun number hout =>
      hbalanced.not_empty hout hempty⟩
  · exact ⟨_, hbalanced.destroyed hout, hheld.destroyed hthis hout fun number' hout' =>
      hbalanced.number_unique hout' hout⟩

/-- A move changes the holder of a map, and nothing else. -/
theorem accounted_moved {other : Nat} {source : MemoryMap}
    (h : Accounted os start (state, ledger)) (hthis : state.objects this = none)
    (hother : state.objects other = some source) (left : String) :
    Accounted os start
      ({ state with
         objects := Function.update (Function.update state.objects this (some source)) other
           (some (source.move left).2) }, ledger) := by
  obtain ⟨outstanding, hbalanced, hheld⟩ := h
  exact ⟨outstanding, hbalanced,
    hheld.moved (fun _ _ => hbalanced.not_empty) hthis hother left⟩

theorem accounted_step (h : Accounted os start (state, ledger))
    (hstep : MapStep os state ledger next ledger') : Accounted os start (next, ledger') := by
  cases hstep with
  | same world' hfds hpages =>
      obtain ⟨outstanding, hbalanced, hheld⟩ := h
      exact ⟨outstanding, hbalanced.congr hfds hpages, hheld⟩
  | opened this map world' hthis hacquired =>
      obtain ⟨outstanding, hbalanced, hheld⟩ := h
      have hbalanced' := hbalanced.opened hacquired
      refine ⟨_, hbalanced', hheld.opened hthis hbalanced.descriptors.fresh
        (hbalanced'.not_empty (Function.update_self ..)) fun number hout => ?_⟩
      -- The descriptor of the new map was free.
      have hsome := (hbalanced.fds.taken number map _ hout rfl).1
      rw [hacquired.fd_free] at hsome
      cases hsome
  | moved this other source left hthis hother => exact accounted_moved h hthis hother left
  | assigned this other target source left hne hthis hother =>
      have hdestroyed := accounted_destroyed h hthis
      have hmoved := accounted_moved hdestroyed (Function.update_self ..)
        ((Function.update_of_ne (Ne.symm hne) ..).trans hother) left
      simpa only [Function.update_idem] using hmoved
  | destroyed this map hthis => exact accounted_destroyed h hthis

/-- Every release is one of a loan, it is the only one, and a mapping is unmapped with the length
that it was made with. No object names what another one owns, and what an object owns is open and
mapped. With the last object everything is gone. -/
structure ReleasedOnce (os : Os) (start : World String) (state : MapObjects) (ledger : Ledger) :
    Prop where
  closed : ∀ entry ∈ ledger.descriptors.ended, ∃ number < ledger.openings.length,
    entry.1 = some number
  closed_once : (ledger.descriptors.ended.map Prod.fst).Nodup
  unmapped : ∀ entry ∈ ledger.mappings.ended, ∃ number map,
    ledger.openings[number]? = some map ∧
      entry = (some number, if map.isMirrored then 2 * map.size.toNat else map.size.toNat)
  unmapped_once : (ledger.mappings.ended.map Prod.fst).Nodup
  apart : ∀ i j map map', i ≠ j → state.objects i = some map → state.objects j = some map' →
    map.fd ≠ -1 → map.fd ≠ map'.fd ∧ ∀ p, ¬ (map.Covers os p ∧ map'.Covers os p)
  open_owned : ∀ i map, state.objects i = some map → map.fd ≠ -1 →
    (state.world.process.fds map.fd.toNat).isSome ∧
      ∀ p, map.Covers os p → (state.world.process.pages p).isSome
  nothing_left : (∀ i, state.objects i = none) →
    state.world.process.fds = start.process.fds ∧
    state.world.process.pages = start.process.pages ∧
    ∀ number < ledger.openings.length, some number ∈ ledger.descriptors.ended.map Prod.fst ∧
      some number ∈ ledger.mappings.ended.map Prod.fst

/-- What the books say about the objects. -/
theorem Accounted.released (h : Accounted os start (state, ledger)) :
    ReleasedOnce os start state ledger := by
  obtain ⟨outstanding, hbalanced, hheld⟩ := h
  have howned : ∀ i map, state.objects i = some map → map.fd ≠ -1 →
      ∃ number, outstanding number = some map := fun i map hi hfd =>
    (hheld.held i map hi).resolve_left fun hempty => hfd hempty.1
  refine ⟨fun entry hentry => ?_, hbalanced.descriptors.nodup, fun entry hentry => ?_,
    hbalanced.mappings.nodup, fun i j map map' hne hi hj hfd => ?_, fun i map hi hfd => ?_,
    fun hnone => ?_⟩
  · obtain ⟨number, map, hitem, -, rfl⟩ := hbalanced.descriptors.entry entry hentry
    exact ⟨number, (List.getElem?_eq_some_iff.mp hitem).1, rfl⟩
  · obtain ⟨number, map, hitem, -, rfl⟩ := hbalanced.mappings.entry entry hentry
    exact ⟨number, map, hitem, rfl⟩
  · obtain ⟨number, hout⟩ := howned i map hi hfd
    have hnonneg := (hbalanced.owning number map hout).fd_nonneg
    rcases hheld.held j map' hj with hempty | ⟨number', hout'⟩
    · refine ⟨fun heq => ?_, fun p hp => hempty.not_covers p hp.2⟩
      rw [heq, hempty.1] at hnonneg
      omega
    · -- Two numbers of one map are the same, and so are its holders.
      have hdiffer : number ≠ number' := by
        rintro rfl
        obtain rfl := Option.some.inj (hout.symm.trans hout')
        exact hne (hheld.unique number map i j hout hi hj)
      refine ⟨fun heq => hdiffer ?_, fun p hp => hdiffer ?_⟩
      · exact hbalanced.fds.disjoint number number' map map' _ hout hout' rfl (by rw [heq])
      · exact hbalanced.pages.disjoint number number' map map' p hout hout' hp.1 hp.2
  · obtain ⟨number, hout⟩ := howned i map hi hfd
    exact ⟨(hbalanced.fds.taken number map _ hout rfl).1, fun p hp =>
      (hbalanced.pages.taken number map p hout hp).1⟩
  · obtain rfl : outstanding = fun _ => none := by
      funext number
      cases hout : outstanding number with
      | none => rfl
      | some map =>
          obtain ⟨i, hi⟩ := hheld.owner number map hout
          cases (hnone i).symm.trans hi
    exact ⟨hbalanced.fds.all_given_back, hbalanced.pages.all_given_back, fun number hlt =>
      ⟨hbalanced.descriptors.settled number hlt rfl, hbalanced.mappings.settled number hlt rfl⟩⟩

/-- In every run every descriptor and every mapping is released at most once, and with the last
object everything has been released. -/
theorem released_once {pair : MapObjects × Ledger}
    (h : ((mapSystem os start).withHistory ledgerRecorder).Reachable (fun _ _ => True) pair) :
    ReleasedOnce os start pair.1 pair.2 := by
  refine Accounted.released (h.invariant (Accounted os start) ?_ ?_)
  · rintro ⟨state, ledger⟩ ⟨hstate, hledger⟩
    replace hledger : ledger = {} := hledger
    obtain rfl : state = _ := hstate
    subst hledger
    exact ⟨fun _ => none, balanced_start os start.process, held_nothing⟩
  · rintro ⟨state, ledger⟩ event ⟨next, ledger'⟩ haccounted - hstep
    obtain ⟨hnext, hledger⟩ := System.withHistory_step.mp hstep
    dsimp only at hnext hledger
    rw [hledger]
    exact accounted_step haccounted (map_step_cases hnext)

end Runs

/-! ## A run -/

/-- A mirrored segment and a second map of it. The first is moved, assigned to itself and
overwritten by the second one, which is moved on. Then all objects are destroyed. -/
def moves : List MapEvent :=
  [.create 0 "/ring_data" 4096 true, .moveConstruct 1 0 "", .moveAssign 1 1 "",
    .open 2 "/ring_data" 4096 true false, .moveAssign 1 2 "", .moveAssign 0 1 "",
    .destroy 0, .destroy 1, .destroy 2]

/-- The kernel grants every call of this run. -/
def movesOs : Os :=
  plainOs [.grant 3, .grant 0, .grant 16, .grant 0, .grant 0, .grant 4, .grant 20]

/-- The mirrored mapping is unmapped first, with twice its size, and then the other one. -/
theorem moves_released_once : ∃ pair,
    ((mapSystem movesOs noSegments).withHistory ledgerRecorder).Reachable (fun _ _ => True) pair ∧
    ReleasedOnce movesOs noSegments pair.1 pair.2 ∧
    pair.2.mappings.ended = [(some 0, 8192), (some 1, 4096)] ∧
    pair.1.world.process.fds 3 = none ∧ pair.1.world.process.fds 4 = none := by
  have hstart : ((mapSystem movesOs noSegments).withHistory ledgerRecorder).Reachable
      (fun _ _ => True) ({ world := noSegments, objects := fun _ => none }, {}) :=
    .init ⟨rfl, rfl⟩
  obtain ⟨pair, hreachable, hgood⟩ := System.exists_reachable_of_replay _ _ _ moves
    (fun pair : MapObjects × Ledger =>
      decide (pair.2.mappings.ended = [(some 0, 8192), (some 1, 4096)]) &&
        ((pair.1.world.process.fds 3).isNone && (pair.1.world.process.fds 4).isNone)) hstart rfl
  simp only [Bool.and_eq_true, decide_eq_true_eq, Option.isNone_iff_eq_none] at hgood
  exact ⟨pair, hreachable, released_once hreachable, hgood⟩

end HotPath.SharedMemory
