import Mathlib.Algebra.GroupWithZero.Nat
import Mathlib.Data.List.Basic
import Mathlib.Logic.Function.Basic

/-!
# Shared memory objects and mappings

The system calls around POSIX shared memory. The kernel has named objects with a length and bytes
(`Kernel`), and a process has descriptors and virtual pages (`Process`). Only the kernel is shared
between processes.

The calls that may fail at will take their fate from a stream of answers (`Os.answers`): an error
number, or a number that the kernel picks, such as a descriptor or a page. Where the kernel would
not do what the answer says, because a descriptor is open already, a page is in use or an argument
is refused, the call fails as well. A failed call leaves everything as it was and sets `errno`,
and no call ever clears it.

Pages are mapped as a whole. A page that starts at or beyond the end of its object faults when it
is touched (`locate`). Addresses are numbers below `Os.limit`, the end of the user address space.
-/

namespace HotPath.Foundation.Posix

/-- The error numbers that a caller may tell apart. -/
inductive Errno where
  | noent
  | exist
  | acces
  | perm
  | nomem
  | inval
  | badf
  | mfile
  | other (number : Nat)
deriving DecidableEq

/-- The fate of a call: an error, or the number that the kernel picks. -/
inductive Answer where
  | fail (errno : Errno)
  | grant (choice : Nat)

/-- The parameters of the system, and the fate of every call. -/
structure Os where
  pageSize : Nat
  pageSize_pos : 0 < pageSize
  limit : Nat
  limit_le : limit ≤ 2 ^ 63
  answers : Nat → Answer
  strerror : Option Errno → String

/-- The number of an object, in the order of creation. -/
abbrev ObjectId := Nat

/-- A shared memory object. -/
structure Segment where
  length : Nat := 0
  bytes : Nat → UInt8 := fun _ => 0

/-- The objects and their names. -/
structure Kernel (Name : Type) where
  names : Name → Option ObjectId
  objects : ObjectId → Segment
  objectCount : Nat
  named_lt : ∀ name object, names name = some object → object < objectCount

/-- An open descriptor. -/
structure Descriptor where
  object : ObjectId
  writable : Bool

/-- A mapped page: address space that is only reserved, or a page of an object. -/
inductive Page where
  | reserved
  | shared (object : ObjectId) (index : Nat) (writable : Bool)
deriving DecidableEq

/-- A process. -/
structure Process where
  fds : Nat → Option Descriptor := fun _ => none
  pages : Nat → Option Page := fun _ => none
  errno : Option Errno := none

/-- A process and the kernel. `calls` counts the answers that have been used. -/
structure World (Name : Type) where
  kernel : Kernel Name
  process : Process := {}
  calls : Nat := 0

/-- How an object is opened: `O_CREAT | O_EXCL | O_RDWR`, `O_RDWR` or `O_RDONLY`. -/
inductive OpenMode where
  | exclusive
  | readWrite
  | readOnly
deriving DecidableEq

variable {Name : Type}

/-! ## Effects -/

/-- Bind a name, or unbind it. -/
def Kernel.bind [DecidableEq Name] (kernel : Kernel Name) (name : Name) (object : Option ObjectId)
    (h : ∀ id, object = some id → id < kernel.objectCount) : Kernel Name where
  names := Function.update kernel.names name object
  objects := kernel.objects
  objectCount := kernel.objectCount
  named_lt other id hid := by
    by_cases heq : other = name
    · subst heq
      exact h id (by simpa using hid)
    · exact kernel.named_lt other id (by simpa [heq] using hid)

/-- Replace the contents of an object. -/
def Kernel.setObject (kernel : Kernel Name) (object : ObjectId) (segment : Segment) :
    Kernel Name where
  names := kernel.names
  objects := Function.update kernel.objects object segment
  objectCount := kernel.objectCount
  named_lt := kernel.named_lt

/-- Create an empty object. Its number is the old `objectCount`. -/
def Kernel.newObject (kernel : Kernel Name) : Kernel Name where
  names := kernel.names
  objects := Function.update kernel.objects kernel.objectCount {}
  objectCount := kernel.objectCount + 1
  named_lt name id h := Nat.lt_succ_of_lt (kernel.named_lt name id h)

/-- Change the length of an object. What is cut off is lost, and what is added is zero. -/
def Segment.resize (segment : Segment) (length : Nat) : Segment where
  length := length
  bytes i := if i < segment.length ∧ i < length then segment.bytes i else 0

/-- Overwrite bytes of an object. -/
def Segment.write (segment : Segment) (offset : Nat) (values : List UInt8) : Segment where
  length := segment.length
  bytes i := if offset ≤ i ∧ i < offset + values.length then values.getD (i - offset) 0
    else segment.bytes i

/-- Set or clear a descriptor. -/
def Process.setFd (process : Process) (fd : Nat) (descriptor : Option Descriptor) : Process :=
  { process with fds := Function.update process.fds fd descriptor }

/-- Map the pages from `first` on. -/
def Process.map (process : Process) (first count : Nat) (page : Nat → Page) : Process :=
  { process with pages := fun p =>
      if first ≤ p ∧ p < first + count then some (page (p - first)) else process.pages p }

/-- Unmap the pages from `first` on. -/
def Process.unmap (process : Process) (first count : Nat) : Process :=
  { process with pages := fun p =>
      if first ≤ p ∧ p < first + count then none else process.pages p }

/-- No page is mapped there. -/
def Process.Free (process : Process) (first count : Nat) : Prop :=
  ∀ i < count, process.pages (first + i) = none

/-- `Free` is decidable page by page. -/
instance (process : Process) (first count : Nat) : Decidable (process.Free first count) :=
  inferInstanceAs (Decidable (∀ i < count, process.pages (first + i) = none))

/-- A call has used its answer. -/
def World.tick (world : World Name) : World Name := { world with calls := world.calls + 1 }

/-- A call fails. -/
def World.fail (world : World Name) (errno : Errno) : World Name :=
  { world with process := { world.process with errno := some errno } }

/-- The process has changed. -/
def World.withProcess (world : World Name) (process : Process) : World Name :=
  { world with process := process }

/-- The kernel has changed. -/
def World.withKernel (world : World Name) (kernel : Kernel Name) : World Name :=
  { world with kernel := kernel }

/-- A new object under a name, with a descriptor for it. -/
def World.create [DecidableEq Name] (world : World Name) (name : Name) (fd : Nat) : World Name :=
  (world.withKernel (world.kernel.newObject.bind name (some world.kernel.objectCount)
    fun _ h => Option.some.inj h ▸ Nat.lt_succ_self _)).withProcess
      (world.process.setFd fd (some ⟨world.kernel.objectCount, true⟩))

/-- A descriptor for an object. -/
def World.openFd (world : World Name) (fd : Nat) (descriptor : Descriptor) : World Name :=
  world.withProcess (world.process.setFd fd (some descriptor))

/-- An object gets another length. -/
def World.resize (world : World Name) (object : ObjectId) (length : Nat) : World Name :=
  world.withKernel (world.kernel.setObject object ((world.kernel.objects object).resize length))

/-- Pages are mapped. -/
def World.map (world : World Name) (first count : Nat) (page : Nat → Page) : World Name :=
  world.withProcess (world.process.map first count page)

/-! ## The calls -/

section Calls

variable (os : Os) (world : World Name)

/-- The number of pages that so many bytes take. -/
def Os.pageCount (length : Nat) : Nat := (length + os.pageSize - 1) / os.pageSize

/-- The pages end inside the user address space. -/
def Os.Fits (first count : Nat) : Prop := (first + count) * os.pageSize ≤ os.limit

/-- `Fits` is decidable by a comparison. -/
instance (first count : Nat) : Decidable (os.Fits first count) :=
  inferInstanceAs (Decidable (_ ≤ _))

/-- `shm_open`. -/
def shmOpen [DecidableEq Name] (name : Name) (mode : OpenMode) : Option Nat × World Name :=
  match os.answers world.calls with
  | .fail errno => (none, world.tick.fail errno)
  | .grant fd =>
      if (world.process.fds fd).isSome then (none, world.tick.fail .mfile)
      else
        match world.kernel.names name, mode with
        | some _, .exclusive => (none, world.tick.fail .exist)
        | none, .exclusive => (some fd, world.tick.create name fd)
        | some object, mode => (some fd, world.tick.openFd fd ⟨object, mode = .readWrite⟩)
        | none, _ => (none, world.tick.fail .noent)

/-- `ftruncate`. The length arrives as a signed number of 64 bits. -/
def ftruncate (fd length : Nat) : Bool × World Name :=
  match os.answers world.calls with
  | .fail errno => (false, world.tick.fail errno)
  | .grant _ =>
      match world.process.fds fd with
      | none => (false, world.tick.fail .badf)
      | some descriptor =>
          if descriptor.writable ∧ length < 2 ^ 63 then
            (true, world.tick.resize descriptor.object length)
          else (false, world.tick.fail .inval)

/-- `mmap(nullptr, length, PROT_NONE, MAP_PRIVATE | MAP_ANONYMOUS, -1, 0)`. -/
def mmapReserve (length : Nat) : Option Nat × World Name :=
  match os.answers world.calls with
  | .fail errno => (none, world.tick.fail errno)
  | .grant first =>
      if length = 0 then (none, world.tick.fail .inval)
      else if 1 ≤ first ∧ os.Fits first (os.pageCount length) ∧
          world.process.Free first (os.pageCount length) then
        (some (first * os.pageSize), world.tick.map first (os.pageCount length) fun _ => .reserved)
      else (none, world.tick.fail .nomem)

/-- `mmap(nullptr, length, prot, MAP_SHARED, fd, 0)`. -/
def mmapShared (length : Nat) (writable : Bool) (fd : Nat) : Option Nat × World Name :=
  match os.answers world.calls with
  | .fail errno => (none, world.tick.fail errno)
  | .grant first =>
      match world.process.fds fd with
      | none => (none, world.tick.fail .badf)
      | some descriptor =>
          if length = 0 then (none, world.tick.fail .inval)
          else if writable ∧ ¬ descriptor.writable then (none, world.tick.fail .acces)
          else if 1 ≤ first ∧ os.Fits first (os.pageCount length) ∧
              world.process.Free first (os.pageCount length) then
            (some (first * os.pageSize), world.tick.map first (os.pageCount length)
              fun i => .shared descriptor.object i writable)
          else (none, world.tick.fail .nomem)

/-- `mmap(address, length, prot, MAP_SHARED | MAP_FIXED, fd, 0)`. What was mapped there before is
gone. -/
def mmapFixed (address length : Nat) (writable : Bool) (fd : Nat) : Option Nat × World Name :=
  match os.answers world.calls with
  | .fail errno => (none, world.tick.fail errno)
  | .grant _ =>
      match world.process.fds fd with
      | none => (none, world.tick.fail .badf)
      | some descriptor =>
          if length = 0 ∨ address % os.pageSize ≠ 0 then (none, world.tick.fail .inval)
          else if writable ∧ ¬ descriptor.writable then (none, world.tick.fail .acces)
          else if os.Fits (address / os.pageSize) (os.pageCount length) then
            (some address, world.tick.map (address / os.pageSize) (os.pageCount length)
              fun i => .shared descriptor.object i writable)
          else (none, world.tick.fail .nomem)

/-- `munmap`. -/
def munmap (address length : Nat) : World Name :=
  if length = 0 ∨ address % os.pageSize ≠ 0 then world.fail .inval
  else world.withProcess
    (world.process.unmap (address / os.pageSize) (os.pageCount length))

/-- `close`. -/
def close (fd : Nat) : World Name :=
  match world.process.fds fd with
  | none => world.fail .badf
  | some _ => world.withProcess (world.process.setFd fd none)

/-- `shm_unlink`. The object stays for those who have it open. -/
def shmUnlink [DecidableEq Name] (name : Name) : Bool × World Name :=
  match world.kernel.names name with
  | none => (false, world.fail .noent)
  | some _ => (true, world.withKernel (world.kernel.bind name none fun _ h => nomatch h))

/-! ## Accesses -/

/-- Where a byte of the address space is. -/
structure Place where
  object : ObjectId
  offset : Nat
  writable : Bool
deriving DecidableEq

/-- The byte that an address stands for, unless touching it faults. -/
def locate (address : Nat) : Option Place :=
  match world.process.pages (address / os.pageSize) with
  | some (.shared object index writable) =>
      if index * os.pageSize < (world.kernel.objects object).length then
        some ⟨object, index * os.pageSize + address % os.pageSize, writable⟩
      else none
  | _ => none

/-- The bytes from an address on are the bytes of an object from an offset on. -/
def Within (address count : Nat) (place : Place) : Prop :=
  ∀ i < count, locate os world (address + i) = some { place with offset := place.offset + i }

/-- `Within` is decidable byte by byte. -/
instance (address count : Nat) (place : Place) : Decidable (Within os world address count place) :=
  inferInstanceAs (Decidable (∀ i < count, locate os world (address + i) =
    some { place with offset := place.offset + i }))

/-- Load bytes of one object. The result is `none` if that faults. -/
def load (address count : Nat) : Option (List UInt8) :=
  (locate os world address).bind fun place =>
    if Within os world address count place then
      some ((List.range count).map fun i =>
        (world.kernel.objects place.object).bytes (place.offset + i))
    else none

/-- Store bytes of one object. The result is `none` if that faults. -/
def store (address : Nat) (values : List UInt8) : Option (World Name) :=
  (locate os world address).bind fun place =>
    if place.writable ∧ Within os world address values.length place then
      some (world.withKernel (world.kernel.setObject place.object
        ((world.kernel.objects place.object).write place.offset values)))
    else none

/-- Store through a pointer, one after the other. The result is `none` if a store faults. -/
def storeAll (base : Nat) (stores : List (Nat × List UInt8)) : Option (World Name) :=
  stores.foldlM (fun world entry => store os world (base + entry.1) entry.2) world

end Calls

/-! ## What the calls can do -/

section Cases

/-- Everything that `shm_open` can do. -/
inductive ShmOpened [DecidableEq Name] (world : World Name) (name : Name) (mode : OpenMode)
    (world' : World Name) : Option Nat → Prop where
  | failed (errno : Errno) : world' = world.tick.fail errno →
      ShmOpened world name mode world' none
  | created (fd : Nat) : mode = .exclusive → world.process.fds fd = none →
      world.kernel.names name = none → world' = world.tick.create name fd →
      ShmOpened world name mode world' (some fd)
  | opened (fd : Nat) (object : ObjectId) : mode ≠ .exclusive →
      world.process.fds fd = none → world.kernel.names name = some object →
      world' = world.tick.openFd fd ⟨object, mode = .readWrite⟩ →
      ShmOpened world name mode world' (some fd)

theorem shmOpen_cases [DecidableEq Name] (os : Os) (world : World Name) (name : Name)
    (mode : OpenMode) :
    ShmOpened world name mode (shmOpen os world name mode).2 (shmOpen os world name mode).1 := by
  unfold shmOpen
  split
  · exact .failed _ rfl
  · next fd _ =>
      split
      · exact .failed _ rfl
      · next hfree =>
          have hfree' := Option.not_isSome_iff_eq_none.mp hfree
          split
          · exact .failed _ rfl
          · next hname => exact .created fd rfl hfree' hname rfl
          · next object hname hne => exact .opened fd object hne hfree' hname rfl
          · exact .failed _ rfl

/-- Everything that `ftruncate` can do. -/
inductive Truncated (world : World Name) (fd length : Nat) (world' : World Name) :
    Bool → Prop where
  | failed (errno : Errno) : world' = world.tick.fail errno →
      Truncated world fd length world' false
  | resized (descriptor : Descriptor) : world.process.fds fd = some descriptor →
      length < 2 ^ 63 → world' = world.tick.resize descriptor.object length →
      Truncated world fd length world' true

theorem ftruncate_cases (os : Os) (world : World Name) (fd length : Nat) :
    Truncated world fd length (ftruncate os world fd length).2
      (ftruncate os world fd length).1 := by
  unfold ftruncate
  split
  · exact .failed _ rfl
  · split
    · exact .failed _ rfl
    · next descriptor hfd =>
        split
        · next hok => exact .resized descriptor hfd hok.2 rfl
        · exact .failed _ rfl

/-- Everything that the reservation of address space can do. -/
inductive Reserved (os : Os) (world : World Name) (length : Nat) (world' : World Name) :
    Option Nat → Prop where
  | failed (errno : Errno) : world' = world.tick.fail errno → Reserved os world length world' none
  | reserved (first : Nat) : 0 < length → 1 ≤ first → os.Fits first (os.pageCount length) →
      world.process.Free first (os.pageCount length) →
      world' = world.tick.map first (os.pageCount length) (fun _ => .reserved) →
      Reserved os world length world' (some (first * os.pageSize))

theorem mmapReserve_cases (os : Os) (world : World Name) (length : Nat) :
    Reserved os world length (mmapReserve os world length).2
      (mmapReserve os world length).1 := by
  unfold mmapReserve
  split
  · exact .failed _ rfl
  · split
    · exact .failed _ rfl
    · next hlength =>
        split
        · next hok => exact .reserved _ (Nat.pos_of_ne_zero hlength) hok.1 hok.2.1 hok.2.2 rfl
        · exact .failed _ rfl

/-- Everything that a mapping of an object at a place that the kernel picks can do. -/
inductive MappedShared (os : Os) (world : World Name) (length : Nat) (writable : Bool) (fd : Nat)
    (world' : World Name) : Option Nat → Prop where
  | failed (errno : Errno) : world' = world.tick.fail errno →
      MappedShared os world length writable fd world' none
  | mapped (first : Nat) (descriptor : Descriptor) : world.process.fds fd = some descriptor →
      0 < length → 1 ≤ first → os.Fits first (os.pageCount length) →
      world.process.Free first (os.pageCount length) →
      world' = world.tick.map first (os.pageCount length)
        (fun i => .shared descriptor.object i writable) →
      MappedShared os world length writable fd world' (some (first * os.pageSize))

theorem mmapShared_cases (os : Os) (world : World Name) (length : Nat) (writable : Bool)
    (fd : Nat) :
    MappedShared os world length writable fd (mmapShared os world length writable fd).2
      (mmapShared os world length writable fd).1 := by
  unfold mmapShared
  split
  · exact .failed _ rfl
  · split
    · exact .failed _ rfl
    · next descriptor hfd =>
        split
        · exact .failed _ rfl
        · next hlength =>
            split
            · exact .failed _ rfl
            · split
              · next hok =>
                  exact .mapped _ descriptor hfd (Nat.pos_of_ne_zero hlength) hok.1 hok.2.1
                    hok.2.2 rfl
              · exact .failed _ rfl

/-- Everything that a mapping of an object at a given place can do. -/
inductive MappedFixed (os : Os) (world : World Name) (address length : Nat) (writable : Bool)
    (fd : Nat) (world' : World Name) : Option Nat → Prop where
  | failed (errno : Errno) : world' = world.tick.fail errno →
      MappedFixed os world address length writable fd world' none
  | mapped (descriptor : Descriptor) : world.process.fds fd = some descriptor →
      os.Fits (address / os.pageSize) (os.pageCount length) →
      world' = world.tick.map (address / os.pageSize) (os.pageCount length)
        (fun i => .shared descriptor.object i writable) →
      MappedFixed os world address length writable fd world' (some address)

theorem mmapFixed_cases (os : Os) (world : World Name) (address length : Nat) (writable : Bool)
    (fd : Nat) :
    MappedFixed os world address length writable fd
      (mmapFixed os world address length writable fd).2
      (mmapFixed os world address length writable fd).1 := by
  unfold mmapFixed
  split
  · exact .failed _ rfl
  · split
    · exact .failed _ rfl
    · next descriptor hfd =>
        split
        · exact .failed _ rfl
        · split
          · exact .failed _ rfl
          · split
            · next hfits => exact .mapped descriptor hfd hfits rfl
            · exact .failed _ rfl

end Cases

/-! ## Calls that succeed -/

section Granted

variable {os : Os} {world : World Name} {fd first length choice : Nat} {descriptor : Descriptor}
  {writable : Bool}

theorem shmOpen_exclusive [DecidableEq Name] {name : Name}
    (hgrant : os.answers world.calls = .grant fd) (hfd : world.process.fds fd = none)
    (hname : world.kernel.names name = none) :
    shmOpen os world name .exclusive = (some fd, world.tick.create name fd) := by
  rw [shmOpen, hgrant]
  dsimp only
  rw [if_neg (by simp [hfd]), hname]

theorem shmOpen_existing [DecidableEq Name] {name : Name} {mode : OpenMode} {object : ObjectId}
    (hgrant : os.answers world.calls = .grant fd) (hfd : world.process.fds fd = none)
    (hname : world.kernel.names name = some object) (hmode : mode ≠ .exclusive) :
    shmOpen os world name mode =
      (some fd, world.tick.openFd fd ⟨object, mode = .readWrite⟩) := by
  rw [shmOpen, hgrant]
  dsimp only
  rw [if_neg (by simp [hfd]), hname]
  cases mode with
  | exclusive => exact absurd rfl hmode
  | readWrite => rfl
  | readOnly => rfl

theorem ftruncate_granted (hgrant : os.answers world.calls = .grant choice)
    (hfd : world.process.fds fd = some descriptor) (hwritable : descriptor.writable)
    (hlength : length < 2 ^ 63) :
    ftruncate os world fd length = (true, world.tick.resize descriptor.object length) := by
  rw [ftruncate, hgrant]
  dsimp only
  rw [hfd]
  exact if_pos ⟨hwritable, hlength⟩

theorem mmapReserve_granted (hgrant : os.answers world.calls = .grant first)
    (hlength : 0 < length) (hfirst : 1 ≤ first) (hfits : os.Fits first (os.pageCount length))
    (hfree : world.process.Free first (os.pageCount length)) :
    mmapReserve os world length = (some (first * os.pageSize),
      world.tick.map first (os.pageCount length) fun _ => .reserved) := by
  rw [mmapReserve, hgrant]
  dsimp only
  rw [if_neg (Nat.ne_of_gt hlength), if_pos ⟨hfirst, hfits, hfree⟩]

theorem mmapShared_granted (hgrant : os.answers world.calls = .grant first)
    (hfd : world.process.fds fd = some descriptor)
    (hwritable : writable = true → descriptor.writable = true) (hlength : 0 < length)
    (hfirst : 1 ≤ first) (hfits : os.Fits first (os.pageCount length))
    (hfree : world.process.Free first (os.pageCount length)) :
    mmapShared os world length writable fd = (some (first * os.pageSize),
      world.tick.map first (os.pageCount length)
        fun i => .shared descriptor.object i writable) := by
  rw [mmapShared, hgrant]
  dsimp only
  rw [hfd]
  dsimp only
  rw [if_neg (Nat.ne_of_gt hlength), if_neg (fun h => h.2 (hwritable h.1)),
    if_pos ⟨hfirst, hfits, hfree⟩]

theorem mmapFixed_granted (hgrant : os.answers world.calls = .grant choice)
    (hfd : world.process.fds fd = some descriptor)
    (hwritable : writable = true → descriptor.writable = true) (hlength : 0 < length)
    (hfits : os.Fits first (os.pageCount length)) :
    mmapFixed os world (first * os.pageSize) length writable fd = (some (first * os.pageSize),
      world.tick.map first (os.pageCount length)
        fun i => .shared descriptor.object i writable) := by
  rw [mmapFixed, hgrant]
  dsimp only
  rw [hfd]
  dsimp only
  rw [Nat.mul_div_cancel _ os.pageSize_pos, if_neg (by simp; omega),
    if_neg (fun h => h.2 (hwritable h.1)), if_pos hfits]

end Granted

/-! ## What stays -/

/-- Another process sees no difference, and this one has the same descriptors and pages. -/
structure Untouched (world world' : World Name) : Prop where
  kernel : world'.kernel = world.kernel
  fds : world'.process.fds = world.process.fds
  pages : world'.process.pages = world.process.pages

/-- As before, except for objects that no name leads to. -/
structure Restored (world world' : World Name) : Prop where
  names : world'.kernel.names = world.kernel.names
  objects : ∀ object < world.kernel.objectCount,
    world'.kernel.objects object = world.kernel.objects object
  fds : world'.process.fds = world.process.fds
  pages : world'.process.pages = world.process.pages

section Effects

variable {os : Os} {world world' : World Name} {fd length first count : Nat} {page : Nat → Page}

theorem Untouched.refl (world : World Name) : Untouched world world := ⟨rfl, rfl, rfl⟩

theorem Untouched.restored (h : Untouched world world') : Restored world world' :=
  ⟨by rw [h.kernel], fun _ _ => by rw [h.kernel], h.fds, h.pages⟩

/-- What was free before it was taken is free again. -/
theorem update_undone {Key Value : Type} [DecidableEq Key] {table : Key → Option Value} {key : Key}
    (h : table key = none) (value : Option Value) :
    Function.update (Function.update table key value) key none = table := by
  rw [Function.update_idem, ← h, Function.update_eq_self]

/-- A call that has failed changes nothing. -/
theorem untouched_fail (world : World Name) (errno : Errno) :
    Untouched world (world.tick.fail errno) := ⟨rfl, rfl, rfl⟩

@[simp] theorem map_kernel : (world.map first count page).kernel = world.kernel := rfl
@[simp] theorem map_fds : (world.map first count page).process.fds = world.process.fds := rfl
@[simp] theorem map_errno : (world.map first count page).process.errno = world.process.errno := rfl
@[simp] theorem tick_kernel : world.tick.kernel = world.kernel := rfl
@[simp] theorem tick_process : world.tick.process = world.process := rfl

/-- A page after a mapping. -/
theorem map_pages (p : Nat) : (world.map first count page).process.pages p =
    if first ≤ p ∧ p < first + count then some (page (p - first)) else world.process.pages p := rfl

/-- Unmapping a range that a call knows to be there. -/
theorem munmap_eq (hlength : 0 < length) :
    munmap os world (first * os.pageSize) length =
      world.withProcess (world.process.unmap first (os.pageCount length)) := by
  rw [munmap, if_neg (by simp; omega), Nat.mul_div_cancel _ os.pageSize_pos]

/-- Closing an open descriptor. -/
theorem close_eq {descriptor : Descriptor} (h : world.process.fds fd = some descriptor) :
    close world fd = world.withProcess (world.process.setFd fd none) := by
  rw [close, h]

/-- Unlinking a name that is bound. -/
theorem shmUnlink_eq [DecidableEq Name] {name : Name} {object : ObjectId}
    (h : world.kernel.names name = some object) :
    shmUnlink world name =
      (true, world.withKernel (world.kernel.bind name none fun _ h => nomatch h)) := by
  rw [shmUnlink, h]

end Effects

/-! ## Loads and stores -/

section Accesses

variable {os : Os} {world world' : World Name} {place : Place} {address count : Nat}
  {values : List UInt8}

/-- The first byte of a range. -/
theorem Within.locate_eq (h : Within os world address count place) (hcount : 0 < count) :
    locate os world address = some place := h 0 hcount

/-- A part of a range. -/
theorem Within.part (h : Within os world address count place) {offset length : Nat}
    (hpart : offset + length ≤ count) :
    Within os world (address + offset) length
      { place with offset := place.offset + offset } := by
  intro i hi
  rw [Nat.add_assoc, h (offset + i) (by omega)]
  simp only [Nat.add_assoc]

/-- A byte stays where it is if its page stays and its object keeps its length. -/
theorem locate_kept (h : locate os world address = some place)
    (hpage : ∀ page, world.process.pages (address / os.pageSize) = some page →
      world'.process.pages (address / os.pageSize) = some page)
    (hlength : (world'.kernel.objects place.object).length =
      (world.kernel.objects place.object).length) :
    locate os world' address = some place := by
  unfold locate at h ⊢
  split at h
  · next object index writable hshared =>
      rw [hpage _ hshared]
      split at h
      · next hinside =>
          obtain rfl := Option.some.inj h
          rw [← hlength] at hinside
          exact if_pos hinside
      · cases h
  · cases h

/-- A range stays where it is if its pages stay and its object keeps its length. -/
theorem Within.kept (h : Within os world address count place)
    (hpages : ∀ p page, world.process.pages p = some page → world'.process.pages p = some page)
    (hlength : (world'.kernel.objects place.object).length =
      (world.kernel.objects place.object).length) :
    Within os world' address count place :=
  fun i hi => locate_kept (h i hi) (fun page => hpages _ page) hlength

/-- A load from a range of an object. -/
theorem load_eq (h : Within os world address count place) (hcount : 0 < count) :
    load os world address count = some ((List.range count).map fun i =>
      (world.kernel.objects place.object).bytes (place.offset + i)) := by
  rw [load, h.locate_eq hcount]
  exact if_pos h

/-- A store to a range of an object. -/
theorem store_eq (h : Within os world address values.length place) (hwritable : place.writable)
    (hvalues : 0 < values.length) :
    store os world address values = some (world.withKernel (world.kernel.setObject place.object
      ((world.kernel.objects place.object).write place.offset values))) := by
  rw [store, h.locate_eq hvalues]
  exact if_pos ⟨hwritable, h⟩

/-- Stores inside a range of an object, one after the other. -/
theorem storeAll_eq {object : ObjectId} {stores : List (Nat × List UInt8)}
    (h : Within os world address count ⟨object, 0, true⟩)
    (hstores : ∀ entry ∈ stores, 0 < entry.2.length ∧ entry.1 + entry.2.length ≤ count) :
    storeAll os world address stores = some (world.withKernel (world.kernel.setObject object
      (stores.foldl (fun segment entry => segment.write entry.1 entry.2)
        (world.kernel.objects object)))) := by
  induction stores generalizing world with
  | nil =>
      simp only [storeAll, List.foldlM_nil, List.foldl_nil, Option.pure_def, World.withKernel,
        Kernel.setObject, Function.update_eq_self]
  | cons entry rest ih =>
      obtain ⟨hpos, hend⟩ := hstores entry (by simp)
      have hstore := store_eq (h.part hend) rfl hpos
      rw [Nat.zero_add] at hstore
      have hwithin : Within os (world.withKernel (world.kernel.setObject object
          ((world.kernel.objects object).write entry.1 entry.2))) address count
          ⟨object, 0, true⟩ := by
        refine h.kept (fun _ _ hpage => hpage) ?_
        change (Function.update world.kernel.objects object _ object).length = _
        rw [Function.update_self]
        rfl
      have hrest := ih hwithin fun entry hentry => hstores entry (List.mem_cons_of_mem _ hentry)
      rw [storeAll] at hrest ⊢
      rw [List.foldlM_cons, hstore]
      refine hrest.trans ?_
      simp [World.withKernel, Kernel.setObject]

/-- A byte that no store covers. -/
theorem bytes_foldl_write {stores : List (Nat × List UInt8)} {segment : Segment} {i : Nat}
    (h : ∀ entry ∈ stores, i < entry.1 ∨ entry.1 + entry.2.length ≤ i) :
    (stores.foldl (fun segment entry => segment.write entry.1 entry.2) segment).bytes i =
      segment.bytes i := by
  induction stores generalizing segment with
  | nil => rfl
  | cons entry rest ih =>
      have hentry := h entry (by simp)
      rw [List.foldl_cons, ih fun entry hmem => h entry (List.mem_cons_of_mem _ hmem)]
      exact if_neg (by omega)

/-- Stores keep the length of the object. -/
theorem length_foldl_write (stores : List (Nat × List UInt8)) (segment : Segment) :
    (stores.foldl (fun segment entry => segment.write entry.1 entry.2) segment).length =
      segment.length := by
  induction stores generalizing segment with
  | nil => rfl
  | cons entry rest ih => exact ih _

/-- What has been stored is loaded again. -/
theorem range_map_write (segment : Segment) (offset : Nat) (values : List UInt8) :
    ((List.range values.length).map fun i => (segment.write offset values).bytes (offset + i)) =
      values := by
  refine List.ext_getElem (by simp) fun i hi hi' => ?_
  have hinside : offset ≤ offset + i ∧ offset + i < offset + values.length := by omega
  rw [List.getElem_map, List.getElem_range]
  refine (if_pos hinside).trans ?_
  simp [hi']

end Accesses

/-! ## Pages -/

section Pages

variable {os : Os}

/-- Pages that are needed for so many bytes start before the end of these bytes. -/
theorem Os.lt_pageCount {k length : Nat} : k < os.pageCount length ↔ k * os.pageSize < length := by
  have hpos := os.pageSize_pos
  rw [Os.pageCount, ← Nat.succ_le_iff, Nat.le_div_iff_mul_le hpos, Nat.succ_mul]
  omega

/-- A length that is aligned is the size of its pages. -/
theorem Os.pageCount_mul {length : Nat} (h : length % os.pageSize = 0) :
    os.pageCount length * os.pageSize = length := by
  have hpos := os.pageSize_pos
  obtain ⟨k, rfl⟩ := Nat.dvd_of_mod_eq_zero h
  have hk : os.pageCount (os.pageSize * k) = k := by
    rw [Os.pageCount, Nat.add_sub_assoc (Nat.succ_le_of_lt hpos), Nat.mul_add_div hpos,
      Nat.div_eq_of_lt (by omega), Nat.add_zero]
  rw [hk, Nat.mul_comm]

/-- Twice an aligned length takes twice the pages. -/
theorem Os.pageCount_double {length : Nat} (h : length % os.pageSize = 0) :
    os.pageCount (2 * length) = 2 * os.pageCount length := by
  have hdouble : 2 * length % os.pageSize = 0 := by
    rw [Nat.mul_mod, h, Nat.mul_zero, Nat.zero_mod]
  have hsingle := os.pageCount_mul h
  refine Nat.eq_of_mul_eq_mul_right os.pageSize_pos ?_
  rw [os.pageCount_mul hdouble, Nat.mul_assoc, hsingle]

/-- The pages hold the bytes. -/
theorem Os.le_pageCount_mul (os : Os) (length : Nat) : length ≤ os.pageCount length * os.pageSize :=
  Nat.le_of_not_lt fun h => Nat.lt_irrefl _ (Os.lt_pageCount.mpr h)

end Pages

end HotPath.Foundation.Posix
