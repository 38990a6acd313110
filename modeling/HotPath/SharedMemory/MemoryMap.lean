import HotPath.Foundation.SharedObjects
import HotPath.SharedMemory.Layout

/-!
# Mapped shared memory

`MemoryMap` and the functions that make one, over the system calls of `SharedObjects`. What they
do is said once for each of them (`doMap_cases`, `create_cases`, `open_cases`): a failed call
leaves the names, the descriptors and the pages as they were, and a successful one maps one or two
copies of the first pages of one object.

Only `Create` sets the length of the object. `success_backed_iff` says when the bytes that `Open`
and `CreateOrOpen` promise are backed.
-/

namespace HotPath.SharedMemory

open HotPath.Foundation.Posix

/-- `MAP_FAILED`. -/
def mapFailed : Nat := 2 ^ 64 - 1

/-- `MemoryMap`. A descriptor of -1 and a null address stand for nothing. -/
structure MemoryMap where
  name : String
  fd : Int
  addr : Nat
  size : UInt64
  isMirrored : Bool
deriving DecidableEq

/-- `ErrnoToStatus`. -/
def errnoToStatus (os : Os) (msg : String) (errno : Option Errno) : Status :=
  { code := match errno with
      | some .noent => .notFound
      | some .exist => .alreadyExists
      | some .acces | some .perm => .permissionDenied
      | some .nomem => .resourceExhausted
      | some .inval => .invalidArgument
      | _ => .internal
    message := msg ++ ": " ++ os.strerror errno }

/-- `ErrnoToStatus` after a call has failed. -/
def failure {α : Type} (os : Os) (msg : String) (world : World String) :
    Except Status α × World String :=
  (.error (errnoToStatus os msg world.process.errno), world)

/-- `DoMap`. -/
def doMap (os : Os) (world : World String) (fd : Nat) (size : UInt64)
    (writable useMagicMirror : Bool) : Except Status Nat × World String :=
  if ¬ useMagicMirror then
    match mmapShared os world size.toNat writable fd with
    | (none, world) => failure os "mmap failed" world
    | (some addr, world) => (.ok addr, world)
  else
    let totalSize := 2 * size
    match mmapReserve os world totalSize.toNat with
    | (none, world) => failure os "mmap for address space reservation failed" world
    | (some baseAddr, world) =>
        match mmapFixed os world baseAddr size.toNat writable fd with
        | (none, world) =>
            failure os "mmap for first half of magic mirror failed"
              (munmap os world baseAddr totalSize.toNat)
        | (some _, world) =>
            match mmapFixed os world (baseAddr + size.toNat) size.toNat writable fd with
            | (none, world) =>
                failure os "mmap for second half of magic mirror failed"
                  (munmap os world baseAddr totalSize.toNat)
            | (some _, world) => (.ok baseAddr, world)

/-- The size must be page-aligned for a magic mirror. -/
def misaligned (os : Os) (size : UInt64) : Status :=
  { code := .invalidArgument
    message := "Size for magic mirror must be page-aligned (" ++ toString os.pageSize ++
      " bytes). Requested: " ++ toString size }

/-- `MemoryMap::Create`. -/
def MemoryMap.create (os : Os) (world : World String) (name : String) (size : UInt64)
    (useMagicMirror : Bool) : Except Status MemoryMap × World String :=
  if useMagicMirror ∧ size.toNat % os.pageSize ≠ 0 then (.error (misaligned os size), world)
  else
    match shmOpen os world name .exclusive with
    | (none, world) => failure os "shm_open failed in Create" world
    | (some fd, world) =>
        match ftruncate os world fd size.toNat with
        | (false, world) =>
            failure os "ftruncate failed" (shmUnlink (close world fd) name).2
        | (true, world) =>
            match doMap os world fd size true useMagicMirror with
            | (.error status, world) => (.error status, (shmUnlink (close world fd) name).2)
            | (.ok addr, world) => (.ok ⟨name, fd, addr, size, useMagicMirror⟩, world)

/-- `MemoryMap::Open`. -/
def MemoryMap.open (os : Os) (world : World String) (name : String) (size : UInt64)
    (readonly useMagicMirror : Bool) : Except Status MemoryMap × World String :=
  if useMagicMirror ∧ size.toNat % os.pageSize ≠ 0 then (.error (misaligned os size), world)
  else
    match shmOpen os world name (if readonly then .readOnly else .readWrite) with
    | (none, world) => failure os "shm_open failed in Open" world
    | (some fd, world) =>
        match doMap os world fd size (!readonly) useMagicMirror with
        | (.error status, world) => (.error status, close world fd)
        | (.ok addr, world) => (.ok ⟨name, fd, addr, size, useMagicMirror⟩, world)

/-- `MemoryMap::CreateOrOpen`. -/
def MemoryMap.createOrOpen (os : Os) (world : World String) (name : String) (size : UInt64)
    (useMagicMirror : Bool) : Except Status MemoryMap × World String :=
  match MemoryMap.create os world name size useMagicMirror with
  | (.ok map, world) => (.ok map, world)
  | (.error status, world) =>
      if status.code = .alreadyExists then
        MemoryMap.open os world name size false useMagicMirror
      else (.error status, world)

/-- `MemoryMap::Unlink`. -/
def MemoryMap.unlink (os : Os) (world : World String) (name : String) :
    Except Status Unit × World String :=
  match shmUnlink world name with
  | (false, world) => failure os "shm_unlink failed" world
  | (true, world) => (.ok (), world)

/-- The length that `~MemoryMap` unmaps. -/
def MemoryMap.mappedSize (map : MemoryMap) : UInt64 :=
  if map.isMirrored then 2 * map.size else map.size

/-- `~MemoryMap`. -/
def MemoryMap.destroy (os : Os) (world : World String) (map : MemoryMap) : World String :=
  let world :=
    if map.addr ≠ mapFailed ∧ map.addr ≠ 0 then munmap os world map.addr map.mappedSize.toNat
    else world
  if map.fd ≠ -1 then close world map.fd.toNat else world

/-! ## Mapping -/

/-- How often the object is mapped. -/
def copies (useMagicMirror : Bool) : Nat := if useMagicMirror then 2 else 1

theorem copies_pos (useMagicMirror : Bool) : 0 < copies useMagicMirror := by
  unfold copies
  split <;> omega

/-- What a successful `DoMap` has done: one or two copies of the first pages of the object, in a
place where no page was mapped. -/
structure Mapped (os : Os) (world : World String) (object : ObjectId) (size : UInt64)
    (writable useMagicMirror : Bool) (first : Nat) (world' : World String) : Prop where
  kernel : world'.kernel = world.kernel
  fds : world'.process.fds = world.process.fds
  errno : world'.process.errno = world.process.errno
  pos : 0 < size.toNat
  small : size.toNat < 2 ^ 63
  first_pos : 1 ≤ first
  fits : os.Fits first (copies useMagicMirror * os.pageCount size.toNat)
  free : world.process.Free first (copies useMagicMirror * os.pageCount size.toNat)
  pages : ∀ p, world'.process.pages p =
    if first ≤ p ∧ p < first + copies useMagicMirror * os.pageCount size.toNat then
      some (.shared object ((p - first) % os.pageCount size.toNat) writable)
    else world.process.pages p

/-- Everything that `DoMap` can do. -/
inductive DoMapped (os : Os) (world : World String) (fd : Nat) (size : UInt64)
    (writable useMagicMirror : Bool) : Except Status Nat → World String → Prop where
  | failed (status : Status) (world' : World String) : Untouched world world' →
      world'.process.errno.isSome → DoMapped os world fd size writable useMagicMirror
        (.error status) world'
  | mapped (first : Nat) (descriptor : Descriptor) (world' : World String) :
      world.process.fds fd = some descriptor →
      Mapped os world descriptor.object size writable useMagicMirror first world' →
      DoMapped os world fd size writable useMagicMirror (.ok (first * os.pageSize)) world'

section Mapping

variable {os : Os} {world world' : World String} {fd : Nat} {size : UInt64}
  {writable useMagicMirror : Bool} {first count : Nat}

/-- Pages that were free are free again after they have been unmapped. -/
theorem unmapped_pages {process : Process} (hfree : world.process.Free first count)
    (hoff : ∀ p, ¬ (first ≤ p ∧ p < first + count) → process.pages p = world.process.pages p) :
    (process.unmap first count).pages = world.process.pages := by
  funext p
  by_cases hp : first ≤ p ∧ p < first + count
  · have hnone := hfree (p - first) (by omega)
    rw [show first + (p - first) = p by omega] at hnone
    rw [Process.unmap, hnone]
    exact if_pos hp
  · exact (if_neg hp).trans (hoff p hp)

/-- An address space has less than `2 ^ 63` bytes. -/
theorem size_small (hfirst : 1 ≤ first) (hfits : os.Fits first (os.pageCount size.toNat)) :
    size.toNat < 2 ^ 63 := by
  have hlimit := os.limit_le
  have hpos := os.pageSize_pos
  have hle := os.le_pageCount_mul size.toNat
  have hmul : os.pageSize ≤ first * os.pageSize := Nat.le_mul_of_pos_left _ hfirst
  unfold Os.Fits at hfits
  rw [Nat.add_mul] at hfits
  omega

/-- `DoMap` without the mirror. -/
theorem doMap_single (os : Os) (world : World String) (fd : Nat) (size : UInt64) (writable : Bool) :
    DoMapped os world fd size writable false (doMap os world fd size writable false).1
      (doMap os world fd size writable false).2 := by
  have hmap := mmapShared_cases os world size.toNat writable fd
  simp only [doMap, Bool.false_eq_true, not_false_eq_true, if_true]
  generalize mmapShared os world size.toNat writable fd = result at hmap ⊢
  obtain ⟨address, world₁⟩ := result
  dsimp only at hmap
  cases hmap with
  | failed errno hworld₁ =>
      subst hworld₁
      exact .failed _ _ (untouched_fail world errno) rfl
  | mapped first descriptor hfd hpos hfirst hfits hfree hworld₁ =>
      subst hworld₁
      refine .mapped first descriptor _ hfd ⟨rfl, rfl, rfl, hpos, size_small hfirst hfits, hfirst,
        ?_, ?_, fun p => ?_⟩
      · rwa [copies, if_neg Bool.false_ne_true, Nat.one_mul]
      · rwa [copies, if_neg Bool.false_ne_true, Nat.one_mul]
      · refine (map_pages p).trans ?_
        rw [copies, if_neg Bool.false_ne_true, Nat.one_mul]
        refine ite_congr rfl (fun hp => ?_) fun _ => rfl
        rw [Nat.mod_eq_of_lt (by omega)]

/-- Two copies in a row, mapped one after the other. -/
theorem mirror_pages {object : ObjectId} {process : Nat → Option Page}
    (hoff : ∀ p, ¬ (first ≤ p ∧ p < first + 2 * count) →
      world.process.pages p = process p) (p : Nat) :
    (if first + count ≤ p ∧ p < first + count + count then
      some (Page.shared object (p - (first + count)) writable)
    else (world.map first count fun i => .shared object i writable).process.pages p) =
      if first ≤ p ∧ p < first + 2 * count then
        some (.shared object ((p - first) % count) writable)
      else process p := by
  rw [map_pages]
  by_cases hsecond : first + count ≤ p ∧ p < first + count + count
  · rw [if_pos hsecond, if_pos (by omega), Nat.mod_eq_sub_mod (by omega),
      Nat.mod_eq_of_lt (by omega), Nat.sub_sub]
  · rw [if_neg hsecond]
    by_cases hhalf : first ≤ p ∧ p < first + count
    · rw [if_pos hhalf, if_pos (by omega), Nat.mod_eq_of_lt (by omega)]
    · rw [if_neg hhalf, if_neg (by omega)]
      exact hoff p (by omega)

/-- `DoMap` with the mirror. -/
theorem doMap_mirror (os : Os) (world : World String) (fd : Nat) (size : UInt64) (writable : Bool)
    (halign : size.toNat % os.pageSize = 0) :
    DoMapped os world fd size writable true (doMap os world fd size writable true).1
      (doMap os world fd size writable true).2 := by
  have hreserve := mmapReserve_cases os world (2 * size).toNat
  simp only [doMap, not_true_eq_false, if_false]
  generalize mmapReserve os world (2 * size).toNat = result at hreserve ⊢
  obtain ⟨address, world₁⟩ := result
  dsimp only at hreserve
  cases hreserve with
  | failed errno hworld₁ =>
      subst hworld₁
      exact .failed _ _ (untouched_fail world errno) rfl
  | reserved first hpos hfirst hfits hfree hworld₁ =>
      dsimp only
      have hhalf := mmapFixed_cases os world₁ (first * os.pageSize) size.toNat writable fd
      generalize mmapFixed os world₁ (first * os.pageSize) size.toNat writable fd = result
        at hhalf ⊢
      obtain ⟨half, world₂⟩ := result
      dsimp only at hhalf
      cases hhalf with
      | failed errno hworld₂ =>
          dsimp only
          rw [munmap_eq hpos]
          subst hworld₂
          subst hworld₁
          exact .failed _ _ ⟨rfl, rfl, unmapped_pages hfree fun p hp => if_neg hp⟩ rfl
      | mapped descriptor hfd hfits₁ hworld₂ =>
          rw [Nat.mul_div_cancel _ os.pageSize_pos] at hfits₁ hworld₂
          have hsmall := size_small hfirst hfits₁
          have htotal : (2 * size).toNat = 2 * size.toNat := by
            rw [UInt64.toNat_mul]
            exact Nat.mod_eq_of_lt (by simp only [UInt64.reduceToNat]; omega)
          have hcount : os.pageCount (2 * size).toNat = 2 * os.pageCount size.toNat := by
            rw [htotal, os.pageCount_double halign]
          have hsecond : first * os.pageSize + size.toNat =
              (first + os.pageCount size.toNat) * os.pageSize := by
            rw [Nat.add_mul, os.pageCount_mul halign]
          dsimp only
          rw [hsecond]
          have hhalf' := mmapFixed_cases os world₂
            ((first + os.pageCount size.toNat) * os.pageSize) size.toNat writable fd
          generalize mmapFixed os world₂ ((first + os.pageCount size.toNat) * os.pageSize)
            size.toNat writable fd = result at hhalf' ⊢
          obtain ⟨half', world₃⟩ := result
          dsimp only at hhalf'
          -- Only the reserved pages have been touched so far.
          have hpages₂ : ∀ p, ¬ (first ≤ p ∧ p < first + os.pageCount (2 * size).toNat) →
              world₂.process.pages p = world.process.pages p := by
            intro p hp
            rw [hworld₂, map_pages, if_neg (by omega), hworld₁]
            exact if_neg hp
          cases hhalf' with
          | failed errno hworld₃ =>
              dsimp only
              rw [munmap_eq hpos]
              subst hworld₃
              refine .failed _ _ ⟨?_, ?_, unmapped_pages hfree hpages₂⟩ rfl
              · rw [hworld₁] at hworld₂
                rw [hworld₂]
                rfl
              · rw [hworld₁] at hworld₂
                rw [hworld₂]
                rfl
          | mapped descriptor' hfd' hfits₂ hworld₃ =>
              rw [Nat.mul_div_cancel _ os.pageSize_pos] at hworld₃
              have hfds : world₂.process.fds = world.process.fds := by
                rw [hworld₂, map_fds, tick_process, hworld₁]
                rfl
              have hfds₁ : world₁.process.fds = world.process.fds := by
                rw [hworld₁]
                rfl
              rw [hfds] at hfd'
              rw [hfds₁] at hfd
              obtain rfl := Option.some.inj (hfd.symm.trans hfd')
              rw [htotal] at hpos
              rw [hcount] at hfits hfree
              refine .mapped first descriptor _ hfd ⟨?_, ?_, ?_, by omega, hsmall, hfirst, hfits,
                hfree, fun p => ?_⟩
              · rw [hworld₃, map_kernel, tick_kernel, hworld₂, map_kernel, tick_kernel, hworld₁]
                rfl
              · rw [hworld₃, map_fds, tick_process, hfds]
              · rw [hworld₃, map_errno, tick_process, hworld₂, map_errno, tick_process, hworld₁]
                rfl
              · rw [hworld₃, map_pages, tick_process, hworld₂]
                exact mirror_pages (fun p hp => by
                  rw [hworld₁]
                  exact if_neg (hcount ▸ hp)) p

theorem doMap_cases (os : Os) (world : World String) (fd : Nat) (size : UInt64)
    (writable useMagicMirror : Bool)
    (halign : useMagicMirror = true → size.toNat % os.pageSize = 0) :
    DoMapped os world fd size writable useMagicMirror
      (doMap os world fd size writable useMagicMirror).1
      (doMap os world fd size writable useMagicMirror).2 := by
  cases useMagicMirror with
  | false => exact doMap_single os world fd size writable
  | true => exact doMap_mirror os world fd size writable (halign rfl)

end Mapping

/-! ## Creating and opening -/

section Segments

variable {os : Os} {world world' world'' : World String} {name : String} {size : UInt64}
  {fd first : Nat} {writable readonly useMagicMirror : Bool} {object : ObjectId}

/-- The new object of `Create`, before it is mapped. -/
def sized (world : World String) (name : String) (fd : Nat) (size : UInt64) : World String :=
  (world.create name fd).resize world.kernel.objectCount size.toNat

@[simp] theorem sized_names : (sized world name fd size).kernel.names =
    Function.update world.kernel.names name (some world.kernel.objectCount) := rfl

@[simp] theorem sized_objectCount :
    (sized world name fd size).kernel.objectCount = world.kernel.objectCount + 1 := rfl

@[simp] theorem sized_length :
    ((sized world name fd size).kernel.objects world.kernel.objectCount).length = size.toNat := by
  simp [sized, World.resize, World.withKernel, Kernel.setObject, Segment.resize]

/-- The objects that were there before stay. -/
theorem sized_objects {object : ObjectId} (hlt : object < world.kernel.objectCount) :
    (sized world name fd size).kernel.objects object = world.kernel.objects object :=
  (Function.update_of_ne (Nat.ne_of_lt hlt) ..).trans
    (Function.update_of_ne (Nat.ne_of_lt hlt) ..)

/-- Everything that `Create` can do. -/
inductive Created (os : Os) (world : World String) (name : String) (size : UInt64)
    (useMagicMirror : Bool) (world' : World String) : Except Status MemoryMap → Prop where
  | failed (status : Status) : Restored world world' →
      Created os world name size useMagicMirror world' (.error status)
  | created (fd first : Nat) : world.kernel.names name = none → world.process.fds fd = none →
      (useMagicMirror = true → size.toNat % os.pageSize = 0) →
      Mapped os (sized world name fd size) world.kernel.objectCount size true useMagicMirror
        first world' →
      Created os world name size useMagicMirror world'
        (.ok ⟨name, fd, first * os.pageSize, size, useMagicMirror⟩)

/-- Closing and unlinking a segment that `Create` has made. -/
theorem restored_unlinked (hname : world.kernel.names name = none)
    (hfd : world.process.fds fd = none)
    (hnames : world'.kernel.names = (world.create name fd).kernel.names)
    (hobjects : ∀ object < world.kernel.objectCount,
      world'.kernel.objects object = world.kernel.objects object)
    (hfds : world'.process.fds = (world.create name fd).process.fds)
    (hpages : world'.process.pages = world.process.pages) :
    Restored world (shmUnlink (close world' fd) name).2 := by
  have hopen : world'.process.fds fd = some ⟨world.kernel.objectCount, true⟩ := by
    rw [hfds]
    exact Function.update_self ..
  have hbound : (close world' fd).kernel.names name = some world.kernel.objectCount := by
    rw [close_eq hopen]
    change world'.kernel.names name = _
    rw [hnames]
    exact Function.update_self ..
  rw [shmUnlink_eq hbound, close_eq hopen]
  refine ⟨?_, hobjects, ?_, hpages⟩
  · change Function.update world'.kernel.names name none = world.kernel.names
    rw [hnames]
    exact update_undone hname _
  · change Function.update world'.process.fds fd none = world.process.fds
    rw [hfds]
    exact update_undone hfd _

theorem create_cases (os : Os) (world : World String) (name : String) (size : UInt64)
    (useMagicMirror : Bool) :
    Created os world name size useMagicMirror
      (MemoryMap.create os world name size useMagicMirror).2
      (MemoryMap.create os world name size useMagicMirror).1 := by
  unfold MemoryMap.create
  split
  · exact .failed _ (Untouched.refl world).restored
  · next haligned =>
      have halign : useMagicMirror = true → size.toNat % os.pageSize = 0 := by
        intro hmirror
        by_contra hne
        exact haligned ⟨hmirror, hne⟩
      have hopen := shmOpen_cases os world name .exclusive
      generalize shmOpen os world name .exclusive = result at hopen ⊢
      obtain ⟨fd, world₁⟩ := result
      dsimp only at hopen
      cases hopen with
      | failed errno hworld₁ =>
          subst hworld₁
          exact .failed _ (untouched_fail world errno).restored
      | opened fd object hne => exact absurd rfl hne
      | created fd _ hfd hname hworld₁ =>
          have hobjects : ∀ object < world.kernel.objectCount,
              (world.create name fd).kernel.objects object = world.kernel.objects object :=
            fun object hlt => Function.update_of_ne (Nat.ne_of_lt hlt) ..
          dsimp only
          have htruncate := ftruncate_cases os world₁ fd size.toNat
          generalize ftruncate os world₁ fd size.toNat = result at htruncate ⊢
          obtain ⟨truncated, world₂⟩ := result
          dsimp only at htruncate
          cases htruncate with
          | failed errno hworld₂ =>
              subst hworld₂
              subst hworld₁
              exact .failed _ (restored_unlinked hname hfd rfl hobjects rfl rfl)
          | resized descriptor hdescriptor _ hworld₂ =>
              have hobject : descriptor = ⟨world.kernel.objectCount, true⟩ := by
                subst hworld₁
                exact Option.some.inj (hdescriptor.symm.trans (Function.update_self ..))
              subst hobject
              have hkernel : world₂.kernel = (sized world name fd size).kernel := by
                subst hworld₂
                subst hworld₁
                rfl
              have hprocess : world₂.process = (sized world name fd size).process := by
                subst hworld₂
                subst hworld₁
                rfl
              dsimp only
              have hmap := doMap_cases os world₂ fd size true useMagicMirror halign
              generalize doMap os world₂ fd size true useMagicMirror = result at hmap ⊢
              obtain ⟨mapped, world₃⟩ := result
              dsimp only at hmap
              cases hmap with
              | failed status _ huntouched =>
                  refine .failed _ (restored_unlinked hname hfd ?_ (fun object hlt => ?_) ?_ ?_)
                  · rw [huntouched.kernel, hkernel]
                    rfl
                  · rw [huntouched.kernel, hkernel]
                    exact sized_objects hlt
                  · rw [huntouched.fds, hprocess]
                    rfl
                  · rw [huntouched.pages, hprocess]
                    rfl
              | mapped first descriptor _ hopen hmapped =>
                  rw [hprocess] at hopen
                  obtain rfl := Option.some.inj (hopen.symm.trans (Function.update_self ..))
                  obtain ⟨hkernel', hfds, herrno, hpos, hsmall, hfirst, hfits, hfree, hpages⟩ :=
                    hmapped
                  rw [hkernel] at hkernel'
                  rw [hprocess] at hfds herrno hfree hpages
                  exact .created fd first hname hfd halign
                    ⟨hkernel', hfds, herrno, hpos, hsmall, hfirst, hfits, hfree, hpages⟩

/-- Everything that `Open` can do. -/
inductive Opened (os : Os) (world : World String) (name : String) (size : UInt64)
    (readonly useMagicMirror : Bool) (world' : World String) : Except Status MemoryMap → Prop where
  | failed (status : Status) : Untouched world world' →
      (world'.process.errno.isSome ∨ useMagicMirror = true ∧ size.toNat % os.pageSize ≠ 0) →
      Opened os world name size readonly useMagicMirror world' (.error status)
  | opened (fd first : Nat) (object : ObjectId) : world.kernel.names name = some object →
      world.process.fds fd = none →
      (useMagicMirror = true → size.toNat % os.pageSize = 0) →
      Mapped os (world.openFd fd ⟨object, !readonly⟩) object size (!readonly) useMagicMirror first
        world' →
      Opened os world name size readonly useMagicMirror world'
        (.ok ⟨name, fd, first * os.pageSize, size, useMagicMirror⟩)

theorem open_cases (os : Os) (world : World String) (name : String) (size : UInt64)
    (readonly useMagicMirror : Bool) :
    Opened os world name size readonly useMagicMirror
      (MemoryMap.open os world name size readonly useMagicMirror).2
      (MemoryMap.open os world name size readonly useMagicMirror).1 := by
  unfold MemoryMap.open
  split
  · next hmisaligned => exact .failed _ (.refl world) (.inr hmisaligned)
  · next haligned =>
      have halign : useMagicMirror = true → size.toNat % os.pageSize = 0 := by
        intro hmirror
        by_contra hne
        exact haligned ⟨hmirror, hne⟩
      generalize hmode : (if readonly = true then OpenMode.readOnly else .readWrite) = mode
      have hopen := shmOpen_cases os world name mode
      generalize shmOpen os world name mode = result at hopen ⊢
      obtain ⟨fd, world₁⟩ := result
      dsimp only at hopen
      cases hopen with
      | failed errno hworld₁ =>
          subst hworld₁
          exact .failed _ (untouched_fail world errno) (.inl rfl)
      | created fd hexclusive =>
          cases readonly <;> simp [← hmode] at hexclusive
      | opened fd object _ hfd hname hworld₁ =>
          have hwritable : decide (mode = .readWrite) = !readonly := by
            cases readonly <;> simp [← hmode]
          rw [hwritable] at hworld₁
          dsimp only
          have hmap := doMap_cases os world₁ fd size (!readonly) useMagicMirror halign
          generalize doMap os world₁ fd size (!readonly) useMagicMirror = result at hmap ⊢
          obtain ⟨mapped, world₂⟩ := result
          dsimp only at hmap
          cases hmap with
          | failed status _ huntouched herrno =>
              subst hworld₁
              have hopen : world₂.process.fds fd = some ⟨object, !readonly⟩ := by
                rw [huntouched.fds]
                exact Function.update_self ..
              dsimp only
              rw [close_eq hopen]
              refine .failed _ ⟨huntouched.kernel, ?_, huntouched.pages⟩ (.inl herrno)
              change Function.update world₂.process.fds fd none = world.process.fds
              rw [huntouched.fds]
              exact update_undone hfd _
          | mapped first descriptor _ hopen hmapped =>
              subst hworld₁
              obtain rfl := Option.some.inj (hopen.symm.trans (Function.update_self ..))
              exact .opened fd first object hname hfd halign
                ⟨hmapped.kernel, hmapped.fds, hmapped.errno, hmapped.pos, hmapped.small,
                  hmapped.first_pos, hmapped.fits, hmapped.free, hmapped.pages⟩

end Segments

/-! ## Destroying -/

section Destroying

variable {os : Os} {world world' world'' : World String} {name : String} {size : UInt64}
  {fd first : Nat} {writable useMagicMirror : Bool} {object : ObjectId}

/-- Pages that were mapped before stay. -/
theorem Mapped.page_kept (h : Mapped os world object size writable useMagicMirror first world')
    {p : Nat} {page : Page} (hpage : world.process.pages p = some page) :
    world'.process.pages p = some page := by
  rw [h.pages, if_neg, hpage]
  intro hp
  have hfree := h.free (p - first) (by omega)
  rw [show first + (p - first) = p by omega, hpage] at hfree
  cases hfree

/-- `2 * size_` does not wrap around. -/
theorem Mapped.mappedSize_eq
    (h : Mapped os world object size writable useMagicMirror first world') :
    (MemoryMap.mappedSize ⟨name, fd, first * os.pageSize, size, useMagicMirror⟩).toNat =
      copies useMagicMirror * size.toNat := by
  have hsmall := h.small
  unfold MemoryMap.mappedSize copies
  cases useMagicMirror with
  | false => simp
  | true =>
      simp only [if_true]
      rw [UInt64.toNat_mul]
      exact Nat.mod_eq_of_lt (by simp only [UInt64.reduceToNat]; omega)

/-- A map that has a descriptor and a mapping. -/
structure MemoryMap.Owning (os : Os) (map : MemoryMap) : Prop where
  fd_nonneg : 0 ≤ map.fd
  mapped : map.addr ≠ mapFailed ∧ map.addr ≠ 0
  aligned : map.addr % os.pageSize = 0
  length_pos : 0 < map.mappedSize.toNat
  length : map.mappedSize.toNat = if map.isMirrored then 2 * map.size.toNat else map.size.toNat

/-- What `DoMap` has mapped belongs to the map. -/
theorem Mapped.owning (h : Mapped os world object size writable useMagicMirror first world') :
    MemoryMap.Owning os ⟨name, fd, first * os.pageSize, size, useMagicMirror⟩ := by
  have hlimit := os.limit_le
  have hfits := h.fits
  unfold Os.Fits at hfits
  have hle : first * os.pageSize ≤
      (first + copies useMagicMirror * os.pageCount size.toNat) * os.pageSize :=
    Nat.mul_le_mul_right _ (Nat.le_add_right _ _)
  have hfirst := Nat.mul_pos h.first_pos os.pageSize_pos
  have hpos := Nat.mul_pos (copies_pos useMagicMirror) h.pos
  refine ⟨Int.natCast_nonneg fd, ⟨?_, Nat.ne_of_gt hfirst⟩, Nat.mul_mod_left .., ?_, ?_⟩
  · change first * os.pageSize ≠ mapFailed
    unfold mapFailed
    omega
  · rwa [h.mappedSize_eq]
  · rw [h.mappedSize_eq]
    cases useMagicMirror <;> simp [copies]

/-- The destructor unmaps exactly the pages of the mapping, and closes the descriptor. -/
theorem MemoryMap.Owning.destroy_eq {map : MemoryMap} (h : map.Owning os)
    {descriptor : Descriptor} (hfd : world.process.fds map.fd.toNat = some descriptor) :
    map.destroy os world = world.withProcess ((world.process.unmap (map.addr / os.pageSize)
      (os.pageCount map.mappedSize.toNat)).setFd map.fd.toNat none) := by
  have hopen : map.fd ≠ -1 := by
    have hnonneg := h.fd_nonneg
    omega
  have haddr : map.addr / os.pageSize * os.pageSize = map.addr :=
    Nat.div_mul_cancel (Nat.dvd_of_mod_eq_zero h.aligned)
  rw [MemoryMap.destroy, if_pos h.mapped]
  nth_rewrite 1 [← haddr]
  rw [munmap_eq h.length_pos, if_pos hopen]
  exact close_eq hfd

/-- The pages of all copies. -/
theorem pageCount_copies (halign : useMagicMirror = true → size.toNat % os.pageSize = 0) :
    os.pageCount (copies useMagicMirror * size.toNat) =
      copies useMagicMirror * os.pageCount size.toNat := by
  cases useMagicMirror with
  | false => simp [copies]
  | true => exact os.pageCount_double (halign rfl)

/-- The destructor undoes what `DoMap` has done, and closes the descriptor. -/
theorem Mapped.destroy_eq (h : Mapped os world object size writable useMagicMirror first world')
    (halign : useMagicMirror = true → size.toNat % os.pageSize = 0) {descriptor : Descriptor}
    (hfd : world''.process.fds fd = some descriptor) :
    MemoryMap.destroy os world'' ⟨name, fd, first * os.pageSize, size, useMagicMirror⟩ =
      world''.withProcess ((world''.process.unmap first
        (copies useMagicMirror * os.pageCount size.toNat)).setFd fd none) := by
  rw [h.owning.destroy_eq hfd, h.mappedSize_eq, pageCount_copies halign,
    Nat.mul_div_cancel _ os.pageSize_pos, Int.toNat_natCast]

/-- Destroying and unlinking a segment that `Create` has made. -/
theorem Mapped.restored_destroyed
    (h : Mapped os (sized world name fd size) world.kernel.objectCount size true useMagicMirror
      first world')
    (halign : useMagicMirror = true → size.toNat % os.pageSize = 0)
    (hname : world.kernel.names name = none) (hfd : world.process.fds fd = none)
    (hrestored : Restored world' world'') :
    Restored world (MemoryMap.destroy os (MemoryMap.unlink os world'' name).2
      ⟨name, fd, first * os.pageSize, size, useMagicMirror⟩) := by
  have hfds : world''.process.fds = (sized world name fd size).process.fds :=
    hrestored.fds.trans h.fds
  have hnames : world''.kernel.names = (sized world name fd size).kernel.names := by
    rw [hrestored.names, h.kernel]
  have hbound : world''.kernel.names name = some world.kernel.objectCount := by
    rw [hnames]
    exact Function.update_self ..
  have hopen : (world''.withKernel (world''.kernel.bind name none (by simp))).process.fds fd =
      some ⟨world.kernel.objectCount, true⟩ := by
    change world''.process.fds fd = _
    rw [hfds]
    exact Function.update_self ..
  rw [MemoryMap.unlink, shmUnlink_eq hbound]
  dsimp only
  rw [h.destroy_eq halign hopen]
  refine ⟨?_, fun object hlt => ?_, ?_, ?_⟩
  · change Function.update world''.kernel.names name none = world.kernel.names
    rw [hnames]
    exact update_undone hname _
  · have hlt' : object < world'.kernel.objectCount := by
      rw [h.kernel]
      exact Nat.lt_succ_of_lt hlt
    change world''.kernel.objects object = world.kernel.objects object
    rw [hrestored.objects object hlt', h.kernel]
    exact sized_objects hlt
  · change Function.update world''.process.fds fd none = world.process.fds
    rw [hfds]
    exact update_undone hfd _
  · exact unmapped_pages h.free fun p hp => by
      change world''.process.pages p = _
      rw [hrestored.pages, h.pages, if_neg hp]
      rfl

end Destroying

/-! ## Calls that succeed -/

section Granted

variable {os : Os} {world : World String} {name : String} {size : UInt64}
  {fd first choice choice' choice'' : Nat} {writable readonly useMagicMirror : Bool}
  {object : ObjectId}

/-- The kernel has room for the mapping where it wants to put it. -/
structure Room (os : Os) (process : Process) (size : UInt64) (useMagicMirror : Bool)
    (first : Nat) : Prop where
  pos : 0 < size.toNat
  align : useMagicMirror = true → size.toNat % os.pageSize = 0
  first_pos : 1 ≤ first
  fits : os.Fits first (copies useMagicMirror * os.pageCount size.toNat)
  free : process.Free first (copies useMagicMirror * os.pageCount size.toNat)

/-- How many calls `DoMap` makes. -/
def mapCalls (useMagicMirror : Bool) : Nat := if useMagicMirror then 3 else 1

/-- A part of the room is inside the address space. -/
theorem Room.part {process : Process} (h : Room os process size useMagicMirror first)
    {offset count : Nat}
    (hpart : offset + count ≤ copies useMagicMirror * os.pageCount size.toNat) :
    os.Fits (first + offset) count :=
  Nat.le_trans (Nat.mul_le_mul_right _ (by omega)) h.fits

/-- `DoMap` succeeds if the kernel grants its calls. -/
theorem doMap_granted {descriptor : Descriptor} (hfd : world.process.fds fd = some descriptor)
    (hwritable : writable = true → descriptor.writable = true)
    (hroom : Room os world.process size useMagicMirror first)
    (hplace : os.answers world.calls = .grant first)
    (hhalf : os.answers (world.calls + 1) = .grant choice)
    (hhalf' : os.answers (world.calls + 2) = .grant choice') :
    ∃ world', doMap os world fd size writable useMagicMirror =
        (.ok (first * os.pageSize), world') ∧
      world'.calls = world.calls + mapCalls useMagicMirror := by
  have hpart := @Room.part _ _ _ _ _ hroom
  obtain ⟨hpos, halign, hfirst, hfits, hfree⟩ := hroom
  cases useMagicMirror with
  | false =>
      rw [copies, if_neg Bool.false_ne_true, Nat.one_mul] at hfits hfree
      rw [doMap, if_pos Bool.false_ne_true,
        mmapShared_granted hplace hfd hwritable hpos hfirst hfits hfree]
      exact ⟨_, rfl, rfl⟩
  | true =>
      have hcopies : copies true = 2 := rfl
      rw [hcopies] at hfits hfree hpart
      have hfits₁ : os.Fits first (os.pageCount size.toNat) :=
        @hpart 0 _ (by omega)
      have hfits₂ : os.Fits (first + os.pageCount size.toNat) (os.pageCount size.toNat) :=
        hpart (by omega)
      have hsmall := size_small hfirst hfits₁
      have htotal : (2 * size).toNat = 2 * size.toNat := by
        rw [UInt64.toNat_mul]
        exact Nat.mod_eq_of_lt (by simp only [UInt64.reduceToNat]; omega)
      have hsecond : first * os.pageSize + size.toNat =
          (first + os.pageCount size.toNat) * os.pageSize := by
        rw [Nat.add_mul, os.pageCount_mul (halign rfl)]
      rw [← os.pageCount_double (halign rfl), ← htotal] at hfits hfree
      simp only [doMap, not_true_eq_false, if_false]
      rw [mmapReserve_granted hplace (by omega) hfirst hfits hfree]
      generalize hworld₁ : World.map _ _ _ _ = world₁
      have hcalls₁ : world₁.calls = world.calls + 1 := by rw [← hworld₁]; rfl
      have hfd₁ : world₁.process.fds fd = some descriptor := by
        rw [← hworld₁]
        exact hfd
      rw [← hcalls₁] at hhalf
      dsimp only
      rw [mmapFixed_granted hhalf hfd₁ hwritable hpos hfits₁]
      generalize hworld₂ : World.map _ _ _ _ = world₂
      have hcalls₂ : world₂.calls = world.calls + 2 := by
        rw [← hworld₂]
        exact congrArg Nat.succ hcalls₁
      have hfd₂ : world₂.process.fds fd = some descriptor := by
        rw [← hworld₂]
        exact hfd₁
      rw [← hcalls₂] at hhalf'
      dsimp only
      rw [hsecond, mmapFixed_granted hhalf' hfd₂ hwritable hpos hfits₂]
      exact ⟨_, rfl, congrArg Nat.succ hcalls₂⟩

/-- `Create` succeeds if the name is new and the kernel grants its calls. -/
theorem create_granted (hname : world.kernel.names name = none)
    (hfd : world.process.fds fd = none)
    (hroom : Room os world.process size useMagicMirror first)
    (hopen : os.answers world.calls = .grant fd)
    (hsize : os.answers (world.calls + 1) = .grant choice)
    (hplace : os.answers (world.calls + 2) = .grant first)
    (hhalf : os.answers (world.calls + 3) = .grant choice')
    (hhalf' : os.answers (world.calls + 4) = .grant choice'') :
    ∃ world', MemoryMap.create os world name size useMagicMirror =
        (.ok ⟨name, fd, first * os.pageSize, size, useMagicMirror⟩, world') ∧
      world'.calls = world.calls + 2 + mapCalls useMagicMirror := by
  have hfits : os.Fits (first + 0) (os.pageCount size.toNat) := hroom.part (by
    rw [Nat.zero_add]
    exact Nat.le_mul_of_pos_left _ (copies_pos useMagicMirror))
  have hsmall := size_small hroom.first_pos hfits
  have hnew : (world.tick.create name fd).process.fds fd = some ⟨world.kernel.objectCount, true⟩ :=
    Function.update_self ..
  rw [MemoryMap.create, if_neg (fun h => h.2 (hroom.align h.1)),
    shmOpen_exclusive hopen hfd hname]
  dsimp only
  rw [ftruncate_granted hsize hnew rfl hsmall]
  dsimp only
  generalize hworld₁ : World.resize _ _ _ = world₁
  have hcalls₁ : world₁.calls = world.calls + 2 := by rw [← hworld₁]; rfl
  have hfd₁ : world₁.process.fds fd = some ⟨world.kernel.objectCount, true⟩ := by
    rw [← hworld₁]
    exact hnew
  have hroom₁ : Room os world₁.process size useMagicMirror first := by
    rw [← hworld₁]
    exact ⟨hroom.pos, hroom.align, hroom.first_pos, hroom.fits, hroom.free⟩
  rw [← hcalls₁] at hplace
  obtain ⟨world', hmap, hcalls⟩ := doMap_granted hfd₁ (fun _ => rfl) hroom₁ hplace
    (by rwa [hcalls₁]) (by rwa [hcalls₁])
  rw [hmap]
  exact ⟨_, rfl, by rw [hcalls, hcalls₁]⟩

/-- `Open` succeeds if there is such an object and the kernel grants its calls. -/
theorem open_granted (hname : world.kernel.names name = some object)
    (hfd : world.process.fds fd = none)
    (hroom : Room os world.process size useMagicMirror first)
    (hopen : os.answers world.calls = .grant fd)
    (hplace : os.answers (world.calls + 1) = .grant first)
    (hhalf : os.answers (world.calls + 2) = .grant choice)
    (hhalf' : os.answers (world.calls + 3) = .grant choice') :
    ∃ world', MemoryMap.open os world name size readonly useMagicMirror =
        (.ok ⟨name, fd, first * os.pageSize, size, useMagicMirror⟩, world') ∧
      world'.calls = world.calls + 1 + mapCalls useMagicMirror := by
  have hmode : (if readonly = true then OpenMode.readOnly else .readWrite) ≠ .exclusive := by
    cases readonly <;> simp
  rw [MemoryMap.open, if_neg (fun h => h.2 (hroom.align h.1)),
    shmOpen_existing hopen hfd hname hmode]
  generalize hworld₁ : World.openFd _ _ _ = world₁
  have hcalls₁ : world₁.calls = world.calls + 1 := by rw [← hworld₁]; rfl
  have hfd₁ : world₁.process.fds fd = some ⟨object, !readonly⟩ := by
    rw [← hworld₁]
    cases readonly <;> exact Function.update_self ..
  have hroom₁ : Room os world₁.process size useMagicMirror first := by
    rw [← hworld₁]
    exact ⟨hroom.pos, hroom.align, hroom.first_pos, hroom.fits, hroom.free⟩
  rw [← hcalls₁] at hplace
  dsimp only
  obtain ⟨world', hmap, hcalls⟩ := doMap_granted hfd₁ (fun h => h) hroom₁ hplace
    (by rwa [hcalls₁]) (by rwa [hcalls₁])
  rw [hmap]
  exact ⟨_, rfl, by rw [hcalls, hcalls₁]⟩

end Granted

/-! ## Backing -/

/-- Every byte of the mapping is a byte of the object, in both copies if there are two. -/
def MemoryMap.Backed (os : Os) (world : World String) (map : MemoryMap) (object : ObjectId) :
    Prop :=
  ∃ writable, ∀ i < map.size.toNat, locate os world (map.addr + i) = some ⟨object, i, writable⟩ ∧
    (map.isMirrored = true →
      locate os world (map.addr + map.size.toNat + i) = some ⟨object, i, writable⟩)

/-- The bytes of the mapping are backed by the object that has its name. -/
def FullyBacked (os : Os) (world : World String) (map : MemoryMap) : Prop :=
  ∃ object, world.kernel.names map.name = some object ∧ map.Backed os world object

/-- The object with the name, if there is one, has all the pages that are asked for. -/
def LongEnough (os : Os) (world : World String) (name : String) (size : UInt64) : Prop :=
  ∀ object, world.kernel.names name = some object →
    os.pageCount size.toNat ≤ os.pageCount (world.kernel.objects object).length

section Backing

variable {os : Os} {world world' : World String} {name : String} {size : UInt64}
  {fd first : Nat} {writable readonly useMagicMirror : Bool} {object : ObjectId} {map : MemoryMap}

/-- A byte in one of the copies. -/
theorem Mapped.locate (h : Mapped os world object size writable useMagicMirror first world')
    {k i : Nat} (hk : k < copies useMagicMirror) (hi : i < size.toNat) :
    locate os world' ((first + k * os.pageCount size.toNat) * os.pageSize + i) =
      if i / os.pageSize * os.pageSize < (world'.kernel.objects object).length then
        some ⟨object, i, writable⟩
      else none := by
  have hpos := os.pageSize_pos
  have hpage : i / os.pageSize < os.pageCount size.toNat :=
    Os.lt_pageCount.mpr (Nat.lt_of_le_of_lt (Nat.div_mul_le_self i _) hi)
  have hcopy : (k + 1) * os.pageCount size.toNat ≤
      copies useMagicMirror * os.pageCount size.toNat := Nat.mul_le_mul_right _ hk
  rw [Nat.add_mul, Nat.one_mul] at hcopy
  have hdiv : ((first + k * os.pageCount size.toNat) * os.pageSize + i) / os.pageSize =
      first + k * os.pageCount size.toNat + i / os.pageSize := by
    rw [Nat.add_comm, Nat.add_mul_div_right _ _ hpos, Nat.add_comm]
  have hmod : ((first + k * os.pageCount size.toNat) * os.pageSize + i) % os.pageSize =
      i % os.pageSize := by
    rw [Nat.add_comm, Nat.add_mul_mod_self_right]
  have hindex : (first + k * os.pageCount size.toNat + i / os.pageSize - first) %
      os.pageCount size.toNat = i / os.pageSize := by
    rw [Nat.add_assoc, Nat.add_sub_cancel_left, Nat.add_comm, Nat.add_mul_mod_self_right,
      Nat.mod_eq_of_lt hpage]
  have hoffset : i / os.pageSize * os.pageSize + i % os.pageSize = i := by
    rw [Nat.mul_comm, Nat.div_add_mod]
  simp only [Foundation.Posix.locate, hdiv, h.pages]
  rw [if_pos (by omega), hindex, hmod]
  dsimp only
  rw [hoffset]

/-- A byte in one of the copies of an object that has all the pages. -/
theorem Mapped.locate_long
    (h : Mapped os world object size writable useMagicMirror first world')
    (hlong : os.pageCount size.toNat ≤ os.pageCount (world'.kernel.objects object).length)
    {k i : Nat} (hk : k < copies useMagicMirror) (hi : i < size.toNat) :
    Foundation.Posix.locate os world' ((first + k * os.pageCount size.toNat) * os.pageSize + i) =
      some ⟨object, i, writable⟩ := by
  rw [h.locate hk hi, if_pos]
  have hpage : i / os.pageSize < os.pageCount size.toNat :=
    Os.lt_pageCount.mpr (Nat.lt_of_le_of_lt (Nat.div_mul_le_self i _) hi)
  exact Os.lt_pageCount.mp (Nat.lt_of_lt_of_le hpage hlong)

/-- The first copy as a range. -/
theorem Mapped.within (h : Mapped os world object size writable useMagicMirror first world')
    (hlong : os.pageCount size.toNat ≤ os.pageCount (world'.kernel.objects object).length) :
    Within os world' (first * os.pageSize) size.toNat ⟨object, 0, writable⟩ := by
  intro i hi
  have hbyte := h.locate_long hlong (copies_pos useMagicMirror) hi
  rw [Nat.zero_mul, Nat.add_zero] at hbyte
  rw [hbyte, Nat.zero_add]

/-- All bytes of a mapping are backed exactly if the object has all its pages. -/
theorem Mapped.backed_iff (h : Mapped os world object size writable useMagicMirror first world')
    (halign : useMagicMirror = true → size.toNat % os.pageSize = 0) (name : String) (fd : Nat) :
    MemoryMap.Backed os world' ⟨name, fd, first * os.pageSize, size, useMagicMirror⟩ object ↔
      os.pageCount size.toNat ≤ os.pageCount (world'.kernel.objects object).length := by
  constructor
  · rintro ⟨writable', hbacked⟩
    -- The last byte is on the last page.
    have hlast : size.toNat - 1 < size.toNat := Nat.sub_lt h.pos Nat.one_pos
    have hlocated := h.locate (copies_pos useMagicMirror) hlast
    rw [Nat.zero_mul, Nat.add_zero] at hlocated
    have hsome := (hbacked _ hlast).1
    rw [hlocated, Option.ite_none_right_eq_some] at hsome
    have hpage := Os.lt_pageCount.mpr hsome.1
    have hcount : os.pageCount size.toNat = (size.toNat - 1) / os.pageSize + 1 := by
      have hpos := h.pos
      rw [Os.pageCount, show size.toNat + os.pageSize - 1 = size.toNat - 1 + os.pageSize by omega,
        Nat.add_div_right _ os.pageSize_pos]
    omega
  · intro hlong
    refine ⟨writable, fun i hi => ⟨?_, fun hmirror => ?_⟩⟩
    · simpa using h.locate_long hlong (copies_pos useMagicMirror) hi
    · have hcopies : copies useMagicMirror = 2 := if_pos hmirror
      have haddress : first * os.pageSize + size.toNat =
          (first + 1 * os.pageCount size.toNat) * os.pageSize := by
        rw [Nat.one_mul, Nat.add_mul, os.pageCount_mul (halign hmirror)]
      rw [haddress]
      exact h.locate_long hlong (by omega) hi

/-- A segment that `Open` has mapped is backed exactly if the object is long enough. -/
theorem open_backed_iff
    (h : MemoryMap.open os world name size readonly useMagicMirror = (.ok map, world')) :
    FullyBacked os world' map ↔ LongEnough os world name size := by
  have hopen := open_cases os world name size readonly useMagicMirror
  rw [h] at hopen
  dsimp only at hopen
  cases hopen with
  | opened fd first object hname _ halign hmapped =>
      have hkernel : world'.kernel = world.kernel := hmapped.kernel
      have hiff := hmapped.backed_iff halign name fd
      unfold FullyBacked LongEnough
      rw [hkernel] at hiff ⊢
      constructor
      · rintro ⟨other, hother, hbacked⟩ object' hobject'
        obtain rfl := Option.some.inj (hname.symm.trans hother)
        obtain rfl := Option.some.inj (hname.symm.trans hobject')
        exact hiff.mp hbacked
      · exact fun hlong => ⟨object, hname, hiff.mpr (hlong object hname)⟩

/-- A segment that `Create` has made is backed. -/
theorem create_backed
    (h : MemoryMap.create os world name size useMagicMirror = (.ok map, world')) :
    world.kernel.names name = none ∧ FullyBacked os world' map := by
  have hcreate := create_cases os world name size useMagicMirror
  rw [h] at hcreate
  dsimp only at hcreate
  cases hcreate with
  | created fd first hname _ halign hmapped =>
      refine ⟨hname, world.kernel.objectCount, ?_,
        (hmapped.backed_iff halign name fd).mpr ?_⟩
      · rw [hmapped.kernel]
        exact Function.update_self ..
      · rw [hmapped.kernel, sized_length]

/-- What `Open` and `CreateOrOpen` return is backed exactly if the object that the name leads to
before the call, if there is one, has all the pages that are asked for. -/
theorem success_backed_iff
    (h : MemoryMap.open os world name size readonly useMagicMirror = (.ok map, world') ∨
      MemoryMap.createOrOpen os world name size useMagicMirror = (.ok map, world')) :
    FullyBacked os world' map ↔ LongEnough os world name size := by
  rcases h with h | h
  · exact open_backed_iff h
  · unfold MemoryMap.createOrOpen at h
    have hcreate := create_cases os world name size useMagicMirror
    generalize hresult : MemoryMap.create os world name size useMagicMirror = result at h hcreate
    obtain ⟨created, world₁⟩ := result
    cases created with
    | ok map₁ =>
        obtain ⟨hmap, hworld⟩ := Prod.mk.inj h
        obtain rfl := Except.ok.inj hmap
        subst hworld
        obtain ⟨hname, hbacked⟩ := create_backed hresult
        exact iff_of_true hbacked fun object hobject => by
          cases hname.symm.trans hobject
    | error status =>
        dsimp only at h hcreate
        split at h
        · cases hcreate with
          | failed _ hrestored =>
              have hsame : LongEnough os world₁ name size ↔ LongEnough os world name size := by
                unfold LongEnough
                rw [hrestored.names]
                refine forall_congr' fun object => forall_congr' fun hobject => ?_
                rw [hrestored.objects object (world.kernel.named_lt name object hobject)]
              exact (open_backed_iff h).trans hsame
        · cases (Prod.mk.inj h).1

end Backing

/-! ## A segment that has not been sized yet -/

/-- Pages of 4096 bytes and 47 bits of addresses. Calls beyond the given answers fail. -/
def plainOs (answers : List Answer) : Os where
  pageSize := 4096
  pageSize_pos := by decide
  limit := 2 ^ 47
  limit_le := by decide
  answers i := answers.getD i (.fail .nomem)
  strerror _ := ""

/-- A process that has not opened anything, and no segment. -/
def noSegments : World String where
  kernel :=
    { names := fun _ => none
      objects := fun _ => {}
      objectCount := 0
      named_lt := fun _ _ h => nomatch h }

/-- A process that has not opened anything, and one named object of this length. -/
def oneSegment (name : String) (length : Nat) : World String where
  kernel :=
    { names := fun other => if other = name then some 0 else none
      objects := fun _ => { length := length }
      objectCount := 1
      named_lt := fun other object h => by
        split at h
        · exact Option.some.inj h ▸ Nat.zero_lt_one
        · cases h }

/-- An object of the right size is backed. -/
theorem sized_backed : ∃ map world',
    MemoryMap.open (plainOs [.grant 3, .grant 16, .grant 0, .grant 0])
      (oneSegment "/ring_data" 4096) "/ring_data" 4096 false true = (.ok map, world') ∧
    FullyBacked (plainOs [.grant 3, .grant 16, .grant 0, .grant 0]) world' map := by
  refine ⟨_, _, rfl, ?_⟩
  have hopen : MemoryMap.open (plainOs [.grant 3, .grant 16, .grant 0, .grant 0])
      (oneSegment "/ring_data" 4096) "/ring_data" 4096 false true = _ := rfl
  exact (success_backed_iff (.inl hopen)).mpr fun object _ => Nat.le_refl _

/-- The creator has opened the object, but has not called `ftruncate` yet. `Open` and
`CreateOrOpen` succeed, and touching the first byte faults. -/
theorem unsized_not_backed :
    (∃ map world', MemoryMap.open (plainOs [.grant 3, .grant 16, .grant 0, .grant 0])
        (oneSegment "/ring_data" 0) "/ring_data" 4096 false true = (.ok map, world') ∧
      locate (plainOs []) world' map.addr = none ∧ ¬ FullyBacked (plainOs []) world' map) ∧
    ∃ map world', MemoryMap.createOrOpen
        (plainOs [.grant 3, .grant 3, .grant 16, .grant 0, .grant 0])
        (oneSegment "/ring_data" 0) "/ring_data" 4096 true = (.ok map, world') ∧
      locate (plainOs []) world' map.addr = none ∧ ¬ FullyBacked (plainOs []) world' map := by
  refine ⟨⟨_, _, rfl, rfl, ?_⟩, ⟨_, _, rfl, rfl, ?_⟩⟩
  · rintro ⟨object, -, writable, hbacked⟩
    exact nomatch (hbacked 0 (by decide)).1
  · rintro ⟨object, -, writable, hbacked⟩
    exact nomatch (hbacked 0 (by decide)).1

end HotPath.SharedMemory
