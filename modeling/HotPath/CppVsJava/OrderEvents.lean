import Mathlib.Data.BitVec
import Mathlib.Data.UInt

/-!
# Order events in C++ and in Java

The event classes of the C++ library, its factories and its `FlatEvent`, and the classes of the
Java program. Prices and quantities are words of 64 bits that wrap around, and their shifts to the
right keep the sign.

The symbol of a halt is unsigned in C++ and signed in Java. `events_agree_iff` says that this is
the only difference, and when it shows.
-/

namespace HotPath.CppVsJava

/-- `OrderResult`, in both languages. -/
structure OrderResult where
  notional : Int64
  feeTicks : Int64
deriving DecidableEq

/-! ## C++ -/

namespace Cpp

/-- The classes derived from `Event`. -/
inductive EventClass where
  | limitOrder
  | cancelOrder
  | modifyOrder
  | peggedOrder
  | marketHalt
deriving DecidableEq

/-- An object of a class derived from `Event`. -/
structure Event where
  eventClass : EventClass
  price : Int64
  qty : Int64
  symbolId : UInt32
  typeTag : UInt8
deriving DecidableEq

/-- `static_cast<std::int64_t>(symbol_id)`. -/
def symbolWord (symbolId : UInt32) : Int64 := symbolId.toUInt64.toInt64

/-- `ProcessHeapAlloc`, of each class. -/
def Event.processHeapAlloc (event : Event) : OrderResult :=
  match event.eventClass with
  | .limitOrder =>
      let gross := event.price * event.qty
      ⟨gross, gross >>> 10⟩
  | .cancelOrder =>
      let gross := -(event.price * event.qty)
      ⟨gross, 0⟩
  | .modifyOrder =>
      let gross := event.price * (event.qty + 1)
      ⟨gross, gross >>> 9⟩
  | .peggedOrder =>
      let gross := (event.price + 2) * event.qty
      ⟨gross, 1⟩
  | .marketHalt =>
      let gross := (event.price * event.qty * 3) ^^^ symbolWord event.symbolId
      ⟨gross, 0⟩

/-- `ProcessNoAlloc`, of each class. -/
def Event.processNoAlloc (event : Event) : Int64 :=
  match event.eventClass with
  | .limitOrder =>
      let gross := event.price * event.qty
      gross - gross >>> 10
  | .cancelOrder => -(event.price * event.qty)
  | .modifyOrder => event.price * (event.qty + 1) - (event.price * event.qty) >>> (9 : Int64)
  | .peggedOrder => (event.price + 2) * event.qty
  | .marketHalt => (event.price * event.qty * 3) ^^^ symbolWord event.symbolId

/-- `MakeEventByType`. -/
def makeEventByType (typeTag : UInt8) (price qty : Int64) (symbolId : UInt32) : Event :=
  match typeTag with
  | 0 => ⟨.limitOrder, price, qty, symbolId, typeTag⟩
  | 1 => ⟨.cancelOrder, price, qty, symbolId, typeTag⟩
  | 2 => ⟨.modifyOrder, price, qty, symbolId, typeTag⟩
  | 3 => ⟨.peggedOrder, price, qty, symbolId, typeTag⟩
  | _ => ⟨.marketHalt, price, qty, symbolId, typeTag⟩

/-- `ConstructEventInPlace`, as the object that it leaves in the slot. -/
def constructEventInPlace (typeTag : UInt8) (price qty : Int64) (symbolId : UInt32) : Event :=
  match typeTag with
  | 0 => ⟨.limitOrder, price, qty, symbolId, typeTag⟩
  | 1 => ⟨.cancelOrder, price, qty, symbolId, typeTag⟩
  | 2 => ⟨.modifyOrder, price, qty, symbolId, typeTag⟩
  | 3 => ⟨.peggedOrder, price, qty, symbolId, typeTag⟩
  | _ => ⟨.marketHalt, price, qty, symbolId, typeTag⟩

/-- `FlatEvent`. -/
structure FlatEvent where
  price : Int64
  qty : Int64
  symbolId : UInt32
  typeTag : UInt8

/-- `ProcessInline`. -/
def FlatEvent.processInline (event : FlatEvent) : Int64 :=
  match event.typeTag with
  | 0 => event.price * event.qty - (event.price * event.qty) >>> 10
  | 1 => -(event.price * event.qty)
  | 2 => event.price * (event.qty + 1) - (event.price * event.qty) >>> (9 : Int64)
  | 3 => (event.price + 2) * event.qty
  | _ => (event.price * event.qty * 3) ^^^ symbolWord event.symbolId

end Cpp

/-! ## Java -/

namespace Java

/-- The classes that implement `OrderEvent`, with their fields. -/
inductive OrderEvent where
  | limitOrderEvent (price qty : Int64)
  | cancelOrderEvent (price qty : Int64)
  | modifyOrderEvent (price qty : Int64)
  | peggedOrderEvent (price qty : Int64)
  | marketHaltEvent (price qty : Int64) (symbolId : Int32)

/-- `processHeapAlloc`, of each class. -/
def OrderEvent.processHeapAlloc : OrderEvent → OrderResult
  | .limitOrderEvent price qty =>
      let gross := price * qty
      ⟨gross, gross >>> 10⟩
  | .cancelOrderEvent price qty => ⟨-(price * qty), 0⟩
  | .modifyOrderEvent price qty =>
      let gross := price * (qty + 1)
      ⟨gross, gross >>> 9⟩
  | .peggedOrderEvent price qty => ⟨(price + 2) * qty, 1⟩
  | .marketHaltEvent price qty symbolId => ⟨(price * qty * 3) ^^^ symbolId.toInt64, 0⟩

/-- `processNoAlloc`, of each class. -/
def OrderEvent.processNoAlloc : OrderEvent → Int64
  | .limitOrderEvent price qty =>
      let gross := price * qty
      gross - gross >>> 10
  | .cancelOrderEvent price qty => -(price * qty)
  | .modifyOrderEvent price qty => price * (qty + 1) - (price * qty) >>> (9 : Int64)
  | .peggedOrderEvent price qty => (price + 2) * qty
  | .marketHaltEvent price qty symbolId => (price * qty * 3) ^^^ symbolId.toInt64

end Java

/-- The Java object with the class and the fields of a C++ one. The symbol keeps its 32 bits. -/
def Cpp.Event.toJava (event : Cpp.Event) : Java.OrderEvent :=
  match event.eventClass with
  | .limitOrder => .limitOrderEvent event.price event.qty
  | .cancelOrder => .cancelOrderEvent event.price event.qty
  | .modifyOrder => .modifyOrderEvent event.price event.qty
  | .peggedOrder => .peggedOrderEvent event.price event.qty
  | .marketHalt => .marketHaltEvent event.price event.qty event.symbolId.toInt32

/-! ## The symbols -/

/-- A symbol is the same word in both languages if and only if its sign bit is clear. -/
theorem symbolWord_eq_iff (symbolId : UInt32) :
    Cpp.symbolWord symbolId = symbolId.toInt32.toInt64 ↔ symbolId.toNat < 2 ^ 31 := by
  have hword : Cpp.symbolWord symbolId = symbolId.toInt32.toInt64 ↔
      symbolId.toBitVec.setWidth 64 = symbolId.toBitVec.signExtend 64 :=
    Int64.toBitVec_inj.symm
  have hsign : symbolId.toBitVec.msb = false ↔ symbolId.toNat < 2 ^ 31 := by
    rw [BitVec.msb_eq_false_iff_two_mul_lt, UInt32.toNat_toBitVec]
    omega
  rw [hword, ← hsign]
  constructor
  · intro h
    have hmsb := congrArg BitVec.msb h
    rw [BitVec.msb_signExtend, BitVec.msb_setWidth, BitVec.getLsbD_of_ge _ _ (by decide)] at hmsb
    simpa using hmsb.symm
  · intro h
    exact (BitVec.signExtend_eq_setWidth_of_msb_false h).symm

/-! ## The C++ events -/

/-- Both factories make the same object. -/
theorem Cpp.constructEventInPlace_eq (typeTag : UInt8) (price qty : Int64) (symbolId : UInt32) :
    constructEventInPlace typeTag price qty symbolId =
      makeEventByType typeTag price qty symbolId := by
  unfold constructEventInPlace makeEventByType
  split <;> rfl

/-- A flat event computes what the object with its fields computes. -/
theorem Cpp.processInline_eq (typeTag : UInt8) (price qty : Int64) (symbolId : UInt32) :
    FlatEvent.processInline ⟨price, qty, symbolId, typeTag⟩ =
      (makeEventByType typeTag price qty symbolId).processNoAlloc := by
  simp only [FlatEvent.processInline, makeEventByType]
  split <;> rfl

theorem Cpp.makeEventByType_symbolId (typeTag : UInt8) (price qty : Int64) (symbolId : UInt32) :
    (makeEventByType typeTag price qty symbolId).symbolId = symbolId := by
  unfold makeEventByType
  split <;> rfl

/-- Every tag from 4 on is a halt. -/
theorem Cpp.makeEventByType_marketHalt_iff (typeTag : UInt8) (price qty : Int64)
    (symbolId : UInt32) :
    (makeEventByType typeTag price qty symbolId).eventClass = .marketHalt ↔ ¬ typeTag < 4 := by
  unfold makeEventByType
  split
  · simp
  · simp
  · simp
  · simp
  · rename_i hlimit hcancel hmodify hpegged
    grind

/-- The net value is what the allocated result leaves after its fee, with two exceptions: without
the allocation a modification pays the fee of the old quantity, and a pegged order pays none. -/
theorem Cpp.Event.net_eq (event : Cpp.Event) :
    event.processHeapAlloc.notional - event.processHeapAlloc.feeTicks =
      match event.eventClass with
      | .modifyOrder => event.processNoAlloc + (event.price * event.qty) >>> (9 : Int64) -
          (event.price * (event.qty + 1)) >>> (9 : Int64)
      | .peggedOrder => event.processNoAlloc - 1
      | _ => event.processNoAlloc := by
  obtain ⟨eventClass, price, qty, symbolId, typeTag⟩ := event
  cases eventClass with
  | limitOrder => rfl
  | cancelOrder => simp [processHeapAlloc, processNoAlloc]
  | modifyOrder => simp [processHeapAlloc, processNoAlloc]
  | peggedOrder => rfl
  | marketHalt => simp [processHeapAlloc, processNoAlloc]

/-! ## Agreement -/

/-- A C++ event, a flat one and a Java one compute the same results. -/
structure Agree (event : Cpp.Event) (flat : Cpp.FlatEvent) (java : Java.OrderEvent) : Prop where
  flat_noAlloc : event.processNoAlloc = flat.processInline
  java_noAlloc : event.processNoAlloc = java.processNoAlloc
  notional : event.processHeapAlloc.notional = java.processHeapAlloc.notional
  feeTicks : event.processHeapAlloc.feeTicks = java.processHeapAlloc.feeTicks

/-- The Java object computes the same net value, except for a halt whose symbol is another word
there. -/
theorem Cpp.Event.toJava_noAlloc_iff (event : Cpp.Event) :
    event.processNoAlloc = event.toJava.processNoAlloc ↔
      event.eventClass = .marketHalt → event.symbolId.toNat < 2 ^ 31 := by
  obtain ⟨eventClass, price, qty, symbolId, typeTag⟩ := event
  cases eventClass with
  | marketHalt =>
      rw [← symbolWord_eq_iff]
      simp [processNoAlloc, toJava, Java.OrderEvent.processNoAlloc, Int64.xor_right_inj]
  | _ => exact iff_of_true rfl (by simp)

/-- The same for the allocated result. -/
theorem Cpp.Event.toJava_heapAlloc_iff (event : Cpp.Event) :
    event.processHeapAlloc = event.toJava.processHeapAlloc ↔
      event.eventClass = .marketHalt → event.symbolId.toNat < 2 ^ 31 := by
  obtain ⟨eventClass, price, qty, symbolId, typeTag⟩ := event
  cases eventClass with
  | marketHalt =>
      rw [← symbolWord_eq_iff]
      simp [processHeapAlloc, toJava, Java.OrderEvent.processHeapAlloc, Int64.xor_right_inj]
  | _ => exact iff_of_true rfl (by simp)

/-- The events of both factories, the flat event and the Java event compute the same results if
and only if the tag is that of an order or the sign bit of the symbol is clear. -/
theorem events_agree_iff (typeTag : UInt8) (price qty : Int64) (symbolId : UInt32) :
    (∀ event, event = Cpp.makeEventByType typeTag price qty symbolId ∨
        event = Cpp.constructEventInPlace typeTag price qty symbolId →
      Agree event ⟨price, qty, symbolId, typeTag⟩ event.toJava) ↔
    typeTag < 4 ∨ symbolId.toNat < 2 ^ 31 := by
  have hhalt := Cpp.makeEventByType_marketHalt_iff typeTag price qty symbolId
  have hsymbol := Cpp.makeEventByType_symbolId typeTag price qty symbolId
  have hnoAlloc := (Cpp.makeEventByType typeTag price qty symbolId).toJava_noAlloc_iff
  have hheapAlloc := (Cpp.makeEventByType typeTag price qty symbolId).toJava_heapAlloc_iff
  rw [hhalt, hsymbol] at hnoAlloc hheapAlloc
  rw [Cpp.constructEventInPlace_eq, or_iff_not_imp_left]
  constructor
  · intro h
    exact hnoAlloc.mp (h _ (.inl rfl)).java_noAlloc
  · rintro h event hevent
    obtain rfl := hevent.elim id id
    have hresult := hheapAlloc.mpr h
    exact ⟨(Cpp.processInline_eq typeTag price qty symbolId).symm, hnoAlloc.mpr h,
      congrArg OrderResult.notional hresult, congrArg OrderResult.feeTicks hresult⟩

/-- A halt of the symbol 2^31 is a different word in the two languages. -/
theorem halt_disagrees :
    ¬ Agree (Cpp.makeEventByType 4 512 10 0x80000000) ⟨512, 10, 0x80000000, 4⟩
      (Cpp.makeEventByType 4 512 10 0x80000000).toJava := by
  intro h
  exact absurd h.java_noAlloc (by decide)

end HotPath.CppVsJava
