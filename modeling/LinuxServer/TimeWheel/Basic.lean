import LinuxServer.Core.Dll

/-!
# The time wheel

`time_wheel` of `time_wheel_timer.h`: `N` slots, each the head of a doubly linked list of timers.
A turn of the wheel moves on by one slot. An operation is `none` where the C++ code would follow a
null or dangling pointer, or call a callback that nobody has set.
-/

namespace LinuxServer

open Core Core.Dll

namespace TimeWheel

/-- The number of slots. -/
def N : ℕ := 60

/-- The interval of a slot. -/
def SI : ℕ := 1

/-- An index into the slots, taken modulo their number. -/
def slotOf (n : ℕ) : Fin N := ⟨n % N, Nat.mod_lt n (by decide)⟩

/-- The number of ticks that `add_timer` makes of a `timeout`. -/
def ticksOf (timeout : ℤ) : ℕ := if timeout < SI then 1 else (timeout / SI).toNat

end TimeWheel

/-- `tw_timer`. Its constructor sets `rotation` and `time_slot`; whoever has asked for the timer sets
the callback and its argument. -/
structure TwTimer (D A : Type*) extends Node where
  rotation : ℕ
  timeSlot : Fin TimeWheel.N
  cbFunc : Option (D → A)
  userData : Option D

/-- `time_wheel`, with the timers that exist. -/
structure TimeWheel (D A : Type*) where
  store : Store (TwTimer D A)
  slots : Fin TimeWheel.N → Link
  curSlot : Fin TimeWheel.N

instance {D A : Type*} : Linked (TwTimer D A) where
  node := TwTimer.toNode
  setNode t n := { t with toNode := n }
  node_setNode _ _ := rfl
  setNode_setNode _ _ _ := rfl

namespace TimeWheel

variable {D A : Type*}

/-- The constructor. -/
def init : TimeWheel D A := ⟨Store.empty, fun _ => none, slotOf 0⟩

/-- `add_timer(timeout)`, with the pointer it returns. -/
def addTimer (w : TimeWheel D A) (timeout : ℤ) : Option (TimeWheel D A × Link) :=
  if timeout < 0 then
    some (w, none)
  else
    let ticks := ticksOf timeout
    let rotation := ticks / N
    let ts := slotOf (w.curSlot + ticks % N)
    let timer := w.store.fresh
    let s := w.store.new ⟨⟨none, none⟩, rotation, ts, none, none⟩
    if w.slots ts = none then
      some ({ w with store := s, slots := Function.update w.slots ts (some timer) }, some timer)
    else do
      let s ← s.setNext (some timer) (w.slots ts)
      let s ← s.setPrev (w.slots ts) (some timer)
      some ({ w with store := s, slots := Function.update w.slots ts (some timer) }, some timer)

/-- `timer->cb_func = f; timer->user_data = d`, which callers do with the timer they are given. -/
def setCallback (w : TimeWheel D A) (timer : Link) (f : D → A) (d : D) :
    Option (TimeWheel D A) :=
  (w.store.assign timer fun t => { t with cbFunc := some f, userData := some d }).map
    fun s => { w with store := s }

/-- How `del_timer` and `tick` take `timer` out of the slot `i` and delete it. -/
def remove (w : TimeWheel D A) (i : Fin N) (timer : ℕ) : Option (TimeWheel D A) := do
  let t ← w.store.cell timer
  if some timer = w.slots i then
    let s ← if t.next = none then some w.store else w.store.setPrev t.next none
    let s ← s.free timer
    some { w with store := s, slots := Function.update w.slots i t.next }
  else
    let s ← w.store.setNext t.prev t.next
    let s ← if t.next = none then some s else s.setPrev t.next t.prev
    let s ← s.free timer
    some { w with store := s }

/-- `del_timer(timer)` -/
def delTimer (w : TimeWheel D A) : Link → Option (TimeWheel D A)
  | none => some w
  | some timer => do
    let t ← w.store.cell timer
    w.remove t.timeSlot timer

/-- The loop of `tick` over the current slot, from `tmp` on. -/
def tickLoop : ℕ → TimeWheel D A → Link → Option (TimeWheel D A × List (ℕ × A))
  | 0, _, _ => none
  | _ + 1, w, none => some (w, [])
  | fuel + 1, w, some tmp => do
    let t ← w.store.cell tmp
    if 0 < t.rotation then
      let s ← w.store.assign (some tmp) fun t => { t with rotation := t.rotation - 1 }
      tickLoop fuel { w with store := s } t.next
    else
      match t.cbFunc, t.userData with
      | some f, some d => do
        let w ← w.remove w.curSlot tmp
        let (w, calls) ← tickLoop fuel w t.next
        some (w, (tmp, f d) :: calls)
      | _, _ => none

/-- `tick()`, with the callbacks called and their timers, in order. -/
def tick (w : TimeWheel D A) : Option (TimeWheel D A × List (ℕ × A)) := do
  let (w, calls) ← tickLoop (w.store.fresh + 1) w (w.slots w.curSlot)
  some ({ w with curSlot := slotOf (w.curSlot + 1) }, calls)

end TimeWheel

end LinuxServer
