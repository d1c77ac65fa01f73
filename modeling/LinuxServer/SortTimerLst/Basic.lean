import LinuxServer.Core.Dll

/-!
# The sorted timer list

`sort_timer_lst` of `lst_timer.h`, pointer for pointer. The timers live in a store together with
the list; an operation is `none` where the C++ code would follow a null or dangling pointer.

A callback is a function from the client data of its timer to what it does; the list only calls
it, so `tick` returns the calls in the order in which they are made.
-/

namespace LinuxServer

open Core Core.Dll

/-- `util_timer`. -/
structure UtilTimer (D A : Type*) extends Node where
  expire : ℤ
  cbFunc : D → A
  userData : D

/-- `sort_timer_lst`, with the timers that exist. -/
structure SortTimerLst (D A : Type*) where
  store : Store (UtilTimer D A)
  head : Link
  tail : Link

instance {D A : Type*} : Linked (UtilTimer D A) where
  node := UtilTimer.toNode
  setNode t n := { t with toNode := n }
  node_setNode _ _ := rfl
  setNode_setNode _ _ _ := rfl

namespace SortTimerLst

variable {D A : Type*}

/-- The constructor. -/
def init : SortTimerLst D A := ⟨Store.empty, none, none⟩

/-- `new util_timer` with its fields assigned by the caller. -/
def newTimer (l : SortTimerLst D A) (expire : ℤ) (cbFunc : D → A) (userData : D) :
    SortTimerLst D A × ℕ :=
  ({ l with store := l.store.new ⟨⟨none, none⟩, expire, cbFunc, userData⟩ }, l.store.fresh)

/-- `timer->expire = e`, which callers do before `adjust_timer`. -/
def setExpire (l : SortTimerLst D A) (timer : Link) (e : ℤ) : Option (SortTimerLst D A) :=
  (l.store.assign timer fun t => { t with expire := e }).map fun s => { l with store := s }

/-- A bound on the iterations of a loop along the list: a list that ends has at most as many
nodes as there are names. -/
def fuel (l : SortTimerLst D A) : ℕ := l.store.fresh + 1

/-- The loop of the private `add_timer` and the code after it, from `prev` and `tmp` on. -/
def addTimerLoop (l : SortTimerLst D A) (timer : ℕ) :
    ℕ → Link → Link → Option (SortTimerLst D A)
  | 0, _, _ => none
  | _ + 1, prev, none => do
    let s ← l.store.setNext prev (some timer)
    let s ← s.setPrev (some timer) prev
    let s ← s.setNext (some timer) none
    some { l with store := s, tail := some timer }
  | fuel + 1, prev, some tmp => do
    let t ← l.store.cell timer
    let n ← l.store.cell tmp
    if t.expire < n.expire then
      let s ← l.store.setNext prev (some timer)
      let s ← s.setNext (some timer) (some tmp)
      let s ← s.setPrev (some tmp) (some timer)
      let s ← s.setPrev (some timer) prev
      some { l with store := s }
    else
      l.addTimerLoop timer fuel (some tmp) n.next

/-- The private `add_timer(timer, lst_head)`. It starts from `head`, whatever `lst_head` is. -/
def addTimerFrom (l : SortTimerLst D A) (timer : ℕ) (_lstHead : Link) :
    Option (SortTimerLst D A) := do
  let h ← l.store.deref l.head
  l.addTimerLoop timer l.fuel l.head h.next

/-- `add_timer(timer)` -/
def addTimer (l : SortTimerLst D A) : Link → Option (SortTimerLst D A)
  | none => some l
  | some timer =>
    if l.head = none then
      some { l with head := some timer, tail := some timer }
    else do
      let t ← l.store.cell timer
      let h ← l.store.deref l.head
      if t.expire < h.expire then
        let s ← l.store.setNext (some timer) l.head
        let s ← s.setPrev l.head (some timer)
        some { l with store := s, head := some timer }
      else
        l.addTimerFrom timer l.head

/-- `adjust_timer(timer)` -/
def adjustTimer (l : SortTimerLst D A) : Link → Option (SortTimerLst D A)
  | none => some l
  | some timer => do
    let t ← l.store.cell timer
    match t.next with
    | none => some l
    | some tmp =>
      let n ← l.store.cell tmp
      if t.expire < n.expire then
        some l
      else if some timer = l.head then
        let s ← l.store.setPrev t.next none
        let s ← s.setNext (some timer) none
        { l with store := s, head := t.next }.addTimerFrom timer t.next
      else
        let s ← l.store.setNext t.prev t.next
        let s ← s.setPrev t.next t.prev
        { l with store := s }.addTimerFrom timer t.next

/-- `del_timer(timer)` -/
def delTimer (l : SortTimerLst D A) : Link → Option (SortTimerLst D A)
  | none => some l
  | some timer =>
    if some timer = l.head ∧ some timer = l.tail then do
      let s ← l.store.free timer
      some { l with store := s, head := none, tail := none }
    else if some timer = l.head then do
      let t ← l.store.cell timer
      let s ← l.store.setPrev t.next none
      let s ← s.free timer
      some { l with store := s, head := t.next }
    else if some timer = l.tail then do
      let t ← l.store.cell timer
      let s ← l.store.setNext t.prev none
      let s ← s.free timer
      some { l with store := s, tail := t.prev }
    else do
      let t ← l.store.cell timer
      let s ← l.store.setNext t.prev t.next
      let s ← s.setPrev t.next t.prev
      let s ← s.free timer
      some { l with store := s }

/-- One expired timer of `tick`, its callback called: it is removed from the front. -/
def tickOne (l : SortTimerLst D A) (timer : ℕ) (next : Link) : Option (SortTimerLst D A) := do
  let s ← if next = none then some l.store else l.store.setPrev next none
  let s ← s.free timer
  some { l with store := s, head := next }

/-- The loop of `tick` at the time `cur`. -/
def tickLoop (cur : ℤ) :
    ℕ → SortTimerLst D A → Link → Option (SortTimerLst D A × List (ℕ × A))
  | 0, _, _ => none
  | _ + 1, l, none => some (l, [])
  | fuel + 1, l, some tmp => do
    let t ← l.store.cell tmp
    if cur < t.expire then
      some (l, [])
    else
      let l ← l.tickOne tmp t.next
      let (l, calls) ← tickLoop cur fuel l l.head
      some (l, (tmp, t.cbFunc t.userData) :: calls)

/-- `tick()` at the time `cur`, with the callbacks called and their timers, in order. -/
def tick (l : SortTimerLst D A) (cur : ℤ) : Option (SortTimerLst D A × List (ℕ × A)) :=
  if l.head = none then some (l, []) else tickLoop cur l.fuel l l.head

end SortTimerLst

end LinuxServer
