import Mathlib

/-!
# Watched streams

A stream that `epoll` watches edge-triggered: what has arrived and was not read, whether its other
end was closed, whether it is armed, and whether it is on the list of the ready. Something new puts
an armed stream on the list; of a stream that is not armed it is not noticed, until it is armed again.

`Watched.Noticed` says that nothing is overlooked: a stream that is armed and has something to read is
on the list.
-/

namespace Core

structure Watched (α : Type*) where
  unread : List α
  ended : Bool
  armed : Bool
  ready : Bool
  deriving DecidableEq

namespace Watched

variable {α : Type*} {c : Watched α}

/-- A read would not block: there is something, or the end. -/
def readable (c : Watched α) : Bool := !c.unread.isEmpty || c.ended

/-- The stream begins to be watched, or is watched again. -/
def arm (c : Watched α) : Watched α := { c with armed := true, ready := c.ready || c.readable }

def notify (c : Watched α) : Watched α := { c with ready := c.ready || c.armed }

def arrive (c : Watched α) (xs : List α) : Watched α := { c with unread := c.unread ++ xs }.notify

/-- The other end is closed. -/
def finish (c : Watched α) : Watched α := { c with ended := true }.notify

/-- The stream is reported. -/
def report (c : Watched α) : Watched α := { c with ready := false }

/-- The stream is reported, and is not armed from then on. -/
def reportOnce (c : Watched α) : Watched α := { c.report with armed := false }

/-- The first `n` items are read. -/
def take (c : Watched α) (n : ℕ) : Watched α := { c with unread := c.unread.drop n }

lemma readable_iff : c.readable = true ↔ c.unread ≠ [] ∨ c.ended = true := by
  simp [readable]

lemma readable_eq_false : c.readable = false ↔ c.unread = [] ∧ c.ended = false := by
  simp [readable]

lemma readable_of_take {n : ℕ} (h : (c.take n).readable = true) : c.readable = true := by
  rw [readable_iff] at h ⊢
  refine h.imp_left fun hne hnil => hne ?_
  show c.unread.drop n = []
  rw [hnil, List.drop_nil]

/-! ### What is noticed -/

def Noticed (c : Watched α) : Prop := c.armed = true → c.readable = true → c.ready = true

lemma noticed_arm (c : Watched α) : c.arm.Noticed := by
  intro _ hr
  show (c.ready || c.readable) = true
  rw [show c.readable = true from hr, Bool.or_true]

lemma noticed_notify (c : Watched α) : c.notify.Noticed := by
  intro ha _
  show (c.ready || c.armed) = true
  rw [show c.armed = true from ha, Bool.or_true]

lemma noticed_of_empty (hnil : c.unread = []) (hopen : c.ended = false) : c.Noticed := by
  intro _ hr
  rw [readable_eq_false.mpr ⟨hnil, hopen⟩] at hr
  cases hr

lemma noticed_reportOnce (c : Watched α) : c.reportOnce.Noticed := by
  intro ha
  cases ha

lemma Noticed.take (h : c.Noticed) (n : ℕ) : (c.take n).Noticed :=
  fun ha hr => h ha (readable_of_take hr)

/-- Nothing is left on a stream that is armed and not on the list. -/
lemma Noticed.eq_of_not_ready (h : c.Noticed) (ha : c.armed = true) (hr : c.ready = false) :
    c.unread = [] ∧ c.ended = false := by
  rw [← readable_eq_false, Bool.eq_false_iff]
  intro hread
  rw [h ha hread] at hr
  cases hr

end Watched

end Core
