import Mathlib.Control.Monad.Writer

/-!
# Computations with a record

A computation that may go wrong, with a record of what it does. The record is there whether it goes
wrong or not, and forgetting it leaves a computation in `Option`. What holds of everything that is
recorded is proved along the computation.
-/

namespace Core

/-- A computation that gives a result or goes wrong, and records what it does before. -/
abbrev Recorded (ε : Type) := OptionT (Writer (List ε))

namespace Recorded

variable {ε α β : Type} {P Q : ε → Prop} {e : ε} {m m' : Recorded ε α} {f : α → Recorded ε β}
  {a : α} {r : Option α}

def result (m : Recorded ε α) : Option α := m.run.run.1

def record (m : Recorded ε α) : List ε := m.run.run.2

def note (e : ε) : Recorded ε Unit := OptionT.lift (tell [e])

/-- A step of which nothing is recorded. -/
def silent (r : Option α) : Recorded ε α := OptionT.mk (pure r)

@[simp] lemma result_pure : (pure a : Recorded ε α).result = some a := rfl

@[simp] lemma result_note : (note e).result = some () := rfl

@[simp] lemma result_silent : (silent r : Recorded ε α).result = r := rfl

@[simp] lemma record_pure : (pure a : Recorded ε α).record = [] := rfl

@[simp] lemma record_note : (note e).record = [e] := rfl

@[simp] lemma record_silent : (silent r : Recorded ε α).record = [] := rfl

@[simp] lemma result_bind : (m >>= f).result = m.result.bind fun a => (f a).result := by
  obtain ⟨r, es⟩ := m
  cases r with
  | none => rfl
  | some a => rfl

lemma record_bind : (m >>= f).record = m.record ++ m.result.elim [] fun a => (f a).record := by
  obtain ⟨r, es⟩ := m
  cases r with
  | none => rfl
  | some a => rfl

@[simp] lemma result_ite {c : Prop} [Decidable c] :
    (if c then m else m').result = if c then m.result else m'.result :=
  apply_ite _ _ _ _

/-! ### What is recorded -/

/-- Everything that is recorded is as `P` says. -/
def Records (P : ε → Prop) (m : Recorded ε α) : Prop := ∀ e ∈ m.record, P e

lemma records_pure : (pure a : Recorded ε α).Records P := List.forall_mem_nil _

lemma records_silent : (silent r : Recorded ε α).Records P := List.forall_mem_nil _

lemma records_note (he : P e) : (note e).Records P := List.forall_mem_singleton.mpr he

lemma Records.mono (hm : m.Records P) (hPQ : ∀ e, P e → Q e) : m.Records Q :=
  fun e he => hPQ e (hm e he)

/-- The second computation is run on the result of the first. -/
lemma Records.bind (hm : m.Records P) (hf : ∀ a, m.result = some a → (f a).Records P) :
    (m >>= f).Records P := by
  intro e he
  rw [record_bind, List.mem_append] at he
  rcases he with he | he
  · exact hm e he
  · cases hr : m.result with
    | none =>
      rw [hr] at he
      cases he
    | some a =>
      rw [hr] at he
      exact hf a hr e he

end Recorded

end Core
