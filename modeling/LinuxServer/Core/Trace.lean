import Mathlib

/-!
# Traces of a labelled transition relation

`Trace step s es s'` says that the events `es` lead from `s` to `s'`. What one step keeps, every
trace keeps; what one step of a machine can follow on another one, every trace can.

A machine that computes its steps from inputs is seen by its outputs, up to where it stops.
-/

namespace Core

variable {σ τ ε φ : Type*}

inductive Trace (step : σ → ε → σ → Prop) : σ → List ε → σ → Prop
  | nil (s : σ) : Trace step s [] s
  | cons {s s' s'' : σ} {e : ε} {es : List ε} :
      step s e s' → Trace step s' es s'' → Trace step s (e :: es) s''

namespace Trace

variable {step : σ → ε → σ → Prop} {s s' s'' : σ} {e : ε} {es es' : List ε}

lemma append (h : Trace step s es s') (h' : Trace step s' es' s'') :
    Trace step s (es ++ es') s'' := by
  induction h with
  | nil => exact h'
  | cons hs _ ih => exact .cons hs (ih h')

lemma snoc (h : Trace step s es s') (hs : step s' e s'') : Trace step s (es ++ [e]) s'' :=
  h.append (.cons hs (.nil _))

lemma mono {step' : σ → ε → σ → Prop} (hstep : ∀ s e s', step s e s' → step' s e s')
    (h : Trace step s es s') : Trace step' s es s' := by
  induction h with
  | nil => exact .nil _
  | cons hs _ ih => exact .cons (hstep _ _ _ hs) ih

/-- The events say where a machine gets to whose steps are determined by their events. -/
lemma det (hdet : ∀ s e s₁ s₂, step s e s₁ → step s e s₂ → s₁ = s₂) (h : Trace step s es s')
    (h' : Trace step s es s'') : s' = s'' := by
  induction h with
  | nil =>
    cases h'
    rfl
  | cons hs _ ih =>
    cases h' with
    | cons hs' htrace =>
      obtain rfl := hdet _ _ _ _ hs hs'
      exact ih htrace

/-- What every step keeps holds after every trace. -/
theorem invariant {I : σ → Prop} (hstep : ∀ s e s', I s → step s e s' → I s')
    (h : Trace step s es s') (hs : I s) : I s' := by
  induction h with
  | nil => exact hs
  | cons hs' _ ih => exact ih (hstep _ _ _ hs hs')

/-- An invariant of a state and of the events that led to it. -/
theorem history {I : σ → List ε → Prop} (hstep : ∀ s es e s', I s es → step s e s' → I s' (es ++ [e]))
    (h : Trace step s es s') {es₀ : List ε} (hs : I s es₀) : I s' (es₀ ++ es) := by
  induction h generalizing es₀ with
  | nil => rwa [List.append_nil]
  | @cons _ _ _ e es hs' _ ih =>
    have hrest := ih (hstep _ _ _ _ hs hs')
    rwa [List.append_assoc] at hrest

/-- A machine that follows every step follows every trace. -/
theorem simulate {step' : τ → φ → τ → Prop} {R : σ → τ → Prop} {f : ε → φ}
    (hstep : ∀ s t e s', R s t → step s e s' → ∃ t', step' t (f e) t' ∧ R s' t')
    (h : Trace step s es s') {t : τ} (ht : R s t) :
    ∃ t', Trace step' t (es.map f) t' ∧ R s' t' := by
  induction h generalizing t with
  | nil => exact ⟨t, .nil t, ht⟩
  | cons hs _ ih =>
    obtain ⟨t₁, ht₁, hr₁⟩ := hstep _ _ _ _ ht hs
    obtain ⟨t', ht', hr'⟩ := ih hr₁
    exact ⟨t', .cons ht₁ ht', hr'⟩

/-- A ledger that no step lowers, and that exactly the steps that are not `ok` raise: at the end of
a trace it is as it was at the beginning if and only if every step was `ok`. -/
theorem ledger {ℓ : Type*} [PartialOrder ℓ] {B : σ → ℓ → Prop} {ok : σ → ε → Prop}
    (hdet : ∀ s e s₁ s₂, step s e s₁ → step s e s₂ → s₁ = s₂)
    (hstep : ∀ s l e s', B s l → step s e s' → ∃ l', B s' l' ∧ l ≤ l' ∧ (ok s e ↔ l' = l))
    (h : Trace step s es s') {l : ℓ} (hl : B s l) :
    ∃ l', B s' l' ∧ l ≤ l' ∧ (Trace (fun s e s' => step s e s' ∧ ok s e) s es s' ↔ l' = l) := by
  induction h generalizing l with
  | nil => exact ⟨l, hl, le_rfl, iff_of_true (.nil _) rfl⟩
  | cons hs _ ih =>
    obtain ⟨l₁, hl₁, hle₁, hok⟩ := hstep _ _ _ _ hl hs
    obtain ⟨l', hl', hle', hrest⟩ := ih hl₁
    refine ⟨l', hl', hle₁.trans hle', ?_, ?_⟩
    · intro htrace
      cases htrace with
      | cons hs' htrace =>
        obtain rfl := hdet _ _ _ _ hs hs'.1
        rw [hrest.mp htrace, hok.mp hs'.2]
    · rintro rfl
      have heq : l₁ = l' := le_antisymm hle' hle₁
      exact .cons ⟨hs, hok.mpr heq⟩ (hrest.mpr heq.symm)

/-- When, as long as an invariant holds, exactly the `ok` steps do what they are to do, and keep the
invariant, then every step of a trace does what it is to do if and only if every step is `ok`. -/
theorem guard_iff {I : σ → Prop} {ok : σ → ε → Prop} {meets : σ → ε → σ → Prop}
    (hstep : ∀ s e s', I s → step s e s' → (meets s e s' ↔ ok s e) ∧ (ok s e → I s')) (hs : I s) :
    Trace (fun s e s' => step s e s' ∧ meets s e s') s es s' ↔
      Trace (fun s e s' => step s e s' ∧ ok s e) s es s' := by
  constructor
  · intro h
    induction h with
    | nil => exact .nil _
    | cons hs' _ ih =>
      obtain ⟨hiff, hkeep⟩ := hstep _ _ _ hs hs'.1
      have hok := hiff.mp hs'.2
      exact .cons ⟨hs'.1, hok⟩ (ih (hkeep hok))
  · intro h
    induction h with
    | nil => exact .nil _
    | cons hs' _ ih =>
      obtain ⟨hiff, hkeep⟩ := hstep _ _ _ hs hs'.1
      exact .cons ⟨hs'.1, hiff.mpr hs'.2⟩ (ih (hkeep hs'.2))

end Trace

/-! ### What is seen of a machine -/

/-- The outputs of a machine on the inputs, up to the first input that it stops at. -/
def observe {ι ο : Type*} (turn : ι → σ → Option (ο × σ)) : List ι → σ → List ο
  | [], _ => []
  | i :: is, s =>
    match turn i s with
    | none => []
    | some (o, s) => o :: observe turn is s

/-- Two states are not told apart when no turn tells them apart, and every turn leaves states that are
related again. -/
theorem observe_congr {ι ο : Type*} {turn : ι → σ → Option (ο × σ)} {R : σ → σ → Prop}
    (hturn : ∀ i s t, R s t → Option.Rel (fun x y => x.1 = y.1 ∧ R x.2 y.2) (turn i s) (turn i t)) :
    ∀ (is : List ι) {s t : σ}, R s t → observe turn is s = observe turn is t := by
  intro is
  induction is with
  | nil => exact fun _ => rfl
  | cons i is ih =>
    intro s t h
    have hrel := hturn i s t h
    rw [observe, observe]
    cases hs : turn i s with
    | none =>
      cases ht : turn i t with
      | none => rfl
      | some y =>
        rw [hs, ht] at hrel
        cases hrel
    | some x =>
      cases ht : turn i t with
      | none =>
        rw [hs, ht] at hrel
        cases hrel
      | some y =>
        rw [hs, ht] at hrel
        cases hrel with
        | some hxy =>
          dsimp only
          rw [hxy.1, ih hxy.2]

end Core
