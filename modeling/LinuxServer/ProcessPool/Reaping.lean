import LinuxServer.ProcessPool.Parent

/-!
# The reaping of workers

A turn of the loop reaps at most one worker, and is followed by another one only when that was the process
whose id `pid` has. So the loop reaps one worker of which it takes no notice, or does not end, unless
`pid` is right.
-/

namespace LinuxServer.ProcessPool.Parent

open Core

variable {n : ℕ} {s s' : Parent n} {pid : ℤ} {i : Fin n} {rest : List (Fin n)}

/-! ### The loop -/

lemma waitpid_cons (h : s.exited = i :: rest) : s.waitpid = (s.pid i, { s with exited := rest }) := by
  rw [waitpid, h]

lemma waitpid_nil (h : s.exited = []) :
    s.waitpid = (if ∃ i, s.running i = true then 0 else -1, s) := by
  rw [waitpid, h]

/-- Without a worker to reap a turn of the loop is followed by another one, or the loop ends. -/
lemma reapLoop_nil : ∀ (fuel : ℕ) (s t : Parent n), s.exited = [] →
    s.reapLoop pid fuel = some t → pid ≠ s.waitpid.1 ∧ t = s
  | 0, _, _, _, ht => by cases ht
  | fuel + 1, s, t, h, ht => by
    rw [reapLoop] at ht
    split at ht
    next heq =>
      have hself : s.waitpid.2 = s := by rw [waitpid_nil h]
      rw [hself] at ht
      have hexited : (s.join pid).exited = [] := h
      have hsame : (s.join pid).waitpid.1 = s.waitpid.1 := by
        rw [waitpid_nil hexited, waitpid_nil h]
        rfl
      exact absurd (heq.trans hsame.symm) (reapLoop_nil fuel _ t hexited ht).1
    next hne =>
      cases ht
      exact ⟨hne, by rw [waitpid_nil h]⟩

/-- The loop has an answer within a turn for each worker to reap and one more, or none at all. -/
lemma reapLoop_mono : ∀ (fuel : ℕ) (s t : Parent n), s.reapLoop pid fuel = some t →
    s.reapLoop pid (s.exited.length + 1) = some t
  | 0, _, _, ht => by cases ht
  | fuel + 1, s, t, ht => by
    cases hexited : s.exited with
    | nil =>
      obtain ⟨hne, rfl⟩ := reapLoop_nil _ s t hexited ht
      rw [reapLoop, if_neg hne, waitpid_nil hexited]
    | cons i rest =>
      rw [reapLoop] at ht ⊢
      split at ht
      next heq =>
        rw [if_pos heq]
        have hloop := reapLoop_mono fuel _ t ht
        have hlength : (s.waitpid.2.join pid).exited.length = rest.length := by
          rw [waitpid_cons hexited]
          rfl
        rw [hlength] at hloop
        exact hloop
      next hne => rw [if_neg hne, ht]

/-- What the handler does not do is not done by a loop of any length. -/
lemma handleSigchld_of_reapLoop (fuel : ℕ) {t : Parent n} (h : s.reapLoop pid fuel = some t) :
    s.handleSigchld pid = some t.setStop := by
  rw [handleSigchld, reapLoop_mono fuel s t h]
  rfl

/-! ### The table -/

/-- The table records the process ids of those that run or wait to be reaped. -/
structure Known (s : Parent n) (fork : Fin n → ℤ) : Prop where
  pid : s.pid = fork
  mPid : ∀ i, s.mPid i = if s.running i = true ∨ i ∈ s.exited then fork i else -1
  exited : ∀ i ∈ s.exited, s.running i = false
  nodup : s.exited.Nodup

variable {fork : Fin n → ℤ}

/-- Process ids are positive, and no two processes have the same one. -/
structure IsFork (fork : Fin n → ℤ) : Prop where
  pos : ∀ i, 0 < fork i
  injective : Function.Injective fork

lemma IsFork.ne_dead (hf : IsFork fork) (i : Fin n) : fork i ≠ -1 := by
  have hpos := hf.pos i
  omega

namespace Known

lemma mPid_exited (h : s.Known fork) (hi : i ∈ s.exited) : s.mPid i = fork i := by
  rw [h.mPid, if_pos (.inr hi)]

lemma mPid_eq_iff (h : s.Known fork) (hf : IsFork fork) (hi : i ∈ s.exited) {j : Fin n} :
    s.mPid j = fork i ↔ j = i := by
  constructor
  · intro heq
    rw [h.mPid] at heq
    split at heq
    · exact hf.injective heq
    · exact absurd heq.symm (hf.ne_dead i)
  · rintro rfl
    exact h.mPid_exited hi

lemma live_iff (h : s.Known fork) (hf : IsFork fork) (i : Fin n) :
    s.mPid i ≠ -1 ↔ s.running i = true ∨ i ∈ s.exited := by
  rw [h.mPid]
  split
  next hlives => exact iff_of_true (hf.ne_dead i) hlives
  next hdead => exact iff_of_false (not_not.mpr rfl) hdead

/-- After `reapAll` the table records those that run. -/
lemma reapAll (h : s.Known fork) : s.reapAll.Known fork where
  pid := h.pid
  mPid i := by
    show (if i ∈ s.exited then -1 else s.mPid i) = if s.running i = true ∨ i ∈ [] then fork i else -1
    by_cases hi : i ∈ s.exited
    · rw [if_pos hi, h.exited i hi, if_neg (by simp)]
    · rw [if_neg hi, h.mPid]
      simp only [hi, List.not_mem_nil]
  exited i hi := absurd hi List.not_mem_nil
  nodup := List.nodup_nil

lemma exit {before after : List (Fin n)} (h : s.Known fork) (hrun : s.running i = true)
    (hexited : s.exited = before ++ after) :
    Known { s with
      running := Function.update s.running i false
      exited := before ++ i :: after } fork where
  pid := h.pid
  mPid j := by
    show s.mPid j = if Function.update s.running i false j = true ∨ j ∈ before ++ i :: after
      then fork j else -1
    rw [h.mPid, hexited]
    by_cases hj : j = i
    · subst hj
      rw [if_pos (.inl hrun), if_pos (.inr (by simp))]
    · simp [hj]
  exited j hj := by
    show Function.update s.running i false j = false
    by_cases heq : j = i
    · subst heq
      exact Function.update_self _ _ _
    · rw [Function.update_of_ne heq]
      apply h.exited j
      simpa [hexited, heq] using hj
  nodup := by
    have hi : i ∉ before ++ after := by
      rw [← hexited]
      intro hi
      rw [h.exited i hi] at hrun
      cases hrun
    have hnodup : (before ++ after).Nodup := hexited ▸ h.nodup
    exact List.nodup_middle.mpr (List.nodup_cons.mpr ⟨hi, hnodup⟩)

end Known

/-! ### The handler -/

/-- The worker that a turn reaps stays in the table unless `pid` is its process id. -/
lemma handleSigchld_cons (h : s.Known fork) (hexited : s.exited = i :: rest)
    (hne : pid ≠ fork i) : s.handleSigchld pid = some (setStop { s with exited := rest }) := by
  apply handleSigchld_of_reapLoop 1
  rw [reapLoop, waitpid_cons hexited, if_neg (by rwa [h.pid])]

/-- The loop ends without a worker to reap only when `pid` is not what `waitpid` then returns. -/
lemma handleSigchld_nil (hexited : s.exited = []) :
    s.handleSigchld pid = some s.reapAll ↔ pid ≠ s.waitpid.1 := by
  constructor
  · intro hs
    rw [handleSigchld, Option.map_eq_some_iff] at hs
    obtain ⟨t, ht, -⟩ := hs
    exact (reapLoop_nil _ s t hexited ht).1
  · intro hne
    have hloop : s.reapLoop pid 1 = some s := by rw [reapLoop, if_neg hne, waitpid_nil hexited]
    have hreap : s.reapAll = s.setStop := by
      rw [reapAll, hexited]
      simp only [List.not_mem_nil, if_false]
      rw [← hexited]
    rw [handleSigchld_of_reapLoop _ hloop, hreap]

/-- `reapAll` records a worker that waits to be reaped dead. -/
lemma Known.ne_reapAll (h : s.Known fork) (hf : IsFork fork) (hi : i ∈ s.exited)
    (hs : s'.mPid i = s.mPid i) : s' ≠ s.reapAll := by
  rintro rfl
  have hdead : s.reapAll.mPid i = -1 := if_pos hi
  rw [hdead, h.mPid_exited hi] at hs
  exact hf.ne_dead i hs.symm

/-- The entry that the loop over the workers finds for the process id of `i` is the one of `i`. -/
lemma Known.ite_mPid {α : Type*} (h : s.Known fork) (hf : IsFork fork) (hi : i ∈ s.exited) (j : Fin n)
    (x y : α) : (if s.mPid j = fork i then x else y) = if j = i then x else y := by
  simp only [h.mPid_eq_iff hf hi]

/-- The turn that reaps the worker with the process id `pid`. -/
lemma Known.join_mPid (h : s.Known fork) (hf : IsFork fork) (hi : i ∈ s.exited) (j : Fin n) :
    (join { s with exited := rest } (fork i)).mPid j = if j = i then -1 else s.mPid j :=
  h.ite_mPid hf hi j _ _

lemma Known.join_closed (h : s.Known fork) (hf : IsFork fork) (hi : i ∈ s.exited) (j : Fin n) :
    (join { s with exited := rest } (fork i)).closed j =
      if j = i then s.closed j + 1 else s.closed j :=
  h.ite_mPid hf hi j _ _

/-- One worker to reap, and `pid` is right. -/
lemma Known.handleSigchld_one (h : s.Known fork) (hf : IsFork fork) (hexited : s.exited = [i]) :
    s.handleSigchld (fork i) = some s.reapAll := by
  have hne : fork i ≠ (join { s with exited := [] } (fork i)).waitpid.1 := by
    have hpos := hf.pos i
    rw [waitpid_nil (s := join { s with exited := [] } (fork i)) rfl]
    dsimp only
    split <;> omega
  have hloop : s.reapLoop (fork i) 2 = some (join { s with exited := [] } (fork i)) := by
    rw [reapLoop, waitpid_cons hexited, if_pos (by rw [h.pid]), reapLoop, if_neg hne,
      waitpid_nil (s := join { s with exited := [] } (fork i)) rfl]
  rw [handleSigchld_of_reapLoop _ hloop, Parent.reapAll]
  have hi : i ∈ s.exited := hexited ▸ List.mem_singleton_self i
  have hmPid : (join { s with exited := [] } (fork i)).mPid = _ := funext (h.join_mPid hf hi)
  have hclosed : (join { s with exited := [] } (fork i)).closed = _ := funext (h.join_closed hf hi)
  simp only [join] at hmPid hclosed ⊢
  simp only [hexited, List.mem_singleton, hmPid, hclosed]

/-- Two workers or more to reap, and `pid` is right for the first: the second is reaped and not recorded
dead. -/
lemma Known.handleSigchld_two {j : Fin n} (h : s.Known fork) (hf : IsFork fork)
    (hexited : s.exited = i :: j :: rest) :
    ∃ t, s.handleSigchld (fork i) = some t ∧ t.mPid j = s.mPid j := by
  have hnodup := h.nodup
  rw [hexited, List.nodup_cons] at hnodup
  have hji : j ≠ i := fun heq => hnodup.1 (heq ▸ List.mem_cons_self)
  have hfork : fork i ≠ fork j := fun heq => hji (hf.injective heq).symm
  have hloop : s.reapLoop (fork i) 2 =
      some { join { s with exited := j :: rest } (fork i) with exited := rest } := by
    rw [reapLoop, waitpid_cons hexited, if_pos (by rw [h.pid]), reapLoop,
      waitpid_cons (s := join { s with exited := j :: rest } (fork i)) rfl, if_neg]
    show ¬ fork i = s.pid j
    rwa [h.pid]
  refine ⟨_, handleSigchld_of_reapLoop _ hloop, ?_⟩
  show (join { s with exited := j :: rest } (fork i)).mPid j = s.mPid j
  have hi : i ∈ s.exited := hexited ▸ List.mem_cons_self
  rw [h.join_mPid hf hi, if_neg hji]

/-- The handler reaps all that have exited if and only if `pid` is right by chance. -/
lemma Known.handleSigchld_iff (h : s.Known fork) (hf : IsFork fork) :
    s.handleSigchld pid = some s.reapAll ↔ s.Guesses pid := by
  cases hexited : s.exited with
  | nil =>
    rw [handleSigchld_nil hexited, Guesses, hexited]
    simp
  | cons i rest =>
    have hi : i ∈ s.exited := hexited ▸ List.mem_cons_self
    constructor
    · intro hs
      by_cases heq : pid = fork i
      · subst heq
        cases rest with
        | nil => exact .inr ⟨i, hexited, by rw [h.pid]⟩
        | cons j rest =>
          exfalso
          obtain ⟨t, ht, hmPid⟩ := h.handleSigchld_two hf hexited
          rw [ht] at hs
          have hj : j ∈ s.exited := by rw [hexited]; simp
          exact h.ne_reapAll hf hj hmPid (Option.some_inj.mp hs)
      · rw [handleSigchld_cons h hexited heq] at hs
        exact absurd (Option.some_inj.mp hs) (h.ne_reapAll hf hi rfl)
    · rintro (⟨hnil, -⟩ | ⟨k, hk, rfl⟩)
      · rw [hexited] at hnil
        cases hnil
      · rw [h.pid]
        exact h.handleSigchld_one hf hk

/-! ### Runs -/

variable [NeZero n]

lemma known_init : (init fork).Known fork where
  pid := rfl
  mPid _ := (if_pos (.inl rfl)).symm
  exited _ hi := absurd hi List.not_mem_nil
  nodup := List.nodup_nil

/-- The listen event reads the table. -/
lemma runParent_mPid {s t : ProcessPool n} (h : s.runParent = some t) : t.mPid = s.mPid := by
  rw [runParent, Option.bind_eq_bind, Option.bind_eq_some_iff] at h
  obtain ⟨i, -, hi⟩ := h
  split at hi <;> cases hi <;> rfl

/-- What a step keeps when SIGCHLD finds the right `pid`. -/
lemma step_known {e : Event n} (hf : IsFork fork) (h : s.Known fork) (hs : Step s e s')
    (hok : s.Guessed e) : s'.Known fork := by
  cases hs with
  | listen hrun =>
    refine { h with mPid := ?_ }
    intro i
    show _ = ite _ _ _
    rw [← h.mPid i]
    exact congrFun (runParent_mPid hrun) i
  | exit hrun hexited => exact h.exit hrun hexited
  | sigchld hhandle =>
    rw [(h.handleSigchld_iff hf).mpr hok] at hhandle
    cases hhandle
    exact h.reapAll
  | sigterm => exact { h with }

/-- In every state of a run in which each SIGCHLD found the right `pid`, the next one reaps all that have
exited if and only if it finds the right `pid`; afterwards the table has exactly those that run. -/
theorem run_reapsAll_iff {es : List (Event n)} (hpos : ∀ i, 0 < fork i)
    (hinj : Function.Injective fork)
    (hrun : Trace (fun s e s' => Step s e s' ∧ s.Guessed e) (init fork) es s) :
    (∀ pid, s.handleSigchld pid = some s.reapAll ↔ s.Guesses pid) ∧
      (∀ i, s.mPid i ≠ -1 ↔ s.running i = true ∨ i ∈ s.exited) ∧
      ∀ i, s.reapAll.mPid i ≠ -1 ↔ s.reapAll.running i = true := by
  have hf : IsFork fork := ⟨hpos, hinj⟩
  have hknown : s.Known fork := by
    refine Trace.invariant (I := fun s => s.Known fork) ?_ hrun known_init
    intro s e s' h hs
    exact step_known hf h hs.1 hs.2
  refine ⟨fun pid => hknown.handleSigchld_iff hf, hknown.live_iff hf, ?_⟩
  intro i
  rw [hknown.reapAll.live_iff hf i]
  exact or_iff_left List.not_mem_nil

/-- The process ids of two workers. -/
def twoPids (i : Fin 2) : ℤ := 100 + i.val

lemma isFork_twoPids : IsFork twoPids := ⟨by decide, by decide⟩

/-- One of two workers exits, and `pid` happens to have its process id. -/
theorem run_reapsAll_one :
    ∃ s : Parent 2, s.exited = [0] ∧ s.handleSigchld 100 = some s.reapAll ∧ s.reapAll.mStop = false := by
  have hrun : Trace (fun s e s' => Step s e s' ∧ s.Guessed e) (init twoPids) [.exit 0] _ :=
    .cons ⟨@Step.exit _ _ _ _ [] _ rfl rfl, trivial⟩ (.nil _)
  have hiff := (run_reapsAll_iff (by decide) isFork_twoPids.injective hrun).1 100
  exact ⟨_, rfl, hiff.mpr (.inr ⟨0, rfl, rfl⟩), rfl⟩

/-- Both workers exit, and one SIGCHLD is handled for both: whatever value `pid` has, they are not both
reaped and recorded dead. With the value 0 one is left a zombie, and the other stays in the table. -/
theorem run_notReapsAll :
    ∃ s s' : Parent 2, Trace Step (init twoPids) [.exit 0, .exit 1] s ∧
      (∀ pid, s.handleSigchld pid ≠ some s.reapAll) ∧
      s.handleSigchld 0 = some s' ∧ s'.exited = [1] ∧ s'.mPid 0 = 100 ∧ s'.mStop = false := by
  have hrun : Trace (fun s e s' => Step s e s' ∧ s.Guessed e) (init twoPids) [.exit 0, .exit 1] _ :=
    .cons ⟨@Step.exit _ _ _ _ [] _ rfl rfl, trivial⟩
      (.cons ⟨@Step.exit _ _ _ _ [0] [] rfl rfl, trivial⟩ (.nil _))
  have hknown := Trace.invariant (I := fun s => s.Known twoPids)
    (fun _ _ _ h hs => step_known isFork_twoPids h hs.1 hs.2) hrun known_init
  refine ⟨_, _, hrun.mono fun _ _ _ hs => hs.1, ?_, rfl, rfl, rfl, rfl⟩
  intro pid hs
  rcases (hknown.handleSigchld_iff isFork_twoPids).mp hs with ⟨hnil, -⟩ | ⟨i, hone, -⟩
  · cases hnil
  · cases hone

end LinuxServer.ProcessPool.Parent
