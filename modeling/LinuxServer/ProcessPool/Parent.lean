import LinuxServer.ProcessPool.Basic

/-!
# The parent of the process pool

What `run_parent` does on SIGCHLD and on SIGTERM. The loop of SIGCHLD tests `pid == waitpid(..)`, so `pid`
keeps the value that it has, and it is not initialised: that value is part of the event. Workers
that have exited wait to be reaped; one SIGCHLD may be for several of them.
-/

namespace LinuxServer.ProcessPool

open Core

/-- The parent and its workers: the process id that `fork` returned, whether the worker runs, the
workers that have exited, in the order in which `waitpid` will return them, how often the parent's
end of the pipe was closed, and what SIGTERM was sent to. -/
structure Parent (n : ℕ) extends ProcessPool n where
  pid : Fin n → ℤ
  running : Fin n → Bool
  exited : List (Fin n)
  closed : Fin n → ℕ
  killed : List ℤ

namespace Parent

variable {n : ℕ}

/-- `waitpid(-1, &stat, WNOHANG)` -/
def waitpid (s : Parent n) : ℤ × Parent n :=
  match s.exited with
  | i :: rest => (s.pid i, { s with exited := rest })
  | [] => (if ∃ i, s.running i = true then 0 else -1, s)

/-- The loop over the workers, for one `pid`. -/
def join (s : Parent n) (pid : ℤ) : Parent n :=
  { s with
    mPid := fun i => if s.mPid i = pid then -1 else s.mPid i
    closed := fun i => if s.mPid i = pid then s.closed i + 1 else s.closed i }

/-- `while ((pid == waitpid(..)) > 0)` -/
def reapLoop (s : Parent n) (pid : ℤ) : ℕ → Option (Parent n)
  | 0 => none
  | fuel + 1 =>
    if pid = s.waitpid.1 then (s.waitpid.2.join pid).reapLoop pid fuel else some s.waitpid.2

/-- `m_stop` is computed from the table. -/
def setStop (s : Parent n) : Parent n := { s with mStop := decide (∀ i, s.mPid i = -1) }

/-- The case of SIGCHLD; `none` when the loop does not end. -/
def handleSigchld (s : Parent n) (pid : ℤ) : Option (Parent n) :=
  (s.reapLoop pid (s.exited.length + 1)).map setStop

/-- The case of SIGTERM and SIGINT. -/
def sigterm (s : Parent n) : Parent n :=
  { s with killed := s.killed ++ ((List.finRange n).map s.mPid).filter fun pid => pid ≠ -1 }

/-- Before the first event. -/
def init [NeZero n] (pid : Fin n → ℤ) : Parent n where
  toProcessPool := .init pid
  pid := pid
  running _ := true
  exited := []
  closed _ := 0
  killed := []

inductive Event (n : ℕ)
  | listen
  | exit (i : Fin n)
  | sigchld (pid : ℤ)
  | sigterm

inductive Step [NeZero n] : Parent n → Event n → Parent n → Prop
  | listen {s : Parent n} {t : ProcessPool n} :
      s.runParent = some t → Step s .listen { s with toProcessPool := t }
  /-- Among those that have exited before, `waitpid` may return it at any place. -/
  | exit {s : Parent n} {i : Fin n} {before after : List (Fin n)} :
      s.running i = true → s.exited = before ++ after →
        Step s (.exit i) { s with
          running := Function.update s.running i false
          exited := before ++ i :: after }
  | sigchld {s s' : Parent n} {pid : ℤ} : s.handleSigchld pid = some s' → Step s (.sigchld pid) s'
  | sigterm {s : Parent n} : Step s .sigterm s.sigterm

/-- What the case of SIGCHLD is for: all that have exited are reaped, closed and recorded dead. -/
def reapAll (s : Parent n) : Parent n :=
  setStop { s with
    exited := []
    mPid := fun i => if i ∈ s.exited then -1 else s.mPid i
    closed := fun i => if i ∈ s.exited then s.closed i + 1 else s.closed i }

/-- The value that `pid` has by chance is right: no worker has exited and `waitpid` returns something
else, or one worker has exited and `waitpid` returns this value. -/
def Guesses (s : Parent n) (pid : ℤ) : Prop :=
  s.exited = [] ∧ pid ≠ s.waitpid.1 ∨ ∃ i, s.exited = [i] ∧ pid = s.pid i

def Guessed (s : Parent n) : Event n → Prop
  | .sigchld pid => s.Guesses pid
  | _ => True

end Parent

end LinuxServer.ProcessPool
