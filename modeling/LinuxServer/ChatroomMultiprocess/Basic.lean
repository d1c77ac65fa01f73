import LinuxServer.Core.Trace
import LinuxServer.Core.Segment

/-!
# The parent of the multi-process chat server

The tables of `chatroom_multiprocess_server.cpp`: `users` lists the users, `sub_process` gives the
place of a user by the process that serves it. A new user is written behind the last one; when a
child has exited, the last user is moved into the place of its user. What the system calls answer is
part of the event. A step that would write outside of an array is no step.

Children are numbered as they are forked. In the loop of SIGCHLD the reaped process is the one that
the loop body works on. The addresses of the clients are left out, and so is the end of the server.
-/

namespace LinuxServer

open Core

namespace ChatroomMultiprocess

/-- `USER_LIMIT` -/
def userLimit : ℕ := 5

/-- `PROCESS_LIMIT` -/
def processLimit : ℤ := 65536

/-- `client_data` -/
structure ClientData where
  connfd : ℕ
  pid : ℤ
  pipefd₀ : ℕ
  pipefd₁ : ℕ

/-- What stands behind a descriptor of the parent. -/
inductive Fd
  | other
  | pipe (child : ℕ)
  deriving DecidableEq

/-- A child process: `idx` is what it was forked with, `live` says that its exit is not handled yet,
and `reapedBefore` counts the exits that were handled before it was forked. -/
structure Child where
  pid : ℤ
  idx : ℕ
  live : Bool
  reapedBefore : ℕ

end ChatroomMultiprocess

open ChatroomMultiprocess in
/-- The parent, and the children that it has forked. -/
structure ChatroomMultiprocess where
  users : ℕ → ClientData
  userCount : ℕ
  subProcess : ℤ → ℤ
  stopServer : Bool
  terminate : Bool
  fds : ℕ → Option Fd
  child : ℕ → Child
  born : ℕ
  reaped : ℕ
  /-- What SIGTERM was sent to. -/
  killed : List ℤ

namespace ChatroomMultiprocess

/-- Before the first event. `users` is not initialised. -/
def start (users : ℕ → ClientData) (fds : Finset ℕ) : ChatroomMultiprocess where
  users := users
  userCount := 0
  subProcess _ := -1
  stopServer := false
  terminate := false
  fds fd := if fd ∈ fds then some .other else none
  child _ := ⟨0, 0, false, 0⟩
  born := 0
  reaped := 0
  killed := []

/-- An index of `sub_process`. -/
def IsPid (pid : ℤ) : Prop := 0 ≤ pid ∧ pid < processLimit

instance (pid : ℤ) : Decidable (IsPid pid) := inferInstanceAs (Decidable (_ ∧ _))

/-! ### A new user -/

/-- The entry behind the last user, and the pipe for its child. -/
def prepare (s : ChatroomMultiprocess) (connfd p₀ p₁ : ℕ) : ChatroomMultiprocess :=
  { s with
    users := Function.update s.users s.userCount
      { s.users s.userCount with connfd := connfd, pipefd₀ := p₀, pipefd₁ := p₁ }
    fds := Function.update (Function.update s.fds p₀ (some .other)) p₁ (some .other) }

/-- The parent's branch behind `fork`; the child runs `run_child(user_count, users, share_mem)`. -/
def enroll (s : ChatroomMultiprocess) (p₀ p₁ : ℕ) (pid : ℤ) : ChatroomMultiprocess :=
  { s with
    subProcess := Function.update s.subProcess pid s.userCount
    userCount := s.userCount + 1
    fds := Function.update (Function.update s.fds p₁ none) p₀ (some (.pipe s.born))
    child := Function.update s.child s.born ⟨pid, s.userCount, true, s.reaped⟩
    born := s.born + 1 }

/-- A user is accepted as `connfd`, which the parent closes again in any case. -/
def accept (s : ChatroomMultiprocess) (connfd p₀ p₁ : ℕ) (fork : Option ℤ) :
    Option ChatroomMultiprocess :=
  if userLimit < s.userCount then
    some s
  else
    match fork with
    | none => some (s.prepare connfd p₀ p₁)
    | some pid => if IsPid pid then some ((s.prepare connfd p₀ p₁).enroll p₀ p₁ pid) else none

/-! ### Signals -/

/-- `waitpid` has reaped the child `c`. -/
def reap (s : ChatroomMultiprocess) (c : ℕ) : ChatroomMultiprocess :=
  { s with
    child := Function.update s.child c { s.child c with live := false }
    reaped := s.reaped + 1 }

/-- `sub_process[pid] = i` -/
def setSubProcess (s : ChatroomMultiprocess) (pid i : ℤ) : ChatroomMultiprocess :=
  { s with subProcess := Function.update s.subProcess pid i }

/-- The pipe of the user `i` is closed, and the last user `n` is moved to its place. -/
def moveLast (s : ChatroomMultiprocess) (i n : ℕ) : ChatroomMultiprocess :=
  { s with
    fds := Function.update s.fds (s.users i).pipefd₀ none
    users := Function.update s.users i (s.users n)
    userCount := n }

/-- The user `i` is removed. -/
def removeUser (s : ChatroomMultiprocess) (i : ℕ) : Option ChatroomMultiprocess :=
  match s.userCount with
  | 0 => none
  | n + 1 =>
    if IsPid (s.users n).pid then
      some ((s.moveLast i n).setSubProcess (s.users n).pid i)
    else
      none

/-- The body of the loop of SIGCHLD, for the child `c`. -/
def handleExit (s : ChatroomMultiprocess) (c : ℕ) : Option ChatroomMultiprocess :=
  let pid := (s.child c).pid
  let delUser := s.subProcess pid
  let s := (s.reap c).setSubProcess pid (-1)
  if delUser < 0 ∨ (userLimit : ℤ) < delUser then some s else s.removeUser delUser.toNat

/-- The end of the case of SIGCHLD. -/
def sigchldDone (s : ChatroomMultiprocess) : ChatroomMultiprocess :=
  { s with stopServer := s.stopServer || (s.terminate && s.userCount == 0) }

/-- `users[i].pid` for every user -/
def pids (s : ChatroomMultiprocess) : List ℤ := segment (fun i => (s.users i).pid) 0 s.userCount

/-- The case of SIGTERM and SIGINT. -/
def sigterm (s : ChatroomMultiprocess) : ChatroomMultiprocess :=
  if s.userCount = 0 then
    { s with stopServer := true }
  else
    { s with killed := s.killed ++ s.pids, terminate := true }

inductive Event
  | accept (connfd p₀ p₁ : ℕ) (fork : Option ℤ)
  /-- The exit of a child is handled. -/
  | exit (c : ℕ)
  | sigchldDone
  | sigterm

/-- The system gives out descriptors that are not open, and a process id that no child has. -/
structure Fresh (s : ChatroomMultiprocess) (connfd p₀ p₁ : ℕ) (fork : Option ℤ) : Prop where
  conn : s.fds connfd = none
  pipe₀ : s.fds p₀ = none
  pipe₁ : s.fds p₁ = none
  ne : p₀ ≠ p₁ ∧ connfd ≠ p₀ ∧ connfd ≠ p₁
  pid : ∀ c < s.born, (s.child c).live = true → fork ≠ some (s.child c).pid

inductive Step : ChatroomMultiprocess → Event → ChatroomMultiprocess → Prop
  | accept {s s' : ChatroomMultiprocess} {connfd p₀ p₁ : ℕ} {fork : Option ℤ} :
      s.Fresh connfd p₀ p₁ fork → s.accept connfd p₀ p₁ fork = some s' →
        Step s (.accept connfd p₀ p₁ fork) s'
  | exit {s s' : ChatroomMultiprocess} {c : ℕ} :
      (s.child c).live = true → s.handleExit c = some s' → Step s (.exit c) s'
  | sigchldDone {s : ChatroomMultiprocess} : Step s .sigchldDone s.sigchldDone
  | sigterm {s : ChatroomMultiprocess} : Step s .sigterm s.sigterm

end ChatroomMultiprocess

end LinuxServer
