import LinuxServer.ParseHttp.Chunks
import LinuxServer.ParseHttp.Grammar
import LinuxServer.Core.Trace

/-!
# The connection of the request parser

The loop of `main` in `parse_http.cpp`: what `recv` answers, what `parse_content` makes of it, and what is
sent back. The loop is left behind the reply to a request, but not behind the reply to what is none.
-/

namespace LinuxServer.ParseHttp

open Core

/-- What `recv` answers: -1, 0, or the number of the bytes that it has put into the buffer. -/
inductive Recv
  | error
  | closed
  | data (chunk : Bytes)

/-- A number of bytes is not 0. -/
def Recv.Valid : Recv → Prop
  | .data chunk => chunk ≠ []
  | _ => True

/-- `szret[0]` -/
def gotIt : Bytes := ascii "I GET IT !\n".toList

/-- `szret[1]` -/
def somethingWrong : Bytes := ascii "something wrong!\n".toList

/-- The variables of `main`, and whether it is in its loop; with them what was received, what
`parse_content` has returned, call by call, and what was sent. -/
structure Connection where
  parser : Parser
  inLoop : Bool
  received : Bytes
  results : List HttpCode
  replies : List Bytes

namespace Connection

/-- Behind `accept`. -/
def start : Connection := ⟨.init, true, [], [], []⟩

/-- `send(connfd, text, strlen(text), 0)` -/
def reply (s : Connection) (text : Bytes) : Connection := { s with replies := s.replies ++ [text] }

/-- What the loop does with the result of `parse_content`. -/
def answer (s : Connection) : HttpCode → Connection
  | .noRequest => s
  | .getRequest => { s.reply gotIt with inLoop := false }
  | _ => s.reply somethingWrong

/-- `parse_content` has returned. -/
def parsed (s : Connection) (chunk : Bytes) (result : HttpCode) (parser : Parser) : Connection :=
  { s with
    parser := parser
    received := s.received ++ chunk
    results := s.results ++ [result] }

/-- A turn of the loop. -/
def turn (s : Connection) : Recv → Option Connection
  | .error => some { s with inLoop := false }
  | .closed => some { s with inLoop := false }
  | .data chunk => do
    let (result, parser) ← (← s.parser.recv chunk).parseContent
    some ((s.parsed chunk result parser).answer result)

inductive Step : Connection → Recv → Connection → Prop
  | turn {s s' : Connection} {e : Recv} :
      s.inLoop = true → e.Valid → s.turn e = some s' → Step s e s'

/-! ### What the loop has come to -/

/-- Of a turn that `recv` returns bytes to. -/
lemma turn_data {s s' : Connection} {chunk : Bytes} (h : s.turn (.data chunk) = some s') :
    ∃ p result parser, s.parser.recv chunk = some p ∧ p.parseContent = some (result, parser) ∧
      s' = (s.parsed chunk result parser).answer result := by
  obtain ⟨p, hp, h⟩ := Option.bind_eq_some_iff.mp h
  obtain ⟨⟨result, parser⟩, hparse, h⟩ := Option.bind_eq_some_iff.mp h
  cases h
  exact ⟨p, result, parser, hp, hparse, rfl⟩

variable {s s' : Connection} {e : Recv} {g : Progress} {pad chunk : Bytes}

lemma turn_eq {p parser : Parser} {result : HttpCode} (hp : s.parser.recv chunk = some p)
    (hparse : p.parseContent = some (result, parser)) :
    s.turn (.data chunk) = some ((s.parsed chunk result parser).answer result) := by
  rw [turn, hp, Option.bind_eq_bind, Option.bind_some, hparse]
  rfl

lemma shows_of_recv {s s' : Parser} (h : s.Shows g pad) (hs : s.recv chunk = some s') :
    ∃ pad', s'.Shows (g.append chunk) pad' := by
  have hs' := hs
  rw [Parser.recv] at hs'
  split at hs'
  next hfit =>
    have hlen : chunk.length ≤ pad.length := by
      rw [h.readIndex, h.buffer] at hfit
      simp only [List.length_append] at hfit
      omega
    obtain ⟨t, ht, hshows⟩ := h.recv hlen
    cases hs.symm.trans ht
    exact ⟨_, hshows⟩
  next => cases hs'

/-- A turn for each answer of `recv` that fits into the buffer. -/
lemma turn_of_content {result : HttpCode} {g' : Progress} (h : s.parser.Shows g pad) (hv : g.Valid)
    (hlen : chunk.length ≤ pad.length) (hc : Content (g.append chunk) result g') :
    ∃ parser pad', s.turn (.data chunk) = some ((s.parsed chunk result parser).answer result) ∧
      parser.Shows g' pad' ∧ g'.Valid ∧ pad'.length = pad.length - chunk.length := by
  obtain ⟨p, hp, hshows⟩ := h.recv hlen
  obtain ⟨code, g₁, q, hq, hc', hv', hshows'⟩ :=
    Parser.parseContent_spec hshows ⟨hv.plain, hv.last⟩
  obtain ⟨rfl, rfl⟩ := hc.unique hc'
  exact ⟨q, _, turn_eq hp hq, hshows', hv', List.length_drop⟩

/-- Nothing was answered yet: the parser has looked at what was received, and waits for more. -/
structure Waits (s : Connection) (g : Progress) (pad : Bytes) : Prop where
  shows : s.parser.Shows g pad
  valid : g.Valid
  waiting : g.Waiting
  content : Content (.start s.received) .noRequest g
  results : ∀ r ∈ s.results, r = .noRequest
  replies : s.replies = []

lemma waits_start : start.Waits (.start []) (List.replicate Parser.bufferSize 0) where
  shows := Parser.shows_init
  valid := .start []
  waiting := Progress.waiting_start
  content := .stop Progress.waiting_start
  results := List.forall_mem_nil _
  replies := rfl

/-- What was received is refused if and only if a call of `parse_content` has refused it. -/
lemma Waits.not_rejects (h : s.Waits g pad) : ¬ Rejects s.received :=
  (h.content.classifies.no.mp rfl).2

inductive Stage (s : Connection) : Prop
  | waits {g : Progress} {pad : Bytes} : s.Waits g pad → Stage s
  | refused : s.replies.length = 1 → .badRequest ∈ s.results → Rejects s.received → Stage s
  | left : s.inLoop = false → Stage s

/-- With the bytes of a chunk, a connection that waited goes on to wait, or it has sent its one reply. -/
lemma Waits.data (h : s.Waits g pad) (hs : s.turn (.data chunk) = some s') :
    s'.Stage ∧ s'.replies.length ≤ 1 := by
  obtain ⟨p, result, parser, hp, hparse, rfl⟩ := turn_data hs
  obtain ⟨pad', hshows⟩ := shows_of_recv h.shows hp
  have hv : (g.append chunk).Valid := ⟨h.valid.plain, h.valid.last⟩
  obtain ⟨code, g', q, hq, hcontent, hv', hshows'⟩ := Parser.parseContent_spec hshows hv
  cases hparse.symm.trans hq
  have hall : Content (.start (s.received ++ chunk)) result g' := h.content.append_more rfl hcontent
  have hmem := hall.classifies.mem
  cases result with
  | noRequest =>
    constructor
    · refine .waits ⟨hshows', hv', hcontent.waiting rfl, hall, ?_, h.replies⟩
      intro r hr
      rcases List.mem_append.mp hr with hold | hnew
      · exact h.results r hold
      · exact List.mem_singleton.mp hnew
    · show s.replies.length ≤ 1
      rw [h.replies]
      exact Nat.zero_le _
  | getRequest =>
    constructor
    · exact .left rfl
    · show (s.replies ++ [gotIt]).length ≤ 1
      rw [h.replies]
      exact le_rfl
  | badRequest =>
    have hone : (s.replies ++ [somethingWrong]).length = 1 := by
      rw [h.replies]
      rfl
    constructor
    · refine .refused hone ?_ (hall.classifies.bad.mp rfl)
      exact List.mem_append_right _ (List.mem_singleton_self _)
    · exact hone.le
  | forbiddenRequest => exact absurd hmem (by simp)
  | internalError => exact absurd hmem (by simp)
  | closedConnection => exact absurd hmem (by simp)

/-! ### One reply -/

/-- Behind a result other than `NO_REQUEST` nothing is received, and there is at most one reply. -/
structure OneReply (s : Connection) (e : Recv) (s' : Connection) : Prop where
  last : ∀ r ∈ s.results, r ≠ .noRequest → ∀ chunk, e ≠ .data chunk
  one : s'.replies.length ≤ 1

/-- No bytes are received behind bytes that begin no request. -/
def StopsRefused (s : Connection) : Recv → Prop
  | .data _ => ¬ Rejects s.received
  | _ => True

/-- A step that brings no bytes leaves the loop. -/
lemma Step.leaves (hs : Step s e s') (he : ∀ chunk, e ≠ .data chunk) :
    s'.inLoop = false ∧ s'.replies = s.replies := by
  cases hs with
  | turn _ _ hturn =>
    cases e with
    | error =>
      cases hturn
      exact ⟨rfl, rfl⟩
    | closed =>
      cases hturn
      exact ⟨rfl, rfl⟩
    | data chunk => exact absurd rfl (he chunk)

lemma Step.oneReply (hs : Step s e s') (h : s.Stage) :
    (OneReply s e s' ↔ s.StopsRefused e) ∧ (s.StopsRefused e → s'.Stage) := by
  by_cases he : ∃ chunk, e = .data chunk
  · obtain ⟨chunk, rfl⟩ := he
    cases hs with
    | turn hin _ hturn =>
      cases h with
      | waits hw =>
        obtain ⟨hstage, hone⟩ := hw.data hturn
        refine ⟨iff_of_true ⟨?_, hone⟩ hw.not_rejects, fun _ => hstage⟩
        intro r hr hne
        exact absurd (hw.results r hr) hne
      | refused _ hbad hrejects =>
        refine ⟨iff_of_false ?_ (not_not.mpr hrejects), fun hstop => absurd hrejects hstop⟩
        intro hmeets
        exact hmeets.last _ hbad (by decide) chunk rfl
      | left hleft => cases hleft.symm.trans hin
  · have hother : ∀ chunk, e ≠ .data chunk := fun chunk heq => he ⟨chunk, heq⟩
    obtain ⟨hleft, hreplies⟩ := hs.leaves hother
    have hok : s.StopsRefused e := by
      cases e with
      | data chunk => exact absurd rfl (hother chunk)
      | _ => trivial
    have hone : s.replies.length ≤ 1 := by
      cases h with
      | waits hw =>
        rw [hw.replies]
        exact Nat.zero_le _
      | refused hone => exact hone.le
      | left hleft' =>
        cases hs with
        | turn hin => cases hleft'.symm.trans hin
    refine ⟨iff_of_true ⟨fun _ _ _ => hother, ?_⟩ hok, fun _ => .left hleft⟩
    rw [hreplies]
    exact hone

/-- On a connection at most one reply is sent, and nothing is received behind it, if and only if
nothing is received behind bytes that begin no request. -/
theorem run_oneReply_iff {es : List Recv} :
    Trace (fun s e s' => Step s e s' ∧ OneReply s e s') start es s ↔
      Trace (fun s e s' => Step s e s' ∧ s.StopsRefused e) start es s :=
  Trace.guard_iff (fun _ _ _ h hs => hs.oneReply h) (.waits waits_start)

/-- The bytes behind a refused line are taken for a request, which gets a reply of its own. -/
theorem run_twoReplies : ∃ s s',
    Trace Step start [.data (ascii "X\r\n".toList)] s ∧
      Step s (.data (ascii "GET / HTTP/1.1\r\n\r\n".toList)) s' ∧
      s'.results = [.badRequest, .getRequest] ∧ s'.replies = [somethingWrong, gotIt] ∧
      ¬ OneReply s (.data (ascii "GET / HTTP/1.1\r\n\r\n".toList)) s' := by
  have hfit : (ascii "X\r\n".toList).length ≤ (List.replicate Parser.bufferSize (0 : UInt8)).length := by
    rw [List.length_replicate]
    decide
  obtain ⟨p, pad, hturn, hshows, hv, hpad⟩ := turn_of_content (s := start) Parser.shows_init (.start [])
    hfit (.stop rfl)
  have hfit' : (ascii "GET / HTTP/1.1\r\n\r\n".toList).length ≤ pad.length := by
    rw [hpad, List.length_replicate]
    decide
  obtain ⟨q, -, hturn', -⟩ := turn_of_content (s := (start.parsed _ .badRequest p).answer .badRequest)
    hshows hv hfit' (.go rfl (.stop rfl))
  have hfirst : ascii "X\r\n".toList ≠ [] := by decide
  have hsecond : ascii "GET / HTTP/1.1\r\n\r\n".toList ≠ [] := by decide
  refine ⟨_, _, .cons (.turn rfl hfirst hturn) (.nil _), .turn rfl hsecond hturn', rfl, rfl, ?_⟩
  intro h
  have hone : 2 ≤ 1 := h.one
  exact absurd hone (by decide)

end Connection

end LinuxServer.ParseHttp
