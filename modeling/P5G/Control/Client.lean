import P5G.Text.Lines

/-!
# The control client's receive thread

`RecvLoop` of control_client.h.  `parse` is the JSON library and `handler` the
application's callback; an error of either is the `what` of the exception it
throws, and a handler that throws has changed the application as far as it got.
-/

namespace P5G
namespace ControlClient

open Lines

variable {σ J : Type*}

def newline : UInt8 := 10

/-- What `recv` returned, with `chunk` filled. -/
structure Chunk where
  bytes : List UInt8
  pos : 0 < bytes.length
  room : bytes.length ≤ 4096

/-- The loop at its head: the flag it reads, and what `recv` answers; `none` is 0 or an error. -/
structure Turn where
  running : Bool
  recv : Option Chunk

/-- `buf`, the application, the handler's calls, and the messages logged as ignored. -/
structure State (σ J : Type*) where
  buf : List UInt8
  app : σ
  calls : List J
  ignored : List String

abbrev Handler (σ J : Type*) := σ → J → σ × Option String

variable (parse : List UInt8 → Except String J) (handler : Handler σ J)

/-- The body of the inner loop, from `line.empty()` on. -/
def State.line (s : State σ J) (line : List UInt8) : State σ J :=
  if line = [] then s
  else
    match parse line with
    | .error what => { s with ignored := s.ignored ++ [what] }
    | .ok m =>
      let r := handler s.app m
      { s with app := r.1, calls := s.calls ++ [m], ignored := s.ignored ++ r.2.toList }

theorem State.line_buf (s : State σ J) (line : List UInt8) :
    (s.line parse handler line).buf = s.buf := by
  rw [State.line]
  split
  · rfl
  · split <;> rfl

/-- The inner loop: each line that is complete is taken off the buffer. -/
def State.drain (s : State σ J) : State σ J :=
  if newline ∈ s.buf then
    let pos := s.buf.idxOf newline
    ({ s with buf := s.buf.drop (pos + 1) }.line parse handler (s.buf.take pos)).drain
  else s
termination_by s.buf.length
decreasing_by
  rw [State.line_buf, List.length_drop]
  have hlt := List.idxOf_lt_length_of_mem ‹newline ∈ s.buf›
  omega

def State.receive (s : State σ J) (c : Chunk) : State σ J :=
  { s with buf := s.buf ++ c.bytes }.drain parse handler

/-- `RecvLoop`; where the turns end the thread is still in `recv`. -/
def recvLoop (s : State σ J) : List Turn → State σ J
  | [] => s
  | t :: turns =>
    if !t.running then s
    else
      match t.recv with
      | none => s
      | some c => recvLoop (s.receive parse handler c) turns

def start (app : σ) : State σ J := ⟨[], app, [], []⟩

def received : List Turn → List UInt8
  | [] => []
  | t :: turns =>
    if !t.running then []
    else
      match t.recv with
      | none => []
      | some c => c.bytes ++ received turns

variable {parse handler}

/-- The lines do not depend on what is behind them. -/
theorem State.line_setBuf (s : State σ J) (line buf : List UInt8) :
    { s with buf := buf }.line parse handler line =
      { s.line parse handler line with buf := buf } := by
  rw [State.line, State.line]
  split
  · rfl
  · split <;> rfl

theorem State.lines_setBuf (lines : List (List UInt8)) (s : State σ J) (buf : List UInt8) :
    lines.foldl (State.line parse handler) { s with buf := buf } =
      { lines.foldl (State.line parse handler) s with buf := buf } := by
  induction lines generalizing s with
  | nil => rfl
  | cons line lines ih => rw [List.foldl_cons, List.foldl_cons, State.line_setBuf, ih]

theorem State.drain_of_not_mem {s : State σ J} (h : newline ∉ s.buf) :
    s.drain parse handler = s := by
  rw [State.drain, if_neg h]

theorem State.drain_cons {line rest : List UInt8} (h : newline ∉ line) (s : State σ J) :
    { s with buf := line ++ newline :: rest }.drain parse handler =
      ({ s with buf := rest }.line parse handler line).drain parse handler := by
  have hpos : (line ++ newline :: rest).idxOf newline = line.length := by
    rw [List.idxOf_append_of_notMem h, List.idxOf_cons_self, Nat.add_zero]
  have hdrop : (line ++ newline :: rest).drop (line.length + 1) = rest := by
    rw [List.drop_append, List.drop_of_length_le (Nat.le_succ _), Nat.add_sub_cancel_left]
    rfl
  rw [State.drain, if_pos (List.mem_append_right _ List.mem_cons_self)]
  simp only [hpos, hdrop, List.take_left]

/-- The inner loop handles the complete lines in order and leaves what is behind them. -/
theorem State.drain_eq (s : State σ J) (buf : List UInt8) :
    { s with buf := buf }.drain parse handler =
      { (ended newline buf).foldl (State.line parse handler) s with
        buf := unended newline buf } := by
  by_cases h : newline ∈ buf
  · obtain ⟨line, rest, heq, hline⟩ := List.eq_append_cons_of_mem h
    obtain ⟨hended, hunended⟩ := ended_cons hline rest
    have ih := State.drain_eq (s.line parse handler line) rest
    subst heq
    rw [State.drain_cons hline, State.line_setBuf, ih, hended, hunended, List.foldl_cons]
  · obtain ⟨hended, hunended⟩ := ended_of_not_mem h
    rw [State.drain_of_not_mem (s := { s with buf := buf }) h, hended, hunended]
    rfl
termination_by buf.length
decreasing_by
  rw [heq, List.length_append, List.length_cons]
  omega

/-- What the loop has made of the bytes received so far. -/
theorem recvLoop_eq (turns : List Turn) {s : State σ J} (h : newline ∉ s.buf) :
    recvLoop parse handler s turns =
      { (ended newline (s.buf ++ received turns)).foldl (State.line parse handler) s with
        buf := unended newline (s.buf ++ received turns) } := by
  have hnone (s : State σ J) (h : newline ∉ s.buf) :
      s = { (ended newline (s.buf ++ [])).foldl (State.line parse handler) s with
        buf := unended newline (s.buf ++ []) } := by
    obtain ⟨hended, hunended⟩ := ended_of_not_mem h
    rw [List.append_nil, hended, hunended]
    rfl
  induction turns generalizing s with
  | nil => exact hnone s h
  | cons t turns ih =>
    rw [recvLoop, received]
    split
    · exact hnone s h
    · split
      · exact hnone s h
      · next c _ =>
        have hreceive : s.receive parse handler c =
            { (ended newline (s.buf ++ c.bytes)).foldl (State.line parse handler) s with
              buf := unended newline (s.buf ++ c.bytes) } := State.drain_eq s _
        have hafter := (ended_spec newline (s.buf ++ c.bytes)).2.2
        obtain ⟨hended, hunended⟩ :=
          ended_append newline (s.buf ++ c.bytes) (received turns)
        rw [List.append_assoc] at hended hunended
        rw [hreceive, ih hafter, hended, hunended, List.foldl_append, State.lines_setBuf]

def messages (parse : List UInt8 → Except String J) (lines : List (List UInt8)) : List J :=
  (lines.filter (· ≠ [])).filterMap fun line => (parse line).toOption

theorem messages_cons (line : List UInt8) (lines : List (List UInt8)) :
    messages parse (line :: lines) = messages parse [line] ++ messages parse lines := by
  rw [← List.singleton_append, messages, List.filter_append, List.filterMap_append]
  rfl

variable (parse handler)

/-- A line adds its own message, whatever becomes of it. -/
theorem State.line_calls (s : State σ J) (line : List UInt8) :
    (s.line parse handler line).calls = s.calls ++ messages parse [line] ∧
      (s.line parse handler line).app =
        (messages parse [line]).foldl (fun a m => (handler a m).1) s.app := by
  rw [State.line]
  by_cases hline : line = []
  · subst hline
    rw [if_pos rfl]
    exact ⟨(List.append_nil _).symm, rfl⟩
  · have hmessages : messages parse [line] = (parse line).toOption.toList := by
      simp [messages, hline, List.filterMap_cons]
      cases (parse line).toOption <;> rfl
    rw [if_neg hline, hmessages]
    cases parse line with
    | error what => exact ⟨(List.append_nil _).symm, rfl⟩
    | ok m => exact ⟨rfl, rfl⟩

theorem State.lines_calls (lines : List (List UInt8)) (s : State σ J) :
    (lines.foldl (State.line parse handler) s).calls = s.calls ++ messages parse lines ∧
      (lines.foldl (State.line parse handler) s).app =
        (messages parse lines).foldl (fun a m => (handler a m).1) s.app := by
  induction lines generalizing s with
  | nil => exact ⟨(List.append_nil _).symm, rfl⟩
  | cons line lines ih =>
    obtain ⟨hcalls, happ⟩ := s.line_calls parse handler line
    obtain ⟨ihCalls, ihApp⟩ := ih (s.line parse handler line)
    rw [List.foldl_cons, messages_cons, List.foldl_append]
    refine ⟨?_, ?_⟩
    · rw [ihCalls, hcalls, List.append_assoc]
    · rw [ihApp, happ]

/-- However the stream is cut into chunks: the handler is called once for each complete
line that parses, in order, with what it parses to, and what is behind the last newline
stays in the buffer. -/
theorem recvLoop_framing (parse : List UInt8 → Except String J) (handler : Handler σ J) (app : σ)
    (turns : List Turn) :
    let lines := ended newline (received turns)
    let s := recvLoop parse handler (start app) turns
    s.calls = (lines.filter (· ≠ [])).filterMap (fun line => (parse line).toOption) ∧
      s.app = s.calls.foldl (fun a m => (handler a m).1) app ∧
      (lines.map (· ++ [newline])).flatten ++ s.buf = received turns ∧
      (∀ line ∈ lines, newline ∉ line) ∧ newline ∉ s.buf ∧
      ∀ turns', received turns' = received turns →
        recvLoop parse handler (start app) turns' = s := by
  intro lines s
  have hrun (turns : List Turn) : recvLoop parse handler (start app) turns =
      { (ended newline (received turns)).foldl (State.line parse handler) (start app) with
        buf := unended newline (received turns) } :=
    recvLoop_eq turns List.not_mem_nil
  obtain ⟨hcalls, happ⟩ := (start app).lines_calls parse handler lines
  obtain ⟨hstream, hlines, hrest⟩ := ended_spec newline (received turns)
  have hs : s = { lines.foldl (State.line parse handler) (start app) with
      buf := unended newline (received turns) } := hrun turns
  rw [hs]
  refine ⟨hcalls, ?_, hstream, hlines, hrest, fun turns' hturns => ?_⟩
  · show (lines.foldl (State.line parse handler) (start app)).app =
      (lines.foldl (State.line parse handler) (start app)).calls.foldl _ app
    rw [happ, hcalls]
    rfl
  · rw [hrun, hturns]

def parseByte (line : List UInt8) : Except String (List UInt8) :=
  if line = [1] then .error "parse error" else .ok line

def throwing : Handler Nat (List UInt8) := fun n _ => (n + 1, some "type must be string")

/-- The stream `1`, an empty line, `2` and an unfinished `3`, in one chunk and in two. -/
def atOnce : List Turn := [⟨true, some ⟨[1, 10, 10, 2, 10, 3], by decide, by decide⟩⟩]

def inTwo : List Turn :=
  [⟨true, some ⟨[1, 10, 10, 2], by decide, by decide⟩⟩,
    ⟨true, some ⟨[10, 3], by decide, by decide⟩⟩]

theorem recvLoop_framing_inTwo :
    (recvLoop parseByte throwing (start 0) inTwo).calls = [[2]] ∧
      recvLoop parseByte throwing (start 0) inTwo = recvLoop parseByte throwing (start 0) atOnce :=
  ⟨(recvLoop_framing parseByte throwing 0 inTwo).1.trans (by decide),
    (recvLoop_framing parseByte throwing 0 atOnce).2.2.2.2.2 inTwo rfl⟩

end ControlClient
end P5G
