import GaHub.Lib.Machine
import GaHub.Lib.Text
import Mathlib.Tactic.Common

namespace GaHub.GoalHive

open Lib

inductive Role where
  | user
  | assistant
  deriving DecidableEq

-- The two messages of a submit go by its stream id and their roles.
structure HiveMessage where
  stream : Nat
  role : Role
  content : String
  streaming : Bool := false
  deriving DecidableEq

-- An item of a display queue: cumulative text, the final text, or the mark of a runner that has stopped.
inductive Item where
  | next (text : String)
  | done (text : String)
  | runnerStopped
  deriving DecidableEq

def Item.terminal : Item → Bool
  | .next _ => false
  | _ => true

structure Task where
  stream : Nat
  prompt : String
  deriving DecidableEq

-- Where the runner thread is: between two tasks, with one it has taken from the queue, with one it
-- executes, or after `agent.run()` has ended.
inductive Runner where
  | waiting
  | taken (task : Task)
  | executing (task : Task)
  | stopped
  deriving DecidableEq

-- A drain is in its loop or in its `finally`.
structure Drain where
  stream : Nat
  looping : Bool := true
  deriving DecidableEq

-- A submit that holds the lifecycle lock: its messages stand there, and its task is queued or not yet.
structure Submitting where
  stream : Nat
  prompt : String
  queued : Bool := false
  deriving DecidableEq

-- `fresh` is the next stream id, `halted` what it was when the last `abort` returned: the tasks below
-- it had been submitted before. `display` are the display queues of the tasks.
structure Service where
  messages : List HiveMessage := []
  active : Option Nat := none
  streamQueues : List Nat := []
  drains : List Drain := []
  runner : Option Runner := none
  submitting : Option Submitting := none
  closed : Bool := false
  isRunning : Bool := false
  taskQueue : List Task := []
  display : Nat → List Item := fun _ => []
  fresh : Nat := 0
  halted : Nat := 0

section Prompt

def RUNNER_STOPPED_TEXT : String := "[Error: GoalHive agent runner stopped unexpectedly]"

def GOAL_PROMPT : String :=
  "请进入 Goal 模式：先读 memory/goal_mode_sop.md。" ++
  "若未给目标，先 ask_user 一次性问清：一句话目标 + condition 约束。"

def HIVE_PROMPT : String :=
  "请进入 Goal Hive 模式（多 worker 协作版 goal）：先读 " ++
  "memory/goal_hive_sop.md。" ++
  "集群目标 / worker 配额 / 终止条件未明确时先 ask_user 补齐再启动。"

def tail (argsText label : String) : String :=
  let argsText := strip argsText
  if argsText == "" then "" else "\n\n" ++ label ++ "：" ++ argsText

def workerLlmInstruction : Option Int → String
  | none => ""
  | some llmIndex =>
    "\n\n子代理模型规则：本次所有 Hive worker 启动命令都必须追加 " ++
    String.singleton (Char.ofNat 96) ++ "--llm_no " ++ toString llmIndex ++ String.singleton (Char.ofNat 96) ++
    "；包括首个 worker 和后续扩容 worker，不得省略。"

def buildPrompt (text mode : String) (subagentLlmIndex : Option Int) : String :=
  if mode == "hive" then HIVE_PROMPT ++ workerLlmInstruction subagentLlmIndex ++ tail text "集群目标"
  else GOAL_PROMPT ++ tail text "用户目标"

end Prompt

namespace Service

variable (s : Service)

def finishActiveMessages : Service :=
  { s with messages := s.messages.map fun m => { m with streaming := false }, active := none }

def write (stream : Nat) (f : String → String) : List HiveMessage :=
  s.messages.map fun m => if m.stream = stream ∧ m.role = .assistant then { m with content := f m.content } else m

def settle (stream : Nat) (f : String → String) : Service :=
  { s with
    messages := s.messages.map fun m =>
      if m.stream = stream ∧ m.role = .assistant then { m with content := f m.content, streaming := false } else m
    active := if s.active = some stream then none else s.active }

def ensureRunner : Service := { s with runner := some (s.runner.getD .waiting) }

-- Refused as closed or busy, or as no runner thread can be started, or else the messages are reserved.
def submit (text mode : String) (subagentLlmIndex : Option Int) (runnerOk : Bool) : Service :=
  if s.closed then s
  else if s.runner.isNone && !runnerOk then s
  else if s.active.isSome || s.isRunning then s.ensureRunner
  else
    { s.ensureRunner with
      messages := s.messages ++
        [{ stream := s.fresh, role := .user, content := text },
          { stream := s.fresh, role := .assistant, content := "", streaming := true }]
      active := some s.fresh
      submitting := some { stream := s.fresh, prompt := buildPrompt text mode subagentLlmIndex }
      fresh := s.fresh + 1 }

-- `agent.put_task`; where it raises the reservation is taken back.
def putTask (sub : Submitting) (ok : Bool) : Service :=
  if ok then
    { s with
      taskQueue := s.taskQueue ++ [⟨sub.stream, sub.prompt⟩]
      submitting := some { sub with queued := true } }
  else
    { s with
      messages := s.messages.filter fun m => m.stream ≠ sub.stream
      active := if s.active = some sub.stream then none else s.active
      submitting := none }

def launch (sub : Submitting) (ok : Bool) : Service :=
  if ok then
    { s with
      streamQueues := s.streamQueues ++ [sub.stream], drains := s.drains ++ [⟨sub.stream, true⟩], submitting := none }
  else { s.finishActiveMessages with submitting := none }

-- The agent's own abort is not seen here: idle it does nothing, executing it makes the task end sooner.
def abort : Service := { s.finishActiveMessages with halted := s.fresh }

def reset : Service := if s.active.isSome then s else { s with messages := [] }

def push (stream : Nat) (item : Item) : Nat → List Item :=
  fun u => if u = stream then s.display u ++ [item] else s.display u

-- The `finally` of the runner thread.
def runnerExit : Service :=
  let display :=
    if s.closed then s.display
    else match s.active with
      | none => s.display
      | some stream => if stream ∈ s.streamQueues then s.push stream .runnerStopped else s.display
  { s with display, runner := none }

def setDrain (stream : Nat) (looping : Bool) : List Drain :=
  s.drains.map fun d => if d.stream = stream then { d with looping } else d

def poll (stream : Nat) : Service :=
  if s.closed then { s with drains := s.setDrain stream false }
  else match s.display stream with
    | [] => s
    | item :: rest =>
      let s := { s with display := fun u => if u = stream then rest else s.display u }
      match item with
      | .next text => { s with messages := s.write stream fun _ => text }
      | .done text => { s.settle stream fun _ => text with drains := s.setDrain stream false }
      | .runnerStopped =>
        { s.settle stream fun content => if content == "" then RUNNER_STOPPED_TEXT else content with
          drains := s.setDrain stream false }

-- The `finally` of a drain.
def leave (stream : Nat) : Service :=
  let s := if s.closed then s.settle stream id else s
  { s with
    drains := s.drains.filter fun d => d.stream ≠ stream
    streamQueues := s.streamQueues.filter fun u => u ≠ stream }

end Service

inductive Act where
  | submit (text mode : String) (subagentLlmIndex : Option Int) (runnerOk : Bool)
  | putTask (ok : Bool)
  | launch (ok : Bool)
  | abort
  | reset
  | shutdown
  | discardPending
  | finishActive
  | take
  | mark
  | emit (item : Item)
  | unmark
  | stop (isRunning : Bool)
  | runnerExit
  | poll (stream : Nat)
  | leave (stream : Nat)

-- `submit`, `abort`, `shutdown` and the two `finally` blocks take the lifecycle lock.
def next (s : Service) : Act → Option Service
  | .submit text mode index runnerOk =>
    if s.submitting.isNone then some (s.submit text mode index runnerOk) else none
  | .putTask ok => s.submitting.bind fun sub => if sub.queued then none else some (s.putTask sub ok)
  | .launch ok => s.submitting.bind fun sub => if sub.queued then some (s.launch sub ok) else none
  | .abort => if s.submitting.isNone then some s.abort else none
  | .reset => some s.reset
  | .shutdown => if s.submitting.isNone then some { s with closed := true } else none
  | .discardPending => if s.closed then some { s with taskQueue := [] } else none
  | .finishActive => if s.closed then some s.finishActiveMessages else none
  | .take =>
    match s.runner, s.taskQueue with
    | some .waiting, task :: rest => some { s with runner := some (.taken task), taskQueue := rest }
    | _, _ => none
  | .mark =>
    match s.runner with
    | some (.taken task) => some { s with runner := some (.executing task), isRunning := true }
    | _ => none
  | .emit item =>
    match s.runner with
    | some (.executing task) =>
      if item = .runnerStopped then none else some { s with display := s.push task.stream item }
    | _ => none
  | .unmark =>
    match s.runner with
    | some (.executing _) => some { s with runner := some .waiting, isRunning := false }
    | _ => none
  | .stop isRunning =>
    match s.runner with
    | none | some .stopped => none
    | some _ => some { s with runner := some .stopped, isRunning }
  | .runnerExit =>
    match s.runner with
    | some .stopped => if s.submitting.isNone then some s.runnerExit else none
    | _ => none
  | .poll stream => if (⟨stream, true⟩ : Drain) ∈ s.drains then some (s.poll stream) else none
  | .leave stream =>
    if (⟨stream, false⟩ : Drain) ∈ s.drains ∧ s.submitting.isNone then some (s.leave stream) else none

def machine : Machine Service Act := ⟨{}, next⟩

def Service.waits (s : Service) (task : Task) : Prop := task ∈ s.taskQueue ∨ s.runner = some (.taken task)

instance (s : Service) (task : Task) : Decidable (s.waits task) := inferInstanceAs (Decidable (_ ∨ _))

def Service.woken (s : Service) (d : Drain) : Bool := !d.looping || (s.display d.stream).any Item.terminal

-- The condition on a step: no abort in the gap between enqueue and execution, no end of the runner with
-- a task still queued or with a drain that nothing wakes, and a drain thread can be started.
def Sound (s : Service) : Act → Bool
  | .abort => s.taskQueue.isEmpty && (match s.runner with
    | some (.taken _) => false
    | _ => true)
  | .runnerExit =>
    s.closed || (s.taskQueue.isEmpty && s.drains.all fun d => s.active == some d.stream || s.woken d)
  | .launch ok => ok
  | _ => true


end GaHub.GoalHive
