import HttpExchange.Call.Turn

/-!
# Calls side by side

A `Schedule` runs any number of calls over one pool.  Work that can go on stands in one queue and
is done in order; the clock moves only when the queue is empty, and then straight to the next
timer.  The one who drives the schedule goes first when a timer of theirs and a timer of a call are
due together.

A call that has to wait for longer than its limit is over, and so is one that is called off: the
link it holds is let go of, which is then not reusable.
-/

namespace HttpExchange

/-- How far a call has come. -/
inductive TaskState
  | fresh (request : Outgoing)
  /-- Waiting for a connect, whose answer may be there already. -/
  | connecting (chain : Chain) (attempt : Attempt) (answer : Option (Except CallError Handle))
  | exchanging (chain : Chain) (handle : Handle) (exchange : Exchange)
  | finished (result : Except CallError Reply)

/-- A call: its options, how far it has come, when its time is over and whether it has been called
off. -/
structure Task where
  options : CallOptions
  state : TaskState
  deadline : Option Nat := none
  cancelled : Bool := false

/-- Work that can go on. -/
inductive Job
  /-- Go on with a call. -/
  | call (id : Nat)
  /-- Make the connect that a call waits for. -/
  | connect (id : Nat) (attempt : Attempt)
  deriving DecidableEq, Repr

/-- The calls, the work to do and the timers (the time and the call, in order of their setting). -/
structure Schedule where
  broker : Broker
  /-- How locations are read. -/
  join : Url.Joining := Url.join
  options : ClientOptions := {}
  tasks : Array Task := #[]
  queue : List Job := []
  timers : List (Nat × Nat) := []

namespace Task

/-- The result of a call that is over. -/
def result? (t : Task) : Option (Except CallError Reply) :=
  match t.state with
  | .finished result => some result
  | _ => none

/-- The link a call holds.  A connection that was made for it and not yet taken up is no link. -/
def handle? (t : Task) : Option Handle :=
  match t.state with
  | .exchanging _ h _ => some h
  | _ => none

/-- The call, over. -/
def finish (t : Task) (result : Except CallError Reply) : Task :=
  { t with state := .finished result }

/-- Goes on with a call as far as it gets.  Nothing comes of it while a connect is not answered. -/
def poll (join : Url.Joining) (o : ClientOptions) (t : Task) (b : Broker) :
    Option (Pause × Broker) :=
  let limit := t.options.maxRedirects
  match t.state with
  | .fresh request => some (Turn.hops join o limit { request } b)
  | .connecting _ _ none => none
  | .connecting _ _ (some (.error error)) => some (.finished (.error error), b)
  | .connecting c _ (some (.ok h)) =>
    some (Turn.toPause join o limit (Turn.exchange join o limit c h b))
  | .exchanging c h x =>
    let (outcome, h, b) := b.resume h x
    some (Turn.toPause join o limit (Turn.afterExchange join o limit c outcome h b))
  | .finished result => some (.finished result, b)

end Task

namespace Schedule

/-- The time. -/
def now (s : Schedule) : Nat := s.broker.network.now

/-- Work added to the end of the queue, unless it stands there already. -/
def enqueue (s : Schedule) (job : Job) : Schedule :=
  if s.queue.contains job then s else { s with queue := s.queue ++ [job] }

/-- A timer set for a call, unless it is set already. -/
def setTimer (s : Schedule) (time id : Nat) : Schedule :=
  if s.timers.contains (time, id) then s else { s with timers := s.timers ++ [(time, id)] }

/-- Another state of a call. -/
def put (s : Schedule) (id : Nat) (t : Task) : Schedule :=
  { s with tasks := s.tasks.setIfInBounds id t }

/-- Lets go of the link a call holds, if it holds one. -/
def letGo (s : Schedule) (t : Task) : Schedule :=
  match t.handle? with
  | some h => { s with broker := s.broker.release h }
  | none => s

/-- Ends a call from outside: its timers go, and so does its link. -/
def endTask (s : Schedule) (id : Nat) (t : Task) (result : Except CallError Reply) : Schedule :=
  let s := (s.letGo t).put id (t.finish result)
  { s with timers := s.timers.filter (·.2 != id) }

/-- Checks the time limit of a call that has to wait. -/
def checkLimit (s : Schedule) (id : Nat) (t : Task) : Schedule :=
  let deadline := t.deadline.getD (s.now + t.options.timeLimit s.options)
  if deadline ≤ s.now then s.endTask id t (.error .timedOut)
  else (s.put id { t with deadline := some deadline }).setTimer deadline id

/-- Goes on with a call. -/
def runCall (s : Schedule) (id : Nat) (t : Task) : Schedule :=
  if t.cancelled then s.endTask id t (.error .aborted)
  else match t.poll s.join s.options s.broker with
    | none => s.checkLimit id t
    | some (.finished result, broker) =>
      let s := { s with broker }.put id (t.finish result)
      { s with timers := s.timers.filter (·.2 != id) }
    | some (.connecting c attempt, broker) =>
      ({ s with broker }.enqueue (.connect id attempt)).checkLimit id
        { t with state := .connecting c attempt none }
    | some (.exchanging c h x wake, broker) =>
      let s := { s with broker }
      let s := match wake with
        | some time => s.setTimer time id
        | none => s
      s.checkLimit id { t with state := .exchanging c h x }

/-- Does one piece of work.  A connect for a call that is over is made for nobody. -/
def runJob (s : Schedule) : Job → Schedule
  | .call id => match s.tasks[id]? with
    | none => s
    | some t => if t.result?.isSome then s else s.runCall id t
  | .connect id attempt =>
    let (answer, broker) := s.broker.connect attempt
    let s := { s with broker }
    match s.tasks[id]? with
    | none => s
    | some t => match t.state with
      | .connecting c a none =>
        (s.put id { t with state := .connecting c a (some answer) }).enqueue (.call id)
      | _ => s

/-- Does work until none is left, or so many pieces are done. -/
def drainFor (s : Schedule) : Nat → Schedule
  | 0 => s
  | n + 1 => match s.queue with
    | [] => s
    | job :: rest => drainFor ({ s with queue := rest }.runJob job) n

/-- More pieces of work than can come of what is in the queue: every hop of a call takes two. -/
def workBound (s : Schedule) : Nat :=
  s.tasks.foldl (fun n t => n + (2 * t.options.maxRedirects + 4)) s.queue.length

/-- Does all the work there is. -/
def drain (s : Schedule) : Schedule := s.drainFor s.workBound

/-- The time of the next timer. -/
def nextTimer? (s : Schedule) : Option Nat := (s.timers.map (·.1)).min?

/-- Moves the clock to a time and wakes the calls whose timers are due. -/
def moveTo (s : Schedule) (time : Nat) : Schedule :=
  let due := s.timers.filter (·.1 ≤ time)
  let network := { s.broker.network with now := time }
  let s := { s with broker := { s.broker with network },
                    timers := s.timers.filter (time < ·.1) }
  due.foldl (fun s timer => s.enqueue (.call timer.2)) s

/-- More timers than can still go off: those that are set, a limit for each call, and one for each
step of a script. -/
def timerBound (s : Schedule) : Nat :=
  let steps (d : Dial) : Nat := match d with
    | .opens stream => stream.reads.length
    | .refuses _ => 0
  s.timers.length + s.tasks.size + s.broker.network.dials.foldl (fun n d => n + steps d) 0
    + s.broker.network.streams.foldl (fun n stream => n + stream.reads.length) 0 + 1

/-- Whether a call is over. -/
def isFinished (s : Schedule) (id : Nat) : Bool :=
  match s.tasks[id]? with
  | some t => t.result?.isSome
  | none => false

/-- Waits for a call through so many timers. -/
def awaitFor (s : Schedule) (id : Nat) : Nat → Schedule
  | 0 => s.drain
  | n + 1 =>
    let s := s.drain
    if s.isFinished id then s
    else match s.nextTimer? with
      | none => s
      | some time => awaitFor (s.moveTo time) id n

/-- Waits until a call is over. -/
def await (s : Schedule) (id : Nat) : Schedule :=
  if s.isFinished id then s else s.awaitFor id s.timerBound

/-- Waits until a time, through so many timers.  What is due at that very time is left to do. -/
def sleepFor (s : Schedule) (time : Nat) : Nat → Schedule
  | 0 => s.drain.moveTo time
  | n + 1 =>
    let s := s.drain
    match s.nextTimer? with
    | none => s.moveTo time
    | some t => if t < time then sleepFor (s.moveTo t) time n else s.moveTo time

/-- Lets some milliseconds pass; none at all is no wait. -/
def sleep (s : Schedule) (duration : Nat) : Schedule :=
  if duration = 0 then s else s.sleepFor (s.now + duration) s.timerBound

/-- Starts a call; its first work stands at the end of the queue. -/
def submit (s : Schedule) (options : CallOptions) (request : Outgoing) : Nat × Schedule :=
  let id := s.tasks.size
  (id, { s with tasks := s.tasks.push { options, state := .fresh request } }.enqueue (.call id))

/-- Calls a call off, unless it is over, and waits until it is gone. -/
def abort (s : Schedule) (id : Nat) : Schedule :=
  match s.tasks[id]? with
  | none => s
  | some t =>
    if t.result?.isSome then s
    else ((s.put id { t with cancelled := true }).enqueue (.call id)).drain

/-- The result of a call that is over. -/
def result? (s : Schedule) (id : Nat) : Option (Except CallError Reply) :=
  (s.tasks[id]?).bind Task.result?

end Schedule

end HttpExchange
