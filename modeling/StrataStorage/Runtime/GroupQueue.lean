import Mathlib.Data.List.Nodup
import Mathlib.Logic.Relation

/-!
# The write-group queue

`api/runtime/commit_group.rs`: callers that commit join a queue; the first one
with no leader active leads, drains the queue, executes the drained requests
with its own, hands leadership on and answers its members. The model is a
transition system over any number of callers, whose steps are the sections the
code runs under the queue mutex or under one joiner mutex. A pipelined leader
(`lead_commit_group_as_leader` of an `Always` runtime) answers its members after
it has handed leadership on, the other one (`lead_commit_group`) before.

Requests, responses and callers are arbitrary types. `executed` and `answered`
record the history.

The invariant `Inv` says who owns leadership and the queue mutex, what is in the
queue and in the groups, and what the history holds of each request (`Settled`).
It is kept by every step that does not give leadership up under a caller that
timed out and whose request has been taken since (`Inv.step`).
-/

namespace Strata.GroupQueue

open Function

def commitGroupMaxMembers : Nat := 16

/-- The members a leader drains, itself excluded. -/
def maxDrain : Nat := commitGroupMaxMembers - 1

/-- `JoinState`. A hand-off of a deferred apply names the leader that waits for
it. -/
inductive JoinState (ι Req Resp : Type) where
  | pending (request : Req)
  | taken
  | promoted (request : Req)
  | apply (leader : ι)
  | done (response : Resp)

/-- Where a waiting caller is in `await_service`: before it takes the mutex of
its joiner, in the timed wait, or past a time-out that found its request
pending. -/
inductive WaitPoint where
  | awaiting
  | parked
  | timedOut

/-- `GroupWaitOutcome`, of a caller that does not go on to lead. -/
inductive WaitOutcome (Resp : Type) where
  | done (response : Resp)
  | abandoned

/-- What a caller in `finish_leadership` does next. -/
inductive AfterFinish (ι Resp : Type) where
  | complete (members : List ι)
  | exit (outcome : WaitOutcome Resp)

/-- The state of one call of `execute_durable_commit_grouped`, with the joiner
the call waits on, or the answer that came in while the call runs an apply. -/
inductive Call (ι Req Resp : Type) where
  | idle
  | waiting (point : WaitPoint) (joiner : JoinState ι Req Resp)
  | applying (leader : ι) (answer : Option Resp)
  | reclaiming (joiner : JoinState ι Req Resp)
  | handback (outcome : WaitOutcome Resp)
  | leading (request : Req)
  | draining (request : Req) (members : List ι)
  | executing (members applies : List ι)
  | finishing (next : AfterFinish ι Resp)
  | completing (members : List ι)
  | led (response : Resp)
  | waited (outcome : WaitOutcome Resp)

namespace JoinState

variable {ι Req Resp : Type}

def IsPromoted : JoinState ι Req Resp → Prop
  | promoted _ => True
  | _ => False

/-- The joiner of a call that runs an apply. -/
def ofAnswer : Option Resp → JoinState ι Req Resp
  | none => taken
  | some response => done response

/-- The request was taken, and not answered. -/
@[grind] def Held : JoinState ι Req Resp → Prop
  | taken | apply _ => True
  | _ => False

end JoinState

namespace Call

variable {ι Req Resp : Type}

/-- The call owns leadership, or has been promoted to it. -/
def Owns : Call ι Req Resp → Prop
  | waiting _ joiner => joiner.IsPromoted
  | reclaiming _ | handback _ | leading _ | draining _ _ | executing _ _ | finishing _ => True
  | _ => False

/-- The call holds the queue mutex. -/
def Locks : Call ι Req Resp → Prop
  | draining _ _ | finishing _ => True
  | _ => False

/-- The call is in a loop that pops the queue. -/
def Pops : Call ι Req Resp → Prop
  | draining _ members => members.length < maxDrain
  | finishing _ => True
  | _ => False

/-- The members a leader has drained and not answered. -/
@[grind] def members : Call ι Req Resp → List ι
  | draining _ members | executing members _ | finishing (.complete members)
  | completing members => members
  | _ => []

/-- The caller's request is taken and not answered. -/
@[grind] def Held : Call ι Req Resp → Prop
  | waiting _ joiner => joiner.Held
  | applying _ answer => answer = none
  | _ => False

/-- The caller timed out on a pending request that a leader has taken since. -/
def Lapsed : Call ι Req Resp → Prop
  | waiting point joiner => point = .timedOut ∧ joiner.Held
  | _ => False

end Call

structure State (ι Req Resp : Type) where
  queue : List ι
  leaderActive : Bool
  queueLock : Option ι
  call : ι → Call ι Req Resp
  requested : ι → Option Req
  executed : ι → List (ι × Req)
  answered : ι → Option (ι × Resp)

section

variable {ι Req Resp : Type}

def init : State ι Req Resp := ⟨[], false, none, fun _ => .idle, fun _ => none, fun _ => [], fun _ => none⟩

/-- The call after `finish_leadership`. -/
def AfterFinish.call : AfterFinish ι Resp → Call ι Req Resp
  | .complete members => .completing members
  | .exit outcome => .waited outcome

/-- The body of the loop of `await_service`, on the joiner it holds. -/
def examine : JoinState ι Req Resp → Call ι Req Resp
  | .pending request => .waiting .parked (.pending request)
  | .taken => .waiting .parked .taken
  | .promoted request => .leading request
  | .apply leader => .applying leader none
  | .done response => .waited (.done response)

/-- `reclaimed_outcome`: what a caller does that claimed leadership after a
time-out. -/
def reclaimed : JoinState ι Req Resp → Call ι Req Resp
  | .pending request => .leading request
  | .done response => .handback (.done response)
  | _ => .handback .abandoned

variable [DecidableEq ι] {call : Call ι Req Resp}

/-- The state with the call of `c` set. -/
def State.set (s : State ι Req Resp) (c : ι) (call : Call ι Req Resp) : State ι Req Resp :=
  { s with call := update s.call c call }

/-- `complete` on the joiner of a call, whatever the joiner holds. -/
def completed (response : Resp) : Call ι Req Resp → Call ι Req Resp
  | .waiting point _ => .waiting point (.done response)
  | .applying leader _ => .applying leader (some response)
  | .reclaiming _ => .reclaiming (.done response)
  | call => call

/-- `submit` on the exchange of a leader: one that has stopped waiting takes no
notice. -/
def collected (m : ι) : Call ι Req Resp → Call ι Req Resp
  | .executing members applies => .executing members (applies.erase m)
  | call => call

/-- One section of the protocol. -/
inductive Step (pipelined : Bool) (s : State ι Req Resp) : State ι Req Resp → Prop
  /-- `join` with no leader active. -/
  | joinLead (c : ι) (request : Req) (hc : s.call c = .idle) (hl : s.queueLock = none)
      (hf : s.leaderActive = false) :
      Step pipelined s { s.set c (.leading request) with
        leaderActive := true, requested := update s.requested c (some request) }
  /-- `join` behind a leader. -/
  | joinWait (c : ι) (request : Req) (hc : s.call c = .idle) (hl : s.queueLock = none)
      (hf : s.leaderActive = true) :
      Step pipelined s { s.set c (.waiting .awaiting (.pending request)) with
        queue := s.queue ++ [c], requested := update s.requested c (some request) }
  /-- `drain_members` takes the queue mutex. -/
  | drainStart (c : ι) (request : Req) (hc : s.call c = .leading request) (hl : s.queueLock = none) :
      Step pipelined s { s.set c (.draining request []) with queueLock := some c }
  /-- `drain_members` takes the request of the front joiner. -/
  | drainTake (c m : ι) (request taken : Req) (members rest : List ι) (point : WaitPoint)
      (hc : s.call c = .draining request members) (hlen : members.length < maxDrain)
      (hq : s.queue = m :: rest) (hm : s.call m = .waiting point (.pending taken)) :
      Step pipelined s { (s.set m (.waiting point .taken)).set c (.draining request (members ++ [m])) with
        queue := rest, executed := update s.executed m (s.executed m ++ [(c, taken)]) }
  /-- A stale joiner leaves the queue, in `drain_members` or `finish_leadership`. -/
  | popStale (c m : ι) (rest : List ι) (hc : (s.call c).Pops) (hq : s.queue = m :: rest)
      (hm : ∀ point request, s.call m ≠ .waiting point (.pending request)) :
      Step pipelined s { s with queue := rest }
  /-- `drain_members` is done; the leader executes the group. -/
  | drainEnd (c : ι) (request : Req) (members : List ι) (hc : s.call c = .draining request members)
      (hq : s.queue = [] ∨ maxDrain ≤ members.length) :
      Step pipelined s { s.set c (.executing members []) with
        queueLock := none, executed := update s.executed c (s.executed c ++ [(c, request)]) }
  /-- `request_apply`, at most once for each member. -/
  | requestApply (c m : ι) (members applies : List ι) (point : WaitPoint)
      (hc : s.call c = .executing members applies) (hm : m ∈ members) (ha : m ∉ applies)
      (hj : s.call m = .waiting point .taken) :
      Step pipelined s ((s.set m (.waiting point (.apply c))).set c (.executing members (m :: applies)))
  /-- The member submits the apply it ran, and looks at its joiner again. -/
  | applyDone (c leader : ι) (answer : Option Resp) (hc : s.call c = .applying leader answer) :
      Step pipelined s ((s.set leader (collected c (s.call leader))).set c (.waiting .awaiting (.ofAnswer answer)))
  /-- The deadline of `wait_for` runs out with applies missing. -/
  | deadline (c : ι) (members applies : List ι) (hc : s.call c = .executing members applies) :
      Step pipelined s (s.set c (.executing members []))
  /-- The leader takes the queue mutex in `finish_leadership`: a pipelined one
  before it answers its members. -/
  | finishStart (c : ι) (members : List ι) (hc : s.call c = .executing members [])
      (hp : pipelined = true ∨ members = []) (hl : s.queueLock = none) :
      Step pipelined s { s.set c (.finishing (.complete members)) with queueLock := some c }
  /-- A caller that claimed leadership in vain takes the queue mutex. -/
  | handbackStart (c : ι) (outcome : WaitOutcome Resp) (hc : s.call c = .handback outcome)
      (hl : s.queueLock = none) :
      Step pipelined s { s.set c (.finishing (.exit outcome)) with queueLock := some c }
  /-- `finish_leadership` promotes the front joiner. -/
  | promote (c m : ι) (next : AfterFinish ι Resp) (request : Req) (rest : List ι) (point : WaitPoint)
      (hc : s.call c = .finishing next) (hq : s.queue = m :: rest)
      (hm : s.call m = .waiting point (.pending request)) :
      Step pipelined s { (s.set m (.waiting point (.promoted request))).set c next.call with
        queue := rest, queueLock := none }
  /-- `finish_leadership` finds nobody to promote. -/
  | finishClear (c : ι) (next : AfterFinish ι Resp) (hc : s.call c = .finishing next) (hq : s.queue = []) :
      Step pipelined s { s.set c next.call with leaderActive := false, queueLock := none }
  /-- A leader that is not pipelined answers a member. -/
  | completeEarly (c m : ι) (members : List ι) (response : Resp) (hp : pipelined = false)
      (hc : s.call c = .executing members []) (hm : m ∈ members) :
      Step pipelined s { (s.set m (completed response (s.call m))).set c (.executing (members.erase m) []) with
        answered := update s.answered m (some (c, response)) }
  /-- A pipelined leader answers a member. -/
  | complete (c m : ι) (members : List ι) (response : Resp)
      (hc : s.call c = .completing members) (hm : m ∈ members) :
      Step pipelined s { (s.set m (completed response (s.call m))).set c (.completing (members.erase m)) with
        answered := update s.answered m (some (c, response)) }
  /-- The leader returns its own response. -/
  | leaderReturn (c : ι) (response : Resp) (hc : s.call c = .completing []) :
      Step pipelined s (s.set c (.led response))
  /-- A waiting caller looks at its joiner: at first, or when it wakes. -/
  | wake (c : ι) (point : WaitPoint) (joiner : JoinState ι Req Resp)
      (hc : s.call c = .waiting point joiner) (hp : point ≠ .timedOut) :
      Step pipelined s (s.set c (examine joiner))
  /-- The timed wait runs out and the request is pending. -/
  | timeOut (c : ι) (request : Req) (hc : s.call c = .waiting .parked (.pending request)) :
      Step pipelined s (s.set c (.waiting .timedOut (.pending request)))
  /-- `try_assume_leadership` while a leader is active. -/
  | claimBusy (c : ι) (joiner : JoinState ι Req Resp) (hc : s.call c = .waiting .timedOut joiner)
      (hl : s.queueLock = none) (hf : s.leaderActive = true) :
      Step pipelined s (s.set c (.waiting .awaiting joiner))
  /-- `try_assume_leadership` with no leader active. -/
  | claim (c : ι) (joiner : JoinState ι Req Resp) (hc : s.call c = .waiting .timedOut joiner)
      (hl : s.queueLock = none) (hf : s.leaderActive = false) :
      Step pipelined s { s.set c (.reclaiming joiner) with leaderActive := true }
  /-- The caller that claimed leadership takes its joiner back. -/
  | reclaim (c : ι) (joiner : JoinState ι Req Resp) (hc : s.call c = .reclaiming joiner) :
      Step pipelined s (s.set c (reclaimed joiner))

/-- No leader gives leadership up under a lapsed caller. -/
def Careful (s s' : State ι Req Resp) : Prop :=
  s.leaderActive = true → s'.leaderActive = false → ∀ w, ¬(s.call w).Lapsed

namespace State

omit [DecidableEq ι]

variable (s : State ι Req Resp) (c : ι)

/-- No leader has executed the request of `c`. -/
def Unserved (request : Req) : Prop := s.executed c = [] ∧ s.requested c = some request

/-- `leader`, and nobody else, has executed the request of `c`, once. -/
def ExecutedBy (leader : ι) : Prop :=
  ∃ request, s.executed c = [(leader, request)] ∧ s.requested c = some request

/-- A leader has executed the request of `c` and has not answered it. -/
def InGroup : Prop := ∃ leader, c ∈ (s.call leader).members ∧ s.ExecutedBy c leader

/-- `c` has the response of the leader that executed its request. -/
def Answered (response : Resp) : Prop :=
  ∃ leader, s.ExecutedBy c leader ∧ s.answered c = some (leader, response)

def OutcomeSettled : WaitOutcome Resp → Prop
  | .done response => s.Answered c response
  | .abandoned => False

def JoinerSettled : JoinState ι Req Resp → Prop
  | .pending request => c ∈ s.queue ∧ s.Unserved c request
  | .promoted request => s.Unserved c request
  | .taken | .apply _ => s.InGroup c
  | .done response => s.Answered c response

/-- What the history says of the request of `c`, by the state of its call. -/
def Settled : Prop :=
  match s.call c with
  | .idle => s.executed c = [] ∧ c ∉ s.queue
  | .waiting _ joiner => s.JoinerSettled c joiner
  | .applying _ answer => s.JoinerSettled c (.ofAnswer answer)
  | .reclaiming joiner => ∃ response, joiner = .done response ∧ s.Answered c response
  | .handback outcome | .finishing (.exit outcome) | .waited outcome =>
    s.OutcomeSettled c outcome
  | .leading request | .draining request _ => s.Unserved c request
  | .executing _ _ | .finishing (.complete _) | .completing _ | .led _ => s.ExecutedBy c c

end State

structure Inv (s : State ι Req Resp) : Prop where
  owner : ∀ c d, (s.call c).Owns → (s.call d).Owns → c = d
  free : s.leaderActive = false → s.queue = [] ∧ (∀ c, ¬(s.call c).Owns) ∧ ∀ c, ¬(s.call c).Lapsed
  active : s.leaderActive = true → ∃ c, (s.call c).Owns
  lock : ∀ c, s.queueLock = some c ↔ (s.call c).Locks
  nodup : s.queue.Nodup
  settled : ∀ c, s.Settled c
  held : ∀ l, ∀ m ∈ (s.call l).members, (s.call m).Held ∧ ∃ r, s.executed m = [(l, r)]
  members_nodup : ∀ l, (s.call l).members.Nodup

namespace State

variable (s : State ι Req Resp) (c : ι) (x : Call ι Req Resp)

@[simp, grind =] theorem set_call (d : ι) : (s.set c x).call d = if d = c then x else s.call d := by
  simp [set, update_apply]

@[simp, grind =] theorem set_queue : (s.set c x).queue = s.queue := rfl
@[simp, grind =] theorem set_leaderActive : (s.set c x).leaderActive = s.leaderActive := rfl
@[simp, grind =] theorem set_queueLock : (s.set c x).queueLock = s.queueLock := rfl
@[simp, grind =] theorem set_requested : (s.set c x).requested = s.requested := rfl
@[simp, grind =] theorem set_executed : (s.set c x).executed = s.executed := rfl
@[simp, grind =] theorem set_answered : (s.set c x).answered = s.answered := rfl

end State

open State
open Call (Owns Locks Lapsed)
open JoinState (IsPromoted)

section Calls

omit [DecidableEq ι]

/-- A caller that has left `finish_leadership` owns nothing and keeps its members. -/
@[grind! .] theorem AfterFinish.call_spec (Req : Type) (next : AfterFinish ι Resp) :
    ¬(next.call : Call ι Req Resp).Owns ∧ ¬(next.call : Call ι Req Resp).Locks ∧
      ¬(next.call : Call ι Req Resp).Held ∧ ¬(next.call : Call ι Req Resp).Lapsed ∧
      (next.call : Call ι Req Resp).members = (Call.finishing next : Call ι Req Resp).members := by
  cases next <;>
    simp [call, Owns, Locks, Call.Held, Lapsed, Call.members]

variable (joiner : JoinState ι Req Resp)

/-- A waiting caller that looks at its joiner owns, and is held, as before. -/
@[grind! .] theorem examine_spec : ((examine joiner).Owns ↔ joiner.IsPromoted) ∧ ¬(examine joiner).Locks ∧
      ((examine joiner).Held ↔ joiner.Held) ∧ ¬(examine joiner).Lapsed ∧ (examine joiner).members = [] := by
  cases joiner <;>
    simp [examine, Owns, Locks, Call.Held, Lapsed, Call.members,
      IsPromoted, JoinState.Held]

/-- A caller that claimed leadership owns it, and is not held. -/
@[grind! .] theorem reclaimed_spec : (reclaimed joiner).Owns ∧ ¬(reclaimed joiner).Locks ∧ ¬(reclaimed joiner).Held ∧
      ¬(reclaimed joiner).Lapsed ∧ (reclaimed joiner).members = [] := by
  cases joiner <;>
    simp [reclaimed, Owns, Locks, Call.Held, Lapsed, Call.members]

theorem Call.Locks.owns (h : call.Locks) : call.Owns := by
  cases call <;> first | exact h.elim | exact trivial

/-- A held caller owns and leads nothing. -/
theorem Call.Held.not_leads (h : call.Held) : ¬call.Owns ∧ call.members = [] := by
  match call, h with
  | .waiting _ .taken, _ | .waiting _ (.apply _), _ | .applying _ none, _ => exact ⟨id, rfl⟩

/-- A caller that has its answer is not held, and still owns nothing. -/
theorem completed_spec (h : call.Held) (response : Resp) :
    ¬(completed response call).Owns ∧ ¬(completed response call).Locks ∧ ¬(completed response call).Held ∧
      ¬(completed response call).Lapsed ∧ (completed response call).members = [] := by
  match call, h with
  | .waiting _ _, _ | .applying _ _, _ =>
    simp [completed, Owns, Locks, Call.Held, Lapsed, Call.members, IsPromoted, JoinState.Held]

@[grind! .] theorem ofAnswer_spec (answer : Option Resp) :
    ¬(JoinState.ofAnswer answer : JoinState ι Req Resp).IsPromoted ∧
      ((JoinState.ofAnswer answer : JoinState ι Req Resp).Held ↔ answer = none) := by
  cases answer <;> simp [JoinState.ofAnswer, IsPromoted, JoinState.Held]

end Calls

/-- A leader that collects an apply goes on as it was. -/
@[grind! .] theorem collected_spec (m : ι) (call : Call ι Req Resp) :
    ((collected m call).Owns ↔ call.Owns) ∧ ((collected m call).Locks ↔ call.Locks) ∧
      ((collected m call).Held ↔ call.Held) ∧ ((collected m call).Lapsed ↔ call.Lapsed) ∧
      (collected m call).members = call.members := by
  cases call <;> simp [collected, Owns, Locks, Call.Held, Lapsed, Call.members]

variable {pipelined : Bool} {s s' : State ι Req Resp} {joiner : JoinState ι Req Resp} {c m : ι} {members : List ι}

omit [DecidableEq ι] in
theorem Inv.leader_unique (hi : Inv s) {l l' m : ι} (h : m ∈ (s.call l).members)
    (h' : m ∈ (s.call l').members) : l = l' := by
  obtain ⟨-, r, hr⟩ := hi.held l m h
  obtain ⟨-, r', hr'⟩ := hi.held l' m h'
  simp_all

omit [DecidableEq ι] in
/-- A member that a leader answers is held until then. -/
theorem Inv.member_held (hi : Inv s)
    (hc : s.call c = .executing members [] ∨ s.call c = .completing members) (hm : m ∈ members) :
    (s.call m).Held := by
  refine (hi.held c m ?_).1
  rcases hc with hc | hc <;> simpa [hc, Call.members] using hm

omit [DecidableEq ι] in
/-- A member leads nothing, and with its answer it is no longer held. -/
theorem Inv.member_answered (hi : Inv s) (hc : s.call c = .executing members [] ∨ s.call c = .completing members)
    (hm : m ∈ members) (response : Resp) :
    (s.call m).Held ∧ (¬(s.call m).Owns ∧ (s.call m).members = []) ∧
      ¬(completed response (s.call m)).Owns ∧ ¬(completed response (s.call m)).Locks ∧
      ¬(completed response (s.call m)).Held ∧ ¬(completed response (s.call m)).Lapsed ∧
      (completed response (s.call m)).members = [] := by
  have held := hi.member_held hc hm
  exact ⟨held, held.not_leads, completed_spec held response⟩

omit [DecidableEq ι] in
/-- With no leader active, a caller that timed out has its answer. -/
theorem Inv.claim_done (hi : Inv s) {c : ι}
    (hc : s.call c = .waiting .timedOut joiner) (hf : s.leaderActive = false) :
    ∃ response, joiner = .done response := by
  obtain ⟨queue, owner, lapsed⟩ := hi.free hf
  have settled := hi.settled c
  have owns := owner c
  have lapse := lapsed c
  simp only [Settled, hc, Owns, Lapsed, true_and] at settled owns lapse
  cases joiner with
  | pending request => exact absurd settled.1 (by simp [queue])
  | promoted request => exact absurd trivial owns
  | taken | apply => exact absurd trivial lapse
  | done response => exact ⟨response, rfl⟩

section

variable (hi : Inv s) (h : Step pipelined s s')
include hi h

theorem Inv.owner_step (a b : ι) : (s'.call a).Owns → (s'.call b).Owns → a = b := by
  have owner := hi.owner
  have free := hi.free
  cases h with
  | completeEarly _ _ _ response _ hc hm | complete _ _ _ response hc hm =>
    have answered := hi.member_answered (by tauto) hm response
    grind [Owns, IsPromoted]
  | _ => grind [Owns, IsPromoted]

theorem Inv.free_step (careful : Careful s s') (hf : s'.leaderActive = false) :
    s'.queue = [] ∧ (∀ c, ¬(s'.call c).Owns) ∧ ∀ c, ¬(s'.call c).Lapsed := by
  have owner := hi.owner
  have free := hi.free
  cases h with
  | completeEarly _ _ _ response _ hc hm | complete _ _ _ response hc hm =>
    have answered := hi.member_answered (by tauto) hm response
    grind [Owns, Lapsed, IsPromoted]
  | finishClear c next hc =>
    have owns : (s.call c).Owns := by simp [hc, Owns]
    have active : s.leaderActive = true := by grind
    have lapsed := careful active rfl
    grind [Owns]
  | timeOut c request hc =>
    have settled := hi.settled c
    simp only [Settled, hc, JoinerSettled, Unserved] at settled
    grind
  | _ => grind [Owns, Lapsed, IsPromoted]

theorem Inv.active_step (hf : s'.leaderActive = true) : ∃ c, (s'.call c).Owns := by
  cases h with
  | joinLead c | claim c => exact ⟨c, by simp [Owns]⟩
  | promote c m next => exact ⟨m, by grind [Owns, IsPromoted]⟩
  | finishClear => cases hf
  | completeEarly _ _ _ response _ hc hm | complete _ _ _ response hc hm =>
    obtain ⟨owner, owns⟩ := hi.active hf
    have answered := hi.member_answered (by tauto) hm response
    exact ⟨owner, by grind [Owns, IsPromoted]⟩
  | _ =>
    obtain ⟨owner, owns⟩ := hi.active hf
    exact ⟨owner, by grind [Owns, IsPromoted]⟩

theorem Inv.lock_step (a : ι) : s'.queueLock = some a ↔ (s'.call a).Locks := by
  have lock := hi.lock
  cases h with
  | completeEarly _ _ _ response _ hc hm | complete _ _ _ response hc hm =>
    have answered := hi.member_answered (by tauto) hm response
    grind [Locks, Call.Locks.owns]
  | _ => grind [Locks]

theorem Inv.nodup_step : s'.queue.Nodup := by
  have nodup := hi.nodup
  cases h with
  | joinWait c request hc =>
    have joined := hi.settled c
    simp only [Settled, hc] at joined
    simpa [List.nodup_append, nodup] using fun _ h => ne_of_mem_of_not_mem h joined.2
  | _ => grind

theorem Inv.held_step (l m : ι) (hlm : m ∈ (s'.call l).members) :
    (s'.call m).Held ∧ ∃ r, s'.executed m = [(l, r)] := by
  have held := hi.held
  have nodup := hi.members_nodup
  cases h with
  | drainTake c d request taken members rest point hc hlen hq hm =>
    have settled := hi.settled d
    simp only [Settled, hm, JoinerSettled, Unserved] at settled
    have executed : s.executed d ++ [(c, taken)] = [(c, taken)] := by simp [settled]
    grind [update_apply]
  | drainEnd => grind [update_apply]
  | completeEarly _ _ _ response _ hc hm | complete _ _ _ response hc hm =>
    have answered := hi.member_answered (by tauto) hm response
    grind
  | claim c joiner hc hl hf =>
    have lapsed := (hi.free hf).2.2 c
    simp only [hc, Lapsed, true_and] at lapsed
    grind
  | applyDone c leader answer hc =>
    have kept : m ∈ (s.call l).members := by grind
    obtain ⟨hm, hexe⟩ := held l m kept
    exact ⟨by grind, hexe⟩
  | _ => grind

theorem Inv.members_nodup_step (l : ι) : (s'.call l).members.Nodup := by
  have held := hi.held
  have nodup := hi.members_nodup
  cases h with
  | completeEarly _ _ _ response _ hc hm | complete _ _ _ response hc hm =>
    have answered := hi.member_answered (by tauto) hm response
    grind
  | _ => grind

end

section Frame

omit [DecidableEq ι]

variable {c : ι} (hreq : s'.requested c = s.requested c) (hexe : s'.executed c = s.executed c)
  (hans : s'.answered c = s.answered c)

include hreq hexe

theorem State.executedBy_congr (l : ι) : s'.ExecutedBy c l ↔ s.ExecutedBy c l := by
  simp [ExecutedBy, hreq, hexe]

theorem State.unserved_congr (request : Req) : s'.Unserved c request ↔ s.Unserved c request := by
  simp [Unserved, hreq, hexe]

theorem State.InGroup.of_eq (h : s.InGroup c)
    (hmem : ∀ l, c ∈ (s.call l).members → c ∈ (s'.call l).members) : s'.InGroup c := by
  obtain ⟨l, hl, hex⟩ := h
  exact ⟨l, hmem l hl, (executedBy_congr hreq hexe l).2 hex⟩

include hans

theorem State.answered_congr (response : Resp) : s'.Answered c response ↔ s.Answered c response := by
  simp [Answered, hans, executedBy_congr hreq hexe]

theorem State.outcomeSettled_congr (outcome : WaitOutcome Resp) :
    s'.OutcomeSettled c outcome ↔ s.OutcomeSettled c outcome := by
  cases outcome <;> simp [OutcomeSettled, answered_congr hreq hexe hans]

theorem State.JoinerSettled.of_eq (h : s.JoinerSettled c joiner)
    (hpending : ∀ request, joiner = .pending request → c ∈ s.queue → c ∈ s'.queue)
    (hmem : ∀ l, c ∈ (s.call l).members → c ∈ (s'.call l).members) :
    s'.JoinerSettled c joiner := by
  cases joiner with
  | pending request => exact ⟨hpending request rfl h.1, (unserved_congr hreq hexe _).2 h.2⟩
  | promoted request => exact (unserved_congr hreq hexe _).2 h
  | taken | apply => exact InGroup.of_eq hreq hexe h hmem
  | done response => exact (answered_congr hreq hexe hans _).2 h

/-- A step that leaves the call of `c` and its history alone, and keeps it in the
queue and in its group, leaves it settled. -/
theorem State.Settled.of_eq (h : s.Settled c) (hcall : s'.call c = s.call c) (hq : c ∈ s'.queue → c ∈ s.queue)
    (hpending : ∀ point request, s.call c = .waiting point (.pending request) → c ∈ s.queue → c ∈ s'.queue)
    (hmem : ∀ l, c ∈ (s.call l).members → c ∈ (s'.call l).members) : s'.Settled c := by
  unfold Settled at h ⊢
  rw [hcall]
  simp only [executedBy_congr hreq hexe, unserved_congr hreq hexe,
    answered_congr hreq hexe hans, outcomeSettled_congr hreq hexe hans, hexe]
  split at h
  · exact ⟨h.1, fun hc => h.2 (hq hc)⟩
  · rename_i joiner hcall
    exact h.of_eq hreq hexe hans (fun request hj => hpending _ request (hj ▸ hcall)) hmem
  · rename_i answer _
    exact h.of_eq hreq hexe hans (by cases answer <;> nofun) hmem
  all_goals exact h

end Frame

omit [DecidableEq ι] in
/-- A held caller is in a group. -/
theorem State.Settled.inGroup (h : s.Settled c) (held : (s.call c).Held) : s.InGroup c := by
  unfold Settled at h
  generalize s.call c = x at h held
  match x, held, h with
  | .waiting _ .taken, _, h | .waiting _ (.apply _), _, h | .applying _ none, _, h => exact h

omit [DecidableEq ι] in
theorem State.Answered.settled {r : Resp} (h : s.Answered c r) (held : call.Held)
    (hcall : s.call c = completed r call) : s.Settled c := by
  unfold Settled
  rw [hcall]
  match call, held with
  | .waiting _ _, _ | .applying _ _, _ => exact h

omit [DecidableEq ι] in
theorem Inv.executedBy (hi : Inv s) (hm : m ∈ (s.call c).members) (h : s.InGroup m) : s.ExecutedBy m c := by
  obtain ⟨l, hl, hex⟩ := h
  rwa [hi.leader_unique hm hl]

section

variable (hi : Inv s) (h : Step pipelined s s') {a : ι}
include hi h

/-- A step that leaves the call of `a` as it is leaves it settled. -/
theorem Inv.settled_frame (hcall : s'.call a = s.call a) : s'.Settled a := by
  have settled := hi.settled a
  cases h with
  | completeEarly _ _ _ response _ hc hm | complete _ _ _ response hc hm =>
    have answered := hi.member_answered (by tauto) hm response
    apply Settled.of_eq _ _ _ settled <;> grind
  | _ => apply Settled.of_eq _ _ _ settled <;> grind

/-- A step that moves the call of `a` leaves it settled. -/
theorem Inv.settled_moved (hcall : s'.call a ≠ s.call a) : s'.Settled a := by
  have settled := hi.settled a
  cases h with
  | joinLead c request hc | joinWait c request hc =>
    obtain rfl : a = c := by grind
    simp_all [Settled, JoinerSettled, Unserved]
  | drainTake c m request taken members rest point hc hlen hq hm =>
    obtain rfl | rfl : a = c ∨ a = m := by grind
    · simp_all [Settled, Unserved]
      grind
    · have hac : a ≠ c := by grind
      simp_all [Settled, JoinerSettled, Unserved, InGroup, ExecutedBy, Call.members]
  | popStale => exact absurd rfl hcall
  | drainEnd c request members hc =>
    obtain rfl : a = c := by grind
    simp_all [Settled, Unserved, ExecutedBy]
  | drainStart c request hc | deadline c members applies hc | finishStart c members hc | handbackStart c outcome hc
  | leaderReturn c response hc | timeOut c request hc =>
    obtain rfl : a = c := by grind
    simp only [Settled, hc, set_call, if_true] at settled ⊢
    exact settled
  | finishClear c next hc =>
    obtain rfl : a = c := by grind
    simp only [Settled, hc, set_call, if_true] at settled ⊢
    cases next <;> exact settled
  | promote c m next request rest point hc hq hm =>
    obtain rfl | rfl : a = c ∨ a = m := by grind
    · simp only [Settled, hc, set_call, if_true] at settled ⊢
      cases next <;> exact settled
    · have hac : a ≠ c := by grind
      simp only [Settled, hm, set_call, hac, if_true, if_false] at settled ⊢
      exact settled.2
  | requestApply c m members applies point hc hm ha hj =>
    obtain rfl | rfl : a = c ∨ a = m := by grind
    · simp only [Settled, hc, set_call, if_true] at settled ⊢
      exact settled
    · have hac : a ≠ c := by grind
      simp only [Settled, hj, set_call, hac, if_true, if_false] at settled ⊢
      exact InGroup.of_eq (s := s) rfl rfl settled (by grind)
  | applyDone c leader answer hc =>
    by_cases hac : a = c
    · subst hac
      simp only [Settled, hc, set_call, if_true] at settled ⊢
      exact JoinerSettled.of_eq (s := s) rfl rfl rfl settled (by grind) (by grind)
    · obtain rfl : a = leader := by grind
      cases hlead : s.call a with
      | executing members applies =>
        simp only [Settled, hlead, set_call, hac, if_true, if_false] at settled ⊢
        exact settled
      | _ => exact absurd (by simp [hlead, hac, collected]) hcall
  | completeEarly c m members response _ hc hm | complete c m members response hc hm =>
    obtain rfl | rfl : a = c ∨ a = m := by grind
    · simp only [Settled, hc, set_call, if_true] at settled ⊢
      exact settled
    · have held := hi.member_held (by tauto) hm
      have hac : a ≠ c := by grind [held.not_leads]
      have hmember : a ∈ (s.call c).members := by simpa [hc, Call.members] using hm
      exact Answered.settled (r := response) ⟨c, hi.executedBy hmember (settled.inGroup held), by simp⟩
        held (by simp [hac])
  | wake c point joiner hc =>
    obtain rfl : a = c := by grind
    simp only [Settled, hc, set_call, if_true] at settled ⊢
    cases joiner with
    | taken | apply => exact InGroup.of_eq (s := s) rfl rfl settled (by grind)
    | _ => exact settled
  | claimBusy c joiner hc =>
    obtain rfl : a = c := by grind
    simp only [Settled, hc, set_call, if_true] at settled ⊢
    apply JoinerSettled.of_eq _ _ _ settled <;> grind
  | claim c joiner hc hl hf =>
    obtain rfl : a = c := by grind
    obtain ⟨response, rfl⟩ := hi.claim_done hc hf
    simp only [Settled, hc, set_call, if_true] at settled ⊢
    exact ⟨response, rfl, settled⟩
  | reclaim c joiner hc =>
    obtain rfl : a = c := by grind
    simp only [Settled, hc, set_call, if_true] at settled ⊢
    obtain ⟨response, rfl, answered⟩ := settled
    exact answered

theorem Inv.settled_step (a : ι) : s'.Settled a := by
  by_cases hcall : s'.call a = s.call a
  · exact hi.settled_frame h hcall
  · exact hi.settled_moved h hcall

end

/-- The invariant is kept by every careful step. -/
theorem Inv.step (hi : Inv s) (h : Step pipelined s s') (careful : Careful s s') : Inv s' where
  owner := hi.owner_step h
  free := hi.free_step h careful
  active := hi.active_step h
  lock := hi.lock_step h
  nodup := hi.nodup_step h
  settled := hi.settled_step h
  held := hi.held_step h
  members_nodup := hi.members_nodup_step h

omit [DecidableEq ι] in
theorem inv_init : Inv (init : State ι Req Resp) where
  owner := by simp [init, Owns]
  free := by simp [init, Owns, Lapsed]
  active := by simp [init]
  lock := by simp [init, Locks]
  nodup := by simp [init]
  settled := by simp [init, Settled]
  held := by simp [init, Call.members]
  members_nodup := by simp [init, Call.members]

end

end Strata.GroupQueue
