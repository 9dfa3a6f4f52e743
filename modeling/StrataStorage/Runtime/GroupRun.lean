import StrataStorage.Runtime.GroupQueue

/-!
# Runs of the write-group queue

From the invariant of `GroupQueue`, what every careful run guarantees
(`carefulRun_serves`): one leader at a time, at most one execution of a request,
and for a caller whose request was taken the response of its leader. That such a
caller does return is a run of its leader and of itself, built from the pieces of
`Progress`: the drain ends, the leader waits for applies until its deadline at the
most, `finish_leadership` ends, the answer is given and the caller picks it up.

`Sample.abandoned_run` is the run that is not careful: a caller times out with
its request pending, the leader takes the request and gives leadership up, and
the caller, which now finds leadership free, claims it, finds its request taken
and returns `Abandoned`, although the leader executes the request.
-/

namespace Strata.GroupQueue

open Relation (ReflTransGen)
open Call (Owns Locks Pops)

section Progress

variable {ι Req Resp : Type} [DecidableEq ι] {s : State ι Req Resp}
variable {l : ι} {members : List ι}

/-- `s'` is reached from `s`, and the calls that were not pending and are not
`l`'s are as they were. -/
def Undisturbed (pipelined : Bool) (l : ι) (s s' : State ι Req Resp) : Prop :=
  ReflTransGen (Step pipelined) s s' ∧
    ∀ d, d ≠ l → (∀ point request, s.call d ≠ .waiting point (.pending request)) → s'.call d = s.call d

theorem Undisturbed.head {pipelined : Bool} {s₁ s₂ s₃ : State ι Req Resp} (h : Step pipelined s₁ s₂)
    (hcall : ∀ d, d ≠ l → (∀ point request, s₁.call d ≠ .waiting point (.pending request)) →
      s₂.call d = s₁.call d) (h' : Undisturbed pipelined l s₂ s₃) :
    Undisturbed pipelined l s₁ s₃ := by
  refine ⟨.head h h'.1, fun d hd hp => ?_⟩
  rw [h'.2 d hd (by simpa [hcall d hd hp] using hp), hcall d hd hp]

section

variable (pipelined : Bool) {c : ι}
include pipelined

/-- The loop of `drain_members` ends. -/
theorem drain_ends {request : Req} (hl : s.call l = .draining request members) :
    ∃ s' members', Undisturbed pipelined l s s' ∧ s'.queueLock = none ∧
      s'.leaderActive = s.leaderActive ∧ s'.call l = .executing (members ++ members') [] := by
  induction hq : s.queue generalizing s members with
  | nil =>
    refine ⟨_, [], ⟨.single (.drainEnd l request members hl (.inl hq)), ?_⟩, rfl, rfl, by simp⟩
    grind
  | cons m rest ih =>
    by_cases hlen : members.length < maxDrain
    · by_cases hm : ∃ point taken, s.call m = .waiting point (.pending taken)
      · obtain ⟨point, taken, hm⟩ := hm
        have step : Step pipelined s _ := .drainTake l m request taken members rest point hl hlen hq hm
        have hl' := State.set_call (s.set m (.waiting point .taken)) l (.draining request (members ++ [m])) l
        obtain ⟨s', members', run, lock, active, call⟩ :=
          ih (s := { State.set _ _ _ with queue := rest, executed := _ }) (hl'.trans (if_pos rfl)) rfl
        exact ⟨s', m :: members', .head step (by grind) run, lock, active, by simpa using call⟩
      · have step : Step pipelined s _ := .popStale l m rest (by simpa [hl, Pops] using hlen) hq
          (fun point taken h => hm ⟨point, taken, h⟩)
        obtain ⟨s', members', run, lock, active, call⟩ := ih (s := { s with queue := rest }) hl rfl
        exact ⟨s', members', .head step (fun _ _ _ => rfl) run, lock, active, call⟩
    · refine ⟨_, [], ⟨.single (.drainEnd l request members hl (.inr (by omega))), ?_⟩, rfl, rfl, by simp⟩
      grind

/-- The loop of `finish_leadership` ends. -/
theorem finish_ends {next : AfterFinish ι Resp} (hl : s.call l = .finishing next) :
    ∃ s', Undisturbed pipelined l s s' ∧ s'.queueLock = none ∧ s'.call l = next.call := by
  induction hq : s.queue generalizing s with
  | nil =>
    refine ⟨_, ⟨.single (.finishClear l next hl hq), ?_⟩, rfl, by simp⟩
    grind
  | cons m rest ih =>
    by_cases hm : ∃ point request, s.call m = .waiting point (.pending request)
    · obtain ⟨point, request, hm⟩ := hm
      refine ⟨_, ⟨.single (.promote l m next request rest point hl hq hm), ?_⟩, rfl, by simp⟩
      grind
    · have step : Step pipelined s _ := .popStale l m rest (by simp [hl, Pops]) hq
        (fun point request h => hm ⟨point, request, h⟩)
      obtain ⟨s', run, lock, call⟩ := ih (s := { s with queue := rest }) hl rfl
      exact ⟨s', .head step (fun _ _ _ => rfl) run, lock, call⟩

/-- Whoever holds the queue mutex lets it go. -/
theorem Inv.lock_released (hi : Inv s) : ∃ s', ReflTransGen (Step pipelined) s s' ∧ s'.queueLock = none ∧
      ∀ d, ¬(s.call d).Locks → (∀ point request, s.call d ≠ .waiting point (.pending request)) →
        s'.call d = s.call d := by
  cases hlock : s.queueLock with
  | none => exact ⟨s, .refl, hlock, fun _ _ _ => rfl⟩
  | some l =>
    have locks := (hi.lock l).1 hlock
    have ne : ∀ d, ¬(s.call d).Locks → d ≠ l := fun d hd h => hd (h ▸ locks)
    cases hl : s.call l with
    | draining request members =>
      obtain ⟨s', -, run, lock, -, -⟩ := drain_ends pipelined hl
      exact ⟨s', run.1, lock, fun d hd => run.2 d (ne d hd)⟩
    | finishing next =>
      obtain ⟨s', run, lock, -⟩ := finish_ends pipelined hl
      exact ⟨s', run.1, lock, fun d hd => run.2 d (ne d hd)⟩
    | _ => exact absurd locks (by simp [hl, Locks])

/-- A leader done with its group answers the member `c`, whatever `c` does. -/
theorem answer_runs (hl : s.call l = .executing members [] ∨ s.call l = .completing members) (hc : c ∈ members)
    (held : (s.call c).Held) (hlock : s.queueLock = none) (response : Resp) :
    ∃ s', ReflTransGen (Step pipelined) s s' ∧ s'.queueLock = none ∧
      s'.call c = completed response (s.call c) := by
  have hcl : c ≠ l := by
    rintro rfl
    rcases hl with hl | hl <;> simp [hl, Call.Held] at held
  have answer : ∀ t : State ι Req Resp, t.call l = .completing members → t.call c = s.call c →
      t.queueLock = none → ∃ s', ReflTransGen (Step pipelined) t s' ∧ s'.queueLock = none ∧
        s'.call c = completed response (s.call c) := by
    intro t htl htc tlock
    exact ⟨_, .single (.complete l c members response htl hc), tlock, by simp [hcl, htc]⟩
  rcases hl with hl | hl
  · cases pipelined with
    | false => exact ⟨_, .single (.completeEarly l c members response rfl hl hc), hlock, by simp [hcl]⟩
    | true =>
      have step : Step true s _ := .finishStart l members hl (.inl rfl) hlock
      obtain ⟨t, run, tlock, tl⟩ := finish_ends true
        (s := { s.set l (.finishing (.complete members)) with queueLock := some l }) (l := l)
        (if_pos rfl)
      have htc : t.call c = s.call c := by
        rw [run.2 c hcl (by grind)]
        simp [hcl]
      obtain ⟨s', run', rest⟩ := answer t tl htc tlock
      exact ⟨s', .head step (run.1.trans run'), rest⟩
  · exact answer s hl rfl hlock

/-- A caller that has its answer returns it. -/
theorem done_returns {call : Call ι Req Resp} {response : Resp} (held : call.Held)
    (hcall : s.call c = completed response call) (hlock : s.queueLock = none) :
    ∃ s', ReflTransGen (Step pipelined) s s' ∧ s'.call c = .waited (.done response) := by
  have look : ∀ t : State ι Req Resp, ∀ point, t.call c = .waiting point (.done response) → point ≠ .timedOut →
      ∃ s', ReflTransGen (Step pipelined) t s' ∧ s'.call c = .waited (.done response) := fun t point htc hp =>
    ⟨_, .single (.wake c point _ htc hp), by simp [examine]⟩
  cases call with
  | applying leader answer =>
    -- the answer came in while it ran its apply
    have step : Step pipelined s _ := .applyDone c leader (some response) hcall
    obtain ⟨s', run, rest⟩ := look ((s.set leader (collected c (s.call leader))).set c
      (.waiting .awaiting (.done response))) .awaiting (by simp) (by simp)
    exact ⟨s', .head step run, rest⟩
  | waiting point joiner =>
    cases point with
    | timedOut =>
      have hcall : s.call c = .waiting .timedOut (.done response) := hcall
      cases hactive : s.leaderActive with
      | true =>
        have step : Step pipelined s _ := .claimBusy c _ hcall hlock hactive
        obtain ⟨s', run, rest⟩ := look (s.set c (.waiting .awaiting (.done response))) .awaiting (by simp) (by simp)
        exact ⟨s', .head step run, rest⟩
      | false =>
        -- it claims the free leadership, and hands it back
        have claim : Step pipelined s _ := .claim c _ hcall hlock hactive
        let t : State ι Req Resp := { s.set c (.reclaiming (.done response)) with leaderActive := true }
        have reclaim : Step pipelined t (t.set c (.handback (.done response))) :=
          .reclaim c (.done response) (by simp [t])
        have start : Step pipelined (t.set c (.handback (.done response))) _ :=
          .handbackStart c (.done response) (by simp) hlock
        let u : State ι Req Resp :=
          { (t.set c (.handback (.done response))).set c (.finishing (.exit (.done response)))
            with queueLock := some c }
        have hu : u.call c = .finishing (.exit (.done response)) := by simp [u]
        obtain ⟨s', run, -, call⟩ := finish_ends pipelined hu
        exact ⟨s', .head claim (.head reclaim (.head start run.1)), call⟩
    | awaiting => exact look s .awaiting hcall (by simp)
    | parked => exact look s .parked hcall (by simp)
  | _ => exact held.elim

/-- The leader of a taken request gets to the point where it answers, and the caller stays
where it is. -/
theorem Inv.leader_answers (hi : Inv s) (hc : c ∈ (s.call l).members) :
    ∃ s' members, ReflTransGen (Step pipelined) s s' ∧ s'.queueLock = none ∧
      (s'.call l = .executing members [] ∨ s'.call l = .completing members) ∧ c ∈ members ∧
      s'.call c = s.call c := by
  obtain ⟨held, -⟩ := hi.held l c hc
  have hpending : ∀ point request, s.call c ≠ .waiting point (.pending request) := by
    intro point request h
    simp [h, Call.Held, JoinState.Held] at held
  have hcl : c ≠ l := by
    rintro rfl
    simp [held.not_leads.2] at hc
  cases hl : s.call l with
  | draining request members =>
    obtain ⟨t, members', run, tlock, -, tl⟩ := drain_ends pipelined hl
    exact ⟨t, _, run.1, tlock, .inl tl, by simp [hl, Call.members] at hc; simp [hc], run.2 c hcl hpending⟩
  | executing members applies =>
    obtain ⟨t, run, tlock, frame⟩ := hi.lock_released pipelined
    have tl : t.call l = .executing members applies := by
      rw [frame l (by simp [hl, Locks]) (by simp [hl]), hl]
    -- what has not come in by the deadline is left out
    have step : Step pipelined t _ := .deadline l members applies tl
    refine ⟨_, members, run.tail step, tlock, .inl (by simp), by simpa [hl, Call.members] using hc, ?_⟩
    rw [State.set_call, if_neg hcl]
    exact frame c (fun h => held.not_leads.1 h.owns) hpending
  | finishing next =>
    obtain ⟨s', run, lock, call⟩ := finish_ends pipelined hl
    cases next with
    | complete members =>
      exact ⟨s', members, run.1, lock, .inr call, by simpa [hl, Call.members] using hc, run.2 c hcl hpending⟩
    | exit outcome => simp [hl, Call.members] at hc
  | completing members =>
    obtain ⟨s', run, lock, frame⟩ := hi.lock_released pipelined
    exact ⟨s', members, run, lock, .inr (by rw [frame l (by simp [hl, Locks]) (by simp [hl]), hl]),
      by simpa [hl, Call.members] using hc, frame c (fun h => held.not_leads.1 h.owns) hpending⟩
  | _ => simp [hl, Call.members] at hc

/-- A caller whose request is taken can return with a response. -/
theorem Inv.held_returns (hi : Inv s) (held : (s.call c).Held) (response : Resp) :
    ∃ s', ReflTransGen (Step pipelined) s s' ∧ s'.call c = .waited (.done response) := by
  obtain ⟨l, hl, -⟩ := (hi.settled c).inGroup held
  obtain ⟨s₁, members, run₁, lock₁, call₁, hm, hcall⟩ := hi.leader_answers pipelined hl
  obtain ⟨s₂, run₂, lock₂, call₂⟩ := answer_runs pipelined call₁ hm (hcall ▸ held) lock₁ response
  obtain ⟨s₃, run₃, call₃⟩ := done_returns pipelined (hcall ▸ held) call₂ lock₂
  exact ⟨s₃, run₁.trans (run₂.trans run₃), call₃⟩

end

end Progress

section Safety

variable {ι Req Resp : Type} [DecidableEq ι] {s : State ι Req Resp}

/-- A step of a run in which no leader gives leadership up under a lapsed
caller. -/
def CarefulStep (pipelined : Bool) (s s' : State ι Req Resp) : Prop :=
  Step pipelined s s' ∧ Careful s s'

theorem inv_of_carefulRun {pipelined : Bool} (h : ReflTransGen (CarefulStep pipelined) init s) : Inv s := by
  induction h with
  | refl => exact inv_init
  | tail _ step ih => exact ih.step step.1 step.2

omit [DecidableEq ι] in
theorem Inv.executed_length (hi : Inv s) (c : ι) : (s.executed c).length ≤ 1 := by
  have settled := hi.settled c
  unfold State.Settled State.JoinerSettled State.OutcomeSettled State.InGroup State.Answered
    State.Unserved State.ExecutedBy at settled
  grind

/-- Along every run in which no leader gives leadership up under a lapsed
caller, one caller at most owns leadership; a request is executed at most once,
and once when its caller has returned; a caller that waited returns `Done` with
the response of the leader that executed its request; and a caller whose request
is taken is never stuck. -/
theorem carefulRun_serves {pipelined : Bool} (h : ReflTransGen (CarefulStep pipelined) init s) :
    (∀ c d, (s.call c).Owns → (s.call d).Owns → c = d) ∧
    (∀ c, (s.executed c).length ≤ 1) ∧
    (∀ c response, s.call c = .led response → s.ExecutedBy c c) ∧
    (∀ c outcome, s.call c = .waited outcome → ∃ response leader, outcome = .done response ∧
      s.ExecutedBy c leader ∧ s.answered c = some (leader, response)) ∧
    ∀ c, (s.call c).Held → ∀ response, ∃ s', ReflTransGen (Step pipelined) s s' ∧
      s'.call c = .waited (.done response) := by
  have hi := inv_of_carefulRun h
  refine ⟨hi.owner, hi.executed_length, ?_, ?_, fun c hc => hi.held_returns pipelined hc⟩
  · intro c response hc
    simpa only [State.Settled, hc] using hi.settled c
  · intro c outcome hc
    have settled := hi.settled c
    simp only [State.Settled, hc] at settled
    cases outcome with
    | done response =>
      obtain ⟨leader, executed, answered⟩ := settled
      exact ⟨response, leader, rfl, executed, answered⟩
    | abandoned => exact settled.elim

end Safety

/-! ## Worked inputs -/

namespace Sample

/-- A careful run of a pipelined leader `false` that serves the caller `true`: the
deadline passes while `true` runs an apply, and the answer comes in before it is done. -/
theorem served_run : ∃ s : State Bool Nat Nat, ReflTransGen (CarefulStep true) init s ∧
    s.call true = .waited (.done 9) := by
  have careful : ∀ s s' : State Bool Nat Nat, Step true s s' → (∀ w, ¬(s.call w).Lapsed) →
      CarefulStep true s s' := fun _ _ h hw => ⟨h, fun _ _ => hw⟩
  have skip : ∀ s s' : State Bool Nat Nat, Step true s s' → s'.leaderActive = true →
      CarefulStep true s s' := fun _ _ h ha => ⟨h, fun _ hf => by simp [ha] at hf⟩
  refine ⟨_, .head (skip _ _ (.joinLead false 5 rfl rfl rfl) rfl) <|
    .head (skip _ _ (.joinWait true 7 rfl rfl rfl) rfl) <|
    .head (skip _ _ (.drainStart false 5 rfl rfl) rfl) <|
    .head (skip _ _ (.drainTake false true 5 7 [] [] .awaiting rfl (by decide) rfl rfl) rfl) <|
    .head (skip _ _ (.drainEnd false 5 [true] rfl (.inl rfl)) rfl) <|
    .head (skip _ _ (.requestApply false true [true] [] .awaiting rfl (by simp) (by simp) rfl) rfl) <|
    .head (skip _ _ (.wake true .awaiting (.apply false) rfl (by simp)) rfl) <|
    .head (skip _ _ (.deadline false [true] [true] rfl) rfl) <|
    .head (skip _ _ (.finishStart false [true] rfl (.inl rfl) rfl) rfl) <|
    .head (careful _ _ (.finishClear false (.complete [true]) rfl rfl) ?_) <|
    .head (careful _ _ (.complete false true [true] 9 rfl (by simp)) ?_) <|
    .head (careful _ _ (.applyDone true false (some 9) rfl) ?_) <|
    .single (careful _ _ (.wake true .awaiting (.done 9) rfl (by simp)) ?_), rfl⟩
  -- nobody times out in this run
  all_goals
    intro w
    cases w with
    | false => exact fun h => h.elim
    | true => first | exact fun h => h.elim | exact fun h => nomatch h.1

theorem carefulRun_served : ∃ s : State Bool Nat Nat, s.call true = .waited (.done 9) ∧
    ∃ leader, s.ExecutedBy true leader ∧ s.answered true = some (leader, 9) := by
  obtain ⟨s, run, call⟩ := served_run
  obtain ⟨-, -, -, waited, -⟩ := carefulRun_serves run
  obtain ⟨response, leader, outcome, executed, answered⟩ := waited true _ call
  cases outcome
  exact ⟨s, call, leader, executed, answered⟩

/-- The caller `true` times out, the pipelined leader `false` takes its request
and hands leadership on, and `true` claims it: it returns `Abandoned`, although
its request is executed. -/
theorem abandoned_run : ∃ s : State Bool Nat Nat, ReflTransGen (Step true) init s ∧
    s.call true = .waited .abandoned ∧ s.executed true = [(false, 7)] :=
  ⟨_, .head (.joinLead false 5 rfl rfl rfl) <| .head (.joinWait true 7 rfl rfl rfl) <|
    .head (.wake true .awaiting (.pending 7) rfl (by simp)) <| .head (.timeOut true 7 rfl) <|
    .head (.drainStart false 5 rfl rfl) <|
    .head (.drainTake false true 5 7 [] [] .timedOut rfl (by decide) rfl rfl) <|
    .head (.drainEnd false 5 [true] rfl (.inl rfl)) <|
    .head (.finishStart false [true] rfl (.inl rfl) rfl) <|
    .head (.finishClear false (.complete [true]) rfl rfl) <|
    .head (.claim true .taken rfl rfl rfl) <| .head (.reclaim true .taken rfl) <|
    .head (.handbackStart true .abandoned rfl rfl) <|
    .single (.finishClear true (.exit .abandoned) rfl rfl), rfl, rfl⟩

end Sample

end Strata.GroupQueue
