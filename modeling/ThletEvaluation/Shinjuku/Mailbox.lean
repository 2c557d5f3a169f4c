import ThletEvaluation.Shinjuku.Interleaving
import ThletEvaluation.Shinjuku.Scheduler

/-!
# The per-CPU records simulate the mailboxes

Two single words, `request->flag` and `response->flag`, guard the two records that the
dispatcher and a worker share. `WorkerLinked` and `ServerLinked` say, for each place in
the code of the worker and of `handle_worker`, what the records hold while the mailbox
is in a given state. Every load and store of either side keeps both, whatever the other
side does in between, so the events of every run are accepted by `schedObserver`.
-/

namespace ThletEvaluation.Shinjuku

open Run

set_option autoImplicit false

def complete (todo : List Field) (src dst : Task) : Task :=
  todo.foldl (fun d f => f.copy src d) dst

@[simp] theorem complete_nil (src dst : Task) : complete [] src dst = dst := rfl

@[simp] theorem complete_cons (f : Field) (todo : List Field) (src dst : Task) :
    complete (f :: todo) src dst = complete todo src (f.copy src dst) := rfl

@[simp] theorem complete_responseFields (src dst : Task) :
    complete responseFields src dst = src := rfl

@[simp] theorem complete_requestFields (src dst : Task) :
    complete requestFields src dst = src := rfl

@[simp] theorem complete_finishFields (src dst : Task) :
    complete finishFields src dst = src := rfl

/-- The records of a worker that waits for a request. -/
def AtRest (c : PerCpu) : Slot → Prop
  | .empty | .handed _ => c.request.flag = .waiting
  | .posted e => c.request = ⟨e, .active⟩
  | .running .. => False
  | .reported e ctx fin => c.request.flag = .waiting ∧ c.response = report e ctx fin
  | .freed e ctx => c.request.flag = .waiting ∧ c.response = report e ctx true

/-- A worker runs the request it took, which still stands in the record. -/
def InRun (k : Progress) (c : PerCpu) (α : Slot) (P : Task → Addr → Prop) : Prop :=
  ∃ e ctx, α = .running e ctx k ∧ c.request = ⟨e, .waiting⟩ ∧ P e ctx

def WorkerLinked (α : Slot) (c : PerCpu) : WorkerPc → Prop
  | .unborn | .initActive | .initPreempted | .initFlag =>
    α = .empty ∧ c.request.flag = .waiting ∧ c.response.flag = .running
  | .spin => AtRest c α
  | .reset => ∃ e, α = .posted e ∧ c.request = ⟨e, .active⟩
  | .category => InRun .taken c α fun _ ctx => c.ctxWorker = ctx
  | .newParse | .newRnbl =>
    InRun .handled c α fun e ctx => c.ctxWorker = ctx ∧ e.category = .packet
  | .newFinished cont | .newSwap cont =>
    InRun .handled c α fun e ctx => c.ctxWorker = ctx ∧ e.category = .packet ∧ cont = e.rnbl
  | .ctxFinished | .ctxRnbl => InRun .handled c α fun e _ => e.category ≠ .packet
  | .ctxStore rnbl => InRun .handled c α fun e _ => e.category ≠ .packet ∧ rnbl = e.rnbl
  | .ctxSwap => InRun .handled c α fun e _ => e.category ≠ .packet ∧ c.ctxWorker = e.rnbl
  | .body | .finish => InRun .entered c α fun e ctx => c.ctxWorker = (answer e ctx).rnbl
  | .load todo cont => InRun .entered c α fun e ctx =>
    cont = (answer e ctx).rnbl ∧
      complete todo (answer e ctx) c.response.toTask = answer e ctx
  | .store f reg todo cont => InRun .entered c α fun e ctx =>
    cont = (answer e ctx).rnbl ∧ reg = answer e ctx ∧
      complete (f :: todo) (answer e ctx) c.response.toTask = answer e ctx
  | .publish _ => InRun .entered c α fun e ctx => c.response.toTask = answer e ctx

/-- What the response flag can be when `handle_worker` is about to read it. -/
def Shows (c : PerCpu) : Slot → Prop
  | .empty => c.response.flag = .running ∨ c.response.flag = .processed
  | .posted _ | .running .. => c.response.flag = .running
  | .reported _ _ fin => c.response.flag = if fin then .finished else .preempted
  | .handed _ | .freed .. => False

/-- `dispatch_request` is writing the request for the task it popped. -/
def InFill (c : PerCpu) (α : Slot) (e : Task) : Prop :=
  ∃ t, α = .handed t ∧ e = { t with timestamp := e.timestamp } ∧ c.response.flag = .running

def ServerLinked (α : Slot) (c : PerCpu) : Stage → Prop
  | .poll | .preempt | .done => Shows c α
  | .isFinished =>
    (α = .empty ∧ c.response.flag = .processed) ∨
      ∃ e ctx fin, α = .reported e ctx fin
  | .isPreempted =>
    (α = .empty ∧ c.response.flag = .processed) ∨ ∃ e ctx, α = .reported e ctx false
  | .finFree => ∃ e ctx, α = .reported e ctx true
  | .finConsume => ∃ e ctx, α = .freed e ctx
  | .finCheck | .finFlag => α = .empty ∧ c.response.flag = .finished
  | .copy todo t => ∃ e ctx, α = .reported e ctx false ∧
    complete todo (answer e ctx) t = answer e ctx
  | .preCheck | .preFlag => α = .empty ∧ c.response.flag = .preempted
  | .out => α = .empty ∧ c.response.flag = .processed
  | .bugOn t | .setRunning t => α = .handed t ∧ c.response.flag = .processed
  | .fill todo e => InFill c α e ∧ complete todo e c.request.toTask = e
  | .setStamp e | .setCheck e | .setActive e => InFill c α e ∧ c.request.toTask = e
  | .bug => False

section Lemmas
variable {α : Slot} {c : PerCpu} {pc : WorkerPc} {st : Stage}

theorem atRest_of_handed {t : Task} (h : WorkerLinked (.handed t) c pc) :
    pc = .spin ∧ c.request.flag = .waiting := by
  cases pc <;> simp_all [WorkerLinked, InRun, AtRest]

theorem atRest_of_reported {e : Task} {ctx : Addr} {fin : Bool}
    (h : WorkerLinked (.reported e ctx fin) c pc) :
    pc = .spin ∧ c.request.flag = .waiting ∧ c.response = report e ctx fin := by
  cases pc <;> simp_all [WorkerLinked, InRun, AtRest]

theorem atRest_of_freed {e : Task} {ctx : Addr} (h : WorkerLinked (.freed e ctx) c pc) :
    pc = .spin ∧ c.request.flag = .waiting ∧ c.response = report e ctx true := by
  cases pc <;> simp_all [WorkerLinked, InRun, AtRest]

theorem request_of_posted {e : Task} (h : WorkerLinked (.posted e) c pc) :
    c.request = ⟨e, .active⟩ := by
  cases pc <;> simp_all [WorkerLinked, InRun, AtRest]

theorem request_of_running {e : Task} {ctx : Addr} {k : Progress}
    (h : WorkerLinked (.running e ctx k) c pc) : c.request = ⟨e, .waiting⟩ := by
  cases pc <;> simp_all [WorkerLinked, InRun, AtRest]

theorem spin_of_empty (h : WorkerLinked .empty c pc) (hflag : c.response.flag ≠ .running) :
    pc = .spin ∧ c.request.flag = .waiting := by
  cases pc <;> simp_all [WorkerLinked, InRun, AtRest]

theorem shows_of_running {e : Task} {ctx : Addr} {k : Progress}
    (h : ServerLinked (.running e ctx k) c st) :
    c.response.flag = .running ∧ (st = .poll ∨ st = .preempt ∨ st = .done) := by
  cases st <;> simp_all [ServerLinked, Shows, InFill]

theorem shows_of_posted {e : Task} (h : ServerLinked (.posted e) c st) :
    c.response.flag = .running ∧ (st = .poll ∨ st = .preempt ∨ st = .done) := by
  cases st <;> simp_all [ServerLinked, Shows, InFill]

theorem serverLinked_of_shows (h : Shows c α) (hst : st = .poll ∨ st = .preempt ∨ st = .done) :
    ServerLinked α c st := by
  rcases hst with rfl | rfl | rfl <;> exact h

theorem shows_of_unborn (h : ServerLinked .empty c st) (hflag : c.response.flag = .running) :
    st = .poll ∨ st = .preempt ∨ st = .done := by
  cases st <;> simp_all [ServerLinked, Shows, InFill]

theorem serverLinked_congr {c' : PerCpu} (h : ServerLinked α c st)
    (hflag : c'.response.flag = c.response.flag)
    (hreq : c'.request.toTask = c.request.toTask) : ServerLinked α c' st := by
  cases st <;> cases α <;> simp only [ServerLinked, Shows, InFill, hflag, hreq] at h ⊢ <;> exact h

theorem next_publish (i : Nat) (e : Task) (ctx : Addr) (fin : Bool) :
    (Slot.running e ctx .entered).next (.publish i (report e ctx fin))
      = some (.reported e ctx fin) := by
  cases fin <;> simp [Slot.next, report]

theorem serverLinked_running {c' : PerCpu} {e : Task} {ctx : Addr} {k k' : Progress}
    (h : ServerLinked (.running e ctx k) c st)
    (hflag : c'.response.flag = c.response.flag) :
    ServerLinked (.running e ctx k') c' st := by
  obtain ⟨hrun, hst⟩ := shows_of_running h
  exact serverLinked_of_shows (hflag.trans hrun) hst

/-- What a worker's step does to its mailbox. -/
def WorkerMove (i : Nat) (α : Slot) (st : Stage) (c : PerCpu) (pc : WorkerPc) (es : List Event) :
    Prop :=
  ∃ β, slotObserver.accept α es = some β ∧ WorkerLinked β c pc ∧ ServerLinked β c st ∧
    ∀ ev ∈ es, ev.worker = some i ∧ ∀ q, queueNext q ev = some q

theorem workerMove_silent {i : Nat} {c' : PerCpu} {pc' : WorkerPc}
    (hs : ServerLinked α c st) (hflag : c'.response.flag = c.response.flag)
    (hreq : c'.request.toTask = c.request.toTask) (hw : WorkerLinked α c' pc') :
    WorkerMove i α st c' pc' [] :=
  ⟨α, rfl, hw, serverLinked_congr hs hflag hreq, by simp⟩

theorem workerStep_moves {i : Nat} {fin : Bool} {c' : PerCpu} {pc' : WorkerPc}
    {es : List Event} (hw : WorkerLinked α c pc) (hs : ServerLinked α c st)
    (h : workerStep i fin c pc = some (c', pc', es)) : WorkerMove i α st c' pc' es := by
  cases pc with
  | unborn => simp [workerStep] at h
  | initActive | initPreempted =>
    obtain ⟨rfl, rfl, rfl⟩ := by simpa [workerStep] using h
    exact workerMove_silent hs rfl rfl hw
  | initFlag =>
    obtain ⟨rfl, rfl, rfl⟩ := by simpa [workerStep] using h
    obtain ⟨rfl, hreq, hflag⟩ := hw
    have hst := shows_of_unborn hs hflag
    exact ⟨.empty, rfl, hreq, serverLinked_of_shows (.inr rfl) hst, by simp⟩
  | spin =>
    obtain ⟨rfl, rfl, rfl⟩ := by simpa [workerStep] using h
    apply workerMove_silent hs rfl rfl
    by_cases hflag : c.request.flag = .waiting
    · simpa [hflag] using hw
    · -- only a posted request has its flag set
      cases α <;> simp_all [WorkerLinked, AtRest]
  | reset =>
    obtain ⟨rfl, rfl, rfl⟩ := by simpa [workerStep] using h
    obtain ⟨e, rfl, hreq⟩ := hw
    obtain ⟨hrun, hst⟩ := shows_of_posted hs
    refine ⟨.running e c.ctxWorker .taken, ?_, ⟨e, _, rfl, ?_, rfl⟩,
      serverLinked_of_shows hrun hst, ?_⟩
    · simp [slotObserver, Slot.next, hreq]
    · simp [PerCpu.setRequestFlag, hreq]
    · simp [Event.worker, queueNext]
  | category =>
    obtain ⟨e, ctx, rfl, hreq, hctx⟩ := hw
    have hcat : c.request.category = e.category := by rw [hreq]
    by_cases hp : e.category = .packet
    · obtain ⟨rfl, rfl, rfl⟩ := by simpa [workerStep, hcat, hp] using h
      refine ⟨.running e ctx .handled, ?_, ⟨e, ctx, rfl, hreq, hctx, hp⟩,
        serverLinked_running hs rfl, ?_⟩
      · simp [slotObserver, Slot.next, hp]
      · simp [Event.worker, queueNext]
    · obtain ⟨rfl, rfl, rfl⟩ := by simpa [workerStep, hcat, hp] using h
      refine ⟨.running e ctx .handled, ?_, ⟨e, ctx, rfl, hreq, hp⟩,
        serverLinked_running hs rfl, ?_⟩
      · simp [slotObserver, Slot.next, hp]
      · simp [Event.worker, queueNext]
  | newParse | newFinished cont | ctxFinished =>
    obtain ⟨rfl, rfl, rfl⟩ := by simpa [workerStep] using h
    exact workerMove_silent hs rfl rfl hw
  | newRnbl =>
    obtain ⟨rfl, rfl, rfl⟩ := by simpa [workerStep] using h
    obtain ⟨e, ctx, rfl, hreq, hctx, hp⟩ := hw
    exact workerMove_silent hs rfl rfl ⟨e, ctx, rfl, hreq, hctx, hp, by rw [hreq]⟩
  | newSwap cont =>
    obtain ⟨rfl, rfl, rfl⟩ := by simpa [workerStep] using h
    obtain ⟨e, ctx, rfl, hreq, hctx, hp, rfl⟩ := hw
    refine ⟨.running e ctx .entered, ?_, ⟨e, ctx, rfl, hreq, ?_⟩,
      serverLinked_running hs rfl, ?_⟩
    · simp [slotObserver, Slot.next]
    · simp [answer, hp, hctx]
    · simp [Event.worker, queueNext]
  | ctxRnbl =>
    obtain ⟨rfl, rfl, rfl⟩ := by simpa [workerStep] using h
    obtain ⟨e, ctx, rfl, hreq, hp⟩ := hw
    exact workerMove_silent hs rfl rfl ⟨e, ctx, rfl, hreq, hp, by rw [hreq]⟩
  | ctxStore rnbl =>
    obtain ⟨rfl, rfl, rfl⟩ := by simpa [workerStep] using h
    obtain ⟨e, ctx, rfl, hreq, hp, hr⟩ := hw
    exact workerMove_silent hs rfl rfl ⟨e, ctx, rfl, hreq, hp, hr⟩
  | ctxSwap =>
    obtain ⟨rfl, rfl, rfl⟩ := by simpa [workerStep] using h
    obtain ⟨e, ctx, rfl, hreq, hp, hctx⟩ := hw
    refine ⟨.running e ctx .entered, ?_, ⟨e, ctx, rfl, hreq, ?_⟩,
      serverLinked_running hs rfl, ?_⟩
    · simp [slotObserver, Slot.next, hctx]
    · simp [answer, hp, hctx]
    · simp [Event.worker, queueNext]
  | body =>
    obtain ⟨rfl, rfl, rfl⟩ := by simpa [workerStep] using h
    exact workerMove_silent hs rfl rfl hw
  | finish =>
    obtain ⟨rfl, rfl, rfl⟩ := by simpa [workerStep] using h
    obtain ⟨e, ctx, rfl, hreq, hctx⟩ := hw
    exact workerMove_silent hs rfl rfl ⟨e, ctx, rfl, hreq, hctx, by simp⟩
  | load todo cont =>
    obtain ⟨e, ctx, rfl, hreq, hcont, hfill⟩ := hw
    cases todo with
    | nil =>
      obtain ⟨rfl, rfl, rfl⟩ := by simpa [workerStep] using h
      exact workerMove_silent hs rfl rfl ⟨e, ctx, rfl, hreq, hfill⟩
    | cons f todo =>
      obtain ⟨rfl, rfl, rfl⟩ := by simpa [workerStep] using h
      refine workerMove_silent hs rfl rfl ⟨e, ctx, rfl, hreq, hcont, ?_, hfill⟩
      rw [hreq, hcont]
      rfl
  | store f reg todo cont =>
    obtain ⟨rfl, rfl, rfl⟩ := by simpa [workerStep] using h
    obtain ⟨e, ctx, rfl, hreq, hcont, rfl, hfill⟩ := hw
    exact workerMove_silent hs rfl rfl ⟨e, ctx, rfl, hreq, hcont, hfill⟩
  | publish b =>
    obtain ⟨rfl, rfl, rfl⟩ := by simpa [workerStep] using h
    obtain ⟨e, ctx, rfl, hreq, hresp⟩ := hw
    obtain ⟨hrun, hst⟩ := shows_of_running hs
    have hrep : (c.setResponseFlag (if b then .finished else .preempted)).response
        = report e ctx b := by
      simp [PerCpu.setResponseFlag, report, hresp]
    refine ⟨.reported e ctx b, ?_, ⟨by simp [PerCpu.setResponseFlag, hreq], hrep⟩,
      serverLinked_of_shows ?_ hst, ?_⟩
    · rw [hrep, Observer.accept_singleton]
      exact next_publish i e ctx b
    · simp [Shows, PerCpu.setResponseFlag]
    · simp [Event.worker, queueNext]

theorem workerLinked_congr {c' : PerCpu} (h : WorkerLinked α c pc)
    (hreq : c'.request = c.request) (hresp : c'.response = c.response)
    (hctx : c'.ctxWorker = c.ctxWorker) : WorkerLinked α c' pc := by
  cases pc <;> cases α <;>
    simp only [WorkerLinked, InRun, AtRest, hreq, hresp, hctx] at h ⊢ <;> exact h

theorem next_ipi (α : Slot) (i : Nat) : α.next (.ipi i) = some α := by
  rcases α with _ | _ | _ | ⟨_, _, _ | _ | _⟩ | ⟨_, _, _ | _⟩ | _ <;> rfl

/-- What a step of `handle_worker` does to the mailbox and the queue. -/
def ServerMove (i : Nat) (α : Slot) (pc : WorkerPc) (q : List Task)
    (r : PerCpu × List Task × Stage × List Event) : Prop :=
  ∃ β, slotObserver.accept α r.2.2.2 = some β ∧ queueObserver.accept q r.2.2.2 = some r.2.1 ∧
    WorkerLinked β r.1 pc ∧ ServerLinked β r.1 r.2.2.1 ∧ ∀ ev ∈ r.2.2.2, ev.worker = some i

theorem serverMove_silent {i : Nat} {q : List Task} {c' : PerCpu} {st' : Stage}
    (hw : WorkerLinked α c' pc) (hs : ServerLinked α c' st') :
    ServerMove i α pc q (c', q, st', []) :=
  ⟨α, rfl, rfl, hw, hs, by simp⟩

theorem serverMove_emit {i : Nat} {q q' : List Task} {c' : PerCpu} {st' : Stage} {β : Slot}
    {ev : Event} (hslot : α.next ev = some β) (hqueue : queueNext q ev = some q')
    (hev : ev.worker = some i) (hw : WorkerLinked β c' pc) (hs : ServerLinked β c' st') :
    ServerMove i α pc q (c', q', st', [ev]) :=
  ⟨β, Observer.accept_singleton.trans hslot, Observer.accept_singleton.trans hqueue, hw, hs,
    by simpa using hev⟩

theorem serveStep_poll_moves {i : Nat} {curTime : UInt64} {q : List Task}
    (hw : WorkerLinked α c pc) (hs : ServerLinked α c .poll) :
    ServerMove i α pc q (serveStep i curTime c q .poll) := by
  apply serverMove_silent hw
  by_cases hflag : c.response.flag = .running
  · simpa [hflag, ServerLinked] using hs
  · simp only [ne_eq, hflag, not_false_eq_true, if_true]
    cases α <;> simp_all [ServerLinked, Shows]

theorem serveStep_preempt_moves {i : Nat} {curTime : UInt64} {q : List Task}
    (hw : WorkerLinked α c pc) (hs : ServerLinked α c .preempt) :
    ServerMove i α pc q (serveStep i curTime c q .preempt) := by
  simp only [serveStep, preemptWorker]
  split
  · exact serverMove_emit (next_ipi α i) rfl rfl (workerLinked_congr hw rfl rfl rfl)
      (serverLinked_congr hs rfl rfl)
  · exact serverMove_silent hw hs

theorem serveStep_moves {i : Nat} {curTime : UInt64} {q : List Task}
    (hw : WorkerLinked α c pc) (hs : ServerLinked α c st) :
    ServerMove i α pc q (serveStep i curTime c q st) := by
  cases st with
  | poll => exact serveStep_poll_moves hw hs
  | preempt => exact serveStep_preempt_moves hw hs
  | isFinished =>
    rcases hs with ⟨rfl, hflag⟩ | ⟨e, ctx, fin, rfl⟩
    · exact serverMove_silent hw (by simp [ServerLinked, hflag])
    · obtain ⟨-, -, hresp⟩ := atRest_of_reported hw
      apply serverMove_silent hw
      cases fin <;> simp [ServerLinked, hresp, report]
  | isPreempted =>
    rcases hs with ⟨rfl, hflag⟩ | ⟨e, ctx, rfl⟩
    · exact serverMove_silent hw (by simp [ServerLinked, hflag])
    · obtain ⟨-, -, hresp⟩ := atRest_of_reported hw
      apply serverMove_silent hw
      simp [ServerLinked, hresp, report]
  | finFree =>
    obtain ⟨e, ctx, rfl⟩ := hs
    obtain ⟨rfl, hreq, hresp⟩ := atRest_of_reported hw
    refine serverMove_emit (β := .freed e ctx) ?_ rfl rfl ⟨hreq, hresp⟩ ⟨e, ctx, rfl⟩
    simp [Slot.next, hresp, report]
  | finConsume =>
    obtain ⟨e, ctx, rfl⟩ := hs
    obtain ⟨rfl, hreq, hresp⟩ := atRest_of_freed hw
    refine serverMove_emit (β := .empty) ?_ rfl rfl hreq ⟨rfl, ?_⟩
    · simp [Slot.next, hresp, report, answer]
    · simp [hresp, report]
  | finCheck | preCheck =>
    exact serverMove_silent (workerLinked_congr hw rfl rfl rfl) hs
  | finFlag | preFlag =>
    obtain ⟨rfl, hflag⟩ := hs
    obtain ⟨rfl, hreq⟩ := spin_of_empty hw (by simp [hflag])
    exact serverMove_silent hreq ⟨rfl, rfl⟩
  | copy todo t =>
    obtain ⟨e, ctx, rfl, hfill⟩ := hs
    obtain ⟨rfl, hreq, hresp⟩ := atRest_of_reported hw
    cases todo with
    | nil =>
      obtain rfl : t = answer e ctx := hfill
      refine serverMove_emit (β := .empty) ?_ ?_ rfl hreq ⟨rfl, ?_⟩
      · simp [Slot.next]
      · simp [queueNext]
      · simp [hresp, report]
    | cons f todo =>
      refine serverMove_silent hw ⟨e, ctx, rfl, ?_⟩
      rw [hresp]
      exact hfill
  | out =>
    obtain ⟨rfl, hflag⟩ := hs
    obtain ⟨rfl, hreq⟩ := spin_of_empty hw (by simp [hflag])
    cases q with
    | nil => exact serverMove_silent hw (.inr hflag)
    | cons t q =>
      exact serverMove_emit (β := .handed t) rfl (by simp [queueNext]) rfl hreq ⟨rfl, hflag⟩
  | bugOn t =>
    obtain ⟨rfl, hflag⟩ := hs
    obtain ⟨rfl, hreq⟩ := atRest_of_handed hw
    exact serverMove_silent hw (by simp [ServerLinked, hreq, hflag])
  | setRunning t =>
    obtain ⟨rfl, hflag⟩ := hs
    obtain ⟨rfl, hreq⟩ := atRest_of_handed hw
    exact serverMove_silent hreq ⟨⟨t, rfl, rfl, rfl⟩, rfl⟩
  | fill todo e =>
    obtain ⟨⟨t, rfl, he, hflag⟩, hfill⟩ := hs
    obtain ⟨rfl, hreq⟩ := atRest_of_handed hw
    cases todo with
    | nil => exact serverMove_silent hw ⟨⟨t, rfl, he, hflag⟩, hfill⟩
    | cons f todo => exact serverMove_silent hreq ⟨⟨t, rfl, he, hflag⟩, hfill⟩
  | setStamp e | setCheck e =>
    exact serverMove_silent (workerLinked_congr hw rfl rfl rfl) hs
  | setActive e =>
    obtain ⟨⟨t, rfl, he, hflag⟩, hreq'⟩ := hs
    obtain ⟨rfl, hreq⟩ := atRest_of_handed hw
    refine serverMove_emit (β := .posted e) ?_ rfl rfl ?_ hflag
    · simp [Slot.next, ← he]
    · simp [WorkerLinked, AtRest, PerCpu.setRequestFlag, hreq']
  | done => exact serverMove_silent hw hs
  | bug => exact hs.elim

end Lemmas

end ThletEvaluation.Shinjuku
