import V9xRemote.Spec.VncJobs
import Mathlib.Data.List.Chain

/-!
# One job at a time (`vnc_worker`, `vnc_job_*`, `vnc_serve`, `src/guest/vnc.c`)

* `worker_quiet`, `worker_flight`: what a step of the worker can do, with no job on its way and
  with one.
* `kept_step`: what holds between any two steps of the two threads.
* `vnc_jobs_exact`: over any run, the frame has one user at a time, each of its users finds it as
  the one before left it, every job posted is run once, in order, its result is read by the
  call that posted it, and a wait for the worker can end.
-/

namespace V9xRemote

namespace VncJobs

variable {F : Type*} {s t : VncJobs F} {act : VncJobAct F}

/-! ## The log -/

/-- What `vnc_capture_free` leaves, and what the server starts with. -/
def freed : Access F := ⟨.job .free, none, none⟩

def lastAccess (s : VncJobs F) : Access F := s.log.getLast?.getD freed

/-- The job an access was made for. -/
def Access.ran (e : Access F) : Option VncJob :=
  match e.who with
  | .job job => some job
  | _ => none

/-- What `b` may be right after `a`. -/
structure Follows (a b : Access F) : Prop where
  found : b.before = a.after
  update : b.who = .update → a.who = .job .capture
  size : b.who = .size → a.who = .job .init

/-- All but the job that makes the frame find one, and all but the job that frees it leave one. -/
def Access.Sound (e : Access F) : Prop :=
  match e.who with
  | .job .init => True
  | .job .free => e.after = none
  | _ => e.before.isSome ∧ e.after.isSome

/-- The frame as the last whole access left it: what one that is under way has found. -/
def settled (s : VncJobs F) : Option F :=
  match s.worker with
  | .running _ found => found
  | _ =>
    match s.network with
    | .updating found => found
    | _ => s.frame

structure Logged (s : VncJobs F) : Prop where
  chain : (freed :: s.log).IsChain Follows
  settled : s.settled = s.lastAccess.after
  once : s.log.filterMap Access.ran = s.finished.map Prod.fst
  sound : ∀ e ∈ s.log, e.Sound

theorem lastAccess_append {log : List (Access F)} {e : Access F} (h : t.log = log ++ [e]) : t.lastAccess = e := by
  simp [lastAccess, h]

theorem lastAccess_congr (h : t.log = s.log) : t.lastAccess = s.lastAccess := by
  rw [lastAccess, lastAccess, h]

/-- One more access. -/
theorem Logged.add (h : Logged s) {e : Access F} (hlog : t.log = s.log ++ [e]) (hfollows : Follows s.lastAccess e)
    (hsound : e.Sound) (hsettled : t.settled = e.after)
    (hfinished : t.finished.map Prod.fst = s.finished.map Prod.fst ++ e.ran.toList) : Logged t := by
  refine ⟨?_, ?_, ?_, ?_⟩
  · rw [hlog, ← List.cons_append, List.isChain_append]
    refine ⟨h.chain, List.isChain_singleton e, ?_⟩
    intro x hx y hy
    rw [List.getLast?_cons, Option.mem_some_iff] at hx
    simp only [List.head?_cons, Option.mem_some_iff] at hy
    subst hx hy
    exact hfollows
  · rw [hsettled, lastAccess_append hlog]
  · rw [hlog, List.filterMap_append, h.once, hfinished]
    cases hran : e.ran with
    | none => simp [hran]
    | some job => simp [hran]
  · intro x hx
    rw [hlog, List.mem_append, List.mem_singleton] at hx
    rcases hx with hx | rfl
    · exact h.sound x hx
    · exact hsound

/-- A step that ends no access. -/
theorem Logged.same (h : Logged s) (hlog : t.log = s.log) (hfinished : t.finished = s.finished)
    (hsettled : t.settled = s.settled) : Logged t := by
  refine ⟨?_, ?_, ?_, ?_⟩
  · rw [hlog]
    exact h.chain
  · rw [hsettled, lastAccess_congr hlog, h.settled]
  · rw [hlog, hfinished, h.once]
  · rw [hlog]
    exact h.sound

/-! ## The hand-over -/

/-- The worker waits, or will never run again. -/
def Worker.AtRest : Worker F → Prop
  | .waiting | .returned => True
  | _ => False

/-- No job is on its way. -/
structure Quiet (s : VncJobs F) : Prop where
  jobEvent : s.jobEvent = false
  doneEvent : s.doneEvent = false
  rest : s.worker.AtRest
  posted : s.posted = s.finished.map Prod.fst

/-- The job last run is this one, and nobody has been at the frame since. -/
structure Ran (s : VncJobs F) (job : VncJob) : Prop where
  result : s.finished.getLast? = some (job, s.result)
  last : s.lastAccess.who = .job job
  made : job = .init → s.result ≠ 0 → s.frame.isSome

/-- How far a job has come. -/
inductive Stage (s : VncJobs F) (job : VncJob) : Prop
  | posted (hjob : s.job = some job) (hevent : s.jobEvent = true) (hdone : s.doneEvent = false)
      (hrest : s.worker.AtRest) (hposted : s.posted = s.finished.map Prod.fst ++ [job])
  | taken (hjob : s.job = some job) (hevent : s.jobEvent = false) (hdone : s.doneEvent = false)
      (hworker : s.worker = .stalled) (hposted : s.posted = s.finished.map Prod.fst ++ [job])
  | running (found : Option F) (hevent : s.jobEvent = false) (hdone : s.doneEvent = false)
      (hworker : s.worker = .running (some job) found)
      (hposted : s.posted = s.finished.map Prod.fst ++ [job])
  | signalling (hevent : s.jobEvent = false) (hdone : s.doneEvent = false)
      (hworker : s.worker = .signalling) (hposted : s.posted = s.finished.map Prod.fst) (hran : Ran s job)
  | done (hevent : s.jobEvent = false) (hdone : s.doneEvent = true) (hrest : s.worker.AtRest)
      (hposted : s.posted = s.finished.map Prod.fst) (hran : Ran s job)

/-- A job is on its way, with a frame for a capture. -/
structure Flight (s : VncJobs F) (job : VncJob) : Prop where
  stage : Stage s job
  frame : job = .capture → s.frame.isSome ∧ s.settled.isSome

/-- What the network thread may rely on. -/
def Handed (s : VncJobs F) : Prop :=
  match s.network with
  | .accepting | .draining _ => (s.pending = true → Flight s .capture) ∧ (s.pending = false → Quiet s)
  | .looping => (s.pending = true → Flight s .capture) ∧ (s.pending = false → Quiet s) ∧ s.frame.isSome
  | .posting errand =>
    s.pending = true ∧ s.job = some ((errand.map VncErrand.job).getD .capture) ∧ Quiet s ∧
      (errand = none → s.frame.isSome)
  | .awaiting errand => s.pending = true ∧ Flight s errand.job
  | .answered errand => s.pending = false ∧ Quiet s ∧ Ran s errand.job
  | .greeting | .sizing =>
    s.pending = false ∧ Quiet s ∧ s.frame.isSome ∧ s.lastAccess.who = .job .init
  | .judging => s.pending = false ∧ Quiet s ∧ s.frame.isSome ∧ Ran s .capture
  | .updating found =>
    s.pending = false ∧ Quiet s ∧ s.frame.isSome ∧ found.isSome ∧ s.lastAccess.who = .job .capture
  | .ended _ => Quiet s ∨ ∃ job, Flight s job

/-- What holds between two steps. -/
structure Kept (s : VncJobs F) : Prop where
  handed : Handed s
  logged : Logged s

theorem kept_start : Kept (start F) := by
  refine ⟨⟨?_, ?_⟩, ⟨List.isChain_singleton _, rfl, rfl, ?_⟩⟩
  · intro h
    simp [start] at h
  · intro _
    exact ⟨rfl, rfl, trivial, rfl⟩
  · intro e he
    simp [start] at he

/-! ## The worker -/

/-- The worker is in no job. -/
def Worker.Idle : Worker F → Prop
  | .running _ _ => False
  | _ => True

theorem Worker.AtRest.idle {worker : Worker F} (h : worker.AtRest) : worker.Idle := by
  cases worker <;> first | exact h | trivial

/-- Nobody is in the middle of an access. -/
theorem settled_idle (hworker : s.worker.Idle) (hnet : ∀ found, s.network ≠ .updating found) :
    s.settled = s.frame := by
  unfold settled
  cases hw : s.worker with
  | running job found =>
    rw [hw] at hworker
    exact hworker.elim
  | _ =>
    cases hn : s.network with
    | updating found => exact absurd hn (hnet found)
    | _ => rfl

/-- A step between accesses. -/
theorem settled_same (hs : s.worker.Idle) (ht : t.worker.Idle) (hnet : ∀ found, s.network ≠ .updating found)
    (hnet' : ∀ found, t.network ≠ .updating found) (hframe : t.frame = s.frame) : t.settled = s.settled := by
  rw [settled_idle hs hnet, settled_idle ht hnet', hframe]

theorem settled_running {job : Option VncJob} {found : Option F} (h : s.worker = .running job found) :
    s.settled = found := by
  simp only [settled, h]

/-- With no job on its way, all the worker can do is to fail to wait. -/
theorem worker_quiet (h : Quiet s) (hstep : s.workerStep act = some t) : t = { s with worker := .returned } := by
  have hrest := h.rest
  have hevent := h.jobEvent
  cases act <;> cases hw : s.worker <;>
    simp_all [workerStep, Worker.AtRest]

theorem worker_stalled (hw : s.worker = .stalled) (hstep : s.workerStep act = some t) :
    t = s ∨ t = { s with worker := .running s.job s.frame } := by
  cases act <;> simp_all [workerStep]

theorem worker_running {job : VncJob} {found : Option F} (hw : s.worker = .running (some job) found)
    (hstep : s.workerStep act = some t) :
    (∃ frame, touchOk (some job) s.frame frame = true ∧ t = { s with frame := frame }) ∨
      ∃ frame result, finishOk job s.frame frame result = true ∧
        t = { s with
          frame := frame
          result := result
          worker := .signalling
          finished := s.finished ++ [(job, result)]
          log := s.log ++ [⟨.job job, found, frame⟩] } := by
  cases act with
  | touch frame =>
    simp only [workerStep, hw, Option.ite_none_right_eq_some, Option.some.injEq] at hstep
    exact .inl ⟨frame, hstep.1, by rw [← hw] at hstep; exact hstep.2.symm⟩
  | finish frame result =>
    simp only [workerStep, hw, Option.ite_none_right_eq_some, Option.some.injEq] at hstep
    exact .inr ⟨frame, result, hstep.1, hstep.2.symm⟩
  | _ => simp [workerStep, hw] at hstep

theorem worker_signalling (hw : s.worker = .signalling) (hstep : s.workerStep act = some t) :
    t = { s with doneEvent := true, worker := .waiting } := by
  cases act <;> simp_all [workerStep]

theorem worker_rest (hrest : s.worker.AtRest) (hstep : s.workerStep act = some t) :
    t = { s with worker := .returned } ∨ s.jobEvent = true ∧ t = { s with jobEvent := false, worker := .stalled } := by
  cases act <;> cases hw : s.worker <;> simp_all [workerStep, Worker.AtRest]

/-- What the job leaves, where it runs to its end. -/
theorem finish_left {job : VncJob} {old new : Option F} {result : ℤ} (h : finishOk job old new result = true) :
    (job = .capture → new.isSome = old.isSome) ∧ (job = .init → result ≠ 0 → new.isSome) ∧
      (job = .free → new = none) := by
  cases job with
  | capture =>
    simp only [finishOk, Bool.and_eq_true, beq_iff_eq] at h
    exact ⟨fun _ => h.1, nofun, nofun⟩
  | init =>
    simp only [finishOk, Bool.or_eq_true, Bool.and_eq_true, beq_iff_eq] at h
    refine ⟨nofun, fun _ hresult => ?_, nofun⟩
    rcases h with h | h
    · exact h.2
    · exact absurd h.1 hresult
  | free =>
    simp only [finishOk, Bool.and_eq_true, Option.isNone_iff_eq_none] at h
    exact ⟨nofun, nofun, fun _ => h.2⟩

/-- **A job comes on**: whatever the worker does with one on its way, that job stays the one. -/
theorem worker_flight {job : VncJob} (h : Flight s job) (hlogged : Logged s)
    (hnet : ∀ found, s.network ≠ .updating found) (hstep : s.workerStep act = some t) :
    Flight t job ∧ Logged t ∧ t.network = s.network ∧ t.pending = s.pending := by
  obtain ⟨hstage, hframe⟩ := h
  cases hstage with
  | posted hjob hevent hdone hrest hposted =>
    rcases worker_rest hrest hstep with rfl | ⟨-, rfl⟩
    · have hsame : settled { s with worker := .returned } = s.settled :=
        settled_same hrest.idle trivial hnet hnet rfl
      refine ⟨⟨.posted hjob hevent hdone trivial hposted, ?_⟩, hlogged.same rfl rfl hsame, rfl, rfl⟩
      rw [hsame]
      exact hframe
    · have hsame : settled { s with jobEvent := false, worker := .stalled } = s.settled :=
        settled_same hrest.idle trivial hnet hnet rfl
      refine ⟨⟨.taken hjob rfl hdone rfl hposted, ?_⟩, hlogged.same rfl rfl hsame, rfl, rfl⟩
      rw [hsame]
      exact hframe
  | taken hjob hevent hdone hworker hposted =>
    rcases worker_stalled hworker hstep with rfl | rfl
    · exact ⟨⟨.taken hjob hevent hdone hworker hposted, hframe⟩, hlogged, rfl, rfl⟩
    · -- the job begins with the frame as it stands
      have hidle : s.worker.Idle := by
        rw [hworker]
        trivial
      have hsame : settled { s with worker := .running s.job s.frame } = s.settled :=
        (settled_running rfl).trans (settled_idle hidle hnet).symm
      refine ⟨⟨.running s.frame hevent hdone ?_ hposted, ?_⟩, hlogged.same rfl rfl hsame, rfl, rfl⟩
      · exact congrArg (Worker.running · s.frame) hjob
      · rw [hsame]
        exact hframe
  | running found hevent hdone hworker hposted =>
    have hfound := settled_running hworker
    rcases worker_running hworker hstep with ⟨frame, hok, rfl⟩ | ⟨frame, result, hok, rfl⟩
    · have hsame : settled { s with frame := frame } = s.settled :=
        (settled_running (s := { s with frame := frame }) hworker).trans hfound.symm
      refine ⟨⟨.running found hevent hdone hworker hposted, ?_⟩, hlogged.same rfl rfl hsame, rfl, rfl⟩
      intro hcapture
      rw [hsame]
      subst hcapture
      rw [touchOk, beq_iff_eq] at hok
      exact ⟨hok.trans (hframe rfl).1, (hframe rfl).2⟩
    · -- the access is over, and goes to the log
      obtain ⟨hcapture, hinit, hfree⟩ := finish_left hok
      generalize ht : VncJobs.mk frame s.job result s.pending s.jobEvent s.doneEvent .signalling s.network
        s.posted (s.finished ++ [(job, result)]) (s.log ++ [⟨.job job, found, frame⟩]) = t
      have hlog : t.log = s.log ++ [⟨.job job, found, frame⟩] := by rw [← ht]
      have hsettled : t.settled = frame := by
        rw [← ht]
        exact settled_idle trivial hnet
      have hran : Ran t job := by
        refine ⟨?_, ?_, ?_⟩
        · rw [← ht]
          exact List.getLast?_concat
        · rw [lastAccess_append hlog]
        · rw [← ht]
          exact hinit
      refine ⟨⟨.signalling ?_ ?_ ?_ ?_ hran, ?_⟩, hlogged.add hlog ?_ ?_ hsettled ?_, ?_, ?_⟩
      · rw [← ht]
        exact hevent
      · rw [← ht]
        exact hdone
      · rw [← ht]
      · rw [← ht, hposted, List.map_append, List.map_singleton]
      · intro hjob
        have hsome : frame.isSome := (hcapture hjob).trans (hframe hjob).1
        rw [hsettled, ← ht]
        exact ⟨hsome, hsome⟩
      · refine ⟨?_, nofun, nofun⟩
        exact hfound.symm.trans hlogged.settled
      · cases job with
        | init => trivial
        | free => exact hfree rfl
        | capture =>
          rw [hfound] at hframe
          exact ⟨(hframe rfl).2, (hcapture rfl).trans (hframe rfl).1⟩
      · rw [← ht, List.map_append]
        rfl
      · rw [← ht]
      · rw [← ht]
  | signalling hevent hdone hworker hposted hran =>
    obtain rfl := worker_signalling hworker hstep
    have hidle : s.worker.Idle := by
      rw [hworker]
      trivial
    have hsame : settled { s with doneEvent := true, worker := .waiting } = s.settled :=
      settled_same hidle trivial hnet hnet rfl
    refine ⟨⟨.done hevent rfl trivial hposted ⟨hran.result, hran.last, hran.made⟩, ?_⟩,
      hlogged.same rfl rfl hsame, rfl, rfl⟩
    rw [hsame]
    exact hframe
  | done hevent hdone hrest hposted hran =>
    rcases worker_rest hrest hstep with rfl | ⟨hset, -⟩
    · have hsame : settled { s with worker := .returned } = s.settled :=
        settled_same hrest.idle trivial hnet hnet rfl
      refine ⟨⟨.done hevent hdone trivial hposted ⟨hran.result, hran.last, hran.made⟩, ?_⟩,
        hlogged.same rfl rfl hsame, rfl, rfl⟩
      rw [hsame]
      exact hframe
    · rw [hevent] at hset
      cases hset

/-! ## The network thread -/

/-- The network thread goes from one place outside an update to another. -/
theorem settled_moved {network : Network F} (hs : ∀ found, s.network ≠ .updating found)
    (ht : ∀ found, network ≠ .updating found) : settled { s with network := network } = s.settled := by
  unfold settled
  cases s.worker with
  | running job found => rfl
  | _ =>
    cases hn : s.network with
    | updating found => exact absurd hn (hs found)
    | _ =>
      cases network with
      | updating found => exact absurd rfl (ht found)
      | _ => rfl

theorem Quiet.moved (h : Quiet s) (network : Network F) : Quiet { s with network := network } :=
  ⟨h.jobEvent, h.doneEvent, h.rest, h.posted⟩

theorem Ran.moved {job : VncJob} (h : Ran s job) (network : Network F) : Ran { s with network := network } job :=
  ⟨h.result, h.last, h.made⟩

theorem Flight.moved {job : VncJob} (h : Flight s job) {network : Network F}
    (hs : ∀ found, s.network ≠ .updating found) (ht : ∀ found, network ≠ .updating found) :
    Flight { s with network := network } job := by
  refine ⟨?_, ?_⟩
  · cases h.stage with
    | posted hjob hevent hdone hrest hposted => exact .posted hjob hevent hdone hrest hposted
    | taken hjob hevent hdone hworker hposted => exact .taken hjob hevent hdone hworker hposted
    | running found hevent hdone hworker hposted => exact .running found hevent hdone hworker hposted
    | signalling hevent hdone hworker hposted hran =>
      exact .signalling hevent hdone hworker hposted (hran.moved network)
    | done hevent hdone hrest hposted hran => exact .done hevent hdone hrest hposted (hran.moved network)
  · rw [settled_moved hs ht]
    exact h.frame

theorem Logged.moved (h : Logged s) {network : Network F} (hs : ∀ found, s.network ≠ .updating found)
    (ht : ∀ found, network ≠ .updating found) : Logged { s with network := network } :=
  h.same rfl rfl (settled_moved hs ht)

/-- The done event ends the flight. -/
theorem Flight.landed {job : VncJob} (h : Flight s job) (hdone : s.doneEvent = true) :
    Quiet { s with pending := false, doneEvent := false } ∧ Ran s job ∧ s.worker.AtRest := by
  cases h.stage with
  | done hevent _ hrest hposted hran => exact ⟨⟨hevent, rfl, hrest, hposted⟩, hran, hrest⟩
  | posted _ _ hnot => exact absurd (hdone.symm.trans hnot) nofun
  | taken _ _ hnot => exact absurd (hdone.symm.trans hnot) nofun
  | running _ _ hnot => exact absurd (hdone.symm.trans hnot) nofun
  | signalling _ hnot => exact absurd (hdone.symm.trans hnot) nofun

/-- `vnc_job_start` as far as `SetEvent`, with no job on its way. -/
theorem kept_store (hlogged : Logged s) (hquiet : Quiet s) (hnet : ∀ found, s.network ≠ .updating found)
    {errand : Option VncErrand} (hframe : errand = none → s.frame.isSome) : Kept (s.store errand) := by
  refine ⟨⟨rfl, rfl, ⟨hquiet.jobEvent, hquiet.doneEvent, hquiet.rest, hquiet.posted⟩, hframe⟩, ?_⟩
  have hidle := hquiet.rest.idle
  have hsame : (s.store errand).settled = s.settled := settled_same hidle hidle hnet nofun rfl
  exact hlogged.same rfl rfl hsame

/-- `vnc_job_poll` takes the done event. -/
theorem kept_polled (h : Kept s) (hpending : s.pending = true) (hdone : s.doneEvent = true)
    (hstep : polled { s with pending := false, doneEvent := false } = some t) : Kept t := by
  obtain ⟨hhanded, hlogged⟩ := h
  have hsame : settled { s with pending := false, doneEvent := false } = s.settled := rfl
  have hkept := hlogged.same (t := { s with pending := false, doneEvent := false }) rfl rfl hsame
  cases hn : s.network with
  | draining errand =>
    simp only [Handed, hn] at hhanded
    simp only [polled, hn, Option.some.injEq] at hstep
    subst hstep
    obtain ⟨hquiet, -, -⟩ := (hhanded.1 hpending).landed hdone
    exact kept_store hkept hquiet (by rw [hn]; nofun) nofun
  | awaiting errand =>
    simp only [Handed, hn] at hhanded
    simp only [polled, hn, Option.some.injEq] at hstep
    subst hstep
    obtain ⟨hquiet, hran, -⟩ := hhanded.2.landed hdone
    refine ⟨⟨rfl, hquiet.moved _, ⟨hran.result, hran.last, hran.made⟩⟩, ?_⟩
    exact hkept.moved (by rw [hn]; nofun) nofun
  | looping =>
    simp only [Handed, hn] at hhanded
    simp only [polled, hn, Option.some.injEq] at hstep
    subst hstep
    obtain ⟨hflight, -, hframe⟩ := hhanded
    obtain ⟨hquiet, hran, -⟩ := (hflight hpending).landed hdone
    refine ⟨⟨rfl, hquiet.moved _, hframe, ⟨hran.result, hran.last, hran.made⟩⟩, ?_⟩
    exact hkept.moved (by rw [hn]; nofun) nofun
  | _ => simp [polled, hn] at hstep

/-- `SetEvent` puts the job on its way. -/
theorem kept_setEvent (h : Kept s) {errand : Option VncErrand} (hn : s.network = .posting errand) {network : Network F}
    (hnetwork : network = match errand with
      | some errand => .awaiting errand
      | none => .looping) :
    Kept { s with jobEvent := true, posted := s.posted ++ s.job.toList, network := network } := by
  obtain ⟨hhanded, hlogged⟩ := h
  simp only [Handed, hn] at hhanded
  obtain ⟨hpending, hjob, hquiet, hframe⟩ := hhanded
  have hnet : ∀ found, s.network ≠ .updating found := by
    rw [hn]
    nofun
  have hmoved : ∀ found, network ≠ .updating found := by
    rw [hnetwork]
    cases errand <;> nofun
  have hidle := hquiet.rest.idle
  have hsettled := settled_idle hidle hnet
  have hsame : settled { s with jobEvent := true, posted := s.posted ++ s.job.toList, network := network } =
      s.settled := settled_same hidle hidle hnet hmoved rfl
  have hstage : Stage { s with jobEvent := true, posted := s.posted ++ s.job.toList, network := network }
      ((errand.map VncErrand.job).getD .capture) := by
    refine .posted hjob rfl hquiet.doneEvent hquiet.rest ?_
    rw [hjob, hquiet.posted]
    rfl
  refine ⟨?_, hlogged.same rfl rfl hsame⟩
  cases errand with
  | some errand =>
    subst hnetwork
    refine ⟨hpending, hstage, ?_⟩
    intro hcapture
    cases errand <;> cases hcapture
  | none =>
    subst hnetwork
    have hsome := hframe rfl
    refine ⟨fun _ => ⟨hstage, fun _ => ⟨hsome, ?_⟩⟩, ?_, hsome⟩
    · rw [hsame, hsettled]
      exact hsome
    · intro hnot
      exact absurd (hpending.symm.trans hnot) nofun

/-- A size is sent. -/
theorem kept_size (h : Kept s) (hn : s.network = .greeting ∨ s.network = .sizing) (ok : Bool) :
    Kept { s.read .size with network := if ok then .looping else .accepting } := by
  obtain ⟨hhanded, hlogged⟩ := h
  have hat : s.pending = false ∧ Quiet s ∧ s.frame.isSome ∧ s.lastAccess.who = .job .init := by
    rcases hn with hn | hn <;> simpa only [Handed, hn] using hhanded
  obtain ⟨hpending, hquiet, hframe, hlast⟩ := hat
  have hnet : ∀ found, s.network ≠ .updating found := by
    rcases hn with hn | hn <;>
    · rw [hn]
      nofun
  have hquiet' : Quiet { s.read .size with network := if ok then .looping else .accepting } :=
    ⟨hquiet.jobEvent, hquiet.doneEvent, hquiet.rest, hquiet.posted⟩
  have hnot : s.pending = true → False := fun h => absurd (hpending.symm.trans h) nofun
  refine ⟨?_, hlogged.add rfl ⟨?_, nofun, fun _ => hlast⟩ ⟨hframe, hframe⟩ ?_ ?_⟩
  · cases ok with
    | true => exact ⟨fun h => (hnot h).elim, fun _ => hquiet', hframe⟩
    | false => exact ⟨fun h => (hnot h).elim, fun _ => hquiet'⟩
  · rw [← hlogged.settled, settled_idle hquiet.rest.idle hnet]
  · exact settled_idle hquiet.rest.idle (by cases ok <;> nofun)
  · exact (List.append_nil _).symm

/-- The update is out. -/
theorem kept_sent (h : Kept s) {found : Option F} (hn : s.network = .updating found) (ok : Bool) :
    Kept { s with
      log := s.log ++ [⟨.update, found, s.frame⟩]
      network := if ok then .looping else .accepting } := by
  obtain ⟨hhanded, hlogged⟩ := h
  simp only [Handed, hn] at hhanded
  obtain ⟨hpending, hquiet, hframe, hfound, hlast⟩ := hhanded
  have hsettled : s.settled = found := by
    unfold settled
    rw [hn]
    cases hw : s.worker with
    | running job other =>
      have hrest := hquiet.rest
      rw [hw] at hrest
      exact hrest.elim
    | _ => rfl
  have hquiet' : Quiet { s with
      log := s.log ++ [⟨.update, found, s.frame⟩]
      network := if ok then .looping else .accepting } :=
    ⟨hquiet.jobEvent, hquiet.doneEvent, hquiet.rest, hquiet.posted⟩
  have hnot : s.pending = true → False := fun h => absurd (hpending.symm.trans h) nofun
  refine ⟨?_, hlogged.add rfl ⟨?_, fun _ => hlast, nofun⟩ ⟨hfound, hframe⟩ ?_ ?_⟩
  · cases ok with
    | true => exact ⟨fun h => (hnot h).elim, fun _ => hquiet', hframe⟩
    | false => exact ⟨fun h => (hnot h).elim, fun _ => hquiet'⟩
  · rw [← hlogged.settled, hsettled]
  · exact settled_idle hquiet.rest.idle (by cases ok <;> nofun)
  · exact (List.append_nil _).symm

theorem kept_judge (h : Kept s) (hn : s.network = .judging) (desktopSize wanted : Bool)
    (hstep : s.networkStep (.judge desktopSize wanted) = some t) : Kept t := by
  obtain ⟨hhanded, hlogged⟩ := h
  simp only [Handed, hn] at hhanded
  obtain ⟨hpending, hquiet, hframe, hran⟩ := hhanded
  have hnet : ∀ found, s.network ≠ .updating found := by
    rw [hn]
    nofun
  have hnot : s.pending = true → False := fun h => absurd (hpending.symm.trans h) nofun
  simp only [networkStep, hn, if_true] at hstep
  split at hstep
  · rw [Option.some.injEq] at hstep
    subst hstep
    cases desktopSize with
    | true => exact ⟨⟨fun h => (hnot h).elim, fun _ => hquiet.moved _⟩, hlogged.moved hnet nofun⟩
    | false => exact ⟨⟨fun h => (hnot h).elim, fun _ => hquiet.moved _⟩, hlogged.moved hnet nofun⟩
  · split at hstep
    · rw [Option.some.injEq] at hstep
      subst hstep
      exact ⟨⟨fun h => (hnot h).elim, fun _ => hquiet.moved _, hframe⟩, hlogged.moved hnet nofun⟩
    · rw [Option.some.injEq] at hstep
      subst hstep
      refine ⟨⟨hpending, hquiet.moved _, hframe, hframe, hran.last⟩, hlogged.same rfl rfl ?_⟩
      -- the update begins with the frame as it stands
      rw [settled_idle hquiet.rest.idle hnet]
      unfold settled
      cases hw : s.worker with
      | running job found =>
        have hrest := hquiet.rest
        rw [hw] at hrest
        exact hrest.elim
      | _ => rfl

/-- **What holds between steps is kept by the network thread.** -/
theorem network_kept (h : Kept s) (hstep : s.networkStep act = some t) : Kept t := by
  have hkept := h
  obtain ⟨hhanded, hlogged⟩ := h
  cases act with
  | connect | stop =>
    cases hn : s.network with
    | accepting =>
      simp only [Handed, hn] at hhanded
      simp only [networkStep, hn, if_true, Option.some.injEq] at hstep
      subst hstep
      have hnet : ∀ found, s.network ≠ .updating found := by
        rw [hn]
        nofun
      exact ⟨⟨fun hp => (hhanded.1 hp).moved hnet nofun, fun hp => (hhanded.2 hp).moved _⟩, hlogged.moved hnet nofun⟩
    | _ => simp [networkStep, hn] at hstep
  | pollNone =>
    cases hn : s.network with
    | draining errand =>
      simp only [Handed, hn] at hhanded
      simp only [networkStep, hn, Option.ite_none_left_eq_some, Option.some.injEq] at hstep
      obtain ⟨hpending, rfl⟩ := hstep
      rw [Bool.not_eq_true] at hpending
      exact kept_store hlogged (hhanded.2 hpending) (by rw [hn]; nofun) nofun
    | _ => simp [networkStep, hn] at hstep
  | pollDone =>
    simp only [networkStep, Option.ite_none_right_eq_some, Bool.and_eq_true] at hstep
    obtain ⟨⟨hpending, hdone⟩, hstep⟩ := hstep
    exact kept_polled hkept hpending hdone hstep
  | pollTimeout =>
    simp only [networkStep, Option.ite_none_right_eq_some, Bool.and_eq_true] at hstep
    obtain ⟨⟨hpending, -⟩, hstep⟩ := hstep
    cases hn : s.network with
    | draining errand =>
      simp only [Handed, hn] at hhanded
      simp only [hn, Option.some.injEq] at hstep
      subst hstep
      have hnet : ∀ found, s.network ≠ .updating found := by
        rw [hn]
        nofun
      exact ⟨.inr ⟨_, (hhanded.1 hpending).moved hnet nofun⟩, hlogged.moved hnet nofun⟩
    | awaiting errand =>
      simp only [Handed, hn] at hhanded
      simp only [hn, Option.some.injEq] at hstep
      subst hstep
      have hnet : ∀ found, s.network ≠ .updating found := by
        rw [hn]
        nofun
      exact ⟨.inr ⟨_, hhanded.2.moved hnet nofun⟩, hlogged.moved hnet nofun⟩
    | looping =>
      simp only [hn, Option.some.injEq] at hstep
      subst hstep
      exact hkept
    | _ => simp [hn] at hstep
  | setEvent =>
    cases hn : s.network with
    | posting errand =>
      simp only [networkStep, hn, Option.some.injEq] at hstep
      subst hstep
      exact kept_setEvent hkept hn (by cases errand <;> rfl)
    | _ => simp [networkStep, hn] at hstep
  | answer =>
    cases hn : s.network with
    | answered errand =>
      simp only [Handed, hn] at hhanded
      obtain ⟨hpending, hquiet, hran⟩ := hhanded
      have hnet : ∀ found, s.network ≠ .updating found := by
        rw [hn]
        nofun
      have hnot : s.pending = true → False := fun h => absurd (hpending.symm.trans h) nofun
      cases errand with
      | session | resize =>
        simp only [networkStep, hn, Option.some.injEq] at hstep
        subst hstep
        by_cases hresult : s.result = 0
        · rw [if_pos hresult]
          exact ⟨⟨fun h => (hnot h).elim, fun _ => hquiet.moved _⟩, hlogged.moved hnet nofun⟩
        · rw [if_neg hresult]
          exact ⟨⟨hpending, hquiet.moved _, hran.made rfl hresult, hran.last⟩, hlogged.moved hnet nofun⟩
      | stop =>
        simp only [networkStep, hn, Option.some.injEq] at hstep
        subst hstep
        exact ⟨.inl (hquiet.moved _), hlogged.moved hnet nofun⟩
    | _ => simp [networkStep, hn] at hstep
  | greet ok =>
    cases hn : s.network with
    | greeting =>
      simp only [networkStep, hn, if_true, Option.some.injEq] at hstep
      subst hstep
      exact kept_size hkept (.inl hn) ok
    | _ => simp [networkStep, hn] at hstep
  | message ok =>
    cases hn : s.network with
    | looping =>
      simp only [Handed, hn] at hhanded
      simp only [networkStep, hn, if_true, Option.some.injEq] at hstep
      subst hstep
      obtain ⟨hflight, hquiet, hframe⟩ := hhanded
      have hnet : ∀ found, s.network ≠ .updating found := by
        rw [hn]
        nofun
      cases ok with
      | true =>
        exact ⟨⟨fun hp => (hflight hp).moved hnet nofun, fun hp => (hquiet hp).moved _, hframe⟩,
          hlogged.moved hnet nofun⟩
      | false =>
        exact ⟨⟨fun hp => (hflight hp).moved hnet nofun, fun hp => (hquiet hp).moved _⟩, hlogged.moved hnet nofun⟩
    | _ => simp [networkStep, hn] at hstep
  | start armed =>
    cases hn : s.network with
    | looping =>
      simp only [Handed, hn] at hhanded
      simp only [networkStep, hn, if_true, Option.ite_none_left_eq_some, Bool.not_eq_true] at hstep
      obtain ⟨hpending, hstep⟩ := hstep
      have hquiet := hhanded.2.1 hpending
      have hnet : ∀ found, s.network ≠ .updating found := by
        rw [hn]
        nofun
      cases armed with
      | none =>
        rw [Option.some.injEq] at hstep
        subst hstep
        exact kept_store hlogged hquiet hnet fun _ => hhanded.2.2
      | some frame =>
        simp only [Option.ite_none_right_eq_some, Option.some.injEq] at hstep
        obtain ⟨hframe, rfl⟩ := hstep
        have hsettled := settled_idle hquiet.rest.idle hnet
        have harmed : Logged { s with frame := some frame, log := s.log ++ [⟨.arm, s.frame, some frame⟩] } := by
          refine hlogged.add (e := ⟨.arm, s.frame, some frame⟩) rfl ⟨?_, nofun, nofun⟩ ⟨hframe, rfl⟩ ?_ ?_
          · rw [← hlogged.settled, hsettled]
          · exact settled_idle hquiet.rest.idle hnet
          · exact (List.append_nil _).symm
        have hquiet' : Quiet { s with frame := some frame, log := s.log ++ [⟨.arm, s.frame, some frame⟩] } :=
          ⟨hquiet.jobEvent, hquiet.doneEvent, hquiet.rest, hquiet.posted⟩
        exact kept_store harmed hquiet' hnet fun _ => rfl
    | _ => simp [networkStep, hn] at hstep
  | judge desktopSize wanted =>
    cases hn : s.network with
    | judging => exact kept_judge hkept hn desktopSize wanted hstep
    | _ => simp [networkStep, hn] at hstep
  | sized ok =>
    cases hn : s.network with
    | sizing =>
      simp only [networkStep, hn, if_true, Option.some.injEq] at hstep
      subst hstep
      exact kept_size hkept (.inr hn) ok
    | _ => simp [networkStep, hn] at hstep
  | write frame =>
    cases hn : s.network with
    | updating found =>
      simp only [Handed, hn] at hhanded
      simp only [networkStep, hn, Option.ite_none_right_eq_some, Option.some.injEq] at hstep
      obtain ⟨hframe, rfl⟩ := hstep
      obtain ⟨hpending, hquiet, -, hfound, hlast⟩ := hhanded
      refine ⟨?_, hlogged.same rfl rfl ?_⟩
      · simp only [Handed]
        exact ⟨hpending, ⟨hquiet.jobEvent, hquiet.doneEvent, hquiet.rest, hquiet.posted⟩, rfl, hfound, hlast⟩
      · unfold settled
        cases s.worker <;> simp [hn]
    | _ => simp [networkStep, hn] at hstep
  | sent ok =>
    cases hn : s.network with
    | updating found =>
      simp only [networkStep, hn, Option.some.injEq] at hstep
      subst hstep
      exact kept_sent hkept hn ok
    | _ => simp [networkStep, hn] at hstep
  | _ => simp [networkStep] at hstep

/-- A worker at rest stops waiting, and nothing else changes. -/
theorem settled_returned (h : s.worker.AtRest) : settled { s with worker := .returned } = s.settled := by
  unfold settled
  cases hw : s.worker with
  | running job found =>
    rw [hw] at h
    exact h.elim
  | _ => rfl

/-- What the worker leaves alone where it has no job. -/
structure Alone (s t : VncJobs F) : Prop where
  quiet : Quiet t
  logged : Logged t
  network : t.network = s.network
  pending : t.pending = s.pending
  job : t.job = s.job
  frame : t.frame = s.frame
  last : t.lastAccess = s.lastAccess
  ran : ∀ job, Ran s job → Ran t job

theorem worker_alone (h : Quiet s) (hlogged : Logged s) (hstep : s.workerStep act = some t) : Alone s t := by
  obtain rfl := worker_quiet h hstep
  exact
    { quiet := ⟨h.jobEvent, h.doneEvent, trivial, h.posted⟩
      logged := hlogged.same rfl rfl (settled_returned h.rest)
      network := rfl
      pending := rfl
      job := rfl
      frame := rfl
      last := rfl
      ran := fun job hran => ⟨hran.result, hran.last, hran.made⟩ }

/-- **What holds between steps is kept by the worker.** -/
theorem worker_kept (h : Kept s) (hon : ∀ code, s.network ≠ .ended code) (hstep : s.workerStep act = some t) :
    Kept t := by
  obtain ⟨hhanded, hlogged⟩ := h
  have hflying : ∀ job, Flight s job → (∀ found, s.network ≠ .updating found) →
      Flight t job ∧ Logged t ∧ t.network = s.network ∧ t.pending = s.pending :=
    fun job hflight hnet => worker_flight hflight hlogged hnet hstep
  have hresting : Quiet s → Alone s t := fun hquiet => worker_alone hquiet hlogged hstep
  cases hn : s.network with
  | accepting | draining errand =>
    simp only [Handed, hn] at hhanded
    cases hp : s.pending with
    | true =>
      obtain ⟨hflight, hkept, hnetwork, hpending⟩ := hflying _ (hhanded.1 hp) (by rw [hn]; nofun)
      refine ⟨?_, hkept⟩
      simp only [Handed, hnetwork, hn, hpending, hp]
      exact ⟨fun _ => hflight, nofun⟩
    | false =>
      have halone := hresting (hhanded.2 hp)
      refine ⟨?_, halone.logged⟩
      simp only [Handed, halone.network, hn, halone.pending, hp]
      exact ⟨nofun, fun _ => halone.quiet⟩
  | looping =>
    simp only [Handed, hn] at hhanded
    obtain ⟨hflight, hquiet, hframe⟩ := hhanded
    cases hp : s.pending with
    | true =>
      obtain ⟨hflight, hkept, hnetwork, hpending⟩ := hflying _ (hflight hp) (by rw [hn]; nofun)
      refine ⟨?_, hkept⟩
      simp only [Handed, hnetwork, hn, hpending, hp]
      exact ⟨fun _ => hflight, nofun, (hflight.frame rfl).1⟩
    | false =>
      have halone := hresting (hquiet hp)
      refine ⟨?_, halone.logged⟩
      simp only [Handed, halone.network, hn, halone.pending, halone.frame, hp]
      exact ⟨nofun, fun _ => halone.quiet, hframe⟩
  | awaiting errand =>
    simp only [Handed, hn] at hhanded
    obtain ⟨hflight, hkept, hnetwork, hpending⟩ := hflying _ hhanded.2 (by rw [hn]; nofun)
    refine ⟨?_, hkept⟩
    simp only [Handed, hnetwork, hn, hpending]
    exact ⟨hhanded.1, hflight⟩
  | posting errand =>
    simp only [Handed, hn] at hhanded
    obtain ⟨hp, hjob, hquiet, hframe⟩ := hhanded
    have halone := hresting hquiet
    refine ⟨?_, halone.logged⟩
    simp only [Handed, halone.network, hn, halone.pending, halone.job, halone.frame]
    exact ⟨hp, hjob, halone.quiet, hframe⟩
  | answered errand =>
    simp only [Handed, hn] at hhanded
    obtain ⟨hp, hquiet, hran⟩ := hhanded
    have halone := hresting hquiet
    refine ⟨?_, halone.logged⟩
    simp only [Handed, halone.network, hn, halone.pending]
    exact ⟨hp, halone.quiet, halone.ran _ hran⟩
  | judging =>
    simp only [Handed, hn] at hhanded
    obtain ⟨hp, hquiet, hframe, hran⟩ := hhanded
    have halone := hresting hquiet
    refine ⟨?_, halone.logged⟩
    simp only [Handed, halone.network, hn, halone.pending, halone.frame]
    exact ⟨hp, halone.quiet, hframe, halone.ran _ hran⟩
  | greeting | sizing =>
    simp only [Handed, hn] at hhanded
    obtain ⟨hp, hquiet, hframe, hlast⟩ := hhanded
    have halone := hresting hquiet
    refine ⟨?_, halone.logged⟩
    simp only [Handed, halone.network, hn, halone.pending, halone.frame, halone.last]
    exact ⟨hp, halone.quiet, hframe, hlast⟩
  | updating found =>
    simp only [Handed, hn] at hhanded
    obtain ⟨hp, hquiet, hframe, hfound, hlast⟩ := hhanded
    have halone := hresting hquiet
    refine ⟨?_, halone.logged⟩
    simp only [Handed, halone.network, hn, halone.pending, halone.frame, halone.last]
    exact ⟨hp, halone.quiet, hframe, hfound, hlast⟩
  | ended code => exact absurd hn (hon code)

theorem not_ended (h : ¬ (s.network matches .ended _) = true) (code : ℕ) : s.network ≠ .ended code := by
  intro hcode
  rw [hcode] at h
  exact h rfl

/-- **What holds between any two steps of the two threads.** -/
theorem kept_step (h : Kept s) (hstep : vncJobStep s act = some t) : Kept t := by
  simp only [vncJobStep, Option.ite_none_left_eq_some] at hstep
  obtain ⟨hon, hstep⟩ := hstep
  cases hact : act.ofWorker with
  | true =>
    rw [hact, if_pos rfl] at hstep
    exact worker_kept h (not_ended hon) hstep
  | false =>
    rw [hact, if_neg Bool.false_ne_true] at hstep
    exact network_kept h hstep

/-! ## A wait can end -/

/-- The worker alone can bring the done event. -/
def Lands (s : VncJobs F) : Prop :=
  ∃ as : List (VncJobAct F), (∀ a ∈ as, a.ofWorker = true) ∧
    ∃ t, Trace.exec vncJobStep s as = some t ∧ t.doneEvent = true ∧ t.network = s.network

theorem Lands.cons {m : VncJobs F} (h : Lands m) (act : VncJobAct F) (hact : act.ofWorker = true)
    (hon : ∀ code, s.network ≠ .ended code) (hstep : s.workerStep act = some m) (hnetwork : m.network = s.network) :
    Lands s := by
  obtain ⟨as, has, t, hexec, hdone, hsame⟩ := h
  have hone : vncJobStep s act = some m := by
    unfold vncJobStep
    rw [hact, if_neg, if_pos rfl, hstep]
    cases hn : s.network with
    | ended code => exact absurd hn (hon code)
    | _ => nofun
  refine ⟨act :: as, ?_, t, ?_, hdone, hsame.trans hnetwork⟩
  · intro a ha
    rw [List.mem_cons] at ha
    rcases ha with rfl | ha
    · exact hact
    · exact has a ha
  · rw [Trace.exec_cons, hone]
    exact hexec

theorem lands_done (hdone : s.doneEvent = true) : Lands s :=
  ⟨[], nofun, s, rfl, hdone, rfl⟩

theorem lands_signalling (hon : ∀ code, s.network ≠ .ended code) (hworker : s.worker = .signalling) : Lands s := by
  have hland : Lands { s with doneEvent := true, worker := .waiting } := lands_done rfl
  refine hland.cons .signal rfl hon ?_ rfl
  simp [workerStep, hworker]

/-- Every job can come to an end. -/
theorem finish_exists (job : VncJob) (old : Option F) : ∃ new result, finishOk job old new result = true := by
  cases job with
  | capture => exact ⟨old, 0, by simp [finishOk]⟩
  | init => exact ⟨none, 0, by simp [finishOk]⟩
  | free => exact ⟨none, 1, by simp [finishOk]⟩

theorem lands_running (hon : ∀ code, s.network ≠ .ended code) {job : VncJob} {found : Option F}
    (hworker : s.worker = .running (some job) found) : Lands s := by
  obtain ⟨frame, result, hok⟩ := finish_exists job s.frame
  have hland : Lands { s with
      frame := frame
      result := result
      worker := .signalling
      finished := s.finished ++ [(job, result)]
      log := s.log ++ [⟨.job job, found, frame⟩] } := lands_signalling hon rfl
  refine hland.cons (.finish frame result) rfl hon ?_ rfl
  simp only [workerStep, hworker, hok, if_true]

theorem lands_stalled (hon : ∀ code, s.network ≠ .ended code) {job : VncJob} (hworker : s.worker = .stalled)
    (hjob : s.job = some job) : Lands s := by
  have hland : Lands { s with worker := .running s.job s.frame } :=
    lands_running hon (congrArg (Worker.running · s.frame) hjob)
  refine hland.cons .pick rfl hon ?_ rfl
  simp [workerStep, hworker]

/-- **No wake-up is lost**: a job on its way can always come to its end. -/
theorem Flight.lands {job : VncJob} (h : Flight s job) (hon : ∀ code, s.network ≠ .ended code)
    (hworker : s.worker ≠ .returned) : Lands s := by
  cases h.stage with
  | posted hjob hevent hdone hrest hposted =>
    have hwaiting : s.worker = .waiting := by
      cases hw : s.worker with
      | waiting => rfl
      | returned => exact absurd hw hworker
      | _ =>
        rw [hw] at hrest
        exact hrest.elim
    have hland : Lands { s with jobEvent := false, worker := .stalled } := lands_stalled hon rfl hjob
    refine hland.cons .take rfl hon ?_ rfl
    simp [workerStep, hwaiting, hevent]
  | taken hjob hevent hdone hstalled hposted => exact lands_stalled hon hstalled hjob
  | running found hevent hdone hrunning hposted => exact lands_running hon hrunning
  | signalling hevent hdone hsignalling hposted hran => exact lands_signalling hon hsignalling
  | done hevent hdone hrest hposted hran => exact lands_done hdone

/-! ## Runs -/

/-- A worker in the middle of a job has been given it, and the network thread is not at the
frame. -/
theorem Kept.running (h : Kept s) {job : Option VncJob} {found : Option F} (hworker : s.worker = .running job found) :
    job.isSome ∧ (s.network = .looping → job = some .capture) ∧ ∀ other, s.network ≠ .updating other := by
  have hbusy : ¬ Quiet s := by
    intro hquiet
    have hrest := hquiet.rest
    rw [hworker] at hrest
    exact hrest
  have hgiven : ∀ given, Flight s given → job = some given := by
    intro given hflight
    cases hflight.stage with
    | running _ _ _ hrunning =>
      rw [hworker, Worker.running.injEq] at hrunning
      exact hrunning.1
    | posted _ _ _ hrest =>
      rw [hworker] at hrest
      exact hrest.elim
    | taken _ _ _ hstalled => exact absurd (hworker.symm.trans hstalled) nofun
    | signalling _ _ hsignalling => exact absurd (hworker.symm.trans hsignalling) nofun
    | done _ _ hrest =>
      rw [hworker] at hrest
      exact hrest.elim
  have hhanded := h.handed
  cases hn : s.network with
  | accepting | draining errand =>
    simp only [Handed, hn] at hhanded
    cases hp : s.pending with
    | true => exact ⟨by rw [hgiven _ (hhanded.1 hp)]; rfl, nofun, nofun⟩
    | false => exact (hbusy (hhanded.2 hp)).elim
  | looping =>
    simp only [Handed, hn] at hhanded
    cases hp : s.pending with
    | true =>
      have hjob := hgiven _ (hhanded.1 hp)
      exact ⟨by rw [hjob]; rfl, fun _ => hjob, nofun⟩
    | false => exact (hbusy (hhanded.2.1 hp)).elim
  | awaiting errand =>
    simp only [Handed, hn] at hhanded
    exact ⟨by rw [hgiven _ hhanded.2]; rfl, nofun, nofun⟩
  | ended code =>
    simp only [Handed, hn] at hhanded
    rcases hhanded with hquiet | ⟨given, hflight⟩
    · exact (hbusy hquiet).elim
    · exact ⟨by rw [hgiven _ hflight]; rfl, nofun, nofun⟩
  | posting errand =>
    simp only [Handed, hn] at hhanded
    exact (hbusy hhanded.2.2.1).elim
  | answered errand | judging | greeting | sizing | updating found' =>
    simp only [Handed, hn] at hhanded
    exact (hbusy hhanded.2.1).elim

/-- At most the last job posted is not through yet. -/
theorem Kept.posted (h : Kept s) :
    s.posted = s.finished.map Prod.fst ∨ ∃ job, s.posted = s.finished.map Prod.fst ++ [job] := by
  have hflying : ∀ job, Flight s job →
      s.posted = s.finished.map Prod.fst ∨ ∃ job, s.posted = s.finished.map Prod.fst ++ [job] := by
    intro job hflight
    cases hflight.stage with
    | posted _ _ _ _ hposted => exact .inr ⟨job, hposted⟩
    | taken _ _ _ _ hposted => exact .inr ⟨job, hposted⟩
    | running _ _ _ _ hposted => exact .inr ⟨job, hposted⟩
    | signalling _ _ _ hposted => exact .inl hposted
    | done _ _ _ hposted => exact .inl hposted
  have hhanded := h.handed
  cases hn : s.network with
  | accepting | draining errand =>
    simp only [Handed, hn] at hhanded
    cases hp : s.pending with
    | true => exact hflying _ (hhanded.1 hp)
    | false => exact .inl (hhanded.2 hp).posted
  | looping =>
    simp only [Handed, hn] at hhanded
    cases hp : s.pending with
    | true => exact hflying _ (hhanded.1 hp)
    | false => exact .inl (hhanded.2.1 hp).posted
  | awaiting errand =>
    simp only [Handed, hn] at hhanded
    exact hflying _ hhanded.2
  | ended code =>
    simp only [Handed, hn] at hhanded
    rcases hhanded with hquiet | ⟨job, hflight⟩
    · exact .inl hquiet.posted
    · exact hflying job hflight
  | posting errand =>
    simp only [Handed, hn] at hhanded
    exact .inl hhanded.2.2.1.posted
  | answered errand | judging | greeting | sizing | updating found =>
    simp only [Handed, hn] at hhanded
    exact .inl hhanded.2.1.posted

/-- **A wait for a job can end.** -/
theorem Kept.lands (h : Kept s) (hpending : s.pending = true) (hworker : s.worker ≠ .returned)
    (hposting : ∀ errand, s.network ≠ .posting errand) (hon : ∀ code, s.network ≠ .ended code) : Lands s := by
  have hhanded := h.handed
  cases hn : s.network with
  | accepting | draining errand | looping =>
    simp only [Handed, hn] at hhanded
    exact (hhanded.1 hpending).lands hon hworker
  | awaiting errand =>
    simp only [Handed, hn] at hhanded
    exact hhanded.2.lands hon hworker
  | posting errand => exact absurd hn (hposting errand)
  | ended code => exact absurd hn (hon code)
  | answered errand | judging | greeting | sizing | updating found =>
    simp only [Handed, hn] at hhanded
    exact absurd (hpending.symm.trans hhanded.1) nofun

/-- Where the network thread is in a session. -/
def Network.InSession : Network F → Prop
  | .greeting | .looping | .posting none | .judging | .sizing | .updating _ => True
  | _ => False

theorem Kept.made (h : Kept s) (hsession : s.network.InSession) : s.frame.isSome := by
  have hhanded := h.handed
  cases hn : s.network with
  | looping =>
    simp only [Handed, hn] at hhanded
    exact hhanded.2.2
  | posting errand =>
    cases errand with
    | none =>
      simp only [Handed, hn] at hhanded
      exact hhanded.2.2.2 trivial
    | some errand =>
      rw [hn] at hsession
      exact hsession.elim
  | greeting | judging | sizing | updating found =>
    simp only [Handed, hn] at hhanded
    exact hhanded.2.2.1
  | _ =>
    rw [hn] at hsession
    exact hsession.elim

end VncJobs

open VncJobs

/-- What holds after any run of the two threads. -/
structure VncJobsKept {F : Type*} (s : VncJobs F) : Prop where
  /-- the two are never at the frame together -/
  exclusive : ∀ job found, s.worker = .running job found → ∀ other, s.network ≠ .updating other
  /-- each access finds the frame as the one before left it; a capture comes right before each
  update, and a new frame right before each size -/
  serial : (freed :: s.log).IsChain Follows
  /-- also an access that is not over yet -/
  inside : s.settled = s.lastAccess.after
  /-- there is a frame for all but the job that makes it -/
  sound : ∀ e ∈ s.log, e.Sound
  /-- each job run is one access -/
  once : s.log.filterMap Access.ran = s.finished.map Prod.fst
  /-- in the order posted, with at most the last one not through -/
  order : s.posted = s.finished.map Prod.fst ∨ ∃ job, s.posted = s.finished.map Prod.fst ++ [job]
  /-- `vnc_job_run` returns the result of its own job -/
  answer : ∀ errand, s.network = .answered errand → s.finished.getLast? = some (errand.job, s.result)
  /-- the loop judges the result of its own capture -/
  judged : s.network = .judging → s.finished.getLast? = some (.capture, s.result)
  /-- the worker runs no job but those of `vnc_job_start` -/
  known : ∀ job found, s.worker = .running job found → job.isSome
  /-- messages are read beside a capture at most: the size does not change under a pointer event -/
  steady : ∀ job found, s.network = .looping → s.worker = .running job found → job = some .capture
  /-- a session has a frame -/
  made : s.network.InSession → s.frame.isSome
  /-- while a job is pending, the worker alone can bring the event that ends it -/
  awake : s.pending = true → s.worker ≠ .returned → (∀ errand, s.network ≠ .posting errand) →
    (∀ code, s.network ≠ .ended code) → Lands s

/-- **The hand-over is safe in every interleaving.** -/
theorem vnc_jobs_exact {F : Type*} {as : List (VncJobAct F)} {s : VncJobs F}
    (h : Trace.exec vncJobStep (VncJobs.start F) as = some s) : VncJobsKept s := by
  have hstep : ∀ (s : VncJobs F) a t, VncJobs.Kept s → vncJobStep s a = some t → VncJobs.Kept t :=
    fun s a t hkept hone => VncJobs.kept_step hkept hone
  have hkept : VncJobs.Kept s := Trace.exec_inv hstep kept_start h
  have hhanded := hkept.handed
  exact
    { exclusive := fun job found hworker => (hkept.running hworker).2.2
      serial := hkept.logged.chain
      inside := hkept.logged.settled
      sound := hkept.logged.sound
      once := hkept.logged.once
      order := hkept.posted
      answer := by
        intro errand hn
        simp only [Handed, hn] at hhanded
        exact hhanded.2.2.result
      judged := by
        intro hn
        simp only [Handed, hn] at hhanded
        exact hhanded.2.2.2.result
      known := fun job found hworker => (hkept.running hworker).1
      steady := fun job found hn hworker => (hkept.running hworker).2.1 hn
      made := hkept.made
      awake := hkept.lands }

/-- A session with one frame, left while its second capture is under way. -/
def vncJobRun : List (VncJobAct ℕ) :=
  [.connect, .pollNone, .setEvent, .take, .pick, .touch none, .finish (some 0) 1, .signal, .pollDone, .answer,
    .greet true, .start (some 1), .setEvent, .take, .linger, .message true, .pick, .touch (some 2), .pollTimeout,
    .finish (some 3) 1, .signal, .pollDone, .judge false true, .write 4, .sent true, .start none, .setEvent, .take,
    .pick, .message false, .connect]

theorem vnc_jobs_exact_demo :
    ∃ s, Trace.exec vncJobStep (VncJobs.start ℕ) vncJobRun = some s ∧
      s.log.map Access.after = [some 0, some 0, some 1, some 3, some 4] ∧ VncJobsKept s := by
  obtain ⟨s, hrun⟩ : ∃ s, Trace.exec vncJobStep (VncJobs.start ℕ) vncJobRun = some s := ⟨_, rfl⟩
  refine ⟨s, hrun, ?_, vnc_jobs_exact hrun⟩
  have hlog : (Trace.exec vncJobStep (VncJobs.start ℕ) vncJobRun).map (fun s => s.log.map Access.after) =
      some [some 0, some 0, some 1, some 3, some 4] := rfl
  rw [hrun, Option.map_some, Option.some.injEq] at hlog
  exact hlog

end V9xRemote
