import V9xRemote.Lib.Budget
import V9xRemote.Spec.Exec

/-!
# What an execution sends and reports of its output

A call of `v9x_send_pipe_data` brings a stream from one row of reads to a longer one
(`sendPipeData_spec`) and leaves the other alone. So the worker keeps `Streams` in its loop and
in its drain, and its frames and totals are read off it (`executionWorker_reports`).
-/

namespace V9xRemote

open Bytes

/-! ## Flags -/

def HasFlag (flags flag : UInt32) : Prop := flags &&& flag ≠ 0

instance (flags flag : UInt32) : Decidable (HasFlag flags flag) := inferInstanceAs (Decidable (_ ≠ _))

theorem hasFlag_or {a b flag : UInt32} : HasFlag (a ||| b) flag ↔ HasFlag a flag ∨ HasFlag b flag := by
  unfold HasFlag
  have hdistrib : (a ||| b) &&& flag = (a &&& flag) ||| (b &&& flag) := by
    apply UInt32.toBitVec_inj.1
    simp only [UInt32.toBitVec_and, UInt32.toBitVec_or]
    apply BitVec.eq_of_getLsbD_eq
    intro i _
    simp [Bool.and_or_distrib_right]
  rw [hdistrib, ne_eq, UInt32.or_eq_zero_iff]
  tauto

theorem hasFlag_other (flags : UInt32) {flag other : UInt32} (h : other &&& flag = 0) :
    HasFlag (flags ||| other) flag ↔ HasFlag flags flag := by
  rw [hasFlag_or]
  exact or_iff_left fun hother => hother h

theorem hasFlag_self (flags : UInt32) {flag : UInt32} (h : flag ≠ 0) : HasFlag (flags ||| flag) flag := by
  rw [hasFlag_or]
  refine Or.inr ?_
  unfold HasFlag
  rwa [UInt32.and_self]

/-! ## Reads and frames -/

/-- The frames of one type. -/
def framesOf (message : UInt16) (frames : List (UInt16 × Bytes)) : List Bytes :=
  frames.filterMap fun frame => if frame.1 = message then some frame.2 else none

theorem framesOf_append (message : UInt16) (a b : List (UInt16 × Bytes)) :
    framesOf message (a ++ b) = framesOf message a ++ framesOf message b := List.filterMap_append

/-- What the calls read, up to the first that finds the pipe broken. -/
def pipeReads : List PipeCall → List Bytes
  | [] => []
  | .data read _ :: calls => read.bytes :: pipeReads calls
  | .failed true :: _ => []
  | .failed false :: calls => pipeReads calls
  | .empty :: calls => pipeReads calls

/-- A call has found the pipe broken. -/
def pipeBroken : List PipeCall → Bool
  | [] => false
  | .failed true :: _ => true
  | _ :: calls => pipeBroken calls

/-- No frame send of the call fails. -/
def PipeCall.Sent : PipeCall → Prop
  | .data _ sent => sent = true
  | _ => True

theorem pipeReads_snoc (calls : List PipeCall) (call : PipeCall) :
    pipeReads (calls ++ [call]) = if pipeBroken calls then pipeReads calls else pipeReads calls ++ pipeReads [call] := by
  induction calls with
  | nil => rfl
  | cons first calls ih =>
    cases first with
    | data read sent =>
      show read.bytes :: pipeReads (calls ++ [call]) = if pipeBroken calls then _ else _
      rw [ih]
      split <;> rfl
    | empty => exact ih
    | failed broken =>
      cases broken with
      | true => rfl
      | false => exact ih

theorem pipeBroken_snoc (calls : List PipeCall) (call : PipeCall) :
    pipeBroken (calls ++ [call]) = (pipeBroken calls || pipeBroken [call]) := by
  induction calls with
  | nil => rfl
  | cons first calls ih =>
    cases first with
    | data read sent => exact ih
    | empty => exact ih
    | failed broken =>
      cases broken with
      | true => rfl
      | false => exact ih

theorem mem_pipeReads {calls : List PipeCall} {piece : Bytes} (h : piece ∈ pipeReads calls) : piece.length ≤ execChunk := by
  induction calls with
  | nil => cases h
  | cons call calls ih =>
    cases call with
    | data read sent =>
      rcases List.mem_cons.1 h with rfl | h
      · exact read.fits
      · exact ih h
    | empty => exact ih h
    | failed broken =>
      cases broken with
      | true => cases h
      | false => exact ih h

/-! ## One call -/

/-- A stream after some calls: what it has counted and sent of their reads. -/
structure Streamed (limit : UInt32) (pipe : ExecPipe) (calls : List PipeCall) (worker : ExecWorker) : Prop where
  total : (worker.streams pipe).total.toNat = min (pipeReads calls).flatten.length 0xffffffff
  sentTotal : (worker.streams pipe).sentTotal.toNat = min (pipeReads calls).flatten.length limit.toNat
  broken : (worker.streams pipe).broken = pipeBroken calls
  frames : framesOf pipe.message worker.frames = Budget.cut limit.toNat (pipeReads calls)
  flag : HasFlag worker.flags pipe.truncateFlag ↔ limit.toNat < (pipeReads calls).flatten.length

/-- The sum of two counts, held at the largest. -/
theorem toNat_counted {stream : ExecStream} {readCount : UInt32} {n : ℕ} (htotal : stream.total.toNat = min n 0xffffffff) :
    (stream.counted readCount).toNat = min (n + readCount.toNat) 0xffffffff := by
  have hsub : (0xffffffff - stream.total).toNat = 0xffffffff - stream.total.toNat := by
    rw [UInt32.toNat_sub_of_le]
    · rfl
    · rw [UInt32.le_iff_toNat_le, htotal]
      exact Nat.min_le_right _ _
  unfold ExecStream.counted
  split
  · rename_i h
    rw [UInt32.lt_iff_toNat_lt, hsub] at h
    show 0xffffffff = _
    omega
  · rename_i h
    rw [UInt32.lt_iff_toNat_lt, hsub] at h
    rw [UInt32.toNat_add]
    omega

/-- What is sent of a read fills up the limit. -/
theorem toNat_sendCount {stream : ExecStream} {limit readCount : UInt32} {n : ℕ}
    (hsent : stream.sentTotal.toNat = min n limit.toNat) :
    (stream.sendCount limit readCount).toNat = min readCount.toNat (limit.toNat - n) := by
  have hsub : stream.sentTotal ≤ limit → (limit - stream.sentTotal).toNat = limit.toNat - stream.sentTotal.toNat :=
    UInt32.toNat_sub_of_le _ _
  have hge : stream.sentTotal ≥ limit ↔ limit.toNat ≤ stream.sentTotal.toNat := UInt32.le_iff_toNat_le
  unfold ExecStream.sendCount
  split
  · rename_i h
    rw [hge] at h
    show 0 = _
    omega
  · rename_i h
    rw [hge] at h
    have hle : stream.sentTotal ≤ limit := by
      rw [UInt32.le_iff_toNat_le]
      omega
    split
    · rename_i hgt
      rw [gt_iff_lt, UInt32.lt_iff_toNat_lt, hsub hle] at hgt
      rw [hsub hle]
      omega
    · rename_i hgt
      rw [gt_iff_lt, UInt32.lt_iff_toNat_lt, hsub hle] at hgt
      omega

variable {job : ExecSlot} {pipe other : ExecPipe} {call : PipeCall} {calls : List PipeCall} {worker : ExecWorker}

theorem sendPipeData_broken (h : (worker.streams pipe).broken = true) :
    worker.sendPipeData job pipe call = (worker, true) := if_pos h

theorem sendPipeData_failed (h : (worker.streams pipe).broken = false) (broken : Bool) :
    worker.sendPipeData job pipe (.failed broken) =
      ({ worker with streams := Function.update worker.streams pipe { worker.streams pipe with broken } }, true) :=
  if_neg (by rw [h]; exact Bool.false_ne_true)

theorem sendPipeData_empty (h : (worker.streams pipe).broken = false) :
    worker.sendPipeData job pipe .empty = (worker, true) :=
  if_neg (by rw [h]; exact Bool.false_ne_true)

theorem sendPipeData_data (h : (worker.streams pipe).broken = false) (read : PipeData) :
    worker.sendPipeData job pipe (.data read true) =
      let readCount := UInt32.ofNat read.bytes.length
      let sendCount := (worker.streams pipe).sendCount (job.limit pipe) readCount
      ({ streams := Function.update worker.streams pipe
          { worker.streams pipe with
            total := (worker.streams pipe).counted readCount, sentTotal := (worker.streams pipe).sentTotal + sendCount }
         flags := if sendCount ≠ readCount then worker.flags ||| pipe.truncateFlag else worker.flags
         frames := if sendCount ≠ 0 then worker.frames ++ [(pipe.message, read.bytes.take sendCount.toNat)] else worker.frames },
        true) := by
  unfold ExecWorker.sendPipeData
  dsimp only
  rw [if_neg (by rw [h]; exact Bool.false_ne_true), Bool.not_true, Bool.and_false, if_neg Bool.false_ne_true]

theorem framesOf_snoc (message : UInt16) (frames : List (UInt16 × Bytes)) (payload : Bytes) :
    framesOf message (frames ++ [(message, payload)]) = framesOf message frames ++ [payload] := by
  rw [framesOf_append]
  simp [framesOf]

/-- A call on a broken pipe, and one that reads nothing. -/
theorem Streamed.idle (h : Streamed (job.limit pipe) pipe calls worker) (hreads : pipeReads (calls ++ [call]) = pipeReads calls)
    (hbroken : pipeBroken (calls ++ [call]) = pipeBroken calls) : Streamed (job.limit pipe) pipe (calls ++ [call]) worker where
  total := by rw [hreads]; exact h.total
  sentTotal := by rw [hreads]; exact h.sentTotal
  broken := by rw [hbroken]; exact h.broken
  frames := by rw [hreads]; exact h.frames
  flag := by rw [hreads]; exact h.flag

/-- A read: what it brings is counted, sent up to the limit, and told of where it is not sent. -/
theorem Streamed.data (h : Streamed (job.limit pipe) pipe calls worker) (hopen : pipeBroken calls = false) (read : PipeData) :
    Streamed (job.limit pipe) pipe (calls ++ [.data read true]) (worker.sendPipeData job pipe (.data read true)).1 := by
  have hread : (UInt32.ofNat read.bytes.length).toNat = read.bytes.length := by
    have hfits := read.fits
    rw [UInt32.toNat_ofNat']
    unfold execChunk at hfits
    omega
  have hreads : pipeReads (calls ++ [.data read true]) = pipeReads calls ++ [read.bytes] := by
    rw [pipeReads_snoc, hopen]
    rfl
  have hlength : (pipeReads (calls ++ [.data read true])).flatten.length =
      (pipeReads calls).flatten.length + read.bytes.length := by
    rw [hreads, List.flatten_append, List.length_append]
    simp
  have hcount := @toNat_sendCount _ _ (UInt32.ofNat read.bytes.length) _ h.sentTotal
  have htotal := @toNat_counted _ (UInt32.ofNat read.bytes.length) _ h.total
  have hlimit := (job.limit pipe).toNat_lt
  have hsum := h.sentTotal
  rw [hread] at hcount htotal
  rw [sendPipeData_data (h.broken.trans hopen)]
  dsimp only
  set sendCount := (worker.streams pipe).sendCount (job.limit pipe) (UInt32.ofNat read.bytes.length)
  have hzero : sendCount = 0 ↔ sendCount.toNat = 0 := ⟨fun h => by rw [h]; rfl, fun h => UInt32.toNat_inj.1 h⟩
  constructor
  · show (Function.update worker.streams pipe _ pipe).total.toNat = _
    rw [hlength, Function.update_self]
    exact htotal
  · show (Function.update worker.streams pipe _ pipe).sentTotal.toNat = _
    rw [hlength, Function.update_self]
    show ((worker.streams pipe).sentTotal + sendCount).toNat = _
    rw [UInt32.toNat_add, hcount]
    omega
  · show (Function.update worker.streams pipe _ pipe).broken = _
    rw [pipeBroken_snoc, Function.update_self]
    show (worker.streams pipe).broken = (pipeBroken calls || false)
    rw [Bool.or_false]
    exact h.broken
  · rw [hreads, Budget.cut_snoc hcount, ← h.frames]
    show framesOf _ (if sendCount ≠ 0 then _ else _) = _
    by_cases hsend : sendCount = 0
    · -- beyond the limit there is no frame at all
      rw [if_neg (not_not.2 hsend), if_pos (hzero.1 hsend), List.append_nil]
    · rw [if_pos hsend, if_neg (mt hzero.2 hsend), framesOf_snoc]
  · have hfull : sendCount = UInt32.ofNat read.bytes.length ↔
        read.bytes.length ≤ (job.limit pipe).toNat - (pipeReads calls).flatten.length := by
      rw [← UInt32.toNat_inj, hcount, hread]
      omega
    have hflag := h.flag
    rw [hlength]
    show HasFlag (if sendCount ≠ UInt32.ofNat read.bytes.length then _ else _) _ ↔ _
    by_cases hall : sendCount = UInt32.ofNat read.bytes.length
    · -- all of it is sent, so the limit is where it was
      rw [if_neg (not_not.2 hall), hflag]
      rw [hfull] at hall
      omega
    · rw [if_pos hall]
      rw [hfull] at hall
      refine iff_of_true (hasFlag_self _ ?_) (by omega)
      cases pipe <;> decide

/-- **A call sends what it reads, up to the limit**, and counts all of it. -/
theorem sendPipeData_streamed (h : Streamed (job.limit pipe) pipe calls worker) (hsent : call.Sent) :
    Streamed (job.limit pipe) pipe (calls ++ [call]) (worker.sendPipeData job pipe call).1 ∧
      (worker.sendPipeData job pipe call).2 = true := by
  cases hbroken : pipeBroken calls with
  | true =>
    -- a broken pipe is not read again, and the row of its reads stands still
    rw [sendPipeData_broken (h.broken.trans hbroken)]
    refine ⟨h.idle ?_ ?_, rfl⟩
    · rw [pipeReads_snoc, hbroken]
      rfl
    · rw [pipeBroken_snoc, hbroken]
      rfl
  | false =>
    have hopen := h.broken.trans hbroken
    cases call with
    | failed broken =>
      have hnone : pipeReads (calls ++ [.failed broken]) = pipeReads calls := by
        rw [pipeReads_snoc, hbroken]
        cases broken <;> exact List.append_nil _
      have hnow : pipeBroken (calls ++ [.failed broken]) = broken := by
        rw [pipeBroken_snoc, hbroken]
        cases broken <;> rfl
      rw [sendPipeData_failed hopen]
      refine ⟨⟨?_, ?_, ?_, ?_, ?_⟩, rfl⟩
      · show (Function.update worker.streams pipe _ pipe).total.toNat = _
        rw [hnone, Function.update_self]
        exact h.total
      · show (Function.update worker.streams pipe _ pipe).sentTotal.toNat = _
        rw [hnone, Function.update_self]
        exact h.sentTotal
      · show (Function.update worker.streams pipe _ pipe).broken = _
        rw [hnow, Function.update_self]
      · rw [hnone]
        exact h.frames
      · rw [hnone]
        exact h.flag
    | empty =>
      rw [sendPipeData_empty hopen]
      refine ⟨h.idle ?_ ?_, rfl⟩
      · rw [pipeReads_snoc, hbroken]
        exact List.append_nil _
      · rw [pipeBroken_snoc, hbroken]
        rfl
    | data read sent =>
      obtain rfl : sent = true := hsent
      refine ⟨h.data hbroken read, ?_⟩
      rw [sendPipeData_data hopen]

/-! ## The two streams -/

theorem framesOf_other (frames : List (UInt16 × Bytes)) (payload : Bytes) (hne : other ≠ pipe) :
    framesOf other.message (frames ++ [(pipe.message, payload)]) = framesOf other.message frames := by
  have hmessage : pipe.message ≠ other.message := by
    cases pipe <;> cases other <;> first | exact absurd rfl hne | decide
  rw [framesOf_append]
  simp [framesOf, hmessage]

/-- What a stream is told by: its counts, its frames and its flag. -/
theorem Streamed.of_same {limit : UInt32} {worker' : ExecWorker} (h : Streamed limit other calls worker)
    (hstream : worker'.streams other = worker.streams other)
    (hframes : framesOf other.message worker'.frames = framesOf other.message worker.frames)
    (hflag : HasFlag worker'.flags other.truncateFlag ↔ HasFlag worker.flags other.truncateFlag) :
    Streamed limit other calls worker' where
  total := by rw [hstream]; exact h.total
  sentTotal := by rw [hstream]; exact h.sentTotal
  broken := by rw [hstream]; exact h.broken
  frames := hframes.trans h.frames
  flag := hflag.trans h.flag

/-- **A call on one pipe leaves the other's stream alone.** -/
theorem sendPipeData_other (hne : other ≠ pipe) (h : Streamed (job.limit other) other calls worker) (call : PipeCall) :
    Streamed (job.limit other) other calls (worker.sendPipeData job pipe call).1 := by
  have hbits : pipe.truncateFlag &&& other.truncateFlag = 0 := by
    cases pipe <;> cases other <;> first | exact absurd rfl hne | decide
  have hkept : ∀ stream : ExecStream, Function.update worker.streams pipe stream other = worker.streams other :=
    fun stream => Function.update_of_ne hne _ _
  unfold ExecWorker.sendPipeData
  dsimp only
  split
  · exact h
  · cases call with
    | failed broken => exact h.of_same (hkept _) rfl Iff.rfl
    | empty => exact h
    | data read sent =>
      dsimp only
      split
      · exact h.of_same (hkept _) rfl Iff.rfl
      · refine h.of_same (hkept _) ?_ ?_
        · dsimp only
          split
          · exact framesOf_other _ _ hne
          · rfl
        · dsimp only
          split
          · exact hasFlag_other _ hbits
          · rfl

/-- A call sends no EXEC_COMPLETE. -/
theorem sendPipeData_complete (call : PipeCall) :
    framesOf msgExecCompleteType (worker.sendPipeData job pipe call).1.frames = framesOf msgExecCompleteType worker.frames := by
  have hmessage : pipe.message ≠ msgExecCompleteType := by cases pipe <;> decide
  unfold ExecWorker.sendPipeData
  dsimp only
  split
  · rfl
  · cases call with
    | failed broken => rfl
    | empty => rfl
    | data read sent =>
      dsimp only
      split
      · rfl
      · dsimp only
        split
        · rw [framesOf_append]
          simp [framesOf, hmessage]
        · rfl

/-- Both streams after their calls, before EXEC_COMPLETE. -/
structure Streams (job : ExecSlot) (calls : ExecPipe → List PipeCall) (worker : ExecWorker) : Prop where
  streamed : ∀ pipe, Streamed (job.limit pipe) pipe (calls pipe) worker
  complete : framesOf msgExecCompleteType worker.frames = []

/-- A call of each pipe. -/
theorem Streams.both {calls : ExecPipe → List PipeCall} (h : Streams job calls worker) {stdout stderr : PipeCall}
    (hstdout : stdout.Sent) (hstderr : stderr.Sent) :
    Streams job (fun pipe => calls pipe ++ [match pipe with | .stdout => stdout | .stderr => stderr])
        ((worker.sendPipeData job .stdout stdout).1.sendPipeData job .stderr stderr).1 ∧
      (worker.sendPipeData job .stdout stdout).2 = true ∧
      ((worker.sendPipeData job .stdout stdout).1.sendPipeData job .stderr stderr).2 = true := by
  obtain ⟨hfirst, hfirstSent⟩ := sendPipeData_streamed (h.streamed .stdout) hstdout
  have hkept := sendPipeData_other (show ExecPipe.stderr ≠ .stdout by decide) (h.streamed .stderr) stdout
  obtain ⟨hsecond, hsecondSent⟩ := sendPipeData_streamed hkept hstderr
  refine ⟨⟨fun pipe => ?_, ?_⟩, hfirstSent, hsecondSent⟩
  · cases pipe with
    | stdout => exact sendPipeData_other (by decide) hfirst stderr
    | stderr => exact hsecond
  · rw [sendPipeData_complete, sendPipeData_complete]
    exact h.complete

/-- Flags of the worker's own change nothing. -/
theorem Streams.flag {calls : ExecPipe → List PipeCall} (h : Streams job calls worker) {flag : UInt32}
    (hflag : flag &&& 3 = 0) : Streams job calls { worker with flags := worker.flags ||| flag } := by
  refine ⟨fun pipe => ?_, h.complete⟩
  refine (h.streamed pipe).of_same rfl rfl ?_
  have hother : flag &&& pipe.truncateFlag = 0 := by
    have hpart : pipe.truncateFlag = 3 &&& pipe.truncateFlag := by cases pipe <;> decide
    rw [hpart, ← UInt32.and_assoc, hflag, UInt32.zero_and]
  exact hasFlag_other _ hother

/-! ## The loop and the drain -/

/-- The calls of a turn. -/
def turnCall (t : ExecTurn) : ExecPipe → PipeCall
  | .stdout => t.stdout
  | .stderr => t.stderr

/-- No frame send of the turn fails. -/
def ExecTurn.Sent (t : ExecTurn) : Prop := t.stdout.Sent ∧ t.stderr.Sent

theorem eof_streams {s : ExecLoop} {calls : ExecPipe → List PipeCall} (h : Streams job calls s.worker) (tick : UInt32) :
    Streams job calls (s.eof job tick).1.worker := by
  unfold ExecLoop.eof
  split
  · split
    · exact h
    · split
      · exact h.flag (by decide)
      · exact h
  · exact h

/-- **A turn** is a call of each pipe, whatever ends the loop. -/
theorem turn_streams {s : ExecLoop} {calls : ExecPipe → List PipeCall} (h : Streams job calls s.worker) (started : UInt32)
    {t : ExecTurn} (ht : t.Sent) : Streams job (fun pipe => calls pipe ++ [turnCall t pipe]) (s.turn job started t).1.worker := by
  obtain ⟨hboth, hfirst, hsecond⟩ := h.both ht.1 ht.2
  have hcalls : (fun pipe => calls pipe ++ [turnCall t pipe]) =
      fun pipe => calls pipe ++ [match pipe with | .stdout => t.stdout | .stderr => t.stderr] := by
    funext pipe
    cases pipe <;> rfl
  rw [hcalls]
  unfold ExecLoop.turn
  dsimp only
  rw [hfirst, if_pos rfl, hsecond, Bool.not_true, Bool.false_or]
  have heof := fun tick => @eof_streams job { s with worker := _ } _ hboth tick
  split
  · exact hboth.flag (by decide)
  · split
    · exact hboth.flag (by decide)
    · split
      · exact heof _
      · split
        · exact heof _
        · exact heof _
        · exact heof _

theorem run_streams {turns : List ExecTurn} {started : UInt32} {s s' : ExecLoop} {calls : ExecPipe → List PipeCall}
    (h : Streams job calls s.worker) (hsent : ∀ t ∈ turns, t.Sent) (hrun : s.run job started turns = some s') :
    Streams job (fun pipe => calls pipe ++ turns.map fun t => turnCall t pipe) s'.worker := by
  induction turns generalizing s calls with
  | nil => cases hrun
  | cons t turns ih =>
    have hturn := turn_streams h started (hsent t List.mem_cons_self)
    unfold ExecLoop.run at hrun
    split at hrun
    · rename_i next hnext
      rw [hnext] at hturn
      have hrest := ih hturn (fun u hu => hsent u (List.mem_cons_of_mem _ hu)) hrun
      simpa using hrest
    · rename_i next hnext
      rw [hnext] at hturn
      split at hrun
      · rename_i hlast
        obtain rfl := Option.some.inj hrun
        rw [List.isEmpty_iff.1 hlast]
        exact hturn
      · -- calls are left behind the end of the loop: no such run
        cases hrun

/-- The calls of a round of the drain. -/
def roundCall (round : PipeCall × PipeCall) : ExecPipe → PipeCall
  | .stdout => round.1
  | .stderr => round.2

theorem drain_streams {rounds : List (PipeCall × PipeCall)} {left : ℕ} {worker worker' : ExecWorker}
    {calls : ExecPipe → List PipeCall} (h : Streams job calls worker) (hsent : ∀ round ∈ rounds, round.1.Sent ∧ round.2.Sent)
    (hrun : execDrain job left worker rounds = some worker') :
    Streams job (fun pipe => calls pipe ++ rounds.map fun round => roundCall round pipe) worker' := by
  induction rounds generalizing left worker calls with
  | nil =>
    cases left with
    | zero =>
      obtain rfl := Option.some.inj hrun
      simpa using h
    | succ left => cases hrun
  | cons round rounds ih =>
    cases left with
    | zero => cases hrun
    | succ left =>
      obtain ⟨hstdout, hstderr⟩ := hsent round List.mem_cons_self
      have hboth := (h.both hstdout hstderr).1
      have hcalls : (fun pipe => calls pipe ++ [match pipe with | .stdout => round.1 | .stderr => round.2]) =
          fun pipe => calls pipe ++ [roundCall round pipe] := by
        funext pipe
        cases pipe <;> rfl
      rw [hcalls] at hboth
      unfold execDrain at hrun
      dsimp only at hrun
      split at hrun
      · split at hrun
        · rename_i hlast
          obtain rfl := Option.some.inj hrun
          rw [List.isEmpty_iff.1 hlast]
          exact hboth
        · cases hrun
      · have hrest := ih hboth (fun u hu => hsent u (List.mem_cons_of_mem _ hu)) hrun
        simpa using hrest

/-! ## EXEC_COMPLETE -/

/-- Where EXEC_COMPLETE has a pipe's total. -/
def ExecPipe.totalAt : ExecPipe → ℕ
  | stdout => 16
  | stderr => 20

/-- **What is sent and reported of a pipe** from which `pieces` were read: the frames are the
pieces cut to the limit, none is empty or longer than a chunk, and the one EXEC_COMPLETE has
the number of bytes read and whether it exceeds the limit. -/
structure Reports (sent : List (UInt16 × Bytes)) (pipe : ExecPipe) (limit : UInt32) (pieces : List Bytes) : Prop where
  frames : framesOf pipe.message sent = Budget.cut limit.toNat pieces
  bytes : (framesOf pipe.message sent).flatten = pieces.flatten.take (min pieces.flatten.length limit.toNat)
  sizes : ∀ payload ∈ framesOf pipe.message sent, payload ≠ [] ∧ payload.length ≤ execChunk
  complete : ∃ payload, framesOf msgExecCompleteType sent = [payload] ∧
    (payload.readU32 pipe.totalAt).toNat = min pieces.flatten.length 0xffffffff ∧
    (HasFlag (payload.readU32 24) pipe.truncateFlag ↔ limit.toNat < pieces.flatten.length)

theorem execComplete_total (result exitCode native elapsed stdoutTotal stderrTotal flags : UInt32) (pipe : ExecPipe) :
    (execComplete result exitCode native elapsed stdoutTotal stderrTotal flags).readU32 pipe.totalAt =
      match pipe with | .stdout => stdoutTotal | .stderr => stderrTotal := by
  have hstdout : execComplete result exitCode native elapsed stdoutTotal stderrTotal flags =
      (writeU32 result ++ writeU32 exitCode ++ writeU32 native ++ writeU32 elapsed) ++
        (writeU32 stdoutTotal ++ (writeU32 stderrTotal ++ writeU32 flags)) := by
    simp [execComplete]
  have hstderr : execComplete result exitCode native elapsed stdoutTotal stderrTotal flags =
      (writeU32 result ++ writeU32 exitCode ++ writeU32 native ++ writeU32 elapsed ++ writeU32 stdoutTotal) ++
        (writeU32 stderrTotal ++ writeU32 flags) := by
    simp [execComplete]
  cases pipe with
  | stdout =>
    rw [hstdout]
    exact (readU32_append_right _ _ 0).trans (readU32_writeU32 _ _)
  | stderr =>
    rw [hstderr]
    exact (readU32_append_right _ _ 0).trans (readU32_writeU32 _ _)

theorem execComplete_flags (result exitCode native elapsed stdoutTotal stderrTotal flags : UInt32) :
    (execComplete result exitCode native elapsed stdoutTotal stderrTotal flags).readU32 24 = flags := by
  have hflags : execComplete result exitCode native elapsed stdoutTotal stderrTotal flags =
      (writeU32 result ++ writeU32 exitCode ++ writeU32 native ++ writeU32 elapsed ++ writeU32 stdoutTotal ++
        writeU32 stderrTotal) ++ (writeU32 flags ++ []) := by
    simp [execComplete]
  rw [hflags]
  exact (readU32_append_right _ _ 0).trans (readU32_writeU32 _ _)

/-- EXEC_COMPLETE behind frames of output: what it says of a pipe. -/
theorem reports_of_complete {limit : UInt32} {pieces : List Bytes} {output : List (UInt16 × Bytes)}
    {result exitCode native elapsed stdoutTotal stderrTotal flags total : UInt32}
    (htotal : (match pipe with | .stdout => stdoutTotal | .stderr => stderrTotal) = total)
    (hcount : total.toNat = min pieces.flatten.length 0xffffffff)
    (hflag : HasFlag flags pipe.truncateFlag ↔ limit.toNat < pieces.flatten.length)
    (hsizes : ∀ piece ∈ pieces, piece.length ≤ execChunk) (hnone : framesOf msgExecCompleteType output = [])
    (hframes : framesOf pipe.message output = Budget.cut limit.toNat pieces) :
    Reports (output ++ [(msgExecCompleteType, execComplete result exitCode native elapsed stdoutTotal stderrTotal flags)]) pipe
      limit pieces := by
  have hother : msgExecCompleteType ≠ pipe.message := by cases pipe <;> decide
  have hall : framesOf pipe.message
      (output ++ [(msgExecCompleteType, execComplete result exitCode native elapsed stdoutTotal stderrTotal flags)]) =
        Budget.cut limit.toNat pieces := by
    rw [framesOf_append, hframes]
    simp [framesOf, hother]
  refine ⟨hall, ?_, ?_, ?_⟩
  · rw [hall, Budget.cut_flatten, List.take_eq_take_iff]
    omega
  · intro payload hmem
    rw [hall] at hmem
    obtain ⟨hne, piece, hpiece, hpre⟩ := Budget.mem_cut hmem
    exact ⟨hne, le_trans hpre.length_le (hsizes piece hpiece)⟩
  · refine ⟨execComplete result exitCode native elapsed stdoutTotal stderrTotal flags, ?_, ?_, ?_⟩
    · rw [framesOf_snoc, hnone]
      rfl
    · rw [execComplete_total, htotal]
      exact hcount
    · rw [execComplete_flags]
      exact hflag

theorem Streams.reports {s : ExecLoop} {calls : ExecPipe → List PipeCall} (h : Streams job calls s.worker)
    (exitCode elapsed : UInt32) (pipe : ExecPipe) :
    Reports (s.complete exitCode elapsed) pipe (job.limit pipe) (pipeReads (calls pipe)) := by
  have hstream := h.streamed pipe
  refine reports_of_complete ?_ hstream.total hstream.flag (fun piece hmem => mem_pipeReads hmem) h.complete hstream.frames
  cases pipe <;> rfl

/-! ## The worker -/

/-- The calls of one pipe in an execution: those while the process runs, and the drain's. -/
def pipeCalls (calls : ExecutionCalls) (pipe : ExecPipe) : List PipeCall :=
  calls.turns.map (fun t => turnCall t pipe) ++ calls.rounds.map fun round => roundCall round pipe

/-- No frame send of the execution fails. -/
def ExecutionCalls.Sent (calls : ExecutionCalls) : Prop :=
  (∀ t ∈ calls.turns, t.Sent) ∧ ∀ round ∈ calls.rounds, round.1.Sent ∧ round.2.Sent

/-- Before the first call. -/
theorem streams_start (job : ExecSlot) {flags : UInt32} (hflags : flags &&& 3 = 0) :
    Streams job (fun _ => []) ⟨fun _ => ⟨0, 0, false⟩, flags, []⟩ := by
  refine ⟨fun pipe => ⟨rfl, (Nat.zero_min _).symm, rfl, rfl, ?_⟩, rfl⟩
  have hnone : flags &&& pipe.truncateFlag = 0 := by
    have hpart : pipe.truncateFlag = 3 &&& pipe.truncateFlag := by cases pipe <;> decide
    rw [hpart, ← UInt32.and_assoc, hflags, UInt32.zero_and]
  exact iff_of_false (not_not.2 hnone) (Nat.not_lt_zero _)

/-- **The Windows agent's output**: whatever the calls of the two pipes bring, while the process
runs and behind its end, each pipe is sent and reported by its own reads alone. -/
theorem executionWorker_reports {calls : ExecutionCalls} (hsent : calls.Sent) {frames : List (UInt16 × Bytes)}
    (h : executionWorker job calls = some frames) (pipe : ExecPipe) :
    Reports frames pipe (job.limit pipe) (pipeReads (pipeCalls calls pipe)) := by
  unfold executionWorker at h
  dsimp only at h
  set flags := if calls.gui = true then (if job.detach = true then execFlagDetached else execFlagPipeCapture) ||| execFlagGuiWindow
    else if job.detach = true then execFlagDetached else execFlagPipeCapture with hdef
  have hflags : flags &&& 3 = 0 := by
    rw [hdef]
    cases calls.gui <;> cases job.detach <;> decide
  have hstart := streams_start job hflags
  -- without a process there are no calls
  have hidle : (calls.turns.isEmpty && calls.rounds.isEmpty) = true → pipeCalls calls pipe = [] := by
    intro hempty
    obtain ⟨hturns, hrounds⟩ := Bool.and_eq_true_iff.1 hempty
    unfold pipeCalls
    rw [List.isEmpty_iff.1 hturns, List.isEmpty_iff.1 hrounds]
    rfl
  split at h
  · -- the launch fails
    split at h
    · rename_i hempty
      obtain rfl := Option.some.inj h
      rw [hidle hempty]
      exact Streams.reports (s := ⟨_, _, _, _⟩) hstart _ _ pipe
    · cases h
  · split at h
    · -- a detached process has no pipes
      split at h
      · rename_i hempty
        obtain rfl := Option.some.inj h
        rw [hidle hempty]
        exact Streams.reports (s := ⟨_, _, _, _⟩) hstart _ _ pipe
      · cases h
    · -- the loop, and the drain from the streams it leaves
      rw [Option.bind_eq_bind, Option.bind_eq_some_iff] at h
      obtain ⟨s, hrun, h⟩ := h
      rw [Option.bind_eq_bind, Option.bind_eq_some_iff] at h
      obtain ⟨worker, hdrain, h⟩ := h
      have hloop := run_streams hstart hsent.1 hrun
      have hend := drain_streams hloop hsent.2 hdrain
      split at h
      · obtain rfl := Option.some.inj h
        exact Streams.reports hend _ _ pipe
      · split at h
        · obtain rfl := Option.some.inj h
          exact Streams.reports hend _ _ pipe
        · obtain rfl := Option.some.inj h
          exact Streams.reports hend _ _ pipe

end V9xRemote
