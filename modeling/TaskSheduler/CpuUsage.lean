import TaskSheduler.ExecuteCalls
import TaskSheduler.RemainingTime

/-!
# The CPU usage that `execute` notes

`CpuIntensiveTask::execute` divides the nanoseconds it spent by the
milliseconds of its slice.  The quotient is a million times the share of the
slice that was used, and the cut at one hides that only where the share is one
or nothing: `usage_eq_share_iff`.

The loop stops early only when the slice is over, so that is a matter of the
readings at both ends of the loop; `cpu_usage_true_iff` says so of every call in
a run of `process_tasks`.
-/

namespace TaskSheduler

open Programs Interleaving FloatArithmetic

/-! ## The quotient -/

/-- The share of a slice of `slice` milliseconds that `elapsed` nanoseconds
are, cut at one. -/
def shareUsed (elapsed slice : Int) : ℚ := min 1 ((elapsed : ℚ) / (slice * 1000000))

section Quotient

variable {float : FloatArith} {elapsed slice : Int}

/-- While less than the slice has passed, the noted usage is too large. -/
theorem shareUsed_lt_usage (h : float.Accurate) (hpos : 0 < elapsed) (hslice : 0 < slice)
    (hmax : slice < 2 ^ 31) (hless : elapsed < slice * 1000000) :
    shareUsed elapsed slice < usage float 1 elapsed slice := by
  have he : (1 : ℚ) ≤ elapsed := by exact_mod_cast hpos
  have hs : (1 : ℚ) ≤ slice := by exact_mod_cast hslice
  have hless' : (elapsed : ℚ) < slice * 1000000 := by exact_mod_cast hless
  have hmax' : (slice : ℚ) < 2 ^ 31 := by exact_mod_cast hmax
  have hquotient := h.quotient_le he (by linarith) hs (by linarith)
  have hshare : (elapsed : ℚ) / (slice * 1000000) < elapsed / slice / 8 := by
    rw [div_div]
    exact div_lt_div_of_pos_left (by linarith) (by linarith) (by linarith)
  have hone : (elapsed : ℚ) / (slice * 1000000) < 1 := by
    rw [div_lt_one (by linarith)]
    exact hless'
  unfold shareUsed usage
  rw [if_neg hslice.ne', min_eq_right hone.le]
  exact lt_min hone (hshare.trans_le hquotient)

/-- Once the slice has passed, both are one. -/
theorem usage_of_slice_over (h : float.Accurate) (hslice : 0 < slice) (hmax : slice < 2 ^ 31)
    (hover : slice * 1000000 ≤ elapsed) : usage float 1 elapsed slice = 1 := by
  have hs : (1 : ℚ) ≤ slice := by exact_mod_cast hslice
  have hover' : (slice : ℚ) * 1000000 ≤ elapsed := by exact_mod_cast hover
  have hmax' : (slice : ℚ) < 2 ^ 31 := by exact_mod_cast hmax
  have hquotient := h.quotient_le (x := (slice : ℚ) * 1000000) (by linarith) (by linarith) hs
    (by linarith)
  have hround : 0 ≤ float.round slice := by
    rw [← h.zero]
    exact h.mono (by linarith)
  have hgrow : float.round (float.round (slice * 1000000) / float.round slice) ≤
      float.round (float.round elapsed / float.round slice) :=
    h.mono (div_le_div_of_nonneg_right (h.mono hover') hround)
  have hshare : (slice : ℚ) * 1000000 / slice = 1000000 := by
    rw [mul_div_assoc, mul_div_cancel₀]
    linarith
  rw [hshare] at hquotient
  unfold usage
  rw [if_neg hslice.ne']
  exact min_eq_left (by linarith)

/-- **The noted usage is the share used** exactly if that is nothing or all of
the slice. -/
theorem usage_eq_share_iff (h : float.Accurate) (hpassed : 0 ≤ elapsed) (hslice : 0 < slice)
    (hmax : slice < 2 ^ 31) :
    usage float 1 elapsed slice = shareUsed elapsed slice ↔
      elapsed = 0 ∨ slice * 1000000 ≤ elapsed := by
  constructor
  · intro heq
    by_contra hpart
    rw [not_or, not_le] at hpart
    have hlt := shareUsed_lt_usage h (by omega) hslice hmax hpart.2
    exact hlt.ne' heq
  · rintro (rfl | hover)
    · unfold usage shareUsed
      rw [if_neg hslice.ne', Int.cast_zero, h.zero, zero_div, h.zero, zero_div]
    · have hs : (0 : ℚ) < slice * 1000000 := by
        exact_mod_cast Int.mul_pos hslice (by decide)
      have hshare : (1 : ℚ) ≤ elapsed / (slice * 1000000) := by
        rw [le_div_iff₀ hs, one_mul]
        exact_mod_cast hover
      rw [usage_of_slice_over h hslice hmax hover, shareUsed, min_eq_left hshare]

end Quotient

/-! ## One call -/

/-- The time between the first and the last clock reading of a program that
goes from `w` to `w'`. -/
def timeSpent (env : Env) (w w' : World) : Int :=
  env.clock.read (w'.readings - 1) - env.clock.read w.readings

/-- The time until the loop of `execute` is over, if it is begun at reading `r`
and nothing stops it early. -/
def timeToLoopEnd (env : Env) (r : Nat) (slice : Int) : Int :=
  env.clock.read (r + 1 + cpuIterations slice) - env.clock.read r

/-- The call is given a positive slice, and notes the share of it that it used. -/
structure NotesShare (env : Env) (call : ExecuteCall) : Prop where
  positive : 0 < call.slice
  share : ∃ done task w', call.task.execute env call.slice call.start = .ok (done, task) w' ∧
    task.cpuUsage = shareUsed (timeSpent env call.start w') call.slice

/-- The slice of a task with `total` milliseconds left is positive, and when the
loop of `execute` is over, the clock stands where it stood or the slice is over. -/
structure SliceAllOrNothing (env : Env) (timeQuantum total : Int) (r : Nat) : Prop where
  timeLeft : 0 < total
  passed : timeToLoopEnd env r (min total timeQuantum) = 0 ∨
    min total timeQuantum * 1000000 ≤ timeToLoopEnd env r (min total timeQuantum)

section Calls

variable {env : Env} {timeQuantum : Int} {w : World}

/-- **What a CPU task's `execute` notes.**  Either it reads the clock until the
loop is over, or it stops at a reading that shows the slice over. -/
theorem cpuExecute_notes (env : Env) {task : UnixTask} {total remaining : Int}
    (hkind : task.kind = .cpuIntensiveTask total remaining) (slice : Int) (w : World) :
    ∃ done task' w', task.execute env slice w = .ok (done, task') w' ∧
      task'.cpuUsage = usage env.float 1 (timeSpent env w w') slice ∧
      (timeSpent env w w' = timeToLoopEnd env w.readings slice ∨
        slice * 1000000 ≤ timeSpent env w w' ∧
          timeSpent env w w' ≤ timeToLoopEnd env w.readings slice) := by
  obtain ⟨result, k, hloop, -, hk⟩ := cpuLoop_returns env (env.clock.read w.readings) slice
    (cpuIterations slice) { w with readings := w.readings + 1 }
  simp only [UnixTask.execute, hkind, CpuIntensiveTask.execute]
  rw [returns (now_apply env w), returns hloop]
  cases result with
  | some time =>
      obtain ⟨i, hi, rfl, hlast, hreach, -⟩ := cpuLoop_first hloop
      have hspent : timeSpent env w { w with readings := w.readings + 1 + k } =
          env.clock.read (w.readings + 1 + i) - env.clock.read w.readings := by
        have hstop : w.readings + 1 + k - 1 = w.readings + 1 + i := by
          simp only at hlast
          omega
        simp only [timeSpent, hstop]
      refine ⟨_, _, _, rfl, ?_, .inr ?_⟩
      · rw [hspent]
        rfl
      · have hmono := env.clock.mono
          (show w.readings + 1 + i ≤ w.readings + 1 + cpuIterations slice by omega)
        rw [hspent, timeToLoopEnd]
        exact ⟨hreach, by omega⟩
  | none =>
      obtain rfl := hk rfl
      simp only [bind_apply, now_apply, pure_apply]
      exact ⟨_, _, _, rfl, rfl, .inl rfl⟩

/-- A decoded CPU task comes from a CPU entry, and has all of its time. -/
theorem cpu_decoded {float : FloatArith} {st : SharedTask} {arrival adjusted : Int}
    {total remaining : Int}
    (h : (decoded float st arrival adjusted).kind = .cpuIntensiveTask total remaining) :
    st.type = TaskType.cpuIntensiveTask.value ∧ total = st.remainingTimeMs.toInt := by
  rw [decoded_kind] at h
  unfold taskOfType at h
  by_cases hcpu : st.type = TaskType.cpuIntensiveTask.value
  · rw [if_pos hcpu] at h
    cases h
    exact ⟨hcpu, rfl⟩
  · rw [if_neg hcpu] at h
    split at h <;> cases h

/-- **A call notes the share it used** exactly if that is nothing or all of a
positive slice. -/
theorem notesShare_iff (hfloat : env.float.Accurate) (hquantum : 0 < timeQuantum)
    {call : ExecuteCall} (hcall : call ∈ roundCalls env timeQuantum w) {total remaining : Int}
    (hkind : call.task.kind = .cpuIntensiveTask total remaining) (hmax : total < 2 ^ 31) :
    NotesShare env call ↔ SliceAllOrNothing env timeQuantum total call.start.readings := by
  obtain ⟨task, w₁, -, hdispatch⟩ := nextDispatch_returned (mem_roundCalls.mp hcall)
  obtain ⟨rfl, hslice⟩ := dispatchTask_returned hdispatch
  replace hslice : call.slice = min total timeQuantum := by
    rw [hslice total remaining hkind]
    omega
  obtain ⟨done, task', w', hexecute, husage, hspent⟩ :=
    cpuExecute_notes env hkind call.slice call.start
  have hmono := env.clock.mono
    (show call.start.readings ≤ call.start.readings + 1 + cpuIterations call.slice by omega)
  have hloop : 0 ≤ timeToLoopEnd env call.start.readings call.slice := by
    unfold timeToLoopEnd
    omega
  have hshare : 0 < call.slice →
      (task'.cpuUsage = shareUsed (timeSpent env call.start w') call.slice ↔
        timeToLoopEnd env call.start.readings call.slice = 0 ∨
          call.slice * 1000000 ≤ timeToLoopEnd env call.start.readings call.slice) := by
    intro hpos
    rw [husage, usage_eq_share_iff hfloat (by omega) hpos (by omega)]
    omega
  rw [hslice] at hshare
  constructor
  · intro hcallNotes
    obtain ⟨hpos, done', task'', w'', hexecute', hnotes⟩ := hcallNotes
    rw [hexecute] at hexecute'
    cases hexecute'
    rw [hslice] at hpos hnotes
    exact ⟨by omega, (hshare hpos).mp hnotes⟩
  · intro hall
    obtain ⟨htime, hpassed⟩ := hall
    have hpos : 0 < call.slice := by omega
    refine ⟨hpos, done, task', w', hexecute, ?_⟩
    rw [hslice] at hpos ⊢
    exact (hshare hpos).mpr hpassed

/-- The calls on CPU tasks in the round that starts here note the share used. -/
def RoundNotesShare (env : Env) (timeQuantum : Int) (s : World) : Prop :=
  ∀ call ∈ roundCalls env timeQuantum s, ∀ total remaining,
    call.task.kind = .cpuIntensiveTask total remaining → NotesShare env call

/-- If the round that starts here decodes a CPU entry, its slice will be unused
or used up. -/
def RoundAllOrNothing (env : Env) (timeQuantum : Int) (s : World) : Prop :=
  ∀ st, s.shm.head? = some st → ¬ NotDecoded env s st →
    st.type = TaskType.cpuIntensiveTask.value →
      SliceAllOrNothing env timeQuantum st.remainingTimeMs.toInt (s.readings + 2)

/-- A round notes the share exactly if the slice of its entry is unused or used up. -/
theorem roundNotesShare_iff (hfloat : env.float.Accurate) (hquantum : 0 < timeQuantum)
    (h : Rests env w) :
    RoundNotesShare env timeQuantum w ↔ RoundAllOrNothing env timeQuantum w := by
  obtain ⟨q, hq⟩ := h
  have hhead := hq.head_eq
  cases q with
  | nil =>
      refine iff_of_true (fun call hcall => ?_) fun st hst => ?_
      · rw [notQueued_not_executed hq] at hcall
        cases hcall
      · rw [hhead] at hst
        cases hst
  | cons st rest =>
      by_cases hdecoded : NotDecoded env w st
      · refine iff_of_true (fun call hcall => ?_) fun st' hst hdecoded' => ?_
        · rw [notDecoded_not_executed timeQuantum hq hdecoded] at hcall
          cases hcall
        · rw [hhead] at hst
          cases hst
          exact absurd hdecoded hdecoded'
      · obtain ⟨call, hcalls, htask, hreadings⟩ := decoded_executed timeQuantum hq hdecoded
        have hcall : call ∈ roundCalls env timeQuantum w := by simp [hcalls]
        constructor
        · intro hnotes st' hst _ htype
          rw [hhead] at hst
          cases hst
          have hkind := htask ▸ decoded_cpu env.float htype (env.clock.read w.readings)
            (env.clock.read (w.readings + 1))
          rw [← hreadings]
          exact (notesShare_iff hfloat hquantum hcall hkind st.remainingTimeMs.toInt_lt).mp
            (hnotes call hcall _ _ hkind)
        · intro hpassed call' hcall' total remaining hkind
          rw [hcalls, List.mem_singleton] at hcall'
          subst hcall'
          obtain ⟨htype, rfl⟩ := cpu_decoded (htask ▸ hkind)
          refine (notesShare_iff hfloat hquantum hcall hkind st.remainingTimeMs.toInt_lt).mpr ?_
          rw [hreadings]
          exact hpassed st hhead hdecoded htype

/-- **CPU usage is a true ratio exactly where it is nothing or all.**  In every
run of `process_tasks` with a positive quantum, from any contents of the queue,
the calls of `execute` on CPU tasks, that of the round that would come next
included, note the share of a positive slice that they used if and only if
every CPU entry decoded has time left, and when the loop is over, the clock has
not moved or the slice is over. -/
theorem cpu_usage_true_iff (hfloat : env.float.Accurate) (hquantum : 0 < timeQuantum)
    {start : World} {q : List SharedTask} (hstart : Quiescent env.capacity start.shm q)
    {starts : List World} (hrun : Run (processorMachine env timeQuantum) start starts w) :
    (∀ s ∈ starts ++ [w], RoundNotesShare env timeQuantum s) ↔
      ∀ s ∈ starts ++ [w], RoundAllOrNothing env timeQuantum s := by
  have hrests := rounds_rest hrun ⟨q, hstart⟩
  constructor
  · intro hnotes s hs
    exact (roundNotesShare_iff hfloat hquantum (hrests s hs)).mp (hnotes s hs)
  · intro hpassed s hs
    exact (roundNotesShare_iff hfloat hquantum (hrests s hs)).mpr (hpassed s hs)

end Calls

/-- While the clock stands still, no usage is noted, and none there was. -/
theorem cpu_usage_true_still :
    RoundNotesShare envOne 500 (World.begin (Shm.holding (cpuEntry 5))) := by
  have hq : Quiescent envOne.capacity (World.begin (Shm.holding (cpuEntry 5))).shm
      [cpuEntry 5] := quiescent_holding _
  have hrun : Run (processorMachine envOne 500) (World.begin (Shm.holding (cpuEntry 5))) []
      (World.begin (Shm.holding (cpuEntry 5))) := .nil
  refine (cpu_usage_true_iff FloatArith.exact_accurate (by decide) hq hrun).mpr ?_ _ (by simp)
  intro s hs st hhead _ _
  obtain rfl := List.mem_singleton.mp hs
  rw [hq.head_eq] at hhead
  cases hhead
  exact ⟨by decide, .inl rfl⟩

/-- After one of five milliseconds, all of the slice is noted as used. -/
theorem cpu_usage_counts_nanoseconds :
    ∃ call task w', roundCalls envTicking 500 (World.begin (Shm.holding (cpuEntry 5))) = [call] ∧
      call.slice = 5 ∧ call.task.execute envTicking call.slice call.start = .ok (false, task) w' ∧
      timeSpent envTicking call.start w' = 1000000 ∧ task.cpuUsage = 1 ∧
      ¬ RoundNotesShare envTicking 500 (World.begin (Shm.holding (cpuEntry 5))) := by
  refine ⟨_, _, _, rfl, rfl, rfl, by decide, by decide +kernel, fun hnotes => ?_⟩
  have hq : Quiescent envTicking.capacity (World.begin (Shm.holding (cpuEntry 5))).shm
      [cpuEntry 5] := quiescent_holding _
  have hpassed := (roundNotesShare_iff FloatArith.exact_accurate (by decide) ⟨_, hq⟩).mp hnotes
    (cpuEntry 5) rfl (by unfold NotDecoded; decide) rfl
  exact absurd hpassed.passed (by decide)

end TaskSheduler
