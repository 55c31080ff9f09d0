import Mathlib.Algebra.BigOperators.Fin
import Mathlib.Algebra.Order.BigOperators.Group.Finset
import LengthDisasm.Proofs.RingLedger

/-!
# The ring writes all blocks in order

Whatever the order in which the workers of a ring make their steps, the ledger can be kept: each
step moves one worker on by one stage. So the blocks that are written are always the first ones, a
flush token comes only to a worker that has a block to write, a token that is handed on finds room,
and when no worker can go on, all have ended and all blocks are written. Since workers only move on,
this happens after a bounded number of steps.

## Main definitions

* `State.stepCount` — how many steps of a schedule were enabled

## Main results

* `Accounts.step`, `Accounts.run` — a ledger can be kept along every schedule
* `Accounts.hasEnded_of_stuck`, `Accounts.output_of_ended` — where no step is enabled
* `ring_writes_blocks` — the ring writes all blocks in order and does not deadlock
-/

namespace LengthDisasm.Ring

open State

variable {n : Nat}

namespace State

variable (s : State n) (i : Fin n)

@[simp] theorem workers_setWorker (w : Worker) :
    (s.setWorker i w).workers = Function.update s.workers i w := by
  funext j
  simp [setWorker, Function.update_apply]

@[simp] theorem queues_setWorker (w : Worker) : (s.setWorker i w).queues = s.queues := rfl

@[simp] theorem output_setWorker (w : Worker) : (s.setWorker i w).output = s.output := rfl

@[simp] theorem workers_setQueue (q : List Token) : (s.setQueue i q).workers = s.workers := rfl

@[simp] theorem queues_setQueue (q : List Token) :
    (s.setQueue i q).queues = Function.update s.queues i q := by
  funext j
  simp [setQueue, Function.update_apply]

@[simp] theorem output_setQueue (q : List Token) : (s.setQueue i q).output = s.output := rfl

/-- A token is handed on to a worker that has not ended if there is room in its queue. -/
theorem handOn_of_running {s : State n} {i : Fin n} {token : Token} {after : Phase}
    (hended : (s.workers (next i)).hasEnded = false) (hfull : s.isFull i = false) :
    s.handOn i token after = some ((s.setWorker i ((s.workers i).inPhase after)).setQueue (next i)
      (s.queues (next i) ++ [token])) := by
  simp [handOn, hended, hfull]

/-- A worker that finds the next one ended ends too. -/
theorem handOn_of_ended {s : State n} {i : Fin n} {token : Token} {after : Phase}
    (hended : (s.workers (next i)).hasEnded = true) :
    s.handOn i token after = some (s.setWorker i ((s.workers i).inPhase .ended)) := by
  simp [handOn, hended]

end State

/-- The worker whose turn it is writes the next block. -/
theorem IsWritten.advance {job : Job} {output : List Extent} {x : Fin n → Nat} {i : Fin n}
    (h : IsWritten job output x) (hi : numberAt i (x i) = output.length)
    (hinside : job.startOf output.length < job.total) :
    IsWritten job (output ++ [job.extent output.length]) (Function.update x i (x i + 1)) := by
  have hlength : (output ++ [job.extent output.length]).length = output.length + 1 := by simp
  constructor
  · rw [hlength]
    exact h.shared.advance hi
  · rw [hlength, List.range_succ, List.map_append, ← h.output_eq]
    rfl
  · intro k hk
    rw [hlength] at hk
    rcases Nat.lt_succ_iff_lt_or_eq.mp hk with hlt | rfl
    · exact h.inside k hlt
    · exact hinside

namespace Accounts

variable {job : Job} {s s' : State n} {ledger : Ledger n} {low low' : Nat} {i : Fin n}
    {st : Station}

/-! ### One worker moves -/

theorem channel_next (h : Accounts job s ledger low) (i : Fin n) :
    Channel job (next i) (ledger (next i)).received ((ledger i).sent + 2 * lap (next i))
      (s.queues (next i)) := by
  have hchannel := h.channel (next i)
  rwa [Ledger.supply, previous_next] at hchannel

theorem taken_of_eq (h : Accounts job s ledger low) (htook : st.took = (ledger i).took) :
    IsShared low (Function.update (fun j => (ledger j).took) i st.took) := by
  rw [htook]
  exact (Function.update_eq_self i fun j => (ledger j).took).symm ▸ h.taken

theorem written_of_eq (h : Accounts job s ledger low) (hwrote : st.wrote = (ledger i).wrote) :
    IsWritten job s.output (Function.update (fun j => (ledger j).wrote) i st.wrote) := by
  rw [hwrote]
  exact (Function.update_eq_self i fun j => (ledger j).wrote).symm ▸ h.written

/-- A ledger after one worker has moved: its queue and that of the next worker are told by the new
station, and all else is as before. -/
theorem move (h : Accounts job s ledger low) (hn : 2 ≤ n) {w : Worker}
    (hworkers : s'.workers = Function.update s.workers i w) (hshows : st.Shows job i w)
    (hin : Channel job i st.received (ledger.supply i) (s'.queues i))
    (hout : Channel job (next i) (ledger (next i)).received (st.sent + 2 * lap (next i))
      (s'.queues (next i)))
    (hother : ∀ j, j ≠ i → j ≠ next i → s'.queues j = s.queues j)
    (htaken : IsShared low' (Function.update (fun j => (ledger j).took) i st.took))
    (hwritten : IsWritten job s'.output (Function.update (fun j => (ledger j).wrote) i st.wrote))
    (hshutdown : Shutdown (Function.update ledger i st)) :
    Accounts job s' (Function.update ledger i st) low' := by
  constructor
  · intro j
    rw [hworkers]
    by_cases hj : j = i
    · subst hj
      rwa [Function.update_self, Function.update_self]
    · rw [Function.update_of_ne hj, Function.update_of_ne hj]
      exact h.shows j
  · intro j
    by_cases hj : j = i
    · subst hj
      rw [Ledger.supply, Function.update_self, Function.update_of_ne (previous_ne_self hn j)]
      exact hin
    · by_cases hj' : j = next i
      · subst hj'
        rw [Ledger.supply, previous_next, Function.update_self, Function.update_of_ne hj]
        exact hout
      · -- neither the worker nor the one before it has moved
        have hprevious : previous j ≠ i := by
          rintro rfl
          exact hj' (next_previous j).symm
        rw [Ledger.supply, Function.update_of_ne hj, Function.update_of_ne hprevious,
          hother j hj hj']
        exact h.channel j
  · have hupdate : (fun j => (Function.update ledger i st j).took) =
        Function.update (fun j => (ledger j).took) i st.took :=
          Function.comp_update Station.took ledger i st
    rwa [hupdate]
  · have hupdate : (fun j => (Function.update ledger i st j).wrote) =
        Function.update (fun j => (ledger j).wrote) i st.wrote :=
      Function.comp_update Station.wrote ledger i st
    rwa [hupdate]
  · exact hshutdown

/-- The ledger after a step: the worker that made the step has moved on. -/
def Moves (job : Job) (s' : State n) (ledger : Ledger n) (i : Fin n) : Prop :=
  ∃ st low', Accounts job s' (Function.update ledger i st) low' ∧ (ledger i).progress < st.progress

/-- A worker moves on with its block, without a token. -/
theorem move_alone (h : Accounts job s ledger low) (hn : 2 ≤ n) (stage' : Stage) {w : Worker}
    {stage : Stage} (hstage : (ledger i).stage = stage)
    (hcounts : stage'.received = stage.received ∧ stage'.sent = stage.sent ∧
      stage'.took = stage.took ∧ stage.rank < stage'.rank)
    (hworkers : s'.workers = Function.update s.workers i w) (hqueues : s'.queues = s.queues)
    (hshows : Station.Shows job i ⟨(ledger i).round, stage'⟩ w)
    (hwritten : IsWritten job s'.output
      (Function.update (fun j => (ledger j).wrote) i (Station.wrote ⟨(ledger i).round, stage'⟩)))
    (hshutdown : Shutdown (Function.update ledger i ⟨(ledger i).round, stage'⟩)) :
    Moves job s' ledger i := by
  obtain ⟨hreceived, hsent, htook, hrank⟩ := hcounts
  refine ⟨⟨(ledger i).round, stage'⟩, low,
    h.move hn hworkers hshows ?_ ?_ ?_ (h.taken_of_eq ?_) hwritten hshutdown, ?_⟩
  · have hchannel := h.channel i
    rw [Station.received, hstage] at hchannel
    rwa [hqueues, Station.received, hreceived]
  · have hchannel := h.channel_next i
    rw [Station.sent, hstage] at hchannel
    rwa [hqueues, Station.sent, hsent]
  · intro j _ _
    rw [hqueues]
  · rw [Station.took, Station.took, hstage, htook]
  · rw [Station.progress, Station.progress, hstage]
    exact Nat.add_lt_add_left hrank _

/-- A worker takes a token and moves on with its block. -/
theorem move_take (h : Accounts job s ledger low) (hn : 2 ≤ n) (stage' : Stage) {w : Worker}
    {token : Token} {q : List Token} {stage : Stage} (hqueue : s.queues i = token :: q)
    (hstage : (ledger i).stage = stage)
    (hcounts : stage'.received = stage.received + 1 ∧ stage'.sent = stage.sent ∧
      stage'.wrote = stage.wrote ∧ stage.rank < stage'.rank)
    (hshows : Station.Shows job i ⟨(ledger i).round, stage'⟩ w)
    (htaken : IsShared low'
      (Function.update (fun j => (ledger j).took) i (Station.took ⟨(ledger i).round, stage'⟩)))
    (hshutdown : Shutdown (Function.update ledger i ⟨(ledger i).round, stage'⟩)) :
    Moves job ((s.setWorker i w).setQueue i q) ledger i := by
  obtain ⟨hreceived, hsent, hwrote, hrank⟩ := hcounts
  refine ⟨⟨(ledger i).round, stage'⟩, low',
    h.move hn (w := w) (by simp) hshows ?_ ?_ ?_ htaken (h.written_of_eq ?_) hshutdown, ?_⟩
  · have hchannel := h.channel i
    rw [hqueue, Station.received, hstage] at hchannel
    rw [queues_setQueue, Function.update_self, Station.received, hreceived]
    exact hchannel.take.2
  · have hchannel := h.channel_next i
    rw [Station.sent, hstage] at hchannel
    rwa [queues_setQueue, Function.update_of_ne (next_ne_self hn i), Station.sent, hsent]
  · intro j hj _
    rw [queues_setQueue, Function.update_of_ne hj, queues_setWorker]
  · rw [Station.wrote, Station.wrote, hstage, hwrote]
  · rw [Station.progress, Station.progress, hstage]
    exact Nat.add_lt_add_left hrank _

/-- A ledger after a worker has handed on a token. -/
theorem move_hand (h : Accounts job s ledger low) (hn : 2 ≤ n) {w : Worker} {token : Token}
    (hshows : st.Shows job i w) (hreceived : st.received = (ledger i).received)
    (hsent : st.sent = (ledger i).sent + 1) (htook : st.took = (ledger i).took)
    (hwrote : st.wrote = (ledger i).wrote)
    (htoken : token = tokenAt job (next i) ((ledger i).sent + 2 * lap (next i)))
    (hshutdown : Shutdown (Function.update ledger i st)) :
    Accounts job ((s.setWorker i w).setQueue (next i) (s.queues (next i) ++ [token]))
      (Function.update ledger i st) low := by
  refine h.move hn (by simp) hshows ?_ ?_ ?_ (h.taken_of_eq htook) (h.written_of_eq hwrote)
    hshutdown
  · rw [queues_setQueue, Function.update_of_ne (next_ne_self hn i).symm, hreceived]
    exact h.channel i
  · rw [queues_setQueue, Function.update_self, hsent, htoken, Nat.add_right_comm]
    exact (h.channel_next i).hand
  · intro j _ hj
    rw [queues_setQueue, Function.update_of_ne hj, queues_setWorker]

/-! ### Steps, stage by stage -/

theorem running_of_stage {stage : Stage} (hstage : (ledger i).stage = stage)
    (hrunning : stage.hasEnded = false) : (ledger i).stage.hasEnded = false := by
  rw [hstage, hrunning]

/-- A worker without a block takes a block token. -/
theorem step_idle (h : Accounts job s ledger low) (hn : 2 ≤ n) (hstage : (ledger i).stage = .idle)
    {token : Token} {q : List Token} (hqueue : s.queues i = token :: q) :
    Moves job ((s.setWorker i ((s.workers i).take job token)).setQueue i q) ledger i := by
  have hchannel := h.channel i
  rw [hqueue] at hchannel
  have hreceived : (ledger i).received = 2 * (ledger i).round := by
    simp [Station.received, hstage]
  have hlt : (ledger i).received < ledger.supply i := by
    have hlength : q.length + 1 = _ := hchannel.length_eq
    omega
  have htoken : token = .block (job.startOf (numberAt i (ledger i).round)) := by
    rw [hchannel.take.1, hreceived, tokenAt_even]
  have hturn := h.numberAt_eq_low hstage hlt
  have htook : (ledger i).took = (ledger i).round := by simp [Station.took, hstage]
  -- whether or not the block is one of the data, the token counts as taken
  have htaken : IsShared (low + 1)
      (Function.update (fun j => (ledger j).took) i ((ledger i).round + 1)) := by
    have hadvance := h.taken.advance (i := i) (by rw [htook, hturn])
    rwa [htook] at hadvance
  have hshutdown : ∀ stage : Stage, stage ≠ .dropped → stage ≠ .cutOff →
      Shutdown (Function.update ledger i ⟨(ledger i).round, stage⟩) := fun _ hdropped hcutOff =>
    h.shutdown.update_of_ne (running_of_stage hstage rfl) hdropped hcutOff
  have hunwritten : (s.workers i).unwritten = [] := (h.shows i).unwritten_of_stage hstage
  subst htoken
  by_cases hinside : job.startOf (numberAt i (ledger i).round) < job.total
  · refine h.move_take hn .passing hqueue hstage (by decide) ?_ htaken
      (hshutdown _ (by decide) (by decide))
    rw [Worker.take, if_pos hinside]
    refine ⟨rfl, ?_, ?_, fun _ => hinside, by rintro ⟨⟩⟩
    · simp only [hunwritten]
      rfl
    · rintro (h' | h') <;> cases h'
  · refine h.move_take hn .atEnd hqueue hstage (by decide) ?_ htaken
      (hshutdown _ (by decide) (by decide))
    rw [Worker.take, if_neg hinside]
    refine ⟨rfl, hunwritten, ?_, by rintro ⟨⟩, fun _ => Nat.le_of_not_lt hinside⟩
    rintro (h' | h') <;> cases h'

/-- A worker with a listed block takes a flush token. -/
theorem step_ready (h : Accounts job s ledger low) (hn : 2 ≤ n) (hstage : (ledger i).stage = .ready)
    {token : Token} {q : List Token} (hqueue : s.queues i = token :: q) :
    Moves job ((s.setWorker i ((s.workers i).take job token)).setQueue i q) ledger i := by
  have hchannel := h.channel i
  rw [hqueue] at hchannel
  have hshows := h.shows i
  have hunwritten := hshows.unwritten_of_stage hstage
  have htoken : token = .flush := by
    rw [hchannel.take.1, Station.received, hstage, Stage.received, tokenAt_odd]
  subst htoken
  refine h.move_take hn .writing hqueue hstage (by decide) ?_ (h.taken_of_eq ?_)
    (h.shutdown.update_of_ne (running_of_stage hstage rfl) (by decide) (by decide))
  · exact ⟨rfl, hunwritten, fun _ => hshows.listed (.inl hstage),
      fun _ => hshows.inside_of_stage hstage rfl, by rintro ⟨⟩⟩
  · simp [Station.took, hstage]

/-- A worker ends since no token can come any more. -/
theorem step_cutOff (h : Accounts job s ledger low) (hn : 2 ≤ n)
    (hphase : (s.workers i).phase = .waiting) (hqueue : s.queues i = [])
    (hended : (s.workers (previous i)).hasEnded = true) :
    Moves job (s.setWorker i ((s.workers i).inPhase .ended)) ledger i := by
  rw [h.hasEnded_eq] at hended
  have hstage := h.idle_of_cutOff hphase hqueue hended
  have hunwritten := (h.shows i).unwritten_of_stage hstage
  refine h.move_alone hn .cutOff hstage (by decide) (workers_setWorker ..) rfl ?_
    (h.written_of_eq ?_)
    (h.shutdown.update (running_of_stage hstage rfl) (by rintro ⟨⟩) fun _ => hended)
  · refine ⟨rfl, hunwritten, ?_, by rintro ⟨⟩, by rintro ⟨⟩⟩
    rintro (h' | h') <;> cases h'
  · simp [Station.wrote, hstage]

/-- A worker hands on the block token: its receiver has not ended, and there is room in the
queue. -/
theorem step_passing (h : Accounts job s ledger low) (hn : 2 ≤ n)
    (hstage : (ledger i).stage = .passing)
    (hstep : s.handOn i (.block (job.extent (numberAt i (ledger i).round)).stop)
      (.listing (job.extent (numberAt i (ledger i).round))) = some s') : Moves job s' ledger i := by
  have hshows := h.shows i
  have hunwritten := hshows.unwritten_of_stage hstage
  have hended : (s.workers (next i)).hasEnded = false := by
    rw [h.hasEnded_eq, Bool.eq_false_iff]
    intro hended
    obtain ⟨e, he⟩ := h.shutdown.atEnd _ hended
    exact h.not_atEnd_of_passing hstage e he
  rw [handOn_of_running hended (h.isFull_eq_false (.inl hstage))] at hstep
  obtain rfl := Option.some.inj hstep
  refine ⟨⟨(ledger i).round, .listing⟩, low, ?_, ?_⟩
  · refine h.move_hand hn ?_ ?_ ?_ ?_ ?_ ?_ ?_
    · refine ⟨rfl, hunwritten, ?_, fun _ => hshows.inside_of_stage hstage rfl, by rintro ⟨⟩⟩
      rintro (h' | h') <;> cases h'
    · simp [Station.received, hstage]
    · simp [Station.sent, hstage]
    · simp [Station.took, hstage]
    · simp [Station.wrote, hstage]
    · -- the block after the worker's own one is the one that the next worker waits for
      have hnumber := numberAt_lap (next i) (ledger i).round
      rw [previous_next] at hnumber
      rw [Station.sent, hstage, Stage.sent, Nat.add_zero, ← Nat.mul_add, tokenAt_even, hnumber]
      rfl
    · exact h.shutdown.update_of_ne (running_of_stage hstage rfl) (by decide) (by decide)
  · simp [Station.progress, hstage]

theorem step_listing (h : Accounts job s ledger low) (hn : 2 ≤ n)
    (hstage : (ledger i).stage = .listing) :
    Moves job (s.setWorker i { s.workers i with
      phase := .waiting, listed := some (job.extent (numberAt i (ledger i).round)) }) ledger i := by
  have hshows := h.shows i
  have hunwritten := hshows.unwritten_of_stage hstage
  refine h.move_alone hn .ready hstage (by decide) (workers_setWorker ..) rfl ?_
    (h.written_of_eq ?_)
    (h.shutdown.update_of_ne (running_of_stage hstage rfl) (by decide) (by decide))
  · exact ⟨rfl, hunwritten, fun _ => rfl, fun _ => hshows.inside_of_stage hstage rfl, by rintro ⟨⟩⟩
  · simp [Station.wrote, hstage]

/-- A worker writes its block, which is the next one. -/
theorem step_writing (h : Accounts job s ledger low) (hn : 2 ≤ n)
    (hstage : (ledger i).stage = .writing) :
    Moves job { s.setWorker i { s.workers i with phase := .flushing, unwritten := [] } with
      output := s.output ++ (s.workers i).listed.toList } ledger i := by
  have hshows := h.shows i
  have hturn := h.numberAt_eq_length hstage
  have hwrote : (ledger i).wrote = (ledger i).round := by simp [Station.wrote, hstage]
  have hinside : job.startOf s.output.length < job.total := by
    rw [← hturn]
    exact hshows.inside_of_stage hstage rfl
  refine h.move_alone hn .flushing hstage (by decide) (workers_setWorker ..) rfl ?_ ?_
    (h.shutdown.update_of_ne (running_of_stage hstage rfl) (by decide) (by decide))
  · refine ⟨rfl, rfl, ?_, by rintro ⟨⟩, by rintro ⟨⟩⟩
    rintro (h' | h') <;> cases h'
  · have hadvance := h.written.advance (i := i) (by rw [hwrote, hturn]) hinside
    rw [hwrote] at hadvance
    simp only [hshows.listed (.inr hstage), hturn]
    exact hadvance

/-- A worker hands on the flush token, or ends if its receiver has ended. -/
theorem step_flushing (h : Accounts job s ledger low) (hn : 2 ≤ n)
    (hstage : (ledger i).stage = .flushing)
    (hstep : s.handOn i .flush .waiting = some s') : Moves job s' ledger i := by
  have hunwritten := (h.shows i).unwritten_of_stage hstage
  cases hended : (s.workers (next i)).hasEnded with
  | true =>
    rw [handOn_of_ended hended] at hstep
    obtain rfl := Option.some.inj hstep
    rw [h.hasEnded_eq] at hended
    have hatEnd := h.atEnd_of_flushing hn hstage hended
    refine h.move_alone hn .dropped hstage (by decide) (workers_setWorker ..) rfl ?_
      (h.written_of_eq ?_)
      (h.shutdown.update (running_of_stage hstage rfl) (fun _ => hatEnd) (by rintro ⟨⟩))
    · refine ⟨rfl, hunwritten, ?_, by rintro ⟨⟩, by rintro ⟨⟩⟩
      rintro (h' | h') <;> cases h'
    · simp [Station.wrote, hstage]
  | false =>
    rw [handOn_of_running hended (h.isFull_eq_false (.inr hstage))] at hstep
    obtain rfl := Option.some.inj hstep
    -- the worker is done with its block
    refine ⟨⟨(ledger i).round + 1, .idle⟩, low, ?_, ?_⟩
    · refine h.move_hand hn ?_ ?_ ?_ ?_ ?_ ?_ ?_
      · refine ⟨rfl, hunwritten, ?_, by rintro ⟨⟩, by rintro ⟨⟩⟩
        rintro (h' | h') <;> cases h'
      · simp [Station.received, hstage, Nat.mul_add]
      · simp [Station.sent, hstage, Nat.mul_add]
      · simp [Station.took, hstage]
      · simp [Station.wrote, hstage]
      · rw [Station.sent, hstage, Stage.sent, Nat.add_right_comm, ← Nat.mul_add, tokenAt_odd]
      · exact h.shutdown.update_of_ne (running_of_stage hstage rfl) (by decide) (by decide)
    · simp [Station.progress, hstage]
      omega

/-- Each step moves one worker on in the ledger. -/
theorem step (h : Accounts job s ledger low) (hn : 2 ≤ n) (hstep : s.step? job i = some s') :
    Moves job s' ledger i := by
  have hphase := (h.shows i).phase
  have htake : (ledger i).stage = .idle ∨ (ledger i).stage = .ready →
      s.takeToken job i = some s' → Moves job s' ledger i := by
    intro hstage hstep
    simp only [State.takeToken] at hstep
    split at hstep
    · rename_i token q hqueue
      obtain rfl := Option.some.inj hstep
      rcases hstage with hstage | hstage
      · exact h.step_idle hn hstage hqueue
      · exact h.step_ready hn hstage hqueue
    · rename_i hqueue
      split at hstep
      · rename_i hended
        obtain rfl := Option.some.inj hstep
        refine h.step_cutOff hn ?_ hqueue hended
        rcases hstage with hstage | hstage <;> rw [hphase, hstage] <;> rfl
      · cases hstep
  cases hstage : (ledger i).stage with
  | idle | ready =>
    rw [hstage] at hphase
    simp only [step?, hphase, Stage.phase] at hstep
    exact htake (by simp [hstage]) hstep
  | passing =>
    rw [hstage] at hphase
    simp only [step?, hphase, Stage.phase] at hstep
    exact h.step_passing hn hstage hstep
  | listing =>
    rw [hstage] at hphase
    simp only [step?, hphase, Stage.phase, Option.some.injEq] at hstep
    exact hstep ▸ h.step_listing hn hstage
  | writing =>
    rw [hstage] at hphase
    simp only [step?, hphase, Stage.phase, Option.some.injEq] at hstep
    exact hstep ▸ h.step_writing hn hstage
  | flushing =>
    rw [hstage] at hphase
    simp only [step?, hphase, Stage.phase] at hstep
    exact h.step_flushing hn hstage hstep
  | atEnd | dropped | cutOff =>
    rw [hstage] at hphase
    simp only [step?, hphase, Stage.phase] at hstep
    cases hstep

/-! ### Where no step is enabled -/

/-- A worker that is to hand on a token can always do so. -/
theorem isSome_handOn (h : Accounts job s ledger low)
    (hstage : (ledger i).stage = .passing ∨ (ledger i).stage = .flushing) (token : Token)
    (after : Phase) :
    s.handOn i token after ≠ none := by
  cases hended : (s.workers (next i)).hasEnded with
  | true => simp [handOn_of_ended hended]
  | false => simp [handOn_of_running hended (h.isFull_eq_false hstage)]

/-- A worker that cannot go on has ended, or it waits for a token of a worker that has not. -/
theorem waits_of_stuck (h : Accounts job s ledger low) (hstuck : s.step? job i = none) :
    (ledger i).stage.hasEnded = true ∨
      ((ledger i).stage = .idle ∨ (ledger i).stage = .ready) ∧ s.queues i = [] ∧
        (ledger (previous i)).stage.hasEnded = false := by
  have hphase := (h.shows i).phase
  have hwait : s.takeToken job i = none →
      s.queues i = [] ∧ (ledger (previous i)).stage.hasEnded = false := by
    intro htake
    simp only [State.takeToken] at htake
    split at htake
    · cases htake
    · rename_i hqueue
      split at htake
      · cases htake
      · rename_i hended
        rw [h.hasEnded_eq] at hended
        exact ⟨hqueue, by simpa using hended⟩
  cases hstage : (ledger i).stage with
  | idle | ready =>
    rw [hstage] at hphase
    simp only [step?, hphase, Stage.phase] at hstuck
    exact .inr ⟨by simp, hwait hstuck⟩
  | passing | flushing =>
    rw [hstage] at hphase
    simp only [step?, hphase, Stage.phase] at hstuck
    exact absurd hstuck (h.isSome_handOn (by simp [hstage]) _ _)
  | listing | writing =>
    rw [hstage] at hphase
    simp only [step?, hphase, Stage.phase] at hstuck
    cases hstuck
  | atEnd | dropped | cutOff => exact .inl rfl

/-- Not all workers wait: one of them has a token in its queue. -/
theorem exists_ended_of_stuck (h : Accounts job s ledger low) (hn : 2 ≤ n)
    (hstuck : ∀ i, s.step? job i = none) : ∃ i, (ledger i).stage.hasEnded = true := by
  by_contra hnone
  have hwaits : ∀ i, ((ledger i).stage = .idle ∨ (ledger i).stage = .ready) ∧ s.queues i = [] := by
    intro i
    rcases h.waits_of_stuck (hstuck i) with hended | ⟨hstage, hqueue, -⟩
    · exact absurd ⟨i, hended⟩ hnone
    · exact ⟨hstage, hqueue⟩
  -- the worker whose turn it is to take a block token was handed one
  obtain ⟨i, hi⟩ := h.taken.exists_numberAt_eq (by omega)
  have hturn := (h.taken.numberAt_eq_iff i).mp hi
  have hchannel := h.channel i
  rw [(hwaits i).2] at hchannel
  have heq := hchannel.eq_of_nil
  have hreceived : (ledger i).received ≤ 2 * (ledger i).took := by
    rcases (hwaits i).1 with hstage | hstage <;>
      simp only [Station.received, Station.took, hstage, Stage.received, Stage.took] <;> omega
  have hsent : 2 * (ledger (previous i)).took ≤ (ledger (previous i)).sent + 1 := by
    rcases (hwaits (previous i)).1 with hstage | hstage <;>
      simp only [Station.sent, Station.took, hstage, Stage.sent, Stage.took] <;> omega
  rw [Ledger.supply] at heq
  omega

/-- The ring does not deadlock. -/
theorem hasEnded_of_stuck (h : Accounts job s ledger low) (hn : 2 ≤ n)
    (hstuck : ∀ i, s.step? job i = none) (i : Fin n) : (ledger i).stage.hasEnded = true := by
  obtain ⟨e, he⟩ := h.exists_ended_of_stuck hn hstuck
  -- who comes after a worker that has ended cannot wait for it
  refine forall_of_next (p := fun j => (ledger j).stage.hasEnded = true) ?_ he i
  intro j hj
  rcases h.waits_of_stuck (hstuck (next j)) with hended | ⟨-, -, hprevious⟩
  · exact hended
  · rw [previous_next, hj] at hprevious
    cases hprevious

/-- Where all workers have ended, all blocks are written. -/
theorem output_of_ended (h : Accounts job s ledger low) (hjob : job.Progresses) (hn : 2 ≤ n)
    (hended : ∀ i, (ledger i).stage.hasEnded = true) : s.output = job.blocks := by
  obtain ⟨e, he⟩ := h.shutdown.atEnd ⟨0, by omega⟩ (hended _)
  have hlow := (h.low_eq (.inr he)).1
  have houtside := (h.shows e).outside he
  -- the block that would be written next is the one that was not found in the data
  have hlength : s.output.length = numberAt e (ledger e).round := by
    obtain ⟨j, hj⟩ := h.written.shared.exists_numberAt_eq (by omega)
    have hboth : (ledger j).took = (ledger j).wrote → low ≤ s.output.length := by
      intro heq
      have hle := h.taken.le j
      simp only [heq, hj] at hle
      exact hle
    -- a block behind the end of the data is never written
    have hlate : ¬ low ≤ s.output.length := by
      intro hle
      have hinside := h.written.inside (numberAt e (ledger e).round) (by omega)
      omega
    have hlast := hended j
    cases hstage : (ledger j).stage with
    | atEnd =>
      have hlow' := (h.low_eq (.inr hstage)).1
      simp only [Station.wrote, hstage, Stage.wrote, Nat.add_zero] at hj
      omega
    | dropped | cutOff =>
      refine absurd (hboth ?_) hlate
      simp [Station.took, Station.wrote, hstage]
    | _ =>
      rw [hstage] at hlast
      cases hlast
  rw [Job.blocks_eq_append hjob h.written.inside, ← h.written.output_eq, hlength,
    Job.blocksFrom_of_le houtside, List.append_nil]

theorem output_prefix (h : Accounts job s ledger low) (hjob : job.Progresses) :
    s.output <+: job.blocks := by
  rw [Job.blocks_eq_append hjob h.written.inside, ← h.written.output_eq]
  exact List.prefix_append _ _

/-- Who gets a flush token has one block that is not written, and has listed it. -/
theorem unwritten_of_flush (h : Accounts job s ledger low) {q : List Token}
    (hphase : (s.workers i).phase = .waiting) (hqueue : s.queues i = .flush :: q) :
    ∃ e, (s.workers i).unwritten = [e] ∧ (s.workers i).listed = some e := by
  have hshows := h.shows i
  have hchannel := h.channel i
  rw [hqueue] at hchannel
  have htoken := hchannel.take.1
  rw [hshows.phase] at hphase
  cases hstage : (ledger i).stage with
  -- the tokens of a queue alternate, so a worker without a block gets none of these
  | idle =>
    rw [Station.received, hstage, Stage.received, Nat.add_zero, tokenAt_even] at htoken
    cases htoken
  | ready =>
    exact ⟨_, hshows.unwritten_of_stage hstage, hshows.listed (.inl hstage)⟩
  | _ =>
    rw [hstage] at hphase
    cases hphase

end Accounts

/-! ### Schedules -/

namespace State

/-- How many steps of a schedule were enabled. -/
def stepCount (job : Job) : List (Fin n) → State n → Nat
  | [], _ => 0
  | i :: is, s =>
    match s.step? job i with
    | none => stepCount job is s
    | some s' => stepCount job is s' + 1

end State

namespace Accounts

variable {job : Job} {s : State n} {ledger : Ledger n} {low : Nat}

/-- A ledger can be kept along every schedule, and each enabled step moves a worker on. -/
theorem run (h : Accounts job s ledger low) (hn : 2 ≤ n) (schedule : List (Fin n)) :
    ∃ ledger' low', Accounts job (State.run job schedule s) ledger' low' ∧
      stepCount job schedule s + ∑ i, (ledger i).progress ≤ ∑ i, (ledger' i).progress := by
  induction schedule generalizing s ledger low with
  | nil => exact ⟨ledger, low, h, by simp [stepCount]⟩
  | cons i is ih =>
    rw [State.run, stepCount]
    cases hstep : s.step? job i with
    | none => exact ih h
    | some s' =>
      obtain ⟨st, low', h', hprogress⟩ := h.step hn hstep
      obtain ⟨ledger', low'', hrun, hcount⟩ := ih h'
      -- one worker has moved on and all others stay where they are
      have hlt : ∑ j, (ledger j).progress < ∑ j, (Function.update ledger i st j).progress := by
        refine Finset.sum_lt_sum (fun j _ => ?_)
          ⟨i, Finset.mem_univ i, by rwa [Function.update_self]⟩
        by_cases hj : j = i
        · subst hj
          rw [Function.update_self]
          exact Nat.le_of_lt hprogress
        · rw [Function.update_of_ne hj]
      refine ⟨ledger', low'', hrun, ?_⟩
      simp only
      omega

/-- Workers cannot move on for ever: there are only so many blocks. -/
theorem progress_le (h : Accounts job s ledger low) (hjob : job.Progresses) :
    ∑ i, (ledger i).progress ≤ n * (6 * job.blocks.length + 6) := by
  have hlength := (h.output_prefix hjob).length_le
  have hle : ∀ i, (ledger i).progress ≤ 6 * job.blocks.length + 6 := by
    intro i
    -- a worker is done with no more blocks than are written
    have hwrote := h.written.shared.le_low i
    have hrank : (ledger i).stage.rank ≤ 6 := by cases (ledger i).stage <;> decide
    simp only [Station.wrote] at hwrote
    rw [Station.progress]
    omega
  calc ∑ i, (ledger i).progress ≤ ∑ _i : Fin n, (6 * job.blocks.length + 6) :=
        Finset.sum_le_sum fun i _ => hle i
    _ = n * (6 * job.blocks.length + 6) := by simp

end Accounts

/-- The ring writes all blocks in order and does not deadlock. After any steps of any number of
workers, at least two, the blocks that are written are the first ones; who takes a flush token has
exactly one block that is not written, and its listing; no token is handed on to a queue without
room; and where no step is enabled all workers have ended and all blocks are written. Such a state
is reached, since no schedule has more than a bounded number of enabled steps. -/
theorem ring_writes_blocks (job : Job) (hjob : job.Progresses) (hn : 2 ≤ n)
    (schedule : List (Fin n)) :
    let s := State.run job schedule (State.initial n)
    s.output <+: job.blocks ∧
      (∀ i q, (s.workers i).phase = .waiting → s.queues i = .flush :: q →
        ∃ e, (s.workers i).unwritten = [e] ∧ (s.workers i).listed = some e) ∧
      (∀ i, (∃ e, (s.workers i).phase = .passing e) ∨ (s.workers i).phase = .flushing →
        s.isFull i = false) ∧
      ((∀ i, s.step? job i = none) →
        (∀ i, (s.workers i).hasEnded = true) ∧ s.output = job.blocks) ∧
      State.stepCount job schedule (State.initial n) ≤ n * (6 * job.blocks.length + 6) := by
  intro s
  obtain ⟨ledger, low, h, hcount⟩ := (Accounts.initial job).run hn schedule
  refine ⟨h.output_prefix hjob, fun i q => h.unwritten_of_flush, ?_, ?_, ?_⟩
  · intro i hphase
    apply h.isFull_eq_false
    rw [(h.shows i).phase] at hphase
    cases hstage : (ledger i).stage <;> simp_all
  · intro hstuck
    have hended := h.hasEnded_of_stuck hn hstuck
    refine ⟨fun i => ?_, h.output_of_ended hjob hn hended⟩
    rw [h.hasEnded_eq, hended i]
  · have hle := h.progress_le hjob
    omega

/-- A job with two blocks. -/
def Job.pair : Job := ⟨3, fun start => if start = 0 then 2 else 1⟩

/-- Two workers list two blocks. The second one has listed its block before the first one has, and
the first one ends before the second has written its block. -/
theorem ring_writes_blocks_pair :
    let s : State 2 := State.run .pair [0, 0, 1, 1, 1, 0, 0, 0, 0, 1, 0, 1, 1] (State.initial 2)
    Job.pair.Progresses ∧ (∀ i, s.step? .pair i = none) ∧ s.output = [⟨0, 2⟩, ⟨2, 1⟩] ∧
      s.output = Job.pair.blocks := by
  have hjob : Job.pair.Progresses := by
    intro start h
    change start < 3 at h
    simp only [Job.pair]
    split <;> omega
  have hruns :=
    ring_writes_blocks .pair hjob (Nat.le_refl 2) [0, 0, 1, 1, 1, 0, 0, 0, 0, 1, 0, 1, 1]
  intro s
  have hstuck : ∀ i, s.step? .pair i = none := fun
    | 0 => rfl
    | 1 => rfl
  exact ⟨hjob, hstuck, rfl, (hruns.2.2.2.1 hstuck).2⟩

end LengthDisasm.Ring
