import Vllm.Proofs.Worker.UbatchThreads
import Mathlib.Tactic.FinCases

/-!
# `Vllm.Proofs.Worker.UbatchTurns`: the threads of the micro-batches take turns

The segments of the two threads are numbered together: thread 0 has the even numbers, thread 1 the
odd ones. `Token` says who has the turn, and it carries everything else:

* `main`: nobody yet, the main thread has not set the first event;
* `flag m`: the event of the thread of segment `m` is set, the other one is not, and no thread is
  between its `wait` and its `set`;
* `holds m`: that thread is between them, and its event is only set until it clears it;
* `finished`: both are through. What the last `set` and the `clear` of thread 0 leave in the event of
  thread 0 depends on their order, and nobody reads it any more.

`MainOk` has the facts about the barrier, the starts and the joins. `StepFacts` says what one
operation of a thread does; `Inv.thread` and `Inv.mainThread` are the step lemmas. No thread is
stuck, and each operation makes `remaining` smaller: that every run ends is in `UbatchRun`.
-/

set_option autoImplicit false

namespace Vllm.Proofs.Worker.Ubatching

open Vllm.Lib Vllm.V1.Worker.Ubatching Function

variable {φ : Type} {k : Nat} {c : Fin 2 → φ} {s s' : State φ} {i : Fin 2}

/-! ### One operation of a thread -/

/-- The state after an operation of a thread. -/
def afterStep (c : Fin 2 → φ) (s : State φ) (i : Fin 2) (t : Thread) (instr : Instr) : State φ where
  threads := update s.threads i t
  main := s.main
  events :=
    if instr = .clear then update s.events i false
    else if instr = .setSignal then update s.events (i + 1) true
    else s.events
  forwardContext := if instr = .restoreContext then some (c i) else s.forwardContext
  prevContext := s.prevContext
  arrived := if instr = .barrierArrive then s.arrived + 1 else s.arrived
  registered :=
    if instr = .register then update s.registered i true
    else if instr = .unregister then update s.registered i false
    else s.registered
  results := if instr = .appendResult then s.results ++ [i] else s.results
  log :=
    if instr = .restoreContext then s.log ++ [⟨i, (s.threads i).segment, false⟩]
    else if instr = .setSignal then s.log ++ [⟨i, (s.threads i).segment, true⟩]
    else s.log

/-- The operations that a thread still has to do. The last part is for `__exit__`. -/
def remaining (t : Thread) : Nat :=
  t.code.length + (t.methods.map fun m => m.code.length + 1).sum + if t.left then 0 else 6

/-- What an operation changes in the thread. A call, and the start of `__exit__`, are like
`work`. -/
structure ThreadFacts (t t' : Thread) (instr : Instr) : Prop where
  ok : ThreadOk t'
  phase : phaseStep instr (phase t) (phase t') = true
  waits : waits t = waits t' + if instr = .wait then 1 else 0
  arrivals : arrivals t'.code = arrivals t.code + if instr = .barrierArrive then 1 else 0
  given : given t'.left t'.code = given t.left t.code + if instr = .appendResult then 1 else 0
  register : t'.left = false → .register ∉ t'.code →
    instr = .register ∨ t.left = false ∧ .register ∉ t.code
  unregister : instr = .unregister → t'.left = true
  segment : t'.segment = t.segment + if instr = .setSignal then 1 else 0
  started : t'.started = t.started
  goes : t.ended = false
  remaining : remaining t' < remaining t

/-- An operation of a thread, that did not block. -/
structure StepFacts (c : Fin 2 → φ) (s s' : State φ) (i : Fin 2) (instr : Instr) (t : Thread) :
    Prop where
  eq : s' = afterStep c s i t instr
  wait : instr = .wait → s.events i = true
  thread : ThreadFacts (s.threads i) t instr

section Exec

/-- The thread goes on with the rest of the function. -/
theorem threadFacts_instr {t : Thread} {instr : Instr} {rest : List Instr} (hok : ThreadOk t)
    (hcode : t.code = instr :: rest) :
    ThreadFacts t (afterInstr { t with code := rest } instr) instr := by
  have hfacts := hok.facts hcode
  constructor
  · exact hok.afterInstr hcode
  · unfold phase
    rw [afterInstr_left, afterInstr_code, hcode]
    exact hfacts.phase
  · exact waits_instr hcode
  · rw [afterInstr_code, hcode]
    exact hfacts.arrivals
  · rw [afterInstr_left, afterInstr_code, hcode]
    exact hfacts.given
  · intro hleft hregister
    rw [afterInstr_left] at hleft
    rw [afterInstr_code] at hregister
    rw [hcode]
    exact (hfacts.register hleft hregister).imp_right fun h => ⟨hleft, h⟩
  · intro h
    rw [afterInstr_left]
    exact hfacts.unregister h
  · cases instr <;> rfl
  · exact afterInstr_started
  · unfold Thread.ended
    rw [hcode]
    exact Bool.and_false _
  · unfold remaining
    rw [afterInstr_code, afterInstr_methods, afterInstr_left, hcode, List.length_cons]
    dsimp only
    omega

variable [DecidableEq φ]

/-- The operation itself, when its assertion holds. -/
theorem exec_eq {t : Thread} {instr : Instr} (hsegment : t.segment = (s.threads i).segment)
    (hstream : streamAssert t instr)
    (hcontext : instr = .assertContext → s.forwardContext = some (c i))
    (hset : instr = .assertNotSet → s.events i = false)
    (h : exec (makeUbatchContexts c) s i t instr = .ok s') :
    s' = afterStep c s i (afterInstr t instr) instr ∧ (instr = .wait → s.events i = true) := by
  have hassert : ∀ {cond : Bool}, cond = true → s.assertThread i t cond = s.setThread i t := by
    rintro _ rfl
    rfl
  cases instr with
  | wait =>
    rw [exec] at h
    split at h
    · rename_i hevent
      cases h
      exact ⟨rfl, fun _ => hevent⟩
    · cases h
  | barrierLeave =>
    rw [exec] at h
    split at h
    · cases h
      exact ⟨rfl, nofun⟩
    · cases h
  | assertContext =>
    cases h
    exact ⟨hassert (decide_eq_true (hcontext rfl)), nofun⟩
  | assertStream =>
    cases h
    exact ⟨hassert (decide_eq_true hstream), nofun⟩
  | assertNotSet =>
    cases h
    exact ⟨hassert (Bool.not_eq_true' _ ▸ hset rfl), nofun⟩
  | assertCurrentStream stream =>
    cases h
    exact ⟨hassert (decide_eq_true hstream), nofun⟩
  | assertOwnStream stream =>
    cases h
    exact ⟨hassert (decide_eq_true hstream), nofun⟩
  | setSignal =>
    cases h
    refine ⟨?_, nofun⟩
    rw [hsegment]
    unfold afterStep afterInstr
    rw [hsegment]
    rfl
  | restoreContext =>
    cases h
    refine ⟨?_, nofun⟩
    rw [hsegment]
    rfl
  | _ =>
    cases h
    exact ⟨rfl, nofun⟩

theorem phaseOf_method (m : Method) : phaseOf false m.code = .running := by cases m <;> rfl

theorem register_not_mem_code (m : Method) :
    .register ∉ m.code ∧ .barrierArrive ∉ m.code := by cases m <;> decide

/-- The model calls its next method. -/
theorem threadFacts_call {t : Thread} {m : Method} {methods : List Method} (hok : ThreadOk t)
    (hcode : t.code = []) (hmethods : t.methods = m :: methods) :
    ThreadFacts t { t with
      code := m.code
      methods } .work := by
  have hleft : t.left = false := by
    by_contra hl
    rw [hok.methods (Bool.not_eq_false _ ▸ hl)] at hmethods
    cases hmethods
  constructor
  · exact hok.call hcode hmethods
  · unfold phase
    rw [hcode, hleft, phaseOf_method]
    rfl
  · unfold waits
    rw [hcode, hmethods, List.filter_cons, count_wait_code]
    split <;> simp [Nat.add_comm]
  · unfold arrivals
    rw [hcode, if_neg (register_not_mem_code m).2]
    rfl
  · unfold given
    rw [hleft]
    rfl
  · intro _ _
    rw [hcode]
    exact .inr ⟨hleft, List.not_mem_nil⟩
  · nofun
  · rfl
  · rfl
  · unfold Thread.ended
    rw [hleft]
    rfl
  · unfold remaining
    rw [hmethods, List.map_cons, List.sum_cons, hcode, List.length_nil]
    dsimp only
    omega

/-- The model has returned. -/
theorem threadFacts_leave {t : Thread} (hok : ThreadOk t) (hcode : t.code = [])
    (hmethods : t.methods = []) (hleft : t.left = false) :
    ThreadFacts t { t with
      code := exit ++ [.appendResult]
      left := true } .work := by
  constructor
  · exact hok.leave hcode hmethods
  · unfold phase
    rw [hcode, hleft]
    rfl
  · unfold waits
    rw [hcode, hmethods]
    rfl
  · rw [hcode]
    rfl
  · rw [hleft]
    rfl
  · nofun
  · nofun
  · rfl
  · rfl
  · unfold Thread.ended
    rw [hleft]
    rfl
  · unfold remaining
    rw [hcode, hmethods, hleft]
    exact (by decide : 5 < 6)

/-- A step of a thread whose assertions hold in its turn. -/
theorem threadStep_facts (hok : ThreadOk (s.threads i))
    (hregistered : (s.threads i).left = false → .register ∉ (s.threads i).code →
      s.registered i = true)
    (hturn : phase (s.threads i) = .running →
      s.forwardContext = some (c i) ∧ s.events i = false)
    (h : threadStep (makeUbatchContexts c) s i = .ok s') :
    ∃ instr t, StepFacts c s s' i instr t := by
  unfold threadStep at h
  dsimp only at h
  split at h
  · split at h
    · rename_i instr code hcode
      have hfacts := threadFacts_instr hok hcode
      have hphase := hfacts.phase
      -- The assertions are only in a segment.
      have hcontext : instr = .assertContext → phase (s.threads i) = .running := by
        rintro rfl
        cases hp : phase (s.threads i) with
        | running => rfl
        | _ =>
          rw [hp] at hphase
          cases hphase
      have hset : instr = .assertNotSet → phase (s.threads i) = .running := by
        rintro rfl
        cases hp : phase (s.threads i) with
        | running => rfl
        | _ =>
          rw [hp] at hphase
          cases hphase
      obtain ⟨heq, hwait⟩ := exec_eq (t := { s.threads i with code }) rfl
        (streams_instr hok.streams hcode).2 (fun hi => (hturn (hcontext hi)).1) (fun hi => (hturn (hset hi)).2) h
      exact ⟨instr, _, heq, hwait, hfacts⟩
    · rename_i methods hcode hmethods
      cases h
      exact ⟨.work, _, rfl, nofun, threadFacts_call hok hcode hmethods⟩
    · rename_i m methods _ hcode hmethods
      have hfacts := threadFacts_call hok hcode hmethods
      have hreg := hregistered
        (by
          have := hfacts.goes
          unfold Thread.ended at this
          rw [hcode] at this
          simpa using this)
        (hcode ▸ List.not_mem_nil)
      rw [if_pos hreg] at h
      cases h
      exact ⟨.work, _, rfl, nofun, hfacts⟩
    · rename_i hcode hmethods
      split at h
      · cases h
      · rename_i hleft
        cases h
        exact ⟨.work, _, rfl, nofun,
          threadFacts_leave hok hcode hmethods (Bool.eq_false_iff.mpr hleft)⟩
  · cases h

/-- Only an event that is not set, and the barrier, stop a thread. -/
theorem exists_exec {t : Thread} {instr : Instr} (hwait : instr = .wait → s.events i = true)
    (hbarrier : instr = .barrierLeave → s.arrived = parties) :
    ∃ s', exec (makeUbatchContexts c) s i t instr = .ok s' := by
  cases instr with
  | wait => exact ⟨_, if_pos (hwait rfl)⟩
  | barrierLeave => exact ⟨_, if_pos (hbarrier rfl)⟩
  | _ => exact ⟨_, rfl⟩

/-- A thread that was started and has not ended goes on, unless it has to wait. -/
theorem exists_threadStep (hstarted : (s.threads i).started = true)
    (hgoes : (s.threads i).ended = false)
    (hwait : (s.threads i).code.head? = some .wait → s.events i = true)
    (hbarrier : (s.threads i).code.head? = some .barrierLeave → s.arrived = parties) :
    ∃ s', threadStep (makeUbatchContexts c) s i = .ok s' := by
  unfold threadStep
  dsimp only
  rw [if_pos hstarted]
  unfold Thread.ended at hgoes
  cases hcode : (s.threads i).code with
  | cons instr code =>
    rw [hcode] at hwait hbarrier
    exact exists_exec (fun hi => hwait (congrArg some hi)) fun hi => hbarrier (congrArg some hi)
  | nil =>
    rw [hcode] at hgoes
    cases hmethods : (s.threads i).methods with
    | nil =>
      have hleft : (s.threads i).left = false := by simpa using hgoes
      dsimp only
      rw [if_neg (by rw [hleft]; decide)]
      exact ⟨_, rfl⟩
    | cons m methods =>
      cases m <;> dsimp only <;> (first | exact ⟨_, rfl⟩ | split) <;>
        (first | exact ⟨_, rfl⟩ | split) <;> exact ⟨_, rfl⟩

end Exec

/-! ### The turns -/

section Turns
variable {m : Nat}

/-- The thread of a segment. -/
def turnOf (m : Nat) : Fin 2 := ⟨m % 2, Nat.mod_lt _ (by decide)⟩

/-- The number of segments of a thread before the segment `m`. -/
def passed (m : Nat) (i : Fin 2) : Nat := (m + 1 - i) / 2

/-- The first `m` segments, in turn. -/
def turns (m : Nat) : List Mark :=
  (List.range m).flatMap fun a => [⟨turnOf a, a / 2, false⟩, ⟨turnOf a, a / 2, true⟩]

theorem turnOf_succ : turnOf (m + 1) = turnOf m + 1 := by
  apply Fin.ext
  show (m + 1) % 2 = (m % 2 + 1) % 2
  omega

theorem eq_or_other (m : Nat) (i : Fin 2) : i = turnOf m ∨ i = turnOf m + 1 := by
  generalize turnOf m = j
  revert i j
  decide

theorem zero_or_one : ∀ i : Fin 2, i = 0 ∨ i = 1 := by decide

theorem ne_other (j : Fin 2) : j + 1 ≠ j := by
  revert j
  decide

theorem other_other (j : Fin 2) : j + 1 + 1 = j := by
  revert j
  decide

theorem passed_turn : passed m (turnOf m) = m / 2 := by
  unfold passed turnOf
  dsimp only
  omega

theorem passed_succ_turn : passed (m + 1) (turnOf m) = passed m (turnOf m) + 1 := by
  unfold passed turnOf
  dsimp only
  omega

theorem passed_succ_other : passed (m + 1) (turnOf m + 1) = passed m (turnOf m + 1) := by
  rw [← turnOf_succ]
  unfold passed turnOf
  dsimp only
  omega

theorem passed_zero (i : Fin 2) : passed 0 i = 0 := by
  revert i
  decide

theorem passed_last (k : Nat) (i : Fin 2) : passed (2 * (k + 1)) i = k + 1 := by
  have := i.isLt
  unfold passed
  omega

theorem turns_succ (m : Nat) : turns (m + 1) =
    turns m ++ [⟨turnOf m, m / 2, false⟩] ++ [⟨turnOf m, m / 2, true⟩] := by
  unfold turns
  rw [List.range_succ, List.flatMap_append, List.append_assoc]
  rfl

theorem turns_isPrefix {m m' : Nat} (h : m ≤ m') : turns m <+: turns m' := by
  obtain ⟨d, rfl⟩ := Nat.exists_eq_add_of_le h
  induction d with
  | zero => exact List.prefix_rfl
  | succ d ih =>
    refine (ih (Nat.le_add_right _ _)).trans ?_
    rw [← Nat.add_assoc, turns_succ, List.append_assoc]
    exact List.prefix_append _ _

end Turns

/-! ### Who has the turn -/

/-- A thread that does not have the turn, after `segment` segments. -/
structure Idle (k segment : Nat) (t : Thread) : Prop where
  holds : (phase t).holds = false
  waits_eq : waits t + segment = k + 1
  segment_eq : t.segment = segment

/-- The thread of segment `m` is between its `wait` and its `set`. -/
structure HasTurn (k m : Nat) (s : State φ) : Prop where
  lt : m < 2 * (k + 1)
  set : .setFirst ∉ s.main
  other : s.events (turnOf m + 1) = false
  idle : Idle k (passed m (turnOf m + 1)) (s.threads (turnOf m + 1))
  waits_eq : waits (s.threads (turnOf m)) + passed m (turnOf m) = k
  segment_eq : (s.threads (turnOf m)).segment = m / 2

inductive Token (k : Nat) (c : Fin 2 → φ) (s : State φ) : Prop where
  | main (hset : .setFirst ∈ s.main) (hevents : ∀ i, s.events i = false)
      (hidle : ∀ i, Idle k 0 (s.threads i)) (hlog : s.log = [])
  | flag (m : Nat) (hm : m < 2 * (k + 1)) (hset : .setFirst ∉ s.main)
      (hevent : s.events (turnOf m) = true) (hother : s.events (turnOf m + 1) = false)
      (hidle : ∀ i, Idle k (passed m i) (s.threads i)) (hlog : s.log = turns m)
  | woken (m : Nat) (h : HasTurn k m s) (hphase : phase (s.threads (turnOf m)) = .woken)
      (hlog : s.log = turns m)
  | restoring (m : Nat) (h : HasTurn k m s) (hphase : phase (s.threads (turnOf m)) = .restoring)
      (hevent : s.events (turnOf m) = false) (hlog : s.log = turns m)
  | running (m : Nat) (h : HasTurn k m s) (hphase : phase (s.threads (turnOf m)) = .running)
      (hevent : s.events (turnOf m) = false)
      (hcontext : s.forwardContext = some (c (turnOf m)))
      (hlog : s.log = turns m ++ [⟨turnOf m, m / 2, false⟩])
  | finished (hset : .setFirst ∉ s.main) (hfinished : ∀ i, phase (s.threads i) = .finished)
      (hlog : s.log = turns (2 * (k + 1)))

/-- An operation that the other thread does not see. -/
structure Silent (instr : Instr) : Prop where
  wait : instr ≠ .wait
  clear : instr ≠ .clear
  setSignal : instr ≠ .setSignal
  restoreContext : instr ≠ .restoreContext

section PhaseStep
variable {instr : Instr} {p : Phase}

theorem phaseStep_waiting (h : phaseStep instr .waiting p = true) :
    instr = .wait ∧ p = .woken ∨ Silent instr ∧ p = .waiting := by
  cases instr <;> cases p <;> first | (cases h; done) | exact .inl ⟨rfl, rfl⟩ |
      exact .inr ⟨⟨nofun, nofun, nofun, nofun⟩, rfl⟩

theorem phaseStep_woken (h : phaseStep instr .woken p = true) :
    instr = .clear ∧ p = .restoring := by
  cases instr <;> cases p <;> first | exact ⟨rfl, rfl⟩ | cases h

theorem phaseStep_restoring (h : phaseStep instr .restoring p = true) :
    instr = .restoreContext ∧ p = .running := by
  cases instr <;> cases p <;> first | exact ⟨rfl, rfl⟩ | cases h

theorem phaseStep_running (h : phaseStep instr .running p = true) :
    instr = .setSignal ∧ p.holds = false ∨ Silent instr ∧ p = .running := by
  cases instr <;> cases p <;> first | (cases h; done) | exact .inl ⟨rfl, rfl⟩ |
      exact .inr ⟨⟨nofun, nofun, nofun, nofun⟩, rfl⟩

theorem phaseStep_finished (h : phaseStep instr .finished p = true) :
    (instr = .clear ∨ Silent instr) ∧ p = .finished := by
  cases instr <;> cases p <;> first | (cases h; done) | exact ⟨.inl rfl, rfl⟩ |
      exact ⟨.inr ⟨nofun, nofun, nofun, nofun⟩, rfl⟩

end PhaseStep

section Token
variable {m : Nat} {instr : Instr} {t : Thread}

/-- What the other thread sees is as before. -/
structure Unseen (s s' : State φ) : Prop where
  events : s'.events = s.events
  forwardContext : s'.forwardContext = s.forwardContext
  log : s'.log = s.log

theorem Silent.unseen (h : Silent instr) : Unseen s (afterStep c s i t instr) where
  events := by simp only [afterStep, if_neg h.clear, if_neg h.setSignal]
  forwardContext := if_neg h.restoreContext
  log := by simp only [afterStep, if_neg h.restoreContext, if_neg h.setSignal]

/-- To clear an event that is not set changes nothing. -/
theorem clear_unseen (h : s.events i = false) : Unseen s (afterStep c s i t .clear) where
  events := by
    show update s.events i false = s.events
    rw [← h]
    exact update_eq_self i s.events
  forwardContext := rfl
  log := rfl

theorem afterStep_threads_self : (afterStep c s i t instr).threads i = t := update_self ..

theorem afterStep_threads_of_ne {j : Fin 2} (h : j ≠ i) :
    (afterStep c s i t instr).threads j = s.threads j :=
  update_of_ne h ..

/-- A thread whose event is not set does not take the turn. -/
theorem Idle.step {segment : Nat} (hidle : Idle k segment (s.threads i))
    (hevent : s.events i = false) (h : StepFacts c s s' i instr t) :
    Idle k segment t ∧ Unseen s s' := by
  obtain ⟨rfl, hwait, hthread⟩ := h
  have hphase := hthread.phase
  have hwaits := hthread.waits
  have hsegment := hthread.segment
  have hkeep : instr ≠ .wait → instr ≠ .setSignal → (phase t).holds = false →
      Idle k segment t := by
    intro hw hs hholds
    rw [if_neg hw] at hwaits
    rw [if_neg hs] at hsegment
    have hsum := hidle.waits_eq
    exact ⟨hholds, by omega, hsegment.trans hidle.segment_eq⟩
  cases hp : phase (s.threads i) with
  | waiting =>
    rw [hp] at hphase
    rcases phaseStep_waiting hphase with ⟨rfl, -⟩ | ⟨hsilent, ht⟩
    · rw [hwait rfl] at hevent
      cases hevent
    · exact ⟨hkeep hsilent.wait hsilent.setSignal (by rw [ht]; rfl), hsilent.unseen⟩
  | finished =>
    rw [hp] at hphase
    obtain ⟨rfl | hsilent, ht⟩ := phaseStep_finished hphase
    · exact ⟨hkeep nofun nofun (by rw [ht]; rfl), clear_unseen hevent⟩
    · exact ⟨hkeep hsilent.wait hsilent.setSignal (by rw [ht]; rfl), hsilent.unseen⟩
  | _ =>
    have hholds := hidle.holds
    rw [hp] at hholds
    cases hholds

/-- A thread with turns to come is before its `wait`. -/
theorem Idle.waiting (h : Idle k (passed m (turnOf m)) t) (hm : m < 2 * (k + 1))
    (hok : ThreadOk t) : phase t = .waiting := by
  have hholds := h.holds
  have hsum := h.waits_eq
  rw [passed_turn] at hsum
  cases hp : phase t with
  | waiting => rfl
  | finished =>
    have := (hok.of_finished hp).2
    omega
  | _ =>
    rw [hp] at hholds
    cases hholds

/-- The other thread keeps waiting, and the turn stays. -/
theorem HasTurn.other_step (h : HasTurn k m s) (hi : i = turnOf m + 1)
    (hF : StepFacts c s s' i instr t) :
    HasTurn k m s' ∧ s'.threads (turnOf m) = s.threads (turnOf m) ∧ Unseen s s' := by
  subst hi
  obtain ⟨hidle, hunseen⟩ := h.idle.step h.other hF
  have hthread : s'.threads (turnOf m) = s.threads (turnOf m) := by
    rw [hF.eq]
    exact afterStep_threads_of_ne (ne_other _).symm
  refine ⟨?_, hthread, hunseen⟩
  constructor
  · exact h.lt
  · rw [hF.eq]
    exact h.set
  · rw [hunseen.events]
    exact h.other
  · rw [hF.eq, afterStep_threads_self]
    exact hidle
  · rw [hthread]
    exact h.waits_eq
  · rw [hthread]
    exact h.segment_eq

/-- The thread goes on in its turn. -/
theorem HasTurn.self_step (h : HasTurn k m s) (hF : StepFacts c s s' (turnOf m) instr t)
    (hwait : instr ≠ .wait) (hset : instr ≠ .setSignal) : HasTurn k m s' := by
  have hwaits := hF.thread.waits
  have hsegment := hF.thread.segment
  rw [if_neg hwait] at hwaits
  rw [if_neg hset] at hsegment
  have hother : s'.events (turnOf m + 1) = s.events (turnOf m + 1) := by
    rw [hF.eq]
    unfold afterStep
    dsimp only
    rw [if_neg hset]
    split
    · exact update_of_ne (ne_other _) ..
    · rfl
  constructor
  · exact h.lt
  · rw [hF.eq]
    exact h.set
  · rw [hother]
    exact h.other
  · rw [hF.eq, afterStep_threads_of_ne (ne_other _)]
    exact h.idle
  · rw [hF.eq, afterStep_threads_self]
    have hsum := h.waits_eq
    omega
  · rw [hF.eq, afterStep_threads_self]
    exact hsegment.trans h.segment_eq

/-- With the event of the thread its turn begins. -/
theorem Token.take_turn (hm : m < 2 * (k + 1)) (hset : .setFirst ∉ s.main)
    (hother : s.events (turnOf m + 1) = false)
    (hidle : ∀ i, Idle k (passed m i) (s.threads i)) (hlog : s.log = turns m)
    (hF : StepFacts c s s' (turnOf m) .wait t) (ht : phase t = .woken) : Token k c s' := by
  have hwaits : waits (s.threads (turnOf m)) = waits t + 1 := hF.thread.waits
  have hsegment : t.segment = (s.threads (turnOf m)).segment := hF.thread.segment
  have hbefore := hidle (turnOf m)
  have hsum := hbefore.waits_eq
  have hnumber := hbefore.segment_eq
  rw [passed_turn] at hnumber
  refine .woken m ⟨hm, ?_, ?_, ?_, ?_, ?_⟩ ?_ ?_
  · rw [hF.eq]
    exact hset
  · rw [hF.eq]
    exact hother
  · rw [hF.eq, afterStep_threads_of_ne (ne_other _)]
    exact hidle _
  · rw [hF.eq, afterStep_threads_self]
    omega
  · rw [hF.eq, afterStep_threads_self]
    exact hsegment.trans hnumber
  · rw [hF.eq, afterStep_threads_self]
    exact ht
  · rw [hF.eq]
    exact hlog

/-- The thread sets the event of the other, and its segment ends. -/
theorem Token.pass_turn (h : HasTurn k m s) (hevent : s.events (turnOf m) = false)
    (hlog : s.log = turns m ++ [⟨turnOf m, m / 2, false⟩])
    (hF : StepFacts c s s' (turnOf m) .setSignal t) (ht : (phase t).holds = false) :
    Token k c s' := by
  have hwaits : waits (s.threads (turnOf m)) = waits t := hF.thread.waits
  have hsegment : t.segment = (s.threads (turnOf m)).segment + 1 := hF.thread.segment
  have hsum := h.waits_eq
  have hself : s'.threads (turnOf m) = t := by
    rw [hF.eq]
    exact afterStep_threads_self
  have hotherThread : s'.threads (turnOf m + 1) = s.threads (turnOf m + 1) := by
    rw [hF.eq]
    exact afterStep_threads_of_ne (ne_other _)
  have hidle : ∀ j, Idle k (passed (m + 1) j) (s'.threads j) := by
    intro j
    rcases eq_or_other m j with rfl | rfl
    · rw [hself, passed_succ_turn]
      refine ⟨ht, by omega, ?_⟩
      rw [hsegment, h.segment_eq, passed_turn]
    · rw [hotherThread, passed_succ_other]
      exact h.idle
  have hset : .setFirst ∉ s'.main := by
    rw [hF.eq]
    exact h.set
  have hmarks : s'.log = turns (m + 1) := by
    rw [turns_succ, ← hlog, ← h.segment_eq, hF.eq]
    rfl
  by_cases hm : m + 1 < 2 * (k + 1)
  · refine .flag (m + 1) hm hset ?_ ?_ hidle hmarks
    · rw [turnOf_succ, hF.eq]
      exact update_self ..
    · rw [turnOf_succ, other_other, hF.eq]
      exact (update_of_ne (ne_other _).symm ..).trans hevent
  · -- It was the last segment: nobody waits any more.
    have hlast : m + 1 = 2 * (k + 1) := by have := h.lt; omega
    rw [hlast] at hidle hmarks
    refine .finished hset (fun j => ?_) hmarks
    have hj := hidle j
    have hnone := hj.waits_eq
    rw [passed_last] at hnone
    have hholds := hj.holds
    cases hp : phase (s'.threads j) with
    | finished => rfl
    | waiting =>
      have := waits_pos hp
      omega
    | _ =>
      rw [hp] at hholds
      cases hholds

/-- An operation of a thread keeps the token. -/
theorem Token.thread (h : Token k c s) (hok : ∀ i, ThreadOk (s.threads i))
    (hF : StepFacts c s s' i instr t) : Token k c s' := by
  have hmain : s'.main = s.main := by rw [hF.eq]; rfl
  have hself : s'.threads i = t := by rw [hF.eq]; exact afterStep_threads_self
  have hne : ∀ {j}, j ≠ i → s'.threads j = s.threads j := by
    intro j hj
    rw [hF.eq]
    exact afterStep_threads_of_ne hj
  have hphase := hF.thread.phase
  cases h with
  | main hset hevents hidle hlog =>
    obtain ⟨hidle', hunseen⟩ := (hidle i).step (hevents i) hF
    refine .main (hmain ▸ hset) (fun j => ?_) (fun j => ?_) (hunseen.log.trans hlog)
    · rw [hunseen.events]
      exact hevents j
    · by_cases hj : j = i
      · rw [hj, hself]
        exact hidle'
      · rw [hne hj]
        exact hidle j
  | flag m hm hset hevent hother hidle hlog =>
    rcases eq_or_other m i with rfl | rfl
    · rw [(hidle (turnOf m)).waiting hm (hok _)] at hphase
      rcases phaseStep_waiting hphase with ⟨rfl, ht⟩ | ⟨hsilent, ht⟩
      · exact .take_turn hm hset hother hidle hlog hF ht
      · have hunseen : Unseen s s' := hF.eq ▸ hsilent.unseen
        have hwaits := hF.thread.waits
        have hsegment := hF.thread.segment
        rw [if_neg hsilent.wait] at hwaits
        rw [if_neg hsilent.setSignal] at hsegment
        refine .flag m hm (hmain ▸ hset) ?_ ?_ (fun j => ?_) (hunseen.log.trans hlog)
        · rw [hunseen.events]
          exact hevent
        · rw [hunseen.events]
          exact hother
        · by_cases hj : j = turnOf m
          · have hsum := (hidle (turnOf m)).waits_eq
            rw [hj, hself]
            exact ⟨by rw [ht]; rfl, by omega, hsegment.trans (hidle _).segment_eq⟩
          · rw [hne hj]
            exact hidle j
    · obtain ⟨hidle', hunseen⟩ := (hidle (turnOf m + 1)).step hother hF
      refine .flag m hm (hmain ▸ hset) ?_ ?_ (fun j => ?_) (hunseen.log.trans hlog)
      · rw [hunseen.events]
        exact hevent
      · rw [hunseen.events]
        exact hother
      · by_cases hj : j = turnOf m + 1
        · rw [hj, hself]
          exact hidle'
        · rw [hne hj]
          exact hidle j
  | woken m h hp hlog =>
    rcases eq_or_other m i with rfl | hi
    · rw [hp] at hphase
      obtain ⟨rfl, ht⟩ := phaseStep_woken hphase
      refine .restoring m (h.self_step hF nofun nofun) (hself ▸ ht) ?_ ?_
      · rw [hF.eq]
        exact update_self ..
      · rw [hF.eq]
        exact hlog
    · obtain ⟨hturn, hthread, hunseen⟩ := h.other_step hi hF
      exact .woken m hturn (hthread ▸ hp) (hunseen.log.trans hlog)
  | restoring m h hp hevent hlog =>
    rcases eq_or_other m i with rfl | hi
    · rw [hp] at hphase
      obtain ⟨rfl, ht⟩ := phaseStep_restoring hphase
      refine .running m (h.self_step hF nofun nofun) (hself ▸ ht) ?_ ?_ ?_
      · rw [hF.eq]
        exact hevent
      · rw [hF.eq]
        rfl
      · rw [hF.eq, ← hlog, ← h.segment_eq]
        rfl
    · obtain ⟨hturn, hthread, hunseen⟩ := h.other_step hi hF
      exact .restoring m hturn (hthread ▸ hp) (hunseen.events ▸ hevent) (hunseen.log.trans hlog)
  | running m h hp hevent hcontext hlog =>
    rcases eq_or_other m i with rfl | hi
    · rw [hp] at hphase
      rcases phaseStep_running hphase with ⟨rfl, ht⟩ | ⟨hsilent, ht⟩
      · exact .pass_turn h hevent hlog hF ht
      · have hunseen : Unseen s s' := hF.eq ▸ hsilent.unseen
        exact .running m (h.self_step hF hsilent.wait hsilent.setSignal) (hself ▸ ht)
          (hunseen.events ▸ hevent) (hunseen.forwardContext.trans hcontext)
          (hunseen.log.trans hlog)
    · obtain ⟨hturn, hthread, hunseen⟩ := h.other_step hi hF
      exact .running m hturn (hthread ▸ hp) (hunseen.events ▸ hevent)
        (hunseen.forwardContext.trans hcontext) (hunseen.log.trans hlog)
  | finished hset hfinished hlog =>
    rw [hfinished i] at hphase
    obtain ⟨hinstr, ht⟩ := phaseStep_finished hphase
    have hlog' : s'.log = s.log := by
      rcases hinstr with rfl | hsilent
      · rw [hF.eq]
        rfl
      · rw [hF.eq]
        exact hsilent.unseen.log
    refine .finished (hmain ▸ hset) (fun j => ?_) (hlog'.trans hlog)
    by_cases hj : j = i
    · rw [hj, hself]
      exact ht
    · rw [hne hj]
      exact hfinished j

end Token

/-! ### The main thread -/

/-- Whether the main thread has arrived at the barrier. -/
def mainArrivals (main : List MainInstr) : Nat := if .barrierArrive ∈ main then 0 else 1

/-- The starts, the barrier and the joins. -/
structure MainOk (s : State φ) : Prop where
  main : s.main ∈ runUbatches.tails
  started : ∀ i, .start i ∉ s.main → (s.threads i).started = true
  arrived : s.arrived = mainArrivals s.main + arrivals (s.threads 0).code +
    arrivals (s.threads 1).code
  passed : .barrierLeave ∉ s.main → s.arrived = parties
  joined : ∀ i, .join i ∉ s.main → (s.threads i).ended = true
  registered : ∀ i, (s.threads i).left = false → .register ∉ (s.threads i).code →
    s.registered i = true
  results : ∀ i, s.results.count i = given (s.threads i).left (s.threads i).code

section Main
variable {instr : Instr} {t : Thread}

theorem MainOk.thread (h : MainOk s) (hF : StepFacts c s s' i instr t) : MainOk s' := by
  have hself : s'.threads i = t := by rw [hF.eq]; exact afterStep_threads_self
  have hne : ∀ {j}, j ≠ i → s'.threads j = s.threads j := by
    intro j hj
    rw [hF.eq]
    exact afterStep_threads_of_ne hj
  have hmain : s'.main = s.main := by rw [hF.eq]; rfl
  have harrived : s'.arrived = s.arrived + if instr = .barrierArrive then 1 else 0 := by
    rw [hF.eq]
    unfold afterStep
    dsimp only
    split <;> rfl
  have harrivals := hF.thread.arrivals
  have hcount : s'.arrived = mainArrivals s'.main + arrivals (s'.threads 0).code +
      arrivals (s'.threads 1).code := by
    rw [harrived, hmain, h.arrived]
    rcases zero_or_one i with rfl | rfl
    · rw [hself, hne (by decide), harrivals]
      omega
    · rw [hself, hne (by decide), harrivals]
      omega
  constructor
  · rw [hmain]
    exact h.main
  · intro j hj
    rw [hmain] at hj
    by_cases hji : j = i
    · rw [hji, hself, hF.thread.started, ← hji]
      exact h.started j hj
    · rw [hne hji]
      exact h.started j hj
  · exact hcount
  · -- All have arrived, and nobody arrives twice.
    intro hpass
    rw [hmain] at hpass
    have hall := h.passed hpass
    have hle : ∀ code, arrivals code ≤ 1 := by
      intro code
      unfold arrivals
      split <;> omega
    have h0 := hle (s'.threads 0).code
    have h1 := hle (s'.threads 1).code
    have hm : mainArrivals s'.main ≤ 1 := by
      unfold mainArrivals
      split <;> omega
    unfold parties at hall ⊢
    omega
  · intro j hj
    rw [hmain] at hj
    have hended := h.joined j hj
    have hji : j ≠ i := by
      rintro rfl
      rw [hF.thread.goes] at hended
      cases hended
    rw [hne hji]
    exact hended
  · intro j hleft hregister
    have hkeep : s.registered j = true → (j = i → instr ≠ .unregister) →
        s'.registered j = true := by
      intro hreg hun
      rw [hF.eq]
      unfold afterStep
      dsimp only
      split
      · rw [update_apply]
        split
        · rfl
        · exact hreg
      · split
        · rename_i heq
          rw [update_of_ne fun hji => hun hji heq]
          exact hreg
        · exact hreg
    by_cases hji : j = i
    · subst hji
      rw [hself] at hleft hregister
      have hun : instr ≠ .unregister := fun heq => by
        rw [hF.thread.unregister heq] at hleft
        cases hleft
      rcases hF.thread.register hleft hregister with rfl | ⟨hl, hr⟩
      · rw [hF.eq]
        exact update_self ..
      · exact hkeep (h.registered j hl hr) fun _ => hun
    · rw [hne hji] at hleft hregister
      exact hkeep (h.registered j hleft hregister) fun heq => absurd heq hji
  · intro j
    have hresults : s'.results = if instr = .appendResult then s.results ++ [i] else s.results := by
      rw [hF.eq]
      rfl
    have hgiven := hF.thread.given
    have hbefore := h.results j
    by_cases hji : j = i
    · subst hji
      rw [hself, hgiven, hresults]
      split
      · rw [List.count_append, List.count_singleton_self, hbefore]
      · rw [hbefore, Nat.add_zero]
    · rw [hne hji, hresults, ← hbefore]
      split
      · rw [List.count_append, List.count_singleton, if_neg (by simpa using Ne.symm hji),
          Nat.add_zero]
      · rfl

/-- The facts about the next operation of the main thread. -/
structure MainFacts (instr : MainInstr) (rest : List MainInstr) : Prop where
  tail : rest ∈ runUbatches.tails
  arrivals : mainArrivals rest =
    mainArrivals (instr :: rest) + if instr = .barrierArrive then 1 else 0
  leave : instr = .barrierArrive → .barrierLeave ∈ rest
  set : instr = .setFirst → .setFirst ∉ rest
  override : instr = .overrideContext → .setFirst ∈ rest
  restore : instr = .restoreContext → rest = []

instance (instr : MainInstr) (rest : List MainInstr) : Decidable (MainFacts instr rest) :=
  decidable_of_iff (rest ∈ runUbatches.tails ∧
    (mainArrivals rest = mainArrivals (instr :: rest) + if instr = .barrierArrive then 1 else 0) ∧
    (instr = .barrierArrive → .barrierLeave ∈ rest) ∧ (instr = .setFirst → .setFirst ∉ rest) ∧
    (instr = .overrideContext → .setFirst ∈ rest) ∧ (instr = .restoreContext → rest = []))
    ⟨fun h => ⟨h.1, h.2.1, h.2.2.1, h.2.2.2.1, h.2.2.2.2.1, h.2.2.2.2.2⟩,
      fun h => ⟨h.tail, h.arrivals, h.leave, h.set, h.override, h.restore⟩⟩

def mainCheck : List MainInstr → Bool
  | [] => true
  | instr :: rest => decide (MainFacts instr rest)

theorem mainCheck_tails : ∀ main ∈ runUbatches.tails, mainCheck main = true := by decide

theorem mainFacts {instr : MainInstr} {rest : List MainInstr}
    (h : instr :: rest ∈ runUbatches.tails) : MainFacts instr rest :=
  of_decide_eq_true (mainCheck_tails _ h)

/-- What the token depends on. -/
theorem Token.frame (h : Token k c s) (hset : .setFirst ∈ s'.main ↔ .setFirst ∈ s.main)
    (hevents : s'.events = s.events) (hlog : s'.log = s.log)
    (hphase : ∀ j, phase (s'.threads j) = phase (s.threads j))
    (hwaits : ∀ j, waits (s'.threads j) = waits (s.threads j))
    (hsegment : ∀ j, (s'.threads j).segment = (s.threads j).segment)
    (hcontext : ∀ j, phase (s.threads j) = .running → s'.forwardContext = s.forwardContext) :
    Token k c s' := by
  have hidle : ∀ {j segment}, Idle k segment (s.threads j) → Idle k segment (s'.threads j) := by
    intro j segment hj
    exact ⟨hphase j ▸ hj.holds, hwaits j ▸ hj.waits_eq, hsegment j ▸ hj.segment_eq⟩
  have hturn : ∀ {m}, HasTurn k m s → HasTurn k m s' := by
    intro m hm
    exact ⟨hm.lt, fun hs => hm.set (hset.mp hs), hevents ▸ hm.other, hidle hm.idle,
      hwaits _ ▸ hm.waits_eq, hsegment _ ▸ hm.segment_eq⟩
  cases h with
  | main hs he hi hl =>
    exact .main (hset.mpr hs) (fun j => hevents ▸ he j) (fun j => hidle (hi j)) (hlog.trans hl)
  | flag m hm hs he ho hi hl =>
    exact .flag m hm (fun h => hs (hset.mp h)) (hevents ▸ he) (hevents ▸ ho)
      (fun j => hidle (hi j)) (hlog.trans hl)
  | woken m h hp hl => exact .woken m (hturn h) ((hphase _).trans hp) (hlog.trans hl)
  | restoring m h hp he hl =>
    exact .restoring m (hturn h) ((hphase _).trans hp) (hevents ▸ he) (hlog.trans hl)
  | running m h hp he hc hl =>
    exact .running m (hturn h) ((hphase _).trans hp) (hevents ▸ he) ((hcontext _ hp).trans hc)
      (hlog.trans hl)
  | finished hs hf hl =>
    exact .finished (fun h => hs (hset.mp h)) (fun j => (hphase j).trans (hf j)) (hlog.trans hl)

/-- The first event gives the turn to thread 0. -/
theorem Token.setFirst (h : Token k c s) (hset : .setFirst ∈ s.main)
    (hset' : .setFirst ∉ s'.main) (hthreads : s'.threads = s.threads) (hlog : s'.log = s.log)
    (hevents : s'.events = update s.events 0 true) : Token k c s' := by
  cases h with
  | main hs he hi hl =>
    refine .flag 0 (by omega) hset' ?_ ?_ (fun j => ?_) (hlog.trans hl)
    · rw [hevents]
      exact update_self ..
    · rw [hevents]
      exact (update_of_ne (by decide) ..).trans (he _)
    · rw [hthreads, passed_zero]
      exact hi j
  | flag m hm hs => exact absurd hset hs
  | woken m h => exact absurd hset h.set
  | restoring m h => exact absurd hset h.set
  | running m h => exact absurd hset h.set
  | finished hs => exact absurd hset hs

/-- All the invariants. -/
structure Inv (k : Nat) (c : Fin 2 → φ) (s : State φ) : Prop where
  threads : ∀ i, ThreadOk (s.threads i)
  mainOk : MainOk s
  token : Token k c s

theorem Inv.turn (h : Inv k c s) (hp : phase (s.threads i) = .running) :
    s.forwardContext = some (c i) ∧ s.events i = false := by
  have hidle : ∀ {j segment}, Idle k segment (s.threads j) → j ≠ i := by
    rintro j segment hj rfl
    have := hj.holds
    rw [hp] at this
    cases this
  have hne : ∀ {m q}, HasTurn k m s → phase (s.threads (turnOf m)) = q → q ≠ .running → False := by
    intro m q hm hq hrun
    rcases eq_or_other m i with rfl | rfl
    · exact hrun (hq.symm.trans hp)
    · exact hidle hm.idle rfl
  cases h.token with
  | main hs he hi hl => exact absurd rfl (hidle (hi i))
  | flag m hm hs he ho hi hl => exact absurd rfl (hidle (hi i))
  | woken m hm hq hl => exact absurd hq fun hq => hne hm hq (by decide)
  | restoring m hm hq he hl => exact absurd hq fun hq => hne hm hq (by decide)
  | running m hm hq he hc hl =>
    rcases eq_or_other m i with rfl | rfl
    · exact ⟨hc, he⟩
    · exact absurd rfl (hidle hm.idle)
  | finished hs hf hl =>
    rw [hf i] at hp
    cases hp

/-- An operation of a micro-batch thread keeps the invariants. -/
theorem Inv.thread [DecidableEq φ] (h : Inv k c s)
    (hstep : threadStep (makeUbatchContexts c) s i = .ok s') : Inv k c s' := by
  obtain ⟨instr, t, hF⟩ := threadStep_facts (h.threads i) (h.mainOk.registered i) h.turn hstep
  refine ⟨fun j => ?_, h.mainOk.thread hF, h.token.thread h.threads hF⟩
  rw [hF.eq]
  by_cases hj : j = i
  · subst hj
    rw [afterStep_threads_self]
    exact hF.thread.ok
  · rw [afterStep_threads_of_ne hj]
    exact h.threads j

/-- The main thread goes on, and the threads are the same, up to their start. -/
theorem MainOk.next (h : MainOk s) {instr : MainInstr} {rest : List MainInstr}
    (hmain : s.main = instr :: rest) (hmain' : s'.main = rest)
    (hthreads : ∀ j, s'.threads j = s.threads j ∨
      instr = .start j ∧ s'.threads j = { s.threads j with started := true })
    (hstart : ∀ j, instr = .start j → (s'.threads j).started = true)
    (harrived : s'.arrived = s.arrived + if instr = .barrierArrive then 1 else 0)
    (hleave : instr = .barrierLeave → s.arrived = parties)
    (hjoin : ∀ j, instr = .join j → (s.threads j).ended = true)
    (hregistered : s'.registered = s.registered) (hresults : s'.results = s.results) :
    MainOk s' := by
  have hfacts := mainFacts (hmain ▸ h.main)
  have hcode : ∀ j, (s'.threads j).code = (s.threads j).code := by
    intro j
    rcases hthreads j with heq | ⟨-, heq⟩ <;> rw [heq]
  have hleft : ∀ j, (s'.threads j).left = (s.threads j).left := by
    intro j
    rcases hthreads j with heq | ⟨-, heq⟩ <;> rw [heq]
  have hmem : ∀ {other : MainInstr}, instr ≠ other → other ∉ s'.main → other ∉ s.main := by
    intro other hne hother
    rw [hmain, List.mem_cons, not_or]
    exact ⟨Ne.symm hne, hmain' ▸ hother⟩
  constructor
  · rw [hmain']
    exact hfacts.tail
  · intro j hj
    by_cases hi : instr = .start j
    · exact hstart j hi
    · rcases hthreads j with heq | ⟨hi', -⟩
      · rw [heq]
        exact h.started j (hmem hi hj)
      · exact absurd hi' hi
  · rw [harrived, hmain', hcode, hcode, hfacts.arrivals, h.arrived, hmain]
    omega
  · intro hpass
    have harrive : instr ≠ .barrierArrive := fun hi => (hmain' ▸ hpass) (hfacts.leave hi)
    rw [harrived, if_neg harrive, Nat.add_zero]
    by_cases hi : instr = .barrierLeave
    · exact hleave hi
    · exact h.passed (hmem hi hpass)
  · intro j hj
    unfold Thread.ended
    rw [hleft, hcode]
    by_cases hi : instr = .join j
    · exact hjoin j hi
    · exact h.joined j (hmem hi hj)
  · intro j hl hr
    rw [hregistered]
    exact h.registered j (hleft j ▸ hl) (hcode j ▸ hr)
  · intro j
    rw [hresults, hleft, hcode]
    exact h.results j

theorem phase_of_ended {t : Thread} (h : t.ended = true) : phase t = .finished := by
  obtain ⟨hleft, hcode⟩ := Bool.and_eq_true_iff.mp h
  unfold phase
  rw [hleft, List.isEmpty_iff.mp hcode]
  rfl

/-- An operation of the main thread keeps the invariants. -/
theorem Inv.mainThread (h : Inv k c s) (hstep : mainStep (makeUbatchContexts c) s = .ok s') :
    Inv k c s' := by
  cases hmain : s.main with
  | nil =>
    unfold mainStep at hstep
    rw [hmain] at hstep
    cases hstep
  | cons instr rest =>
    have hfacts := mainFacts (hmain ▸ h.mainOk.main)
    have hset : instr ≠ .setFirst → (.setFirst ∈ rest ↔ .setFirst ∈ s.main) := by
      intro hne
      rw [hmain, List.mem_cons]
      exact ⟨.inr, fun hs => hs.resolve_left (Ne.symm hne)⟩
    have hrunning : ∀ j, phase (s.threads j) = .running → .setFirst ∉ s.main := by
      intro j hp
      cases h.token with
      | main hs he hi hl =>
        have := (hi j).holds
        rw [hp] at this
        cases this
      | flag m hm hs => exact hs
      | woken m hm => exact hm.set
      | restoring m hm => exact hm.set
      | running m hm => exact hm.set
      | finished hs => exact hs
    unfold mainStep at hstep
    rw [hmain] at hstep
    cases instr with
    | overrideContext =>
      cases hstep
      refine ⟨h.threads, h.mainOk.next hmain rfl (fun _ => .inl rfl) nofun rfl nofun nofun
        rfl rfl, ?_⟩
      refine h.token.frame (hset nofun) rfl rfl (fun _ => rfl) (fun _ => rfl) (fun _ => rfl)
        fun j hp => ?_
      exact absurd ((hset nofun).mp (hfacts.override rfl)) (hrunning j hp)
    | start i =>
      cases hstep
      have hthread : ∀ j, update s.threads i { s.threads i with started := true } j =
          s.threads j ∨ MainInstr.start i = .start j ∧
          update s.threads i { s.threads i with started := true } j =
            { s.threads j with started := true } := by
        intro j
        by_cases hj : j = i
        · subst hj
          exact .inr ⟨rfl, update_self ..⟩
        · exact .inl (update_of_ne hj ..)
      refine ⟨fun j => ?_, h.mainOk.next hmain rfl hthread ?_ rfl nofun nofun rfl rfl, ?_⟩
      · show ThreadOk (update s.threads i _ j)
        rcases hthread j with heq | ⟨-, heq⟩
        · rw [heq]
          exact h.threads j
        · rw [heq]
          exact ⟨(h.threads j).place, (h.threads j).methods, (h.threads j).raised,
            (h.threads j).streams⟩
      · intro j hj
        cases hj
        show (update s.threads i _ i).started = true
        rw [update_self]
      · refine h.token.frame (hset nofun) rfl rfl (fun j => ?_) (fun j => ?_) (fun j => ?_)
          fun _ _ => rfl
        · show phase (update s.threads i _ j) = _
          rcases hthread j with heq | ⟨-, heq⟩ <;> rw [heq]
          rfl
        · show waits (update s.threads i _ j) = _
          rcases hthread j with heq | ⟨-, heq⟩ <;> rw [heq]
          rfl
        · show (update s.threads i _ j).segment = _
          rcases hthread j with heq | ⟨-, heq⟩ <;> rw [heq]
    | barrierArrive =>
      cases hstep
      exact ⟨h.threads, h.mainOk.next hmain rfl (fun _ => .inl rfl) nofun rfl nofun nofun rfl
        rfl, h.token.frame (hset nofun) rfl rfl (fun _ => rfl) (fun _ => rfl) (fun _ => rfl)
        fun _ _ => rfl⟩
    | barrierLeave =>
      dsimp only at hstep
      split at hstep
      · rename_i hall
        cases hstep
        exact ⟨h.threads, h.mainOk.next hmain rfl (fun _ => .inl rfl) nofun rfl
          (fun _ => hall) nofun rfl rfl, h.token.frame (hset nofun) rfl rfl (fun _ => rfl)
          (fun _ => rfl) (fun _ => rfl) fun _ _ => rfl⟩
      · cases hstep
    | setFirst =>
      cases hstep
      exact ⟨h.threads, h.mainOk.next hmain rfl (fun _ => .inl rfl) nofun rfl nofun nofun rfl
        rfl, h.token.setFirst (hmain ▸ List.mem_cons_self) (hfacts.set rfl) rfl rfl rfl⟩
    | join i =>
      dsimp only at hstep
      split at hstep
      · rename_i hended
        cases hstep
        refine ⟨h.threads, h.mainOk.next hmain rfl (fun _ => .inl rfl) nofun rfl nofun ?_ rfl
          rfl, h.token.frame (hset nofun) rfl rfl (fun _ => rfl) (fun _ => rfl)
          (fun _ => rfl) fun _ _ => rfl⟩
        intro j hj
        cases hj
        exact hended
      · cases hstep
    | restoreContext =>
      cases hstep
      refine ⟨h.threads, h.mainOk.next hmain rfl (fun _ => .inl rfl) nofun rfl nofun nofun
        rfl rfl, ?_⟩
      refine h.token.frame (hset nofun) rfl rfl (fun _ => rfl) (fun _ => rfl) (fun _ => rfl)
        fun j hp => ?_
      -- Both threads were joined, so neither is in a segment.
      have hended := h.mainOk.joined j (by
        rw [hmain, hfacts.restore rfl]
        simp)
      rw [phase_of_ended hended] at hp
      cases hp

theorem Inv.step [DecidableEq φ] (h : Inv k c s) {who : Option (Fin 2)}
    (hstep : step (makeUbatchContexts c) s who = .ok s') : Inv k c s' := by
  cases who with
  | none => exact h.mainThread hstep
  | some i => exact h.thread hstep

end Main

end Vllm.Proofs.Worker.Ubatching
