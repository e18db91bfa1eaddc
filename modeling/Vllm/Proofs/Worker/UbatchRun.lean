import Vllm.Proofs.Worker.UbatchTurns

/-!
# `Vllm.Proofs.Worker.UbatchRun`: the runs of the micro-batches

`take_turns` is about two programs that yield equally often. In every run of the three threads the
segments follow each other in turn, no assertion fails, some thread can go on until the main thread
is through, and no run goes on for ever.

A `Program` calls the methods that assert the stream they are called on only on that stream. A
program that does not raises in the method, and does not leave its context normally.
-/

set_option autoImplicit false

namespace Vllm.Proofs.Worker.Ubatching

open Vllm.Lib Vllm.V1.Worker.Ubatching

variable {φ : Type} {k : Nat} {c : Fin 2 → φ} {s s' : State φ} {i : Fin 2}

/-- What the model calls on a micro-batch, with `k` yields. -/
structure Program (k : Nat) where
  methods : List Method
  yields : (methods.filter Method.yields).length = k
  streams : calledOnStream .compute methods = true

/-- The start of `_run_ubatches`. -/
def start (prevContext : Option φ) (p : Fin 2 → Program k) : State φ :=
  .new prevContext fun i => (p i).methods

theorem Inv.start (prevContext : Option φ) (p : Fin 2 → Program k) :
    Inv k c (start prevContext p) where
  threads := fun i => {
    place := (by decide : (false, enter) ∈ places)
    methods := nofun
    raised := rfl
    streams := ⟨.compute, rfl, (p i).streams⟩ }
  mainOk := {
    main := (by decide : runUbatches ∈ runUbatches.tails)
    started := fun i hi => absurd ((by decide : ∀ i, MainInstr.start i ∈ runUbatches) i) hi
    arrived := rfl
    passed := fun h => absurd (by decide : MainInstr.barrierLeave ∈ runUbatches) h
    joined := fun i hi => absurd ((by decide : ∀ i, MainInstr.join i ∈ runUbatches) i) hi
    registered := fun _ _ h => absurd (by decide : Instr.register ∈ enter) h
    results := fun _ => rfl }
  token := by
    refine .main (by decide : MainInstr.setFirst ∈ runUbatches) (fun _ => rfl) (fun i => ?_) rfl
    refine ⟨rfl, ?_, rfl⟩
    show 1 + ((p i).methods.filter Method.yields).length + 0 = k + 1
    rw [(p i).yields]
    omega

/-! ### Some thread can go on -/

section Live
variable [DecidableEq φ]

/-- Some thread can go on. -/
def CanGo (c : Fin 2 → φ) (s : State φ) : Prop :=
  ∃ who s', step (makeUbatchContexts c) s who = .ok s'

/-- The facts about the places where a thread can stop. -/
theorem place_stops : ∀ p ∈ places,
    (p.2.head? = some Instr.wait → phaseOf p.1 p.2 = .waiting ∧ Instr.barrierArrive ∉ p.2) ∧
    (p.2.head? = some Instr.barrierLeave →
      phaseOf p.1 p.2 = .waiting ∧ Instr.barrierArrive ∉ p.2) := by
  decide

/-- The facts about the main thread before and after `setFirst`. -/
theorem main_stops : ∀ main ∈ runUbatches.tails,
    (MainInstr.setFirst ∉ main → (∀ i, MainInstr.start i ∉ main) ∧
      MainInstr.barrierLeave ∉ main) ∧
    (main.head? = some MainInstr.barrierLeave → (∀ i, MainInstr.start i ∉ main) ∧
      MainInstr.barrierArrive ∉ main) ∧
    (∀ i, main.head? = some (MainInstr.join i) → MainInstr.setFirst ∉ main) := by
  decide

/-- A thread that was started goes on where it does not wait. -/
theorem Inv.goes (h : Inv k c s) (hstarted : (s.threads i).started = true)
    (hphase : phase (s.threads i) ≠ .waiting) (hgoes : (s.threads i).ended = false) :
    CanGo c s := by
  have hstops := place_stops _ (h.threads i).place
  obtain ⟨s', hs'⟩ := exists_threadStep (c := c) hstarted hgoes
    (fun hw => absurd (hstops.1 hw).1 hphase) fun hb => absurd (hstops.2 hb).1 hphase
  exact ⟨some i, s', hs'⟩

/-- And where it waits for an event that is set, after all have arrived. -/
theorem Inv.goes_waiting (h : Inv k c s) (hset : .setFirst ∉ s.main)
    (hphase : phase (s.threads i) = .waiting) (hevent : s.events i = true) :
    CanGo c s := by
  obtain ⟨hstart, hleave⟩ := (main_stops _ h.mainOk.main).1 hset
  have hgoes : (s.threads i).ended = false := by
    by_contra hended
    rw [phase_of_ended (Bool.not_eq_false _ ▸ hended)] at hphase
    cases hphase
  obtain ⟨s', hs'⟩ := exists_threadStep (c := c) (h.mainOk.started i (hstart i)) hgoes
    (fun _ => hevent) fun _ => h.mainOk.passed hleave
  exact ⟨some i, s', hs'⟩

/-- The main thread waits at the barrier for a thread that has not arrived. -/
theorem Inv.goes_arrive (h : Inv k c s) (hstart : .start i ∉ s.main)
    (harrive : arrivals (s.threads i).code = 0) :
    CanGo c s := by
  have hmem : .barrierArrive ∈ (s.threads i).code := by
    by_contra hmem
    unfold arrivals at harrive
    rw [if_neg hmem] at harrive
    cases harrive
  have hgoes : (s.threads i).ended = false := by
    unfold Thread.ended
    cases hcode : (s.threads i).code with
    | nil =>
      rw [hcode] at hmem
      cases hmem
    | cons => exact Bool.and_false _
  have hstops := place_stops _ (h.threads i).place
  obtain ⟨s', hs'⟩ := exists_threadStep (c := c) (h.mainOk.started i hstart) hgoes
    (fun hw => absurd hmem (hstops.1 hw).2) fun hb => absurd hmem (hstops.2 hb).2
  exact ⟨some i, s', hs'⟩

/-- The main thread itself, when it does not wait. -/
theorem goes_main (hmain : s.main ≠ [])
    (hleave : s.main.head? = some .barrierLeave → s.arrived = parties)
    (hjoin : ∀ i, s.main.head? = some (.join i) → (s.threads i).ended = true) :
    CanGo c s := by
  refine ⟨none, ?_⟩
  show ∃ s', mainStep (makeUbatchContexts c) s = .ok s'
  unfold mainStep
  cases hinstr : s.main with
  | nil => exact absurd hinstr hmain
  | cons instr rest =>
    rw [hinstr] at hleave hjoin
    cases instr with
    | barrierLeave =>
      dsimp only
      rw [if_pos (hleave rfl)]
      exact ⟨_, rfl⟩
    | join i =>
      dsimp only
      rw [if_pos (hjoin i rfl)]
      exact ⟨_, rfl⟩
    | _ => exact ⟨_, rfl⟩

/-- No state is a deadlock. -/
theorem Inv.live (h : Inv k c s) (hmain : s.main ≠ []) : CanGo c s := by
  have hstops := main_stops _ h.mainOk.main
  have hnoJoin : .setFirst ∈ s.main → ∀ i, s.main.head? = some (.join i) →
      (s.threads i).ended = true := fun hs i hi => absurd hs (hstops.2.2 i hi)
  have hturn : ∀ {m p}, HasTurn k m s → phase (s.threads (turnOf m)) = p → p.holds = true →
      CanGo c s := by
    intro m p hm hp hholds
    have hne : phase (s.threads (turnOf m)) ≠ .waiting := by
      rintro heq
      rw [heq] at hp
      subst hp
      cases hholds
    have hgoes : (s.threads (turnOf m)).ended = false := by
      by_contra hended
      rw [phase_of_ended (Bool.not_eq_false _ ▸ hended)] at hp
      subst hp
      cases hholds
    exact h.goes (h.mainOk.started _ ((hstops.1 hm.set).1 _)) hne hgoes
  cases h.token with
  | main hset he hi hl =>
    by_cases hall : s.arrived = parties
    · exact goes_main hmain (fun _ => hall) (hnoJoin hset)
    · by_cases hhead : s.main.head? = some .barrierLeave
      · -- The main thread has arrived, so one of the others has not.
        obtain ⟨hstart, harrive⟩ := hstops.2.1 hhead
        have hcount := h.mainOk.arrived
        have hmainArrived : mainArrivals s.main = 1 := if_neg harrive
        have hle : ∀ code, arrivals code = 0 ∨ arrivals code = 1 := by
          intro code
          unfold arrivals
          split
          · exact .inl rfl
          · exact .inr rfl
        rcases hle (s.threads 0).code with h0 | h0
        · exact h.goes_arrive (hstart 0) h0
        · rcases hle (s.threads 1).code with h1 | h1
          · exact h.goes_arrive (hstart 1) h1
          · rw [hmainArrived, h0, h1] at hcount
            exact absurd hcount hall
      · exact goes_main hmain (fun hl => absurd hl hhead) (hnoJoin hset)
  | flag m hm hset he ho hi hl =>
    exact h.goes_waiting hset ((hi _).waiting hm (h.threads _)) he
  | woken m hm hp hl => exact hturn hm hp rfl
  | restoring m hm hp he hl => exact hturn hm hp rfl
  | running m hm hp he hc hl => exact hturn hm hp rfl
  | finished hset hf hl =>
    by_cases hended : ∀ i, (s.threads i).ended = true
    · refine goes_main hmain (fun hl => ?_) fun i _ => hended i
      exact h.mainOk.passed ((hstops.1 hset).2)
    · rw [not_forall] at hended
      obtain ⟨i, hi⟩ := hended
      refine h.goes (h.mainOk.started i ((hstops.1 hset).1 i)) ?_ (Bool.eq_false_iff.mpr hi)
      rw [hf i]
      decide

end Live

/-! ### Every run ends -/

section Ends

/-- The operations that are still to come. -/
def toDo (s : State φ) : Nat :=
  s.main.length + remaining (s.threads 0) + remaining (s.threads 1)

theorem toDo_thread {instr : Instr} {t : Thread} (hF : StepFacts c s s' i instr t) :
    toDo s' < toDo s := by
  have hlt := hF.thread.remaining
  have hself : s'.threads i = t := by rw [hF.eq]; exact afterStep_threads_self
  have hmain : s'.main = s.main := by rw [hF.eq]; rfl
  unfold toDo
  rw [hmain]
  rcases zero_or_one i with rfl | rfl
  · have hother : s'.threads 1 = s.threads 1 := by
      rw [hF.eq]
      exact afterStep_threads_of_ne (by decide)
    rw [hself, hother]
    omega
  · have hother : s'.threads 0 = s.threads 0 := by
      rw [hF.eq]
      exact afterStep_threads_of_ne (by decide)
    rw [hself, hother]
    omega

theorem toDo_main (h : mainStep (makeUbatchContexts c) s = .ok s') : toDo s' < toDo s := by
  unfold mainStep at h
  unfold toDo
  cases hmain : s.main with
  | nil =>
    rw [hmain] at h
    cases h
  | cons instr rest =>
    rw [hmain] at h
    rw [List.length_cons]
    cases instr with
    | barrierLeave =>
      dsimp only at h
      split at h
      · cases h
        dsimp only
        omega
      · cases h
    | join i =>
      dsimp only at h
      split at h
      · cases h
        dsimp only
        omega
      · cases h
    | start i =>
      cases h
      have hsame : ∀ j, remaining (Function.update s.threads i
          { s.threads i with started := true } j) = remaining (s.threads j) := by
        intro j
        by_cases hj : j = i
        · subst hj
          rw [Function.update_self]
          rfl
        · rw [Function.update_of_ne hj]
      show rest.length + remaining (Function.update s.threads i _ 0) +
        remaining (Function.update s.threads i _ 1) < _
      rw [hsame, hsame]
      omega
    | _ =>
      cases h
      dsimp only
      omega

variable [DecidableEq φ]

/-- Each operation leaves less to do. -/
theorem toDo_step (h : Inv k c s) {who : Option (Fin 2)}
    (hstep : step (makeUbatchContexts c) s who = .ok s') : toDo s' < toDo s := by
  cases who with
  | none => exact toDo_main hstep
  | some i =>
    obtain ⟨instr, t, hF⟩ := threadStep_facts (h.threads i) (h.mainOk.registered i) h.turn hstep
    exact toDo_thread hF

/-- There is no run without end. -/
theorem no_endless_run (h : Inv k c s) (f : Nat → State φ) (hstart : f 0 = s) :
    ¬ ∀ n, ∃ who, step (makeUbatchContexts c) (f n) who = .ok (f (n + 1)) := by
  intro hf
  have hinv : ∀ n, Inv k c (f n) ∧ toDo (f n) + n ≤ toDo s := by
    intro n
    induction n with
    | zero =>
      rw [hstart]
      exact ⟨h, Nat.le_refl _⟩
    | succ n ih =>
      obtain ⟨who, hstep⟩ := hf n
      have hless := toDo_step ih.1 hstep
      exact ⟨ih.1.step hstep, by omega⟩
  have := (hinv (toDo s + 1)).2
  omega

end Ends

/-! ### In turn -/

/-- What holds in every state of a run. -/
structure TakesTurns [DecidableEq φ] (k : Nat) (c : Fin 2 → φ) (s : State φ) : Prop where
  /-- Segment `j` of thread 0, of thread 1, then segment `j + 1` of thread 0. -/
  order : s.log <+: turns (2 * (k + 1))
  /-- The model only runs in a segment of its thread. -/
  inSegment : ∀ i, (s.threads i).code.head? = some .work →
    ∃ j, s.log.getLast? = some ⟨i, j, false⟩
  context : ∀ i j, s.log.getLast? = some ⟨i, j, false⟩ → s.forwardContext = some (c i)
  noAssertion : ∀ i, (s.threads i).raised = none
  noDeadlock : s.main ≠ [] → CanGo c s
  /-- When the main thread is through, both threads have left and given their results. -/
  returned : s.main = [] → s.log = turns (2 * (k + 1)) ∧
    ∀ i, (s.threads i).ended = true ∧ s.results.count i = 1

/-- Where the log ends with a beginning, the thread is in its segment. -/
theorem turns_getLast (m : Nat) (i : Fin 2) (j : Nat) :
    (turns m).getLast? ≠ some ⟨i, j, false⟩ := by
  cases m with
  | zero => nofun
  | succ m =>
    rw [turns_succ, List.getLast?_concat]
    nofun

theorem Inv.order (h : Inv k c s) : s.log <+: turns (2 * (k + 1)) := by
  have hturns : ∀ {m}, HasTurn k m s → turns m <+: turns (2 * (k + 1)) :=
    fun hm => turns_isPrefix (Nat.le_of_lt hm.lt)
  cases h.token with
  | main hs he hi hl =>
    rw [hl]
    exact List.nil_prefix
  | flag m hm hs he ho hi hl =>
    rw [hl]
    exact turns_isPrefix (Nat.le_of_lt hm)
  | woken m hm hp hl =>
    rw [hl]
    exact hturns hm
  | restoring m hm hp he hl =>
    rw [hl]
    exact hturns hm
  | running m hm hp he hc hl =>
    refine List.IsPrefix.trans ?_ (turns_isPrefix hm.lt)
    rw [hl, turns_succ]
    exact List.prefix_append _ _
  | finished hs hf hl =>
    rw [hl]

/-- The last mark of a thread in its segment. -/
theorem Inv.inSegment (h : Inv k c s) (hp : phase (s.threads i) = .running) :
    ∃ j, s.log.getLast? = some ⟨i, j, false⟩ := by
  have hidle : ∀ {segment}, ¬ Idle k segment (s.threads i) := by
    intro segment hi
    have := hi.holds
    rw [hp] at this
    cases this
  have hturn : ∀ {m q}, HasTurn k m s → phase (s.threads (turnOf m)) = q → q ≠ .running →
      False := by
    intro m q hm hq hne
    rcases eq_or_other m i with rfl | rfl
    · exact hne (hq.symm.trans hp)
    · exact hidle hm.idle
  cases h.token with
  | main hs he hi hl => exact absurd (hi i) hidle
  | flag m hm hs he ho hi hl => exact absurd (hi i) hidle
  | woken m hm hq hl => exact absurd hq fun hq => hturn hm hq (by decide)
  | restoring m hm hq he hl => exact absurd hq fun hq => hturn hm hq (by decide)
  | running m hm hq he hc hl =>
    rcases eq_or_other m i with rfl | rfl
    · refine ⟨m / 2, ?_⟩
      rw [hl, List.getLast?_concat]
    · exact absurd hm.idle hidle
  | finished hs hf hl =>
    rw [hf i] at hp
    cases hp

theorem Inv.context (h : Inv k c s) {j : Nat} (hlast : s.log.getLast? = some ⟨i, j, false⟩) :
    s.forwardContext = some (c i) := by
  have hturns : ∀ m, s.log ≠ turns m := by
    intro m hl
    rw [hl] at hlast
    exact turns_getLast m i j hlast
  cases h.token with
  | main hs he hi hl => exact absurd hl (hturns 0)
  | flag m hm hs he ho hi hl => exact absurd hl (hturns m)
  | woken m hm hq hl => exact absurd hl (hturns m)
  | restoring m hm hq he hl => exact absurd hl (hturns m)
  | running m hm hq he hc hl =>
    rw [hl, List.getLast?_concat] at hlast
    obtain ⟨rfl, -⟩ := Mark.mk.inj (Option.some.inj hlast)
    exact hc
  | finished hs hf hl => exact absurd hl (hturns _)

/-- Model code is in a segment, by its place. -/
theorem place_work : ∀ p ∈ places, p.2.head? = some Instr.work → phaseOf p.1 p.2 = .running := by
  decide

theorem given_of_ended {t : Thread} (h : t.ended = true) : given t.left t.code = 1 := by
  obtain ⟨hleft, hcode⟩ := Bool.and_eq_true_iff.mp h
  unfold given
  rw [hleft, List.isEmpty_iff.mp hcode]
  exact if_pos ⟨rfl, List.not_mem_nil⟩

section Run
variable [DecidableEq φ]

theorem Inv.takesTurns (h : Inv k c s) : TakesTurns k c s where
  order := h.order
  inSegment := fun i hwork => h.inSegment (place_work _ (h.threads i).place hwork)
  context := fun _ _ => h.context
  noAssertion := fun i => (h.threads i).raised
  noDeadlock := h.live
  returned := by
    intro hmain
    have hended : ∀ i, (s.threads i).ended = true := fun i =>
      h.mainOk.joined i (by rw [hmain]; exact List.not_mem_nil)
    refine ⟨?_, fun i => ⟨hended i, (h.mainOk.results i).trans (given_of_ended (hended i))⟩⟩
    have hfinished := fun i => phase_of_ended (hended i)
    have hturn : ∀ {m q}, phase (s.threads (turnOf m)) = q → q ≠ .finished → False := by
      rintro m q rfl hne
      exact hne (hfinished _)
    cases h.token with
    | main hs he hi hl =>
      rw [hmain] at hs
      cases hs
    | flag m hm hs he ho hi hl =>
      exact absurd ((hi _).waiting hm (h.threads _)) fun hq => hturn hq (by decide)
    | woken m hm hq hl => exact absurd hq fun hq => hturn hq (by decide)
    | restoring m hm hq he hl => exact absurd hq fun hq => hturn hq (by decide)
    | running m hm hq he hc hl => exact absurd hq fun hq => hturn hq (by decide)
    | finished hs hf hl => exact hl

/-- The micro-batches take turns in every run, and every run ends. -/
theorem take_turns (p : Fin 2 → Program k) (c : Fin 2 → φ) (prevContext : Option φ) :
    (∀ s, Run (step (makeUbatchContexts c)) (fun _ _ => True) (start prevContext p) s →
      TakesTurns k c s) ∧
    ∀ f : Nat → State φ, f 0 = start prevContext p →
      ¬ ∀ n, ∃ who, step (makeUbatchContexts c) (f n) who = .ok (f (n + 1)) := by
  refine ⟨fun s h => ?_, no_endless_run (.start prevContext p)⟩
  exact (h.invariant (Inv k c) (.start prevContext p)
    fun _ _ _ hs _ hstep => hs.step hstep).takesTurns

end Run

/-! ### One yield each -/

/-- Thread 0 stays on its stream, thread 1 goes on with the communication. -/
def oneYield (i : Fin 2) : Program 1 :=
  if i = 0 then
    { methods := [.work, .yield_, .work]
      yields := rfl
      streams := rfl }
  else
    { methods := [.work, .yieldAndSwitchFromComputeToComm, .switchToCompute]
      yields := rfl
      streams := rfl }

/-- A run to the end. In it thread 1 has given its result before thread 0 clears its event. -/
theorem take_turns_oneYield : ∃ s : State Bool,
    Run (step (makeUbatchContexts fun i => decide (i = 0))) (fun _ _ => True)
      (start none oneYield) s ∧ s.main = [] ∧ TakesTurns 1 (fun i => decide (i = 0)) s := by
  obtain ⟨s₀, s, hs, hrun, hP⟩ := exists_run_of_check
    (step (makeUbatchContexts fun i => decide (i = 0))) (fun _ _ => True)
    (fun s => s.main = []) (.ok (start none oneYield) : Except Halt (State Bool))
    ([(4, none), (2, some 1), (2, some 0), (2, none), (1, some 1), (13, some 0), (13, some 1),
      (10, some 0), (14, some 1), (2, some 0), (3, none)].flatMap fun p =>
        List.replicate p.1 p.2)
    (by decide +kernel)
  cases hs
  exact ⟨s, hrun, hP, (take_turns oneYield _ none).1 s hrun⟩

end Vllm.Proofs.Worker.Ubatching
