import Vllm.Lib.Run
import Vllm.V1.Engine.DataParallel

/-!
# `Vllm.Proofs.Engine.WaveProtocol`: no lost wake-up

All engines leave the all-reduce together, so they always have the same wave. The rest of the
invariant says who still has to be told that the wave has started.

* `Woken`: the coordinator has started the wave, or a `FIRST_REQ` that will start it is on its
  way.
* `WaveInv`: the invariant, with `waveInv_init` and `waveInv_step`.
* `agreement_of_run`: in every run in which an engine that announced a wave joins it, the engines
  agree whenever no message is in flight.
* `wave_stuck_after_abort`: an engine that announces a wave for a request and aborts the request
  in the same pass of its loop leaves the others alone in the wave.
-/

set_option autoImplicit false

namespace Vllm.Proofs.Engine

open Vllm.Lib Vllm.V1.Engine Function DPEngineCoreProc

section Properties
variable {n m : Nat}

/-- No message is queued, and no engine has taken one without finishing the pass of its loop. -/
structure Quiet (s : DPSystem n m) : Prop where
  requests : ∀ c e, s.requests c e = []
  startWaves : ∀ e, s.startWaves e = []
  outputs : ∀ e, s.outputs e = []
  firstReqs : ∀ c, s.firstReqs c = []
  notices : ∀ c, s.notices c = []
  published : ∀ c, s.published c = []
  loops : ∀ e announced, (s.engines e).phase ≠ .handling announced

instance (s : DPSystem n m) : Decidable (Quiet s) :=
  decidable_of_iff ((∀ c e, s.requests c e = []) ∧ (∀ e, s.startWaves e = []) ∧
      (∀ e, s.outputs e = []) ∧ (∀ c, s.firstReqs c = []) ∧ (∀ c, s.notices c = []) ∧
      (∀ c, s.published c = []) ∧ ∀ e announced, (s.engines e).phase ≠ .handling announced)
    ⟨fun ⟨h₁, h₂, h₃, h₄, h₅, h₆, h₇⟩ => ⟨h₁, h₂, h₃, h₄, h₅, h₆, h₇⟩,
      fun ⟨h₁, h₂, h₃, h₄, h₅, h₆, h₇⟩ => ⟨h₁, h₂, h₃, h₄, h₅, h₆, h₇⟩⟩

/-- All engines run the same wave, or all are paused before the same wave and no engine has an
unfinished request. -/
def Agreement (s : DPSystem n m) : Prop :=
  ∃ wave, (∀ e, (s.engines e).currentWave = wave) ∧
    ((∀ e, (s.engines e).enginesRunning = true) ∨
      ∀ e, (s.engines e).enginesRunning = false ∧ (s.engines e).unfinished = [])

/-- A paused engine that announced the wave in this pass of its loop joins it: its step executes
the model or leaves an unfinished request. -/
def JoinsAnnounced (s : DPSystem n m) : DPOp n m → Prop
  | .stepLoop e executed finished =>
    (s.engines e).phase = .handling true → (s.engines e).enginesRunning = false →
      executed = true ∨ ((s.engines e).abortRequests finished).unfinished ≠ []
  | _ => True

instance (s : DPSystem n m) : (op : DPOp n m) → Decidable (JoinsAnnounced s op)
  | .stepLoop e executed finished => inferInstanceAs (Decidable (
      (s.engines e).phase = .handling true → (s.engines e).enginesRunning = false →
        executed = true ∨ ((s.engines e).abortRequests finished).unfinished ≠ []))
  | .addRequest .. => isTrue trivial
  | .abortRequests .. => isTrue trivial
  | .forwardFirstReq _ => isTrue trivial
  | .readPublished _ => isTrue trivial
  | .coordinatorFront _ => isTrue trivial
  | .coordinatorBack _ => isTrue trivial
  | .coordinatorTimeout => isTrue trivial
  | .processInput .. => isTrue trivial
  | .allReduce => isTrue trivial

end Properties

/-! ### The invariant -/

section Invariant
variable {n m : Nat}

/-- A message on its way to an engine. -/
def Incoming (s : DPSystem n m) (e : Fin n) (input : EngineInput) : Prop :=
  input ∈ s.startWaves e ∨ ∃ c, input ∈ s.requests c e

/-- The coordinator is at the wave `K` and has started it, or it will when it reads a
`FIRST_REQ` that is on its way. -/
def Woken (s : DPSystem n m) (K : Nat) : Prop :=
  s.coordinator.currentWave = K ∧
    (s.coordinator.enginesRunning = true ∨ ∃ c, s.firstReqs c ≠ [] ∨ s.notices c ≠ [])

/-- The engine runs, or it announced the wave and is about to. -/
def Joined (e : DPEngineCoreProc) : Prop :=
  e.enginesRunning = true ∨ e.phase = .handling true

/-- What holds of one engine. -/
structure EngineInv (e : DPEngineCoreProc) : Prop where
  counter : e.enginesRunning = false → e.stepCounter = 0
  running : ∀ flag, e.phase = .allReduce flag → e.enginesRunning = true
  flag : ∀ flag, e.phase = .allReduce flag → flag = !e.unfinished.isEmpty
  idle : e.enginesRunning = false → e.phase = .top → e.unfinished = []

/-- The invariant: `K` is the wave of the engines. -/
structure WaveInv (K : Nat) (s : DPSystem n m) : Prop where
  engine : ∀ e, EngineInv (s.engines e)
  index : ∀ e, (s.engines e).engineIndex = e
  wave : ∀ e, (s.engines e).currentWave = K
  coordinator : s.coordinator.currentWave ≤ K
  client : ∀ c, (s.clients c).currentWave ≤ s.coordinator.currentWave
  clientRunning : ∀ c, (s.clients c).enginesRunning = true →
    (s.clients c).currentWave = s.coordinator.currentWave →
    s.coordinator.enginesRunning = true ∨ s.notices c ≠ []
  published : ∀ c, ∀ p ∈ s.published c, p.1 ≤ s.coordinator.currentWave ∧
    (p.2 = true → p.1 = s.coordinator.currentWave → s.coordinator.enginesRunning = true)
  notice : ∀ c, ∀ p ∈ s.notices c, ∀ i, p.1.excludes i = false
  add : ∀ e id wave, Incoming s e (.add id wave) →
    wave ≤ s.coordinator.currentWave ∧ (wave = K → Woken s K)
  start : ∀ e wave x, Incoming s e (.startDpWave wave x) →
    wave ≤ s.coordinator.currentWave ∧
      (wave = s.coordinator.currentWave → s.coordinator.enginesRunning = true)
  startWave : ∀ e wave, .startWave wave ∈ s.outputs e →
    wave ≤ K ∧ (wave = K → Joined (s.engines e))
  waveComplete : ∀ e wave, .waveComplete wave ∈ s.outputs e → wave < K
  /-- Whoever is in the wave, the coordinator knows or will know. -/
  active : ∀ e, (s.engines e).enginesRunning = true ∨ (s.engines e).unfinished ≠ [] →
    Woken s K ∨ ∃ x, .startWave K ∈ s.outputs x
  /-- Once the coordinator has started the wave, every engine is in it or will be told. -/
  notified : s.coordinator.currentWave = K → s.coordinator.enginesRunning = true →
    ∀ e, Joined (s.engines e) ∨
      ∃ x, Incoming s e (.startDpWave K x) ∧ x.excludes e = false

theorem waveInv_init (n m : Nat) : WaveInv 0 (DPSystem.init n m) := by
  have hin : ∀ e input, ¬ Incoming (DPSystem.init n m) e input := by
    rintro e input (h | ⟨c, h⟩) <;> cases h
  constructor
  case engine =>
    intro e
    constructor
    case counter => exact fun _ => rfl
    case running => exact fun flag h => by cases h
    case flag => exact fun flag h => by cases h
    case idle => exact fun _ _ => rfl
  case index => exact fun _ => rfl
  case wave => exact fun _ => rfl
  case coordinator => exact Nat.le_refl 0
  case client => exact fun _ => Nat.le_refl 0
  case clientRunning => exact nofun
  case published => exact nofun
  case notice => exact nofun
  case add => exact fun e _ _ h => absurd h (hin e _)
  case start => exact fun e _ _ h => absurd h (hin e _)
  case startWave => exact nofun
  case waveComplete => exact nofun
  case active =>
    rintro e (h | h)
    · cases h
    · exact absurd rfl h
  case notified => exact nofun

/-- In a quiet state the invariant leaves no engine behind. -/
theorem WaveInv.agreement {K : Nat} {s : DPSystem n m} (h : WaveInv K s) (hq : Quiet s) :
    Agreement s := by
  have hin : ∀ e input, ¬ Incoming s e input := by
    rintro e input (hmem | ⟨c, hmem⟩)
    · rw [hq.startWaves] at hmem
      cases hmem
    · rw [hq.requests] at hmem
      cases hmem
  refine ⟨K, h.wave, ?_⟩
  by_cases hsome : ∃ e, (s.engines e).enginesRunning = true
  · obtain ⟨e0, he0⟩ := hsome
    left
    intro e
    -- The messages that could still start the wave have arrived.
    have hrunning : s.coordinator.currentWave = K ∧ s.coordinator.enginesRunning = true := by
      rcases h.active e0 (.inl he0) with ⟨hwave, hrun | ⟨c, hc | hc⟩⟩ | ⟨x, hx⟩
      · exact ⟨hwave, hrun⟩
      · exact absurd (hq.firstReqs c) hc
      · exact absurd (hq.notices c) hc
      · rw [hq.outputs] at hx
        cases hx
    rcases h.notified hrunning.1 hrunning.2 e with (hrun | hphase) | ⟨x, hx, -⟩
    · exact hrun
    · exact absurd hphase (hq.loops e true)
    · exact absurd hx (hin e _)
  · right
    intro e
    have hpaused : (s.engines e).enginesRunning = false := by
      rw [← Bool.not_eq_true]
      exact fun he => hsome ⟨e, he⟩
    refine ⟨hpaused, (h.engine e).idle hpaused ?_⟩
    cases hphase : (s.engines e).phase with
    | top => rfl
    | handling announced => exact absurd hphase (hq.loops e announced)
    | allReduce flag =>
      rw [(h.engine e).running flag hphase] at hpaused
      cases hpaused

variable {s' : DPSystem n m}

/-- `Woken` looks at the coordinator and at the `FIRST_REQ`s on their way. -/
theorem Woken.of_eq {K : Nat} {s : DPSystem n m} (h : Woken s K)
    (hc : s'.coordinator = s.coordinator)
    (hfirst : (∃ c, s.firstReqs c ≠ [] ∨ s.notices c ≠ []) →
      ∃ c, s'.firstReqs c ≠ [] ∨ s'.notices c ≠ []) :
    Woken s' K := by
  refine ⟨hc ▸ h.1, ?_⟩
  rcases h.2 with hrun | hsome
  · exact .inl (hc ▸ hrun)
  · exact .inr (hfirst hsome)

variable {c : Fin m} {e : Fin n}

/-- A front-end sends a message to an engine. -/
theorem incoming_send (s s' : DPSystem n m) {x : EngineInput} (hs : s'.startWaves = s.startWaves)
    (hr : s'.requests = update s.requests c (update (s.requests c) e (s.requests c e ++ [x])))
    (e' : Fin n) (input : EngineInput) :
    Incoming s' e' input ↔ Incoming s e' input ∨ (e' = e ∧ input = x) := by
  unfold Incoming
  rw [hs, hr]
  constructor
  · rintro (hmem | ⟨c', hmem⟩)
    · exact .inl (.inl hmem)
    · by_cases hc : c' = c
      · subst hc
        rw [update_self] at hmem
        by_cases he : e' = e
        · subst he
          rw [update_self] at hmem
          rcases List.mem_append.mp hmem with hmem | hmem
          · exact .inl (.inr ⟨c', hmem⟩)
          · exact .inr ⟨rfl, List.mem_singleton.mp hmem⟩
        · rw [update_of_ne he] at hmem
          exact .inl (.inr ⟨c', hmem⟩)
      · rw [update_of_ne hc] at hmem
        exact .inl (.inr ⟨c', hmem⟩)
  · rintro ((hmem | ⟨c', hmem⟩) | ⟨rfl, rfl⟩)
    · exact .inl hmem
    · refine .inr ⟨c', ?_⟩
      by_cases hc : c' = c
      · subst hc
        rw [update_self]
        by_cases he : e' = e
        · subst he
          rw [update_self]
          exact List.mem_append_left _ hmem
        · rw [update_of_ne he]
          exact hmem
      · rw [update_of_ne hc]
        exact hmem
    · refine .inr ⟨c, ?_⟩
      rw [update_self, update_self]
      simp

/-! ### Front-ends -/

variable {K : Nat} {s : DPSystem n m}

/-- A front-end sends a message to an engine and keeps the rest, or grows its `FIRST_REQ`s. -/
theorem waveInv_send (h : WaveInv K s) {x : EngineInput} {firstReqs : Fin m → List (Fin n)}
    (hfirst : ∀ c', s.firstReqs c' ≠ [] → firstReqs c' ≠ [])
    (hadd : ∀ id wave, x = .add id wave → wave ≤ s.coordinator.currentWave ∧ (wave = K →
      s.coordinator.currentWave = K ∧ (s.coordinator.enginesRunning = true ∨
      ∃ c, firstReqs c ≠ [] ∨ s.notices c ≠ [])))
    (hstart : ∀ wave exclude, x ≠ .startDpWave wave exclude) :
    WaveInv K { s with
      requests := update s.requests c
        (update (s.requests c) e (s.requests c e ++ [x]))
      firstReqs := firstReqs } := by
  have hin := incoming_send s { s with
      requests := update s.requests c
        (update (s.requests c) e (s.requests c e ++ [x]))
      firstReqs := firstReqs } rfl rfl
  have hwoken : Woken s K → Woken { s with
      requests := update s.requests c
        (update (s.requests c) e (s.requests c e ++ [x]))
      firstReqs := firstReqs } K := by
    intro hw
    refine hw.of_eq rfl ?_
    rintro ⟨c', hc' | hc'⟩
    · exact ⟨c', .inl (hfirst c' hc')⟩
    · exact ⟨c', .inr hc'⟩
  exact { h with
    add := by
      intro e' id wave hmem
      rcases (hin e' _).mp hmem with hmem | ⟨-, hx⟩
      · exact ⟨(h.add e' id wave hmem).1, fun hw => hwoken ((h.add e' id wave hmem).2 hw)⟩
      · exact hadd id wave hx.symm
    start := by
      intro e' wave exclude hmem
      rcases (hin e' _).mp hmem with hmem | ⟨-, hx⟩
      · exact h.start e' wave exclude hmem
      · exact absurd hx.symm (hstart wave exclude)
    active := fun e' he' => (h.active e' he').imp hwoken id
    notified := by
      intro hwave hrun e'
      rcases h.notified hwave hrun e' with hj | ⟨exclude, hmem, hex⟩
      · exact .inl hj
      · exact .inr ⟨exclude, (hin e' _).mpr (.inl hmem), hex⟩ }

/-- A request that is sent for the current wave is announced by a `FIRST_REQ`, unless the
coordinator has started the wave or will. -/
theorem waveInv_addRequest (h : WaveInv K s) {requestId : String}
    (hstep : dpStep s (.addRequest c e requestId) = .ok s') :
    WaveInv K s' := by
  cases hstep
  refine waveInv_send h ?_ ?_ (nofun)
  · intro c' hc'
    by_cases hcc : c' = c
    · subst hcc
      rw [update_self]
      split
      · simp
      · exact hc'
    · rw [update_of_ne hcc]
      exact hc'
  · rintro id wave hx
    cases hx
    refine ⟨h.client c, fun hK => ?_⟩
    have hcoord : s.coordinator.currentWave = K := Nat.le_antisymm h.coordinator (hK ▸ h.client c)
    refine ⟨hcoord, ?_⟩
    cases hrun : (s.clients c).enginesRunning with
    | false => exact .inr ⟨c, .inl (by simp)⟩
    | true =>
      rcases h.clientRunning c hrun (hK.trans hcoord.symm) with hcr | hn
      · exact .inl hcr
      · exact .inr ⟨c, .inr hn⟩

theorem waveInv_abortRequests (h : WaveInv K s) {requestIds : List String}
    (hstep : dpStep s (.abortRequests c e requestIds) = .ok s') : WaveInv K s' := by
  cases hstep
  exact waveInv_send h (fun _ hc => hc) (nofun) (nofun)

theorem waveInv_forwardFirstReq (h : WaveInv K s) (hstep : dpStep s (.forwardFirstReq c) = .ok s') :
    WaveInv K s' := by
  simp only [dpStep] at hstep
  split at hstep
  · cases hstep
  rename_i e rest hfirst
  cases hstep
  have hnotices : ∀ c', s.notices c' ≠ [] → update s.notices c
      (s.notices c ++ [(.identity (engineIdentity e), (s.clients c).currentWave)]) c' ≠ [] := by
    intro c' hc'
    by_cases hcc : c' = c
    · subst hcc
      simp
    · rw [update_of_ne hcc]
      exact hc'
  have hwoken : Woken s K → Woken { s with
      firstReqs := update s.firstReqs c rest
      notices := update s.notices c
        (s.notices c ++ [(.identity (engineIdentity e), (s.clients c).currentWave)])
      clients := update s.clients c { s.clients c with enginesRunning := true } } K := by
    intro hw
    refine hw.of_eq rfl fun _ => ⟨c, .inr ?_⟩
    simp
  exact { h with
    client := by
      intro c'
      by_cases hcc : c' = c
      · subst hcc
        simpa using h.client c'
      · simpa [update_of_ne hcc] using h.client c'
    clientRunning := by
      intro c' hrun hwave
      by_cases hcc : c' = c
      · subst hcc
        exact .inr (by simp)
      · dsimp only at hrun hwave
        rw [update_of_ne hcc] at hrun hwave
        exact (h.clientRunning c' hrun hwave).imp id (hnotices c')
    notice := by
      intro c' p hp i
      by_cases hcc : c' = c
      · subst hcc
        dsimp only at hp
        rw [update_self] at hp
        rcases List.mem_append.mp hp with hp | hp
        · exact h.notice c' p hp i
        · rw [List.mem_singleton.mp hp]
          rfl
      · dsimp only at hp
        rw [update_of_ne hcc] at hp
        exact h.notice c' p hp i
    add := fun e' id wave hmem => (h.add e' id wave hmem).imp_right (hwoken ∘ ·)
    active := fun e' he' => (h.active e' he').imp hwoken id }

theorem waveInv_readPublished (h : WaveInv K s) (hstep : dpStep s (.readPublished c) = .ok s') :
    WaveInv K s' := by
  simp only [dpStep] at hstep
  split at hstep
  · cases hstep
  rename_i wave running rest hpub
  cases hstep
  have hhead := h.published c (wave, running) (by rw [hpub]; simp)
  exact { h with
    client := by
      intro c'
      by_cases hcc : c' = c
      · subst hcc
        simpa using hhead.1
      · simpa [update_of_ne hcc] using h.client c'
    clientRunning := by
      intro c' hrun hwave
      dsimp only at hrun hwave
      by_cases hcc : c' = c
      · subst hcc
        rw [update_self] at hrun hwave
        exact .inl (hhead.2 hrun hwave)
      · rw [update_of_ne hcc] at hrun hwave
        exact h.clientRunning c' hrun hwave
    published := by
      intro c' p hp
      dsimp only at hp
      by_cases hcc : c' = c
      · subst hcc
        rw [update_self] at hp
        exact h.published c' p (by rw [hpub]; exact List.mem_cons_of_mem _ hp)
      · rw [update_of_ne hcc] at hp
        exact h.published c' p hp }

/-! ### The coordinator -/

/-- The coordinator publishes its state. -/
theorem waveInv_publish (h : WaveInv K s) : WaveInv K s.publish := by
  exact { h with
    published := by
      intro c p hp
      rcases List.mem_append.mp hp with hp | hp
      · exact h.published c p hp
      · rw [List.mem_singleton.mp hp]
        exact ⟨Nat.le_refl _, fun hrun _ => hrun⟩ }

theorem incoming_sendStartWave (s : DPSystem n m) (wave : Nat) (exclude : ExcludeEngine)
    (e : Fin n) (input : EngineInput) :
    Incoming (s.sendStartWave (some (wave, exclude))) e input ↔
      Incoming s e input ∨ input = .startDpWave wave exclude := by
  unfold Incoming DPSystem.sendStartWave
  dsimp only
  rw [List.mem_append, List.mem_singleton]
  tauto

/-- The coordinator starts its wave: everyone in or past the wave so far keeps its promise, and
the engines are told, up to one that has joined the wave. -/
theorem waveInv_startWave {c : DPCoordinatorProc} {notices : Fin m → List (ExcludeEngine × Nat)}
    {outputs : Fin n → List EngineOutput} {exclude : ExcludeEngine}
    (h : WaveInv K s) (hle : s.coordinator.currentWave ≤ c.currentWave) (hK : c.currentWave ≤ K)
    (hrun : c.enginesRunning = true)
    (hnotices : ∀ c' p, p ∈ notices c' → p ∈ s.notices c')
    (houtputs : ∀ e output, output ∈ outputs e → output ∈ s.outputs e)
    (hactive : c.currentWave ≠ K → ∀ x, .startWave K ∈ s.outputs x → .startWave K ∈ outputs x)
    (hexclude : c.currentWave = K → ∀ e : Fin n, exclude.excludes e = true →
      Joined (s.engines e)) :
    WaveInv K (DPSystem.sendStartWave { s with
      coordinator := c, notices := notices, outputs := outputs }
      (some (c.currentWave, exclude))) := by
  have hin := incoming_sendStartWave { s with
    coordinator := c, notices := notices, outputs := outputs } c.currentWave exclude
  exact { h with
    coordinator := hK
    client := fun c' => (h.client c').trans hle
    clientRunning := fun _ _ _ => .inl hrun
    published := fun c' p hp => ⟨(h.published c' p hp).1.trans hle, fun _ _ => hrun⟩
    notice := fun c' p hp => h.notice c' p (hnotices c' p hp)
    add := by
      intro e id wave hmem
      rcases (hin e _).mp hmem with hmem | hx
      · have hwave := (h.add e id wave hmem).1.trans hle
        exact ⟨hwave, fun hw => ⟨Nat.le_antisymm hK (hw ▸ hwave), .inl hrun⟩⟩
      · cases hx
    start := by
      intro e wave x hmem
      rcases (hin e _).mp hmem with hmem | hx
      · exact ⟨(h.start e wave x hmem).1.trans hle, fun _ => hrun⟩
      · cases hx
        exact ⟨Nat.le_refl _, fun _ => hrun⟩
    startWave := fun e wave hmem => h.startWave e wave (houtputs e _ hmem)
    waveComplete := fun e wave hmem => h.waveComplete e wave (houtputs e _ hmem)
    active := by
      intro e he
      by_cases hwave : c.currentWave = K
      · exact .inl ⟨hwave, .inl hrun⟩
      · -- The coordinator is behind, so the wave was announced by an engine.
        rcases h.active e he with hw | ⟨x, hx⟩
        · exact absurd (Nat.le_antisymm hK (hw.1 ▸ hle)) hwave
        · exact .inr ⟨x, hactive hwave x hx⟩
    notified := by
      intro hwave _ e
      cases hex : exclude.excludes e with
      | true => exact .inl (hexclude hwave e hex)
      | false =>
        refine .inr ⟨exclude, (hin e _).mpr (.inr ?_), hex⟩
        rw [← hwave]
        rfl }

theorem mem_update_of_mem_tail {ι α : Type} [DecidableEq ι] {f : ι → List α} {i : ι} {a : α}
    {rest : List α} (hf : f i = a :: rest) {j : ι} {x : α}
    (hx : x ∈ update f i rest j) : x ∈ f j := by
  by_cases hj : j = i
  · subst hj
    rw [update_self] at hx
    rw [hf]
    exact List.mem_cons_of_mem _ hx
  · rwa [update_of_ne hj] at hx

theorem mem_update_tail {ι α : Type} [DecidableEq ι] {f : ι → List α} {i : ι} {a : α}
    {rest : List α} (hf : f i = a :: rest) {j : ι} {x : α} (hx : x ∈ f j) (hne : x ≠ a) :
    x ∈ update f i rest j := by
  by_cases hj : j = i
  · subst hj
    rw [update_self]
    rw [hf] at hx
    exact (List.mem_cons.mp hx).resolve_left hne
  · rwa [update_of_ne hj]

theorem waveInv_coordinatorFront (h : WaveInv K s)
    (hstep : dpStep s (.coordinatorFront c) = .ok s') : WaveInv K s' := by
  simp only [dpStep] at hstep
  split at hstep
  · cases hstep
  rename_i exclude wave rest hnotices
  have hsub : ∀ c' p, p ∈ update s.notices c rest c' → p ∈ s.notices c' :=
    fun c' p => mem_update_of_mem_tail hnotices
  cases hrun : s.coordinator.enginesRunning with
  | false =>
    simp only [DPCoordinatorProc.firstReq, hrun, if_true, Option.isSome_some] at hstep
    cases hstep
    refine waveInv_publish (waveInv_startWave h (Nat.le_refl _) h.coordinator rfl hsub
      (fun _ _ hmem => hmem) (fun _ _ hx => hx) ?_)
    -- A front-end names the engine by its identity, which excludes no engine.
    intro _ e hex
    split at hex
    · cases hex
    · rw [h.notice c (exclude, wave) (by rw [hnotices]; simp) e] at hex
      cases hex
  | true =>
    simp only [DPCoordinatorProc.firstReq, hrun, Bool.true_eq_false, if_false,
      Option.isSome_none, Bool.false_eq_true] at hstep
    cases hstep
    have hwoken : Woken s K → Woken { s with
        notices := update s.notices c rest } K := fun hw => ⟨hw.1, .inl hrun⟩
    exact { h with
      clientRunning := fun _ _ _ => .inl hrun
      notice := fun c' p hp => h.notice c' p (hsub c' p hp)
      add := fun e id wave hmem => (h.add e id wave hmem).imp_right (hwoken ∘ ·)
      active := fun e he => (h.active e he).imp hwoken id }

/-- The coordinator drops an output that does not concern it: an old wave, or the current one
after it was started. -/
theorem waveInv_dropOutput (h : WaveInv K s) {output : EngineOutput} {rest : List EngineOutput}
    (houtputs : s.outputs e = output :: rest) (hdrop : output = .startWave K → Woken s K) :
    WaveInv K { s with outputs := update s.outputs e rest } := by
  exact { h with
    startWave := fun e' wave hmem => h.startWave e' wave (mem_update_of_mem_tail houtputs hmem)
    waveComplete :=
      fun e' wave hmem => h.waveComplete e' wave (mem_update_of_mem_tail houtputs hmem)
    active := by
      intro e' he'
      rcases h.active e' he' with hw | ⟨x, hx⟩
      · exact .inl hw
      · by_cases hout : output = .startWave K
        · exact .inl (hdrop hout)
        · exact .inr ⟨x, mem_update_tail houtputs hx (Ne.symm hout)⟩ }

/-- Rank 0 reports the end of a wave that the coordinator has not seen end. The engines are past
the wave, so nobody relies on what the coordinator forgets. -/
theorem waveInv_waveComplete (h : WaveInv K s) {wave : Nat} {rest : List EngineOutput}
    (houtputs : s.outputs e = .waveComplete wave :: rest) (hle : s.coordinator.currentWave ≤ wave) :
    WaveInv K { s with
      coordinator := { currentWave := wave + 1, enginesRunning := false }
      outputs := update s.outputs e rest } := by
  have hK : wave < K := h.waveComplete e wave (by rw [houtputs]; simp)
  have hnot : ¬ Woken s K := fun hw => by
    have := hw.1
    omega
  exact { h with
    coordinator := hK
    client := fun c => (h.client c).trans (Nat.le_succ_of_le hle)
    clientRunning := by
      intro c _ hwave
      have hc := h.client c
      dsimp only at hwave
      omega
    published := by
      intro c p hp
      have hp1 := (h.published c p hp).1
      refine ⟨Nat.le_succ_of_le (hp1.trans hle), fun _ hwave => ?_⟩
      dsimp only at hwave
      omega
    add := by
      intro e' id w hmem
      have hw := (h.add e' id w hmem).1
      refine ⟨Nat.le_succ_of_le (hw.trans hle), fun hwK => ?_⟩
      omega
    start := by
      intro e' w x hmem
      have hw := (h.start e' w x hmem).1
      refine ⟨Nat.le_succ_of_le (hw.trans hle), fun hwave => ?_⟩
      dsimp only at hwave
      omega
    startWave := fun e' w hmem => h.startWave e' w (mem_update_of_mem_tail houtputs hmem)
    waveComplete := fun e' w hmem => h.waveComplete e' w (mem_update_of_mem_tail houtputs hmem)
    active := by
      intro e' he'
      obtain ⟨x, hx⟩ := (h.active e' he').resolve_left hnot
      exact .inr ⟨x, mem_update_tail houtputs hx (by simp)⟩
    notified := nofun }

theorem waveInv_coordinatorBack (h : WaveInv K s) (hstep : dpStep s (.coordinatorBack e) = .ok s') :
    WaveInv K s' := by
  simp only [dpStep] at hstep
  split at hstep
  · cases hstep
  rename_i output rest houtputs
  have hhead : output ∈ s.outputs e := by
    rw [houtputs]
    simp
  cases output with
  | waveComplete wave =>
    by_cases hle : s.coordinator.currentWave ≤ wave
    · simp only [DPCoordinatorProc.engineOutput, if_pos hle, if_true] at hstep
      cases hstep
      exact waveInv_publish (waveInv_waveComplete h houtputs hle)
    · simp only [DPCoordinatorProc.engineOutput, if_neg hle, Bool.false_eq_true,
        if_false] at hstep
      cases hstep
      exact waveInv_dropOutput h houtputs (nofun)
  | startWave wave =>
    obtain ⟨hK, hjoined⟩ := h.startWave e wave hhead
    by_cases hstart : s.coordinator.currentWave < wave ∨
        (wave = s.coordinator.currentWave ∧ s.coordinator.enginesRunning = false)
    · simp only [DPCoordinatorProc.engineOutput, if_pos hstart, if_true] at hstep
      cases hstep
      have hle : s.coordinator.currentWave ≤ wave := by omega
      refine waveInv_publish (waveInv_startWave (c := ⟨wave, true⟩) h hle hK rfl
        (fun _ _ hp => hp) (fun _ _ hmem => mem_update_of_mem_tail houtputs hmem) ?_ ?_)
      · intro hne x hx
        refine mem_update_tail houtputs hx fun hout => ?_
        exact hne (EngineOutput.startWave.inj hout).symm
      · -- The engine that announced the wave has joined it.
        intro hwave e' hex
        rw [h.index] at hex
        have heq : e = e' := Fin.ext (of_decide_eq_true hex)
        subst heq
        exact hjoined hwave
    · simp only [DPCoordinatorProc.engineOutput, if_neg hstart, Bool.false_eq_true,
        if_false] at hstep
      cases hstep
      refine waveInv_dropOutput h houtputs fun hout => ?_
      obtain rfl := EngineOutput.startWave.inj hout
      have hcoord := h.coordinator
      have hwave : s.coordinator.currentWave = wave := by omega
      refine ⟨hwave, .inl ?_⟩
      rw [← Bool.not_eq_false]
      exact fun hrun => hstart (.inr ⟨hwave.symm, hrun⟩)

/-! ### Engines -/

/-- What the others rely on when an engine changes its state and writes outputs: its wave, its
joining the wave, and the announcement of a wave it is in. -/
structure EngineStep (K : Nat) (s : DPSystem n m) (e : Fin n) (engine : DPEngineCoreProc)
    (outputs : List EngineOutput) : Prop where
  inv : EngineInv engine
  index : engine.engineIndex = e
  wave : engine.currentWave = K
  joined : Joined (s.engines e) → Joined engine
  announced : ∀ output ∈ outputs, output = .startWave K ∧ Joined engine
  active : engine.enginesRunning = true ∨ engine.unfinished ≠ [] →
    ((s.engines e).enginesRunning = true ∨ (s.engines e).unfinished ≠ []) ∨ Woken s K ∨
      .startWave K ∈ outputs

/-- An engine changes its state and writes outputs, and its input queues lose a message that
it does not need any more. -/
theorem waveInv_setEngine (h : WaveInv K s) {engine : DPEngineCoreProc}
    {outputs : List EngineOutput} (hstep : EngineStep K s e engine outputs)
    (requests : Fin m → Fin n → List EngineInput) (startWaves : Fin n → List EngineInput)
    (hin : ∀ e' input, Incoming { s with requests := requests, startWaves := startWaves }
      e' input → Incoming s e' input)
    (htaken : ∀ e' x, Incoming s e' (.startDpWave K x) → x.excludes e' = false →
      Incoming { s with requests := requests, startWaves := startWaves } e' (.startDpWave K x) ∨
        (e' = e ∧ Joined engine)) :
    WaveInv K (DPSystem.setEngine { s with requests := requests, startWaves := startWaves }
      e engine outputs) := by
  have hmem : ∀ e' output, output ∈ update s.outputs e (s.outputs e ++ outputs) e' →
      output ∈ s.outputs e' ∨ (e' = e ∧ output ∈ outputs) := by
    intro e' output hmem
    by_cases hee : e' = e
    · subst hee
      rw [update_self] at hmem
      exact (List.mem_append.mp hmem).imp_right (⟨rfl, ·⟩)
    · rw [update_of_ne hee] at hmem
      exact .inl hmem
  have hkeep : ∀ e' output, output ∈ s.outputs e' →
      output ∈ update s.outputs e (s.outputs e ++ outputs) e' := by
    intro e' output hold
    by_cases hee : e' = e
    · subst hee
      rw [update_self]
      exact List.mem_append_left _ hold
    · rwa [update_of_ne hee]
  have hjoin : ∀ e', Joined (s.engines e') → Joined (update s.engines e engine e') := by
    intro e' hj
    by_cases hee : e' = e
    · subst hee
      rw [update_self]
      exact hstep.joined hj
    · rwa [update_of_ne hee]
  exact { h with
    engine := by
      refine (forall_update_iff s.engines fun _ x => EngineInv x).mpr
        ⟨hstep.inv, fun e' _ => h.engine e'⟩
    index := by
      refine (forall_update_iff s.engines fun e' x => x.engineIndex = e').mpr
        ⟨hstep.index, fun e' _ => h.index e'⟩
    wave := by
      refine (forall_update_iff s.engines fun _ x => x.currentWave = K).mpr
        ⟨hstep.wave, fun e' _ => h.wave e'⟩
    add := fun e' id wave hi => h.add e' id wave (hin e' _ hi)
    start := fun e' wave x hi => h.start e' wave x (hin e' _ hi)
    startWave := by
      intro e' wave hi
      rcases hmem e' _ hi with hold | ⟨rfl, hnew⟩
      · exact (h.startWave e' wave hold).imp_right fun hj hw => hjoin e' (hj hw)
      · obtain ⟨hout, hj⟩ := hstep.announced _ hnew
        cases hout
        refine ⟨Nat.le_refl _, fun _ => ?_⟩
        show Joined (update s.engines e' engine e')
        rw [update_self]
        exact hj
    waveComplete := by
      intro e' wave hi
      rcases hmem e' _ hi with hold | ⟨-, hnew⟩
      · exact h.waveComplete e' wave hold
      · cases (hstep.announced _ hnew).1
    active := by
      have hold : ∀ e', (s.engines e').enginesRunning = true ∨ (s.engines e').unfinished ≠ [] →
          Woken s K ∨ ∃ x, .startWave K ∈ update s.outputs e (s.outputs e ++ outputs) x :=
        fun e' he' => (h.active e' he').imp_right fun ⟨x, hx⟩ => ⟨x, hkeep x _ hx⟩
      intro e' he'
      by_cases hee : e' = e
      · subst hee
        rw [show (DPSystem.setEngine { s with requests := requests, startWaves := startWaves }
          e' engine outputs).engines e' = engine from update_self ..] at he'
        rcases hstep.active he' with hbefore | hw | hout
        · exact hold e' hbefore
        · exact .inl hw
        · refine .inr ⟨e', ?_⟩
          show _ ∈ update s.outputs e' (s.outputs e' ++ outputs) e'
          rw [update_self]
          exact List.mem_append_right _ hout
      · rw [show (DPSystem.setEngine { s with requests := requests, startWaves := startWaves }
          e engine outputs).engines e' = s.engines e' from update_of_ne hee ..] at he'
        exact hold e' he'
    notified := by
      intro hw hrun e'
      rcases h.notified hw hrun e' with hj | ⟨x, hx, hex⟩
      · exact .inl (hjoin e' hj)
      · rcases htaken e' x hx hex with hx | ⟨rfl, hj⟩
        · exact .inr ⟨x, hx, hex⟩
        · left
          show Joined (update s.engines e' engine e')
          rw [update_self]
          exact hj }

/-- The pass of the loop from the step on. An engine without a wave to join stays idle;
otherwise it runs, and it runs already when it reaches the all-reduce. -/
theorem stepLoop_cases {e : DPEngineCoreProc} (h : EngineInv e) (executed : Bool)
    (finished : List String) :
    ((executed = false ∧ (e.abortRequests finished).unfinished = [] ∧
        e.enginesRunning = false) ∧
      e.stepLoop executed finished = { e.abortRequests finished with phase := .top }) ∨
    ((executed = true ∨ (e.abortRequests finished).unfinished ≠ [] ∨ e.enginesRunning = true) ∧
      ∃ counter phase, e.stepLoop executed finished = { e.abortRequests finished with
          stepCounter := counter, enginesRunning := true, phase := phase } ∧
        (phase = .top ∨ phase = .allReduce (!(e.abortRequests finished).unfinished.isEmpty))) := by
  unfold stepLoop
  dsimp only
  split
  · rename_i hidle
    exact .inl ⟨⟨hidle.1, by simpa using hidle.2.1, hidle.2.2⟩, rfl⟩
  · rename_i hactive
    refine .inr ⟨?_, ?_⟩
    · by_contra hnone
      push Not at hnone
      obtain ⟨hexec, hleft, hrun⟩ := hnone
      exact hactive ⟨Bool.not_eq_true _ ▸ hexec, by simpa using hleft, Bool.not_eq_true _ ▸ hrun⟩
    · split
      · exact ⟨_, _, rfl, .inl rfl⟩
      · rename_i hcounter
        refine ⟨e.stepCounter + 1, _, ?_, .inr rfl⟩
        -- A paused engine has not counted a step yet, so this is not its first one.
        have hrunning : e.enginesRunning = true := by
          rw [← Bool.not_eq_false]
          intro hpaused
          apply hcounter
          show (e.stepCounter + 1) % 32 ≠ 0
          rw [h.counter hpaused]
          decide
        rw [show (e.abortRequests finished).enginesRunning = true from hrunning]
        rfl

theorem waveInv_stepLoop (h : WaveInv K s) {executed : Bool} {finished : List String}
    (hcond : JoinsAnnounced s (.stepLoop e executed finished))
    (hstep : dpStep s (.stepLoop e executed finished) = .ok s') : WaveInv K s' := by
  simp only [dpStep] at hstep
  split at hstep
  · cases hstep
  split at hstep
  · cases hstep
  rename_i hphase hguard
  cases hstep
  refine waveInv_setEngine h ?_ s.requests s.startWaves (fun _ _ hi => hi) (fun _ _ hi _ => .inl hi)
  rcases stepLoop_cases (h.engine e) executed finished with
    ⟨⟨hexec, hleft, hpaused⟩, heq⟩ | ⟨hwhy, counter, phase, heq, hphase'⟩
  · rw [heq]
    constructor
    case inv =>
      exact ⟨fun _ => (h.engine e).counter hpaused, nofun,
        nofun, fun _ _ => hleft⟩
    case index => exact h.index e
    case wave => exact h.wave e
    case joined =>
      rintro (hrun | hann)
      · rw [hpaused] at hrun
        cases hrun
      · rcases hcond hann hpaused with hexec' | hleft'
        · rw [hexec] at hexec'
          cases hexec'
        · exact absurd hleft hleft'
    case announced => exact nofun
    case active =>
      rintro (hrun | hleft')
      · exact .inl (.inl hrun)
      · exact absurd hleft hleft'
  · rw [heq]
    constructor
    case inv =>
      refine ⟨nofun, fun _ _ => rfl, fun flag hp => ?_, nofun⟩
      rcases hphase' with rfl | rfl
      · cases hp
      · exact (LoopPhase.allReduce.inj hp).symm
    case index => exact h.index e
    case wave => exact h.wave e
    case joined => exact fun _ => .inl rfl
    case announced => exact nofun
    case active =>
      -- The engine ran or had a request before the step.
      intro _
      left
      rcases hwhy with hexec | hleft | hrun
      · exact .inr fun hnil => hguard ⟨hexec, hnil⟩
      · refine .inr fun hnil => hleft ?_
        show (s.engines e).unfinished.filter _ = []
        rw [hnil]
        rfl
      · exact .inl hrun

variable {source : Option (Fin m)} {input : EngineInput}

/-- Taking a message removes it from one channel. -/
theorem takeInput_eq_some (h : takeInput s e source = some (input, s')) :
    Incoming s e input ∧ ∃ requests startWaves,
      s' = { s with requests := requests, startWaves := startWaves } ∧
      (∀ e' i, Incoming s' e' i → Incoming s e' i) ∧
      ∀ e' i, Incoming s e' i → Incoming s' e' i ∨ (e' = e ∧ i = input) := by
  unfold takeInput at h
  cases source with
  | some c =>
    dsimp only at h
    split at h
    · cases h
    · rename_i head rest hch
      obtain ⟨rfl, rfl⟩ := Prod.mk.inj (Option.some.inj h)
      refine ⟨.inr ⟨c, by rw [hch]; simp⟩, _, _, rfl, ?_, ?_⟩
      · rintro e' i (hi | ⟨c', hi⟩)
        · exact .inl hi
        · refine .inr ⟨c', ?_⟩
          dsimp only at hi
          by_cases hcc : c' = c
          · subst hcc
            rw [update_self] at hi
            exact mem_update_of_mem_tail hch hi
          · rwa [update_of_ne hcc] at hi
      · rintro e' i (hi | ⟨c', hi⟩)
        · exact .inl (.inl hi)
        · by_cases hcc : c' = c
          · subst hcc
            by_cases hnew : e' = e ∧ i = head
            · exact .inr hnew
            · refine .inl (.inr ⟨c', ?_⟩)
              dsimp only
              rw [update_self]
              by_cases hee : e' = e
              · subst hee
                exact mem_update_tail hch hi fun hi' => hnew ⟨rfl, hi'⟩
              · rwa [update_of_ne hee]
          · refine .inl (.inr ⟨c', ?_⟩)
            dsimp only
            rwa [update_of_ne hcc]
  | none =>
    dsimp only at h
    split at h
    · cases h
    · rename_i head rest hch
      obtain ⟨rfl, rfl⟩ := Prod.mk.inj (Option.some.inj h)
      refine ⟨.inl (by rw [hch]; simp), _, _, rfl, ?_, ?_⟩
      · rintro e' i (hi | hi)
        · exact .inl (mem_update_of_mem_tail hch hi)
        · exact .inr hi
      · rintro e' i (hi | hi)
        · by_cases hnew : e' = e ∧ i = head
          · exact .inr hnew
          · refine .inl (.inl ?_)
            by_cases hee : e' = e
            · subst hee
              exact mem_update_tail hch hi fun hi' => hnew ⟨rfl, hi'⟩
            · dsimp only
              rwa [update_of_ne hee]
        · exact .inl (.inr hi)

/-- Handling a message never pauses an engine. -/
theorem running_handleClientRequest {e : DPEngineCoreProc} (input : EngineInput)
    (h : e.enginesRunning = true) : (e.handleClientRequest input).1.enginesRunning = true := by
  unfold handleClientRequest addRequest startDpWave
  split
  · split_ifs <;> exact h
  · exact h
  · dsimp only
    split_ifs
    · rfl
    · exact h

theorem stepCounter_handleClientRequest (e : DPEngineCoreProc) (input : EngineInput) :
    (e.handleClientRequest input).1.stepCounter = e.stepCounter := by
  unfold handleClientRequest addRequest startDpWave
  split
  · split_ifs <;> rfl
  · rfl
  · dsimp only
    split_ifs <;> rfl

theorem engineIndex_processInput (e : DPEngineCoreProc) (input : EngineInput) :
    (e.processInput input).1.engineIndex = e.engineIndex := by
  show (e.handleClientRequest input).1.engineIndex = e.engineIndex
  unfold handleClientRequest addRequest startDpWave
  split
  · split_ifs <;> rfl
  · rfl
  · dsimp only
    split_ifs <;> rfl

/-- An engine in the middle of a pass has no idle promise to keep. -/
theorem engineInv_processInput {e : DPEngineCoreProc} (h : EngineInv e) (input : EngineInput) :
    EngineInv (e.processInput input).1 := by
  refine ⟨fun hpaused => ?_, nofun, nofun,
    nofun⟩
  show (e.handleClientRequest input).1.stepCounter = 0
  rw [stepCounter_handleClientRequest]
  refine h.counter ?_
  rw [← Bool.not_eq_true]
  intro hrun
  rw [show (e.processInput input).1.enginesRunning = true from
    running_handleClientRequest input hrun] at hpaused
  cases hpaused

theorem joined_processInput {e : DPEngineCoreProc} (input : EngineInput)
    (h : Joined e ∨ (e.handleClientRequest input).2 ≠ []) :
    Joined (e.processInput input).1 := by
  rcases h with (hrun | hphase) | hout
  · exact .inl (running_handleClientRequest input hrun)
  · right
    unfold processInput
    rw [hphase]
    simp
  · right
    unfold processInput
    simp [hout]

/-- A request never carries a wave that the engines have not reached. -/
theorem addRequest_of_le {e : DPEngineCoreProc} {id : String} {wave : Nat}
    (h : wave ≤ e.currentWave) :
    e.addRequest id wave = ({ e with unfinished := e.unfinished ++ [id] },
      if wave ≠ e.currentWave ∧ e.enginesRunning = false then [.startWave e.currentWave]
      else []) := by
  unfold addRequest
  by_cases hne : wave ≠ e.currentWave
  · simp only [hne, if_true, if_neg (Nat.not_lt.mpr h), true_and, ne_eq, not_false_eq_true]
    split_ifs <;> rfl
  · simp only [hne, if_false, false_and]

/-- An engine handles a message. A request for the current wave was announced by its sender, a
request for an earlier one is announced by the engine itself. -/
theorem engineStep_processInput (h : WaveInv K s) (hin : Incoming s e input) :
    EngineStep K s e ((s.engines e).processInput input).1 ((s.engines e).processInput input).2 ∧
      ∀ x, input = .startDpWave K x → x.excludes e = false →
        Joined ((s.engines e).processInput input).1 := by
  have hwave := h.wave e
  have hcoord := h.coordinator
  have hindex := h.index e
  cases input with
  | abort requestIds =>
    refine ⟨?_, fun x hx => (nomatch hx)⟩
    constructor
    case inv => exact engineInv_processInput (h.engine e) _
    case index => exact hindex
    case wave => exact hwave
    case joined => exact fun hj => joined_processInput _ (.inl hj)
    case announced => exact nofun
    case active =>
      rintro (hrun | hleft)
      · exact .inl (.inl hrun)
      · refine .inl (.inr fun hnil => hleft ?_)
        show (s.engines e).unfinished.filter _ = []
        rw [hnil]
        rfl
  | add id wave =>
    obtain ⟨hle, hnow⟩ := h.add e id wave hin
    have heq : (s.engines e).handleClientRequest (.add id wave) =
        ({ s.engines e with unfinished := (s.engines e).unfinished ++ [id] },
          if wave ≠ K ∧ (s.engines e).enginesRunning = false then [.startWave K] else []) := by
      rw [← hwave]
      exact addRequest_of_le (by omega)
    have hout : ((s.engines e).processInput (.add id wave)).2 =
        if wave ≠ K ∧ (s.engines e).enginesRunning = false then [.startWave K] else [] := by
      unfold processInput
      rw [heq]
    refine ⟨?_, fun x hx => (nomatch hx)⟩
    constructor
    case inv => exact engineInv_processInput (h.engine e) _
    case index => exact (engineIndex_processInput _ _).trans hindex
    case wave =>
      show ((s.engines e).handleClientRequest (.add id wave)).1.currentWave = K
      rw [heq]
      exact hwave
    case joined => exact fun hj => joined_processInput _ (.inl hj)
    case announced =>
      intro output ho
      have hne : ((s.engines e).handleClientRequest (.add id wave)).2 ≠ [] := List.ne_nil_of_mem ho
      rw [hout] at ho
      split at ho
      · exact ⟨List.mem_singleton.mp ho, joined_processInput _ (.inr hne)⟩
      · cases ho
    case active =>
      intro _
      rw [hout]
      by_cases hcur : wave = K
      · exact .inr (.inl (hnow hcur))
      · cases hrun : (s.engines e).enginesRunning with
        | true => exact .inl (.inl rfl)
        | false => exact .inr (.inr (by simp [hcur]))
  | startDpWave wave exclude =>
    obtain ⟨hle, hstarted⟩ := h.start e wave exclude hin
    by_cases hnow : exclude.excludes (s.engines e).engineIndex = false ∧
        (s.engines e).currentWave ≤ wave
    · -- The engine joins the wave that the coordinator has started.
      have hcur : wave = K := by omega
      have hwoken : Woken s K := ⟨by omega, .inl (hstarted (by omega))⟩
      have heq : (s.engines e).handleClientRequest (.startDpWave wave exclude) =
          ({ s.engines e with currentWave := wave, enginesRunning := true }, []) := by
        simp only [handleClientRequest, startDpWave,
          if_pos hnow]
      have hjoined : Joined ((s.engines e).processInput (.startDpWave wave exclude)).1 := by
        left
        show ((s.engines e).handleClientRequest (.startDpWave wave exclude)).1.enginesRunning = true
        rw [heq]
      refine ⟨?_, fun _ _ _ => hjoined⟩
      constructor
      case inv => exact engineInv_processInput (h.engine e) _
      case index => exact (engineIndex_processInput _ _).trans hindex
      case wave =>
        show ((s.engines e).handleClientRequest (.startDpWave wave exclude)).1.currentWave = K
        rw [heq]
        exact hcur
      case joined => exact fun _ => hjoined
      case announced => exact nofun
      case active => exact fun _ => .inr (.inl hwoken)
    · have heq : (s.engines e).handleClientRequest (.startDpWave wave exclude) =
          (s.engines e, []) := by
        simp only [handleClientRequest, startDpWave,
          if_neg hnow]
      refine ⟨?_, fun x hx hex => ?_⟩
      · constructor
        case inv => exact engineInv_processInput (h.engine e) _
        case index => exact (engineIndex_processInput _ _).trans hindex
        case wave =>
          show ((s.engines e).handleClientRequest (.startDpWave wave exclude)).1.currentWave = K
          rw [heq]
          exact hwave
        case joined => exact fun hj => joined_processInput _ (.inl hj)
        case announced => exact nofun
        case active =>
          show ((s.engines e).handleClientRequest (.startDpWave wave exclude)).1.enginesRunning
            = true ∨ ((s.engines e).handleClientRequest
              (.startDpWave wave exclude)).1.unfinished ≠ [] → _
          rw [heq]
          exact .inl
      · cases hx
        rw [hindex] at hnow
        exact absurd ⟨hex, Nat.le_of_eq hwave⟩ hnow

/-- An engine takes a message. -/
theorem waveInv_processInput (h : WaveInv K s)
    (hstep : dpStep s (.processInput e source) = .ok s') :
    WaveInv K s' := by
  simp only [dpStep] at hstep
  split at hstep
  · cases hstep
  rename_i hphase
  split at hstep
  · cases hstep
  rename_i input s1 htake
  cases hstep
  obtain ⟨hhead, requests, startWaves, rfl, hin, hkeep⟩ := takeInput_eq_some htake
  obtain ⟨hengine, hstart⟩ := engineStep_processInput h hhead
  refine waveInv_setEngine h hengine requests startWaves hin ?_
  intro e' x hx hex
  rcases hkeep e' _ hx with hx | ⟨rfl, hx⟩
  · exact .inl hx
  · exact .inr ⟨rfl, hstart x hx.symm hex⟩

/-- Some engine has an unfinished request: all engines go on with the wave. -/
theorem waveInv_nextPass (h : WaveInv K s) (hrunning : ∀ e, (s.engines e).enginesRunning = true) :
    WaveInv K { s with
      engines := fun e => ((s.engines e).afterAllReduce true).1
      outputs := fun e => s.outputs e ++ ((s.engines e).afterAllReduce true).2 } := by
  have hout : (fun e => s.outputs e ++ ((s.engines e).afterAllReduce true).2) = s.outputs := by
    funext e
    exact List.append_nil _
  rw [hout]
  exact { h with
    engine := fun e => ⟨nofun, nofun, nofun,
        nofun⟩
    startWave := fun e wave hmem => ⟨(h.startWave e wave hmem).1, fun _ => .inl rfl⟩
    active := fun e _ => h.active e (.inl (hrunning e))
    notified := fun _ _ _ => .inl (.inl rfl) }

/-- No engine has an unfinished request: all engines move to the next wave, of which no message
knows yet. -/
theorem waveInv_nextWave (h : WaveInv K s) (hdone : ∀ e, (s.engines e).unfinished = []) :
    WaveInv (K + 1) { s with
      engines := fun e => ((s.engines e).afterAllReduce false).1
      outputs := fun e => s.outputs e ++ ((s.engines e).afterAllReduce false).2 } := by
  have hcoord := h.coordinator
  have hout : ∀ e output, output ∈ s.outputs e ++ ((s.engines e).afterAllReduce false).2 →
      output ∈ s.outputs e ∨ output = .waveComplete K := by
    intro e output hmem
    refine (List.mem_append.mp hmem).imp_right fun hnew => ?_
    simp only [afterAllReduce, Bool.false_eq_true, if_false, h.wave e] at hnew
    split at hnew
    · exact List.mem_singleton.mp hnew
    · cases hnew
  exact { h with
    engine := fun e => ⟨fun _ => rfl, nofun, nofun,
        fun _ _ => hdone e⟩
    wave := fun e => congrArg (· + 1) (h.wave e)
    coordinator := Nat.le_succ_of_le hcoord
    add := by
      intro e id wave hmem
      have hle := (h.add e id wave hmem).1
      exact ⟨hle, fun hw => by omega⟩
    startWave := by
      intro e wave hmem
      rcases hout e _ hmem with hold | hnew
      · have hle := (h.startWave e wave hold).1
        exact ⟨Nat.le_succ_of_le hle, fun hw => by omega⟩
      · cases hnew
    waveComplete := by
      intro e wave hmem
      rcases hout e _ hmem with hold | hnew
      · exact Nat.lt_succ_of_lt (h.waveComplete e wave hold)
      · cases hnew
        exact Nat.lt_succ_self _
    active := by
      rintro e (hrun | hleft)
      · cases hrun
      · exact absurd (hdone e) hleft
    notified := by
      intro hw
      dsimp only at hw
      omega }

/-- The engines leave the all-reduce together. -/
theorem waveInv_allReduce (h : WaveInv K s) (hstep : dpStep s .allReduce = .ok s') :
    WaveInv K s' ∨ WaveInv (K + 1) s' := by
  simp only [dpStep] at hstep
  split at hstep
  · rename_i hall
    cases hstep
    have hflag : ∀ e, ∃ flag, (s.engines e).phase = .allReduce flag := by
      intro e
      have he := hall e
      cases hphase : (s.engines e).phase with
      | top => rw [hphase] at he; cases he
      | handling announced => rw [hphase] at he; cases he
      | allReduce flag => exact ⟨flag, rfl⟩
    have hrunning : ∀ e, (s.engines e).enginesRunning = true := by
      intro e
      obtain ⟨flag, hphase⟩ := hflag e
      exact (h.engine e).running flag hphase
    cases hglobal : globalUnfinished s with
    | true => exact .inl (waveInv_nextPass h hrunning)
    | false =>
      refine .inr (waveInv_nextWave h fun e => ?_)
      obtain ⟨flag, hphase⟩ := hflag e
      have hfalse : flag = false := by
        rw [← Bool.not_eq_true]
        rintro rfl
        exact of_decide_eq_false hglobal ⟨e, by rw [hphase]; rfl⟩
      have hempty := (h.engine e).flag flag hphase
      rw [hfalse] at hempty
      simpa using hempty.symm
  · cases hstep

/-- Every step keeps the invariant, when the engines that announced a wave join it. -/
theorem waveInv_step {op : DPOp n m} (h : WaveInv K s) (hcond : JoinsAnnounced s op)
    (hstep : dpStep s op = .ok s') :
    ∃ K', WaveInv K' s' := by
  cases op with
  | addRequest c e requestId => exact ⟨K, waveInv_addRequest h hstep⟩
  | abortRequests c e requestIds => exact ⟨K, waveInv_abortRequests h hstep⟩
  | forwardFirstReq c => exact ⟨K, waveInv_forwardFirstReq h hstep⟩
  | readPublished c => exact ⟨K, waveInv_readPublished h hstep⟩
  | coordinatorFront c => exact ⟨K, waveInv_coordinatorFront h hstep⟩
  | coordinatorBack e => exact ⟨K, waveInv_coordinatorBack h hstep⟩
  | coordinatorTimeout =>
    cases hstep
    exact ⟨K, waveInv_publish h⟩
  | processInput e source => exact ⟨K, waveInv_processInput h hstep⟩
  | stepLoop e executed finished => exact ⟨K, waveInv_stepLoop h hcond hstep⟩
  | allReduce =>
    rcases waveInv_allReduce h hstep with h' | h'
    · exact ⟨K, h'⟩
    · exact ⟨K + 1, h'⟩

end Invariant

/-- In every run in which the engines that announce a wave join it, the engines agree whenever
no message is in flight: no wake-up is lost. -/
theorem agreement_of_run {n m : Nat} {s : DPSystem n m}
    (hrun : Run dpStep JoinsAnnounced (DPSystem.init n m) s) (hquiet : Quiet s) :
    Agreement s := by
  have hinv : ∃ K, WaveInv K s := by
    refine hrun.invariant (fun s => ∃ K, WaveInv K s) ⟨0, waveInv_init n m⟩ ?_
    rintro s op s' ⟨K, h⟩ hcond hstep
    exact waveInv_step h hcond hstep
  obtain ⟨K, h⟩ := hinv
  exact h.agreement hquiet

/-- The first wave of two engines and one front-end: a request for engine 0 wakes engine 1, the
request is finished by one step, and the all-reduce of the thirty-second step ends the wave. -/
def firstWave : List (DPOp 2 1) :=
  [ .addRequest 0 0 "a", .forwardFirstReq 0, .coordinatorFront 0,
    .processInput 0 (some 0), .processInput 0 none, .processInput 1 none,
    .stepLoop 0 true ["a"]] ++
  List.replicate 31 (.stepLoop 0 false []) ++ List.replicate 32 (.stepLoop 1 false []) ++
  [.allReduce]

/-- After the first wave the front-end still believes it running. Its request for engine 1
carries the old wave, and engine 1 has the coordinator start the next one. -/
theorem agreement_stale_request : ∃ s : DPSystem 2 1,
    Run dpStep JoinsAnnounced (DPSystem.init 2 1) s ∧ Quiet s ∧
      (s.engines 0).enginesRunning = true ∧ (s.engines 0).currentWave = 1 ∧
      (s.engines 1).unfinished = ["b"] ∧ Agreement s := by
  obtain ⟨s₀, s, hstart, hrun, hquiet, h₀, hwave, h₁⟩ := exists_run_of_check dpStep JoinsAnnounced
    (fun s => Quiet s ∧ (s.engines 0).enginesRunning = true ∧ (s.engines 0).currentWave = 1 ∧
      (s.engines 1).unfinished = ["b"])
    (.ok (DPSystem.init 2 1))
    (firstWave ++ [ .addRequest 0 1 "b", .processInput 1 (some 0), .stepLoop 1 true [],
      .coordinatorBack 0, .coordinatorBack 1,
      .processInput 0 none, .stepLoop 0 false [], .processInput 1 none, .stepLoop 1 true [],
      .readPublished 0, .readPublished 0, .readPublished 0]) (by decide +kernel)
  cases hstart
  exact ⟨s, hrun, hquiet, h₀, hwave, h₁, agreement_of_run hrun hquiet⟩

/-- The condition is needed. The request with the old wave is aborted in the pass of the loop
that takes it: engine 1 has announced the wave and stays idle, and the broadcast of the
coordinator excludes it. Engine 0 is alone in the wave. -/
theorem wave_stuck_after_abort : ¬ ∀ (n m : Nat) (s : DPSystem n m),
    Run dpStep (fun _ _ => True) (DPSystem.init n m) s → Quiet s → Agreement s := by
  intro hall
  obtain ⟨s₀, s, hstart, hrun, hquiet, h₀, h₁⟩ := exists_run_of_check dpStep (fun _ _ => True)
    (fun s : DPSystem 2 1 => Quiet s ∧ (s.engines 0).enginesRunning = true ∧
      (s.engines 1).enginesRunning = false)
    (.ok (DPSystem.init 2 1))
    (firstWave ++ [ .addRequest 0 1 "b", .abortRequests 0 1 ["b"],
      .processInput 1 (some 0), .processInput 1 (some 0), .stepLoop 1 false [],
      .coordinatorBack 0, .coordinatorBack 1,
      .processInput 0 none, .stepLoop 0 false [], .processInput 1 none, .stepLoop 1 false [],
      .readPublished 0, .readPublished 0, .readPublished 0]) (by decide +kernel)
  cases hstart
  obtain ⟨wave, -, hrunning | hpaused⟩ := hall 2 1 s hrun hquiet
  · rw [hrunning 1] at h₁
    cases h₁
  · rw [(hpaused 0).1] at h₀
    cases h₀

end Vllm.Proofs.Engine
