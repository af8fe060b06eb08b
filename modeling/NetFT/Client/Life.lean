import Mathlib.Logic.Function.Basic
import NetFT.Client.Impl

/-! The worker protocol of a client, without the work: who may create, join and forget a worker
thread. A thread plays a role, a worker is in a phase, and the shared members are the worker
handle, the joining flag, the exit flag and the active id. `Life.Inv` is the invariant of the
protocol and `Life.Step.inv` its preservation; the steps of the client are steps of this protocol
(`NetFT.Client.Lifecycle`). -/

namespace NetFT.Client

/-- The phase of a worker thread. A `stored` worker has set the exit flag and only has
notifications left. -/
inductive Phase
  | unborn | live | stored | exited
  deriving DecidableEq, Repr

/-- The role of a thread in the protocol.

* `free`: outside of `start` and `stop`, or before their test for the worker itself;
* `past`: has passed that test;
* `settled`: holds the lifecycle mutex and has seen `joining` false;
* `quiet`: holds it and has seen neither a handle nor a joiner;
* `cleared`: in addition has cleared the exit flag for the worker it is about to create;
* `activating`: has created a worker and not yet recorded its id;
* `joining n`, `joined n`: has taken the handle of worker `n`, and has joined it. -/
inductive Role
  | free | past | settled | quiet | cleared | activating
  | joining (n : Nat)
  | joined (n : Nat)
  deriving DecidableEq, Repr

/-- The roles that are played only while holding the lifecycle mutex. -/
def Role.exclusive : Role → Bool
  | .settled | .quiet | .cleared | .activating => true
  | _ => false

/-- The worker that a thread is responsible for joining. -/
def Role.joins : Role → Option Nat
  | .joining n | .joined n => some n
  | _ => none

structure Life where
  worker : Option Nat
  joining : Bool
  workerExited : Bool
  active : Option Tid
  created : Nat
  phase : Nat → Phase
  role : Tid → Role

namespace Life

/-- No other thread plays an exclusive role. -/
def Alone (l : Life) (t : Tid) : Prop := ∀ t', t' ≠ t → (l.role t').exclusive = false

/-- A thread that passes the test for the worker itself is not recognised as the worker, and it
executes as a worker only while that worker is live. -/
def Passes (l : Life) (t : Tid) : Prop :=
  l.role t = .free → ¬ (l.workerExited = false ∧ l.active = some t) ∧
    ∀ n, t = .worker n → l.phase n = .live

/-- The steps of the protocol. The label of a step is the worker it joins and by whom. -/
inductive Step (l : Life) : Option (Nat × Tid) → Life → Prop
  | relax (hrole : l.role t = .past ∨ l.role t = .settled ∨ l.role t = .quiet)
    (hr : r = .free ∨ r = .past) : Step l none { l with role := Function.update l.role t r }
  | pass (hrole : l.role t = .free) (hself : l.Passes t) (halone : l.Alone t) :
    Step l none { l with role := Function.update l.role t .past }
  | settle (hrole : l.role t = .free ∨ l.role t = .past) (hself : l.Passes t)
    (halone : l.Alone t) (hjoining : l.joining = false) :
    Step l none { l with role := Function.update l.role t .settled }
  | rest (hrole : l.role t = .free ∨ l.role t = .past ∨ l.role t = .settled)
    (hself : l.Passes t) (halone : l.Alone t) (hjoining : l.joining = false)
    (hworker : l.worker = none) : Step l none { l with role := Function.update l.role t .quiet }
  | take (hrole : l.role t = .free ∨ l.role t = .past ∨ l.role t = .settled)
    (hself : l.Passes t) (halone : l.Alone t) (hworker : l.worker = some n) :
    Step l none { l with
      worker := none, joining := true, role := Function.update l.role t (.joining n) }
  | join (hrole : l.role t = .joining n) (hphase : l.phase n = .exited) :
    Step l (some (n, t)) { l with role := Function.update l.role t (.joined n) }
  | release (hrole : l.role t = .joined n) (halone : l.Alone t) :
    Step l none { l with joining := false, active := none, role := Function.update l.role t .past }
  | clear (hrole : l.role t = .quiet) (halone : l.Alone t) :
    Step l none { l with workerExited := false, role := Function.update l.role t .cleared }
  | restore (hrole : l.role t = .cleared) (halone : l.Alone t) :
    Step l none { l with workerExited := true, role := Function.update l.role t .quiet }
  | create (hrole : l.role t = .cleared) (halone : l.Alone t) :
    Step l none { l with
      worker := some l.created
      created := l.created + 1
      phase := Function.update l.phase l.created .live
      role := Function.update l.role t .activating }
  | activate (hrole : l.role t = .activating) (halone : l.Alone t) :
    Step l none { l with
      active := l.worker.map .worker, role := Function.update l.role t .past }
  | store (hphase : l.phase n = .live) :
    Step l none { l with workerExited := true, phase := Function.update l.phase n .stored }
  | exit (hphase : l.phase n = .stored) :
    Step l none { l with phase := Function.update l.phase n .exited }

variable {l l' : Life} {t t' : Tid} {n : Nat}

/-- The invariant of the protocol. Only the last worker is not gone; its handle is in exactly
one place (the member, a joining thread, or nowhere after it was joined); and the exit flag and
the active id are those of the last worker, outside of the short windows in which an exclusive
thread changes them. -/
structure Inv (l : Life) : Prop where
  unborn : ∀ n, l.created ≤ n → l.phase n = .unborn
  gone : ∀ n, n + 1 < l.created → l.phase n = .exited
  handle : ∀ n, l.worker = some n → n + 1 = l.created ∧ l.joining = false
  joiner : ∀ t n, (l.role t).joins = some n → n + 1 = l.created ∧ l.joining = true
  joinerUnique : ∀ t t' n n', (l.role t).joins = some n → (l.role t').joins = some n' → t = t'
  joinerExists : l.joining = true → ∃ t n, (l.role t).joins = some n
  joined : ∀ t n, l.role t = .joined n → l.phase n = .exited
  quiet : l.worker = none → l.joining = false → ∀ n, n + 1 = l.created → l.phase n = .exited
  settled : ∀ t, l.role t = .settled → l.joining = false
  resting : ∀ t, l.role t = .quiet ∨ l.role t = .cleared → l.worker = none ∧ l.joining = false
  liveFlag : ∀ n, l.phase n = .live → l.workerExited = false
  doneFlag : (∀ n, l.phase n ≠ .live) → (∀ t, l.role t ≠ .cleared) → l.workerExited = true
  active : ∀ n, l.phase n = .live → (∀ t, l.role t ≠ .activating) → l.active = some (.worker n)
  idle : l.worker = none → l.joining = false → l.active = none
  activating : ∀ t, l.role t = .activating → ∃ n, l.worker = some n
  cleared : ∀ t, l.role t = .cleared → l.workerExited = false
  nested : ∀ n, l.role (.worker n) = .free

theorem Role.of_not_exclusive {r : Role} (h : r.exclusive = false) :
    r ≠ .settled ∧ ¬ (r = .quiet ∨ r = .cleared) ∧ r ≠ .cleared ∧ r ≠ .activating := by
  cases r <;> simp_all [Role.exclusive]

theorem Alone.of_ne (h : l.Alone t) (hne : t' ≠ t) : l.role t' ≠ .settled ∧
    ¬ (l.role t' = .quiet ∨ l.role t' = .cleared) ∧ l.role t' ≠ .cleared ∧
    l.role t' ≠ .activating := Role.of_not_exclusive (h t' hne)

/-- After a thread that was alone has taken a role that is not exclusive, nobody plays an
exclusive one. -/
theorem Alone.update (h : l.Alone t) (hr : r.exclusive = false) (t' : Tid) :
    Function.update l.role t r t' ≠ .settled ∧
    ¬ (Function.update l.role t r t' = .quiet ∨ Function.update l.role t r t' = .cleared) ∧
    Function.update l.role t r t' ≠ .cleared ∧ Function.update l.role t r t' ≠ .activating := by
  apply Role.of_not_exclusive
  by_cases hne : t' = t
  · simp [hne, hr]
  · rw [Function.update_of_ne hne]; exact h t' hne

namespace Inv

/-- Only the last worker executes. -/
theorem last (h : l.Inv) (hborn : l.phase n ≠ .unborn) (hexit : l.phase n ≠ .exited) :
    n + 1 = l.created := by
  have h₁ := h.unborn n
  have h₂ := h.gone n
  by_contra hne
  rcases Nat.lt_or_ge (n + 1) l.created with hlt | hge
  · exact hexit (h₂ hlt)
  · exact hborn (h₁ (by omega))

theorem last_of_live (h : l.Inv) (hlive : l.phase n = .live) : n + 1 = l.created :=
  h.last (by simp [hlive]) (by simp [hlive])

theorem no_joiner (h : l.Inv) (hjoining : l.joining = false) (t : Tid) :
    (l.role t).joins = none := by
  cases hr : (l.role t).joins with
  | none => rfl
  | some n => simp [(h.joiner t n hr).2] at hjoining

theorem no_live (h : l.Inv) (hworker : l.worker = none) (hjoining : l.joining = false) (n : Nat) :
    l.phase n ≠ .live := by
  intro hlive
  have hexit := h.quiet hworker hjoining n (h.last_of_live hlive)
  simp [hlive] at hexit

/-- A thread that passes the test for the worker itself is not a worker. -/
theorem not_worker (h : l.Inv) (hself : l.Passes t) (halone : l.Alone t) :
    t ≠ .worker n := by
  rintro rfl
  have hfree := h.nested n
  obtain ⟨hself, hlive⟩ := hself hfree
  refine hself ⟨h.liveFlag n (hlive n rfl), h.active n (hlive n rfl) fun t' ht' => ?_⟩
  by_cases hne : t' = .worker n
  · simp [hne, hfree] at ht'
  · exact (halone.of_ne hne).2.2.2 ht'

theorem not_worker_of_role (h : l.Inv) (hrole : l.role t ≠ .free) : t ≠ .worker n := by
  rintro rfl
  exact hrole (h.nested n)

/-- A thread changes its role and nothing else. -/
theorem setRole (h : l.Inv) {r : Role} (hjoins : r.joins = (l.role t).joins)
    (hjoined : ∀ n, r = .joined n → l.phase n = .exited)
    (hsettled : r = .settled → l.joining = false)
    (hresting : r = .quiet → l.worker = none ∧ l.joining = false)
    (hcleared : l.role t ≠ .cleared) (hactivating : l.role t ≠ .activating)
    (hcleared' : r ≠ .cleared) (hactivating' : r ≠ .activating) (hfree : ∀ n, t = .worker n → r = .free) :
    Inv { l with role := Function.update l.role t r } := by
  have hj : ∀ t', (Function.update l.role t r t').joins = (l.role t').joins := by
    intro t'
    by_cases ht : t' = t
    · subst ht; simp [hjoins]
    · simp [Function.update_of_ne ht]
  exact {
    unborn := h.unborn
    gone := h.gone
    handle := h.handle
    joiner := fun t' n hn => h.joiner t' n ((hj t').symm.trans hn)
    joinerUnique := fun t₁ t₂ n n' h₁ h₂ =>
      h.joinerUnique t₁ t₂ n n' ((hj t₁).symm.trans h₁) ((hj t₂).symm.trans h₂)
    joinerExists := fun hjoining => by simpa only [hj] using h.joinerExists hjoining
    joined := by have := h.joined; grind [Function.update_apply]
    quiet := h.quiet
    settled := by have := h.settled; grind [Function.update_apply]
    resting := by have := h.resting; grind [Function.update_apply]
    liveFlag := h.liveFlag
    doneFlag := fun hlive hroles => h.doneFlag hlive (by grind [Function.update_apply])
    active := fun n hlive hroles => h.active n hlive (by grind [Function.update_apply])
    idle := h.idle
    activating := by have := h.activating; grind [Function.update_apply]
    cleared := by have := h.cleared; grind [Function.update_apply]
    nested := by have := h.nested; grind [Function.update_apply] }

/-- The handle of the last worker moves from the member to a joining thread. -/
theorem take (h : l.Inv) (hrole : l.role t = .free ∨ l.role t = .past ∨ l.role t = .settled)
    (hworker : l.worker = some n) (ht : ∀ n, t ≠ .worker n) (halone : l.Alone t) :
    Inv { l with
      worker := none, joining := true, role := Function.update l.role t (.joining n) } := by
  have hnone := h.no_joiner (h.handle n hworker).2
  have hlast := (h.handle n hworker).1
  have hex := halone.update (r := .joining n) rfl
  have hroles : ∀ t', l.role t' ≠ .cleared ∧ l.role t' ≠ .activating := fun t' => by
    by_cases hne : t' = t
    · subst hne; rcases hrole with hr | hr | hr <;> simp [hr]
    · exact (halone.of_ne hne).2.2
  exact {
    unborn := h.unborn
    gone := h.gone
    handle := by simp
    joiner := by grind [Function.update_apply, Role.joins]
    joinerUnique := by grind [Function.update_apply]
    joinerExists := fun _ => ⟨t, n, by simp [Role.joins]⟩
    joined := by have := h.joined; grind [Function.update_apply]
    quiet := by simp
    settled := fun t' hr => absurd hr (hex t').1
    resting := fun t' hr => absurd hr (hex t').2.1
    liveFlag := h.liveFlag
    doneFlag := fun hlive _ => h.doneFlag hlive fun t' => (hroles t').1
    active := fun k hlive _ => h.active k hlive fun t' => (hroles t').2
    idle := by simp
    activating := fun t' hr => absurd hr (hex t').2.2.2
    cleared := fun t' hr => absurd hr (hex t').2.2.1
    nested := fun k => (Function.update_of_ne (Ne.symm (ht k)) ..).trans (h.nested k) }

/-- The joiner forgets the worker it has joined. -/
theorem release (h : l.Inv) (hrole : l.role t = .joined n) (halone : l.Alone t) :
    Inv { l with joining := false, active := none, role := Function.update l.role t .past } := by
  have hjoins : (l.role t).joins = some n := by simp [hrole, Role.joins]
  obtain ⟨hlast, hjoining⟩ := h.joiner t n hjoins
  have hexit := h.joined t n hrole
  have hex := halone.update (r := .past) rfl
  have hnone : ∀ t', (Function.update l.role t .past t').joins = none := by
    intro t'
    by_cases hne : t' = t
    · simp [hne, Role.joins]
    · rw [Function.update_of_ne hne]
      cases hr : (l.role t').joins with
      | none => rfl
      | some k => exact absurd (h.joinerUnique t' t k n hr hjoins) hne
  have hquiet : ∀ k, k + 1 = l.created → l.phase k = .exited := by
    intro k hk
    obtain rfl : k = n := by omega
    exact hexit
  have hlive : ∀ k, l.phase k ≠ .live := fun k hk => by
    simp [hquiet k (h.last_of_live hk)] at hk
  exact {
    unborn := h.unborn
    gone := h.gone
    handle := fun k hk => ⟨(h.handle k hk).1, rfl⟩
    joiner := by simp [hnone]
    joinerUnique := by simp [hnone]
    joinerExists := by simp
    joined := by have := h.joined; grind [Function.update_apply]
    quiet := fun _ _ => hquiet
    settled := fun _ _ => rfl
    resting := fun t' hr => absurd hr (hex t').2.1
    liveFlag := h.liveFlag
    doneFlag := fun _ _ => h.doneFlag hlive fun t' hr => by
      by_cases hne : t' = t
      · subst hne; simp [hr] at hrole
      · exact (halone.of_ne hne).2.2.1 hr
    active := fun k hk => absurd hk (hlive k)
    idle := fun _ _ => rfl
    activating := fun t' hr => absurd hr (hex t').2.2.2
    cleared := fun t' hr => absurd hr (hex t').2.2.1
    nested := fun k => (Function.update_of_ne
      (Ne.symm (h.not_worker_of_role (by simp [hrole]))) ..).trans (h.nested k) }

/-- The exit flag is cleared for a worker that is about to be created, or restored when it
could not be created. -/
theorem setFlag (h : l.Inv) {r : Role} {flag : Bool}
    (hrole : l.role t = .quiet ∨ l.role t = .cleared) (halone : l.Alone t)
    (hr : r = if flag then .quiet else .cleared) :
    Inv { l with workerExited := flag, role := Function.update l.role t r } := by
  obtain ⟨hworker, hjoining⟩ := h.resting t hrole
  have hlive := h.no_live hworker hjoining
  have hnone := h.no_joiner hjoining
  have hnone' : ∀ t', (Function.update l.role t r t').joins = none := by
    intro t'
    by_cases hne : t' = t
    · subst hne; simp only [Function.update_self, hr]; split <;> rfl
    · rw [Function.update_of_ne hne]; exact hnone t'
  have hrole' : l.role t ≠ .activating := by rcases hrole with hr | hr <;> simp [hr]
  exact {
    unborn := h.unborn
    gone := h.gone
    handle := h.handle
    joiner := by simp [hnone']
    joinerUnique := by simp [hnone']
    joinerExists := by simp [hjoining]
    joined := by have := h.joined; grind [Function.update_apply]
    quiet := h.quiet
    settled := fun _ _ => hjoining
    resting := fun _ _ => ⟨hworker, hjoining⟩
    liveFlag := fun n hn => absurd hn (hlive n)
    doneFlag := fun _ hroles => by
      have := hroles t
      cases flag with
      | true => rfl
      | false => simp [hr] at this
    active := fun n hn => absurd hn (hlive n)
    idle := h.idle
    activating := by have := h.activating; grind [Function.update_apply]
    cleared := fun t' hroles => by
      by_cases hne : t' = t
      · subst hne
        cases flag <;> simp_all
      · simp only [Function.update_of_ne hne] at hroles
        exact absurd hroles (halone.of_ne hne).2.2.1
    nested := fun k => (Function.update_of_ne (Ne.symm (h.not_worker_of_role (by
      rcases hrole with hr | hr <;> simp [hr]))) ..).trans (h.nested k) }

theorem create (h : l.Inv) (hrole : l.role t = .cleared) (halone : l.Alone t) :
    Inv { l with
      worker := some l.created
      created := l.created + 1
      phase := Function.update l.phase l.created .live
      role := Function.update l.role t .activating } := by
  obtain ⟨hworker, hjoining⟩ := h.resting t (.inr hrole)
  have hnone := h.no_joiner hjoining
  have hquiet := h.quiet hworker hjoining
  have hold : ∀ n, n ≠ l.created → Function.update l.phase l.created .live n = l.phase n :=
    fun n hn => Function.update_of_ne hn ..
  have hnone' : ∀ t', (Function.update l.role t .activating t').joins = none := by
    intro t'
    by_cases hne : t' = t
    · simp [hne, Role.joins]
    · rw [Function.update_of_ne hne]; exact hnone t'
  exact {
    unborn := fun n hn => by
      simp only at hn ⊢
      rw [hold n (by omega)]
      exact h.unborn n (by omega)
    gone := fun n hn => by
      simp only at hn ⊢
      rw [hold n (by omega)]
      rcases Nat.lt_or_ge (n + 1) l.created with hlt | hge
      · exact h.gone n hlt
      · exact hquiet n (by omega)
    handle := by simp [hjoining]
    joiner := by simp [hnone']
    joinerUnique := by simp [hnone']
    joinerExists := by simp [hjoining]
    joined := fun t' n hr => by
      have := hnone' t'
      simp only at hr
      simp [hr, Role.joins] at this
    quiet := by simp
    settled := fun _ _ => hjoining
    resting := fun t' hr => by
      by_cases hne : t' = t
      · simp [hne] at hr
      · simp only [Function.update_of_ne hne] at hr
        exact absurd hr (halone.of_ne hne).2.1
    liveFlag := fun _ _ => h.cleared t hrole
    doneFlag := fun hlive => absurd (by simp) (hlive l.created)
    active := fun _ _ hroles => absurd (by simp) (hroles t)
    idle := by simp
    activating := fun _ _ => ⟨l.created, rfl⟩
    cleared := fun _ _ => h.cleared t hrole
    nested := fun k => (Function.update_of_ne
      (Ne.symm (h.not_worker_of_role (by simp [hrole]))) ..).trans (h.nested k) }

theorem activate (h : l.Inv) (hrole : l.role t = .activating) (halone : l.Alone t) :
    Inv { l with
      active := l.worker.map .worker, role := Function.update l.role t .past } := by
  obtain ⟨n, hworker⟩ := h.activating t hrole
  have hex := halone.update (r := .past) rfl
  have hj : ∀ t', (Function.update l.role t .past t').joins = (l.role t').joins := by
    intro t'
    by_cases hne : t' = t
    · simp [hne, hrole, Role.joins]
    · rw [Function.update_of_ne hne]
  exact {
    unborn := h.unborn
    gone := h.gone
    handle := h.handle
    joiner := fun t' k hk => h.joiner t' k ((hj t').symm.trans hk)
    joinerUnique := fun t₁ t₂ k k' h₁ h₂ =>
      h.joinerUnique t₁ t₂ k k' ((hj t₁).symm.trans h₁) ((hj t₂).symm.trans h₂)
    joinerExists := fun hjoining => by simpa only [hj] using h.joinerExists hjoining
    joined := by have := h.joined; grind [Function.update_apply]
    quiet := h.quiet
    settled := fun t' hr => absurd hr (hex t').1
    resting := fun t' hr => absurd hr (hex t').2.1
    liveFlag := h.liveFlag
    doneFlag := fun hlive _ => h.doneFlag hlive fun t' hr => by
      by_cases hne : t' = t
      · subst hne; simp [hr] at hrole
      · exact (halone.of_ne hne).2.2.1 hr
    active := fun k hlive _ => by
      have hk := h.last_of_live hlive
      have hn := (h.handle n hworker).1
      obtain rfl : k = n := by omega
      simp [hworker]
    idle := fun hnone _ => by simp_all
    activating := fun t' hr => absurd hr (hex t').2.2.2
    cleared := fun t' hr => absurd hr (hex t').2.2.1
    nested := fun k => (Function.update_of_ne
      (Ne.symm (h.not_worker_of_role (by simp [hrole]))) ..).trans (h.nested k) }

/-- The worker stores the exit flag. -/
theorem store (h : l.Inv) (hphase : l.phase n = .live) :
    Inv { l with workerExited := true, phase := Function.update l.phase n .stored } := by
  have hlast := h.last_of_live hphase
  have hother : ∀ k, k ≠ n → Function.update l.phase n .stored k = l.phase k := fun k hk =>
    Function.update_of_ne hk ..
  have hlive : ∀ k, Function.update l.phase n .stored k ≠ .live := by
    intro k hk
    by_cases hne : k = n
    · simp [hne] at hk
    · rw [hother k hne] at hk
      have := h.last_of_live hk
      omega
  exact {
    unborn := fun k hk => (hother k (by simp only at hk; omega)).trans (h.unborn k hk)
    gone := fun k hk => (hother k (by simp only at hk; omega)).trans (h.gone k hk)
    handle := h.handle
    joiner := h.joiner
    joinerUnique := h.joinerUnique
    joinerExists := h.joinerExists
    joined := fun t k hr => by
      have hexit := h.joined t k hr
      exact (hother k (by rintro rfl; simp [hphase] at hexit)).trans hexit
    quiet := fun hworker hjoining => absurd hphase (h.no_live hworker hjoining n)
    settled := h.settled
    resting := h.resting
    liveFlag := fun k hk => absurd hk (hlive k)
    doneFlag := fun _ _ => rfl
    active := fun k hk => absurd hk (hlive k)
    idle := h.idle
    activating := h.activating
    cleared := fun t hr => absurd hphase (h.no_live (h.resting t (.inr hr)).1
      (h.resting t (.inr hr)).2 n)
    nested := h.nested }

theorem exit (h : l.Inv) (hphase : l.phase n = .stored) :
    Inv { l with phase := Function.update l.phase n .exited } := by
  have hlast := h.last (n := n) (by simp [hphase]) (by simp [hphase])
  have hother : ∀ k, k ≠ n → Function.update l.phase n .exited k = l.phase k := fun k hk =>
    Function.update_of_ne hk ..
  have hexited : ∀ k, l.phase k = .exited → Function.update l.phase n .exited k = .exited := by
    intro k hk
    by_cases hne : k = n
    · simp [hne]
    · rw [hother k hne]; exact hk
  have hlive : ∀ k, Function.update l.phase n .exited k = .live ↔ l.phase k = .live := by
    intro k
    by_cases hne : k = n
    · simp [hne, hphase]
    · rw [hother k hne]
  exact {
    unborn := fun k hk => (hother k (by simp only at hk; omega)).trans (h.unborn k hk)
    gone := fun k hk => hexited k (h.gone k hk)
    handle := h.handle
    joiner := h.joiner
    joinerUnique := h.joinerUnique
    joinerExists := h.joinerExists
    joined := fun t k hr => hexited k (h.joined t k hr)
    quiet := fun hworker hjoining k hk => hexited k (h.quiet hworker hjoining k hk)
    settled := h.settled
    resting := h.resting
    liveFlag := fun k hk => h.liveFlag k ((hlive k).mp hk)
    doneFlag := fun hk hroles => h.doneFlag (fun k hl => hk k ((hlive k).mpr hl)) hroles
    active := fun k hk => h.active k ((hlive k).mp hk)
    idle := h.idle
    activating := h.activating
    cleared := h.cleared
    nested := h.nested }

end Inv

theorem Step.inv (h : l.Inv) (hs : l.Step o l') : l'.Inv := by
  cases hs with
  | @relax t r hrole hr =>
    have hnot : ∀ n, t ≠ .worker n := fun n => h.not_worker_of_role (by
      rcases hrole with hrole | hrole | hrole <;> simp [hrole])
    apply h.setRole <;> rcases hrole with hrole | hrole | hrole <;> rcases hr with rfl | rfl <;>
      simp_all [Role.joins]
  | @pass t hrole hself halone =>
    have hnot : ∀ n, t ≠ .worker n := fun n => h.not_worker hself halone
    apply h.setRole <;> simp_all [Role.joins]
  | @settle t hrole hself halone hjoining =>
    have hnot : ∀ n, t ≠ .worker n := fun n => h.not_worker hself halone
    apply h.setRole <;> rcases hrole with hrole | hrole <;> simp_all [Role.joins]
  | @rest t hrole hself halone hjoining hworker =>
    have hnot : ∀ n, t ≠ .worker n := fun n => h.not_worker hself halone
    apply h.setRole <;> rcases hrole with hrole | hrole | hrole <;> simp_all [Role.joins]
  | take hrole hself halone hworker =>
    exact h.take hrole hworker (fun n => h.not_worker hself halone) halone
  | @join t n hrole hphase =>
    have hnot : ∀ k, t ≠ .worker k := fun k => h.not_worker_of_role (by simp [hrole])
    apply h.setRole <;> simp_all [Role.joins]
  | release hrole halone => exact h.release hrole halone
  | clear hrole halone => exact h.setFlag (.inl hrole) halone rfl
  | restore hrole halone => exact h.setFlag (.inr hrole) halone rfl
  | create hrole halone => exact h.create hrole halone
  | activate hrole halone => exact h.activate hrole halone
  | store hphase => exact h.store hphase
  | exit hphase => exact h.exit hphase

/-! ## Joins -/

/-- The handle of worker `n` is still to be joined, in the member or by a joining thread. -/
def Pending (l : Life) (n : Nat) : Prop :=
  l.created ≤ n ∨ l.worker = some n ∨ ∃ t, l.role t = .joining n

/-- `count n` is how often worker `n` was joined. -/
structure Joined (l : Life) (count : Nat → Nat) : Prop where
  pending : ∀ n, l.Pending n → count n = 0
  done : ∀ n, ¬ l.Pending n → count n = 1

theorem Joined.congr {count : Nat → Nat} (h : l.Joined count)
    (hp : ∀ n, l'.Pending n ↔ l.Pending n) : l'.Joined count :=
  ⟨fun n hn => h.pending n ((hp n).mp hn), fun n hn => h.done n fun hn' => hn ((hp n).mpr hn')⟩

/-- A change between two roles that do not join changes nothing about what is pending. -/
theorem joining_update {r : Role} (hrole : ∀ n, l.role t ≠ .joining n) (hr : ∀ n, r ≠ .joining n)
    (n : Nat) :
    (∃ t', Function.update l.role t r t' = .joining n) ↔ ∃ t', l.role t' = .joining n := by
  constructor <;> rintro ⟨t', ht'⟩ <;> refine ⟨t', ?_⟩ <;> by_cases hne : t' = t
  · subst hne
    exact absurd (by simpa using ht') (hr n)
  · rwa [Function.update_of_ne hne] at ht'
  · subst hne
    exact absurd ht' (hrole n)
  · rwa [Function.update_of_ne hne]

theorem Joined.setRole {count : Nat → Nat} (h : l.Joined count) {r : Role}
    (hrole : ∀ n, l.role t ≠ .joining n) (hr : ∀ n, r ≠ .joining n)
    (hcreated : l'.created = l.created) (hworker : l'.worker = l.worker)
    (hroles : l'.role = Function.update l.role t r) : l'.Joined count := by
  refine h.congr fun n => ?_
  simp only [Pending, hcreated, hworker, hroles, joining_update hrole hr]

theorem Joined.take {count : Nat → Nat} (hj : l.Joined count)
    (hrole : ∀ n, l.role t ≠ .joining n) (hworker : l.worker = some n) :
    Joined { l with
      worker := none, joining := true, role := Function.update l.role t (.joining n) } count := by
  refine hj.congr fun k => ?_
  have hk : (∃ t', Function.update l.role t (.joining n) t' = .joining k) ↔
      n = k ∨ ∃ t', l.role t' = .joining k := by
    constructor
    · rintro ⟨t', ht'⟩
      by_cases hne : t' = t
      · subst hne; exact .inl (by simpa using ht')
      · exact .inr ⟨t', by rwa [Function.update_of_ne hne] at ht'⟩
    · rintro (rfl | ⟨t', ht'⟩)
      · exact ⟨t, by simp⟩
      · refine ⟨t', ?_⟩
        rwa [Function.update_of_ne]
        rintro rfl
        exact hrole k ht'
  simp [Pending, hworker, hk]

theorem Joined.join {count : Nat → Nat} (h : l.Inv) (hj : l.Joined count)
    (hrole : l.role t = .joining n) :
    Joined { l with role := Function.update l.role t (.joined n) }
      fun k => count k + (if n = k then 1 else 0) := by
  obtain ⟨hlast, hjoining⟩ := h.joiner t n (by simp [hrole, Role.joins])
  -- `t` is the only joiner, so no handle is pending after this step
  have hother : ∀ t' k, Function.update l.role t (.joined n) t' ≠ .joining k := by
    intro t' k ht'
    by_cases hne : t' = t
    · subst hne; simp at ht'
    · rw [Function.update_of_ne hne] at ht'
      exact hne (h.joinerUnique t' t k n (by simp [ht', Role.joins]) (by simp [hrole, Role.joins]))
  have hworker : l.worker = none := by
    by_contra hne
    obtain ⟨k, hk⟩ := Option.ne_none_iff_exists'.mp hne
    simp [(h.handle k hk).2] at hjoining
  have hpending : ∀ k, Pending { l with role := Function.update l.role t (.joined n) } k ↔
      l.created ≤ k := by
    intro k
    simp [Pending, hworker, hother]
  refine ⟨fun k hk => ?_, fun k hk => ?_⟩
  · have hk := (hpending k).mp hk
    simp only [hj.pending k (.inl hk), Nat.zero_add]
    exact if_neg (by omega)
  · have hk' : ¬ l.created ≤ k := fun hle => hk ((hpending k).mpr hle)
    by_cases hn : n = k
    · subst hn
      simp [hj.pending n (.inr (.inr ⟨t, hrole⟩))]
    · have hnot : ¬ l.Pending k := by
        rintro (hle | hw | ⟨t', ht'⟩)
        · exact hk' hle
        · simp [hworker] at hw
        · have := (h.joiner t' k (by simp [ht', Role.joins])).1
          omega
      simp [hn, hj.done k hnot]

theorem Step.joined {count : Nat → Nat} (h : l.Inv) (hj : l.Joined count) (hs : l.Step o l') :
    l'.Joined fun n => count n + o.toList.countP (·.1 = n) := by
  cases hs with
  | join hrole hphase => simpa [List.countP_cons] using hj.join h hrole
  | take hrole hself halone hworker =>
    exact hj.take (by intro k; rcases hrole with hr | hr | hr <;> simp [hr]) hworker
  | @create t hrole halone =>
    refine hj.congr fun k => ?_
    have hk := joining_update (l := l) (t := t) (r := .activating) (by simp [hrole]) (by simp) k
    have hworker := (h.resting _ (.inr hrole)).1
    simp only [Pending, hworker, hk, Option.some.injEq, reduceCtorEq, false_or]
    constructor
    · rintro (hle | rfl | hr)
      · exact .inl (by omega)
      · exact .inl (Nat.le_refl _)
      · exact .inr hr
    · rintro (hle | hr)
      · rcases Nat.eq_or_lt_of_le hle with rfl | hlt
        · exact .inr (.inl rfl)
        · exact .inl hlt
      · exact .inr (.inr hr)
  | store | exit => exact hj.congr fun k => Iff.rfl
  | @relax t r hrole hr =>
    refine hj.setRole (t := t) (r := r) ?_ ?_ rfl rfl rfl <;> intro k
    · rcases hrole with hr | hr | hr <;> simp [hr]
    · rcases hr with hr | hr <;> simp [hr]
  | @settle t hrole =>
    exact hj.setRole (t := t) (r := .settled) (by intro k; rcases hrole with hr | hr <;> simp [hr])
      (by simp) rfl rfl rfl
  | @rest t hrole =>
    exact hj.setRole (t := t) (r := .quiet)
      (by intro k; rcases hrole with hr | hr | hr <;> simp [hr]) (by simp) rfl rfl rfl
  | pass hrole | release hrole | clear hrole | restore hrole | activate hrole =>
    exact hj.setRole (by simp [hrole]) (by simp) rfl rfl rfl

/-- The handle is assigned only while there is none. -/
theorem Step.worker_none (h : l.Inv) (hs : l.Step o l') :
    l'.worker = l.worker ∨ l'.worker = none ∨ l.worker = none ∧ l.joining = false := by
  cases hs with
  | take => exact .inr (.inl rfl)
  | create hrole => exact .inr (.inr (h.resting _ (.inr hrole)))
  | _ => exact .inl rfl

/-- The active id is that of a worker. -/
theorem Step.active_worker (hs : l.Step o l') (h : ∀ t, l.active = some t → ∃ n, t = .worker n) :
    ∀ t, l'.active = some t → ∃ n, t = .worker n := by
  cases hs with
  | release =>
    intro t ht
    cases ht
  | activate =>
    intro t ht
    obtain ⟨n, -, rfl⟩ := Option.map_eq_some_iff.mp ht
    exact ⟨n, rfl⟩
  | _ => exact h

/-- Nobody joins itself. -/
theorem Step.not_self (h : l.Inv) (hs : l.Step (some (n, t)) l') : t ≠ .worker n := by
  cases hs with
  | join hrole => exact h.not_worker_of_role (by simp [hrole])

end Life

end NetFT.Client
