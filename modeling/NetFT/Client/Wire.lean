import Mathlib.Data.List.Induction
import NetFT.Client.Step

/-! The commands on the wire, as a property of histories. `Word` is the grammar of the commands
attempted on one socket. `Wire` is a monitor that reads a history event by event and refuses it
as soon as a command is out of place; `Wire.Reads` says what the histories it accepts look
like. That the client only has accepted histories is shown in `NetFT.Client.Commands`. -/

namespace NetFT.Client
open Detail

/-! ## The grammar -/

/-- An attempt to send a command, and whether it succeeded. -/
abbrev Attempt := Command × Bool

/-- What `bias` attempts: the second command only after the first one was sent. -/
inductive BiasGroup : List Attempt → Prop
  | refused : BiasGroup [(.setSoftwareBias, false)]
  | restarted (ok : Bool) : BiasGroup [(.setSoftwareBias, true), (.startRealtime, ok)]

inductive BiasGroups : List Attempt → Prop
  | nil : BiasGroups []
  | append : BiasGroups gs → BiasGroup g → BiasGroups (gs ++ g)

/-- The attempts on one socket, from its connection to its end. -/
inductive Word : List Attempt → Prop
  | nothing : Word []
  | refused : Word [(.startRealtime, false)]
  | session (ok : Bool) : BiasGroups gs →
    Word ((.startRealtime, true) :: gs ++ [(.stopStreaming, ok)])

/-- How far the attempts of a session have got. -/
inductive Stage
  | fresh | refused | opened | biasing | stopped
  deriving DecidableEq, Repr

namespace Stage

def next : Stage → Attempt → Option Stage
  | .fresh, (.startRealtime, ok) => some (if ok then .opened else .refused)
  | .opened, (.setSoftwareBias, ok) => some (if ok then .biasing else .opened)
  | .biasing, (.startRealtime, _) => some .opened
  | .opened, (.stopStreaming, _) => some .stopped
  | _, _ => none

/-- The socket may be closed at this stage. -/
def complete : Stage → Bool
  | .fresh | .refused | .stopped => true
  | .opened | .biasing => false

/-- The attempts that lead to a stage. -/
inductive Of : Stage → List Attempt → Prop
  | fresh : Of .fresh []
  | refused : Of .refused [(.startRealtime, false)]
  | opened : BiasGroups gs → Of .opened ((.startRealtime, true) :: gs)
  | biasing : BiasGroups gs → Of .biasing ((.startRealtime, true) :: gs ++ [(.setSoftwareBias, true)])
  | stopped (ok : Bool) : BiasGroups gs →
    Of .stopped ((.startRealtime, true) :: gs ++ [(.stopStreaming, ok)])

variable {q q' : Stage} {as : List Attempt} {a : Attempt}

theorem Of.next (h : q.Of as) (hq : q.next a = some q') : q'.Of (as ++ [a]) := by
  obtain ⟨command, ok⟩ := a
  cases h with
  | refused | stopped => cases command <;> cases hq
  | fresh =>
    cases command <;> cases hq
    cases ok
    · exact .refused
    · exact .opened .nil
  | opened hgs =>
    cases command with
    | setSoftwareBias =>
      cases hq
      cases ok
      · exact .opened (hgs.append .refused)
      · exact .biasing hgs
    | stopStreaming => cases hq; exact .stopped ok hgs
    | _ => cases hq
  | biasing hgs =>
    cases command <;> cases hq
    simpa using Of.opened (hgs.append (.restarted ok))

theorem Of.word (h : q.Of as) (hq : q.complete = true) : Word as := by
  cases h with
  | fresh => exact .nothing
  | refused => exact .refused
  | stopped ok hgs => exact .session ok hgs
  | opened | biasing => cases hq

/-- At every stage the attempts can be completed to a word. -/
theorem Of.extends (h : q.Of as) : ∃ rest, Word (as ++ rest) := by
  cases h with
  | fresh => exact ⟨[], .nothing⟩
  | refused => exact ⟨[], .refused⟩
  | opened hgs => exact ⟨[(.stopStreaming, true)], .session true hgs⟩
  | biasing hgs =>
    exact ⟨[(.startRealtime, true), (.stopStreaming, true)], by
      simpa using Word.session true (hgs.append (.restarted true))⟩
  | stopped ok hgs => exact ⟨[], by simpa using Word.session ok hgs⟩

end Stage

/-! ## Histories -/

variable {D : Type}

/-- The attempt of an event on socket `s`. -/
def Event.attemptOn (s : Nat) : Event D → Option Attempt
  | .sent _ s' command ok => if s' = s then some (command, ok) else none
  | _ => none

/-- The attempt of an event. -/
def Event.attempt : Event D → Option Attempt
  | .sent _ _ command ok => some (command, ok)
  | _ => none

def Event.beginsSession : Event D → Bool
  | .sessionBegan _ => true
  | _ => false

/-- The attempts on socket `s`, in order. -/
def attemptsOn (s : Nat) (l : List (Event D)) : List Attempt := l.filterMap (Event.attemptOn s)

/-- The events since the last session began. -/
def currentSession (l : List (Event D)) : List (Event D) :=
  (l.reverse.takeWhile (!·.beginsSession)).reverse

theorem currentSession_concat (l : List (Event D)) (e : Event D) :
    currentSession (l ++ [e]) = if e.beginsSession then [] else currentSession l ++ [e] := by
  simp only [currentSession, List.reverse_append, List.reverse_singleton, List.singleton_append,
    List.takeWhile_cons]
  cases e.beginsSession <;> simp

/-! ## The monitor -/

structure Wire where
  /-- The next descriptor. -/
  next : Nat := 0
  /-- The open socket. -/
  socket : Option Nat := none
  /-- The session has connected. -/
  connected : Bool := false
  stage : Stage := .fresh
  /-- A record of the session was processed. -/
  processed : Bool := false

namespace Wire

def step (m : Wire) : Event D → Option Wire
  | .sessionBegan _ => if m.socket = none then some { next := m.next } else none
  | .connected _ s =>
    if m.socket = none ∧ m.connected = false ∧ s = m.next then
      some { m with next := s + 1, socket := some s, connected := true }
    else none
  | .sent _ s command ok =>
    if m.socket = some s ∧ (command = .setSoftwareBias → m.processed = true) then
      (m.stage.next (command, ok)).map fun stage => { m with stage }
    else none
  | .closed s =>
    if m.socket = some s ∧ m.stage.complete = true then some { m with socket := none } else none
  | .processed .. => some { m with processed := true }
  | _ => some m

/-- The events that the monitor looks at. -/
def heeds : Event D → Bool
  | .sessionBegan _ | .connected .. | .sent .. | .closed _ | .processed .. => true
  | _ => false

def run (m : Wire) (l : List (Event D)) : Option Wire := l.foldlM step m

theorem run_append {m m' : Wire} {l l' : List (Event D)} :
    m.run (l ++ l') = some m' ↔ ∃ m₁, m.run l = some m₁ ∧ m₁.run l' = some m' := by
  simp [run, List.foldlM_append, Option.bind_eq_some_iff]

theorem run_unheeded {m : Wire} {l : List (Event D)} (h : ∀ e ∈ l, heeds e = false) :
    m.run l = some m := by
  induction l with
  | nil => rfl
  | cons e l ih =>
    have he : m.step e = some m := by
      have := h e List.mem_cons_self
      cases e <;> first | rfl | cases this
    simpa [run, he] using ih fun e' he' => h e' (List.mem_cons_of_mem _ he')

/-- What a history looks like that brings the monitor to a state. -/
structure Reads (l : List (Event D)) (m : Wire) : Prop where
  /-- The attempts of the current session, on whatever socket. -/
  session : m.stage.Of ((currentSession l).filterMap Event.attempt)
  processed : m.processed = true → ∃ n r, .processed n r ∈ currentSession l
  notConnected : m.connected = false → m.stage = .fresh ∧ m.socket = none
  unused : ∀ s, m.next ≤ s → attemptsOn s l = []
  current : ∀ s, m.socket = some s → s < m.next ∧ m.stage.Of (attemptsOn s l)
  past : ∀ s, m.socket ≠ some s → Word (attemptsOn s l)
  closed : ∀ s l₁ l₂, l = l₁ ++ .closed s :: l₂ → s < m.next ∧ m.socket ≠ some s ∧
    Word (attemptsOn s l₁) ∧ attemptsOn s l₂ = []
  biased : ∀ t s ok l₁ l₂, l = l₁ ++ .sent t s .setSoftwareBias ok :: l₂ →
    ∃ n r, .processed n r ∈ currentSession l₁

theorem reads_nil : Reads ([] : List (Event D)) {} where
  session := .fresh
  processed := fun h => by cases h
  notConnected := fun _ => ⟨rfl, rfl⟩
  unused := fun _ _ => rfl
  current := fun _ h => by cases h
  past := fun _ _ => .nothing
  closed := by simp
  biased := by simp

variable {l : List (Event D)} {m m' : Wire} {e : Event D}

/-- The occurrences of an event in a history that is longer by one event. -/
theorem concat_eq_append_cons {l l₁ l₂ : List (Event D)} {e x : Event D}
    (h : l ++ [e] = l₁ ++ x :: l₂) :
    l₂ = [] ∧ l₁ = l ∧ x = e ∨ ∃ l₃, l₂ = l₃ ++ [e] ∧ l = l₁ ++ x :: l₃ := by
  induction l₂ using List.reverseRecOn with
  | nil =>
    obtain ⟨rfl, hx⟩ := List.append_inj' h rfl
    exact .inl ⟨rfl, rfl, (List.singleton_inj.mp hx).symm⟩
  | append_singleton l₃ y =>
    rw [← List.cons_append, ← List.append_assoc] at h
    obtain ⟨hl, hy⟩ := List.append_inj' h rfl
    exact .inr ⟨l₃, by rw [List.singleton_inj.mp hy], hl⟩

theorem attemptsOn_concat (s : Nat) :
    attemptsOn s (l ++ [e]) = attemptsOn s l ++ (e.attemptOn s).toList := by
  simp only [attemptsOn, List.filterMap_append]
  cases h : e.attemptOn s <;> simp [h]

theorem Reads.closed_step (h : Reads l m) (hnext : m.next ≤ m'.next)
    (hsocket : ∀ s, m'.socket = some s → m.socket = some s ∨ m.next ≤ s)
    (hsent : ∀ s, e.attemptOn s ≠ none → m.socket = some s)
    (hclosed : ∀ s, e = .closed s →
      m.socket = some s ∧ m'.socket = none ∧ m.stage.complete = true) :
    ∀ s l₁ l₂, l ++ [e] = l₁ ++ .closed s :: l₂ → s < m'.next ∧ m'.socket ≠ some s ∧
      Word (attemptsOn s l₁) ∧ attemptsOn s l₂ = [] := by
  intro s l₁ l₂ heq
  rcases concat_eq_append_cons heq with ⟨rfl, rfl, he⟩ | ⟨l₃, rfl, hl⟩
  · obtain ⟨hopen, hnone, hcomplete⟩ := hclosed s he.symm
    obtain ⟨hlt, hof⟩ := h.current s hopen
    exact ⟨Nat.lt_of_lt_of_le hlt hnext, by simp [hnone], hof.word hcomplete, rfl⟩
  · obtain ⟨hlt, hne, hword, hnil⟩ := h.closed s l₁ l₃ hl
    refine ⟨Nat.lt_of_lt_of_le hlt hnext, fun hs => ?_, hword, ?_⟩
    · rcases hsocket s hs with hs | hle
      · exact hne hs
      · exact absurd hlt (Nat.not_lt.mpr hle)
    · have hnone : e.attemptOn s = none := by
        by_contra hs
        exact hne (hsent s hs)
      rw [attemptsOn_concat, hnil, hnone]
      rfl

theorem Reads.biased_step (h : Reads l m)
    (hbias : ∀ t s ok, e = .sent t s .setSoftwareBias ok → m.processed = true) :
    ∀ t s ok l₁ l₂, l ++ [e] = l₁ ++ .sent t s .setSoftwareBias ok :: l₂ →
      ∃ n r, .processed n r ∈ currentSession l₁ := by
  intro t s ok l₁ l₂ heq
  rcases concat_eq_append_cons heq with ⟨rfl, rfl, he⟩ | ⟨l₃, rfl, hl⟩
  · exact h.processed (hbias t s ok he.symm)
  · exact h.biased t s ok l₁ l₃ hl

/-- An event that is neither a command nor the beginning of a session. -/
theorem Reads.other (h : Reads l m) (hsent : e.attempt = none) (hbegin : e.beginsSession = false)
    (hstage : m'.stage = m.stage) (hnext : m.next ≤ m'.next)
    (hsocket : ∀ s, m'.socket = some s → m.socket = some s ∨
      m'.stage = .fresh ∧ m.next ≤ s ∧ s < m'.next)
    (hpast : ∀ s, m.socket = some s → m'.socket ≠ some s → m.stage.complete = true)
    (hconnected : m'.connected = false → m.connected = false ∧ m'.socket = m.socket)
    (hprocessed : m'.processed = true → m.processed = true ∨ ∃ n r, e = .processed n r)
    (hclosed : ∀ s, e = .closed s →
      m.socket = some s ∧ m'.socket = none ∧ m.stage.complete = true) :
    Reads (l ++ [e]) m' := by
  have hnone : ∀ s, e.attemptOn s = none := by cases e <;> simp_all [Event.attempt, Event.attemptOn]
  have hsame : ∀ s, attemptsOn s (l ++ [e]) = attemptsOn s l := fun s => by
    rw [attemptsOn_concat, hnone]; simp
  have hcurrent : currentSession (l ++ [e]) = currentSession l ++ [e] := by
    rw [currentSession_concat, hbegin]; rfl
  refine {
    session := by
      rw [hcurrent, List.filterMap_append, hstage]
      simpa [hsent] using h.session
    processed := fun hp => ?_
    notConnected := fun hc => by
      obtain ⟨hc', hs⟩ := hconnected hc
      rw [hstage, hs]
      exact h.notConnected hc'
    unused := fun s hs => (hsame s).trans (h.unused s (Nat.le_trans hnext hs))
    current := fun s hs => ?_
    past := fun s hs => ?_
    closed := h.closed_step hnext (fun s hs => (hsocket s hs).imp_right (·.2.1))
      (fun s hs => absurd (hnone s) hs) hclosed
    biased := h.biased_step (by rintro t s ok rfl; cases hsent) }
  · rw [hcurrent]
    rcases hprocessed hp with hp | ⟨n, r, rfl⟩
    · obtain ⟨n, r, hr⟩ := h.processed hp
      exact ⟨n, r, List.mem_append_left _ hr⟩
    · exact ⟨n, r, List.mem_append_right _ (List.mem_singleton_self _)⟩
  · rw [hsame]
    rcases hsocket s hs with hs | ⟨hfresh, hle, hlt⟩
    · obtain ⟨hlt, hof⟩ := h.current s hs
      exact ⟨Nat.lt_of_lt_of_le hlt hnext, hstage ▸ hof⟩
    · rw [h.unused s hle, hfresh]
      exact ⟨hlt, .fresh⟩
  · rw [hsame]
    by_cases hopen : m.socket = some s
    · exact (h.current s hopen).2.word (hpast s hopen hs)
    · exact h.past s hopen

theorem Reads.begin (h : Reads l m) (hsocket : m.socket = none) (n : Nat) :
    Reads (l ++ [.sessionBegan n]) { next := m.next } := by
  have hsame : ∀ s, attemptsOn s (l ++ [.sessionBegan n]) = attemptsOn s l := fun s => by
    rw [attemptsOn_concat]; simp [Event.attemptOn]
  exact {
    session := by rw [currentSession_concat]; exact .fresh
    processed := fun h => by cases h
    notConnected := fun _ => ⟨rfl, rfl⟩
    unused := fun s hs => (hsame s).trans (h.unused s hs)
    current := fun _ h => by cases h
    past := fun s _ => by rw [hsame]; exact h.past s (by simp [hsocket])
    closed := h.closed_step (Nat.le_refl _) (fun _ h => by cases h) (fun s hs => absurd rfl hs)
      (fun _ h => by cases h)
    biased := h.biased_step (by simp) }

theorem Reads.send (h : Reads l m) {t : Tid} {s : Nat} {command : Command} {ok : Bool}
    {stage : Stage} (hsocket : m.socket = some s)
    (hbias : command = .setSoftwareBias → m.processed = true)
    (hstage : m.stage.next (command, ok) = some stage) :
    Reads (l ++ [.sent t s command ok]) { m with stage } := by
  have hon : ∀ s', s' ≠ s →
      attemptsOn s' (l ++ [.sent t s command ok]) = attemptsOn s' l := fun s' hs' => by
    rw [attemptsOn_concat]
    simp [Event.attemptOn, Ne.symm hs']
  obtain ⟨hlt, hof⟩ := h.current s hsocket
  exact {
    session := by
      rw [currentSession_concat]
      simpa [Event.beginsSession, Event.attempt] using h.session.next hstage
    processed := fun hp => by
      obtain ⟨n, r, hr⟩ := h.processed hp
      rw [currentSession_concat]
      exact ⟨n, r, List.mem_append_left _ hr⟩
    notConnected := fun hc => by simp [(h.notConnected hc).2] at hsocket
    unused := fun s' hs' => by
      rw [hon s' (by rintro rfl; exact absurd hlt (Nat.not_lt.mpr hs'))]
      exact h.unused s' hs'
    current := fun s' hs' => by
      obtain rfl : s = s' := Option.some.inj (hsocket.symm.trans hs')
      rw [attemptsOn_concat]
      simpa [Event.attemptOn, hlt] using hof.next hstage
    past := fun s' hs' => by
      rw [hon s' (by rintro rfl; exact hs' hsocket)]
      exact h.past s' hs'
    closed := h.closed_step (Nat.le_refl _) (fun _ => .inl) (fun s' hs' => by
      simp only [Event.attemptOn] at hs'
      split at hs'
      · subst_vars; exact hsocket
      · exact absurd rfl hs') (fun _ h => by cases h)
    biased := h.biased_step (by rintro _ _ _ ⟨⟩; exact hbias rfl) }

theorem Reads.step (h : Reads l m) (hstep : m.step e = some m') : Reads (l ++ [e]) m' := by
  cases e with
  | sessionBegan n =>
    simp only [Wire.step] at hstep
    split at hstep <;> cases hstep
    exact h.begin ‹_› n
  | sent t s command ok =>
    simp only [Wire.step] at hstep
    split at hstep
    · rename_i hs
      obtain ⟨stage, hstage, rfl⟩ := Option.map_eq_some_iff.mp hstep
      exact h.send hs.1 hs.2 hstage
    · cases hstep
  | connected n s =>
    simp only [Wire.step] at hstep
    split at hstep <;> cases hstep
    rename_i hs
    obtain ⟨hnone, hc, rfl⟩ := hs
    refine h.other rfl rfl rfl (Nat.le_succ _) (fun s hs => ?_) ?_ (by simp) ?_ (by simp)
    · cases hs
      exact .inr ⟨(h.notConnected hc).1, Nat.le_refl _, Nat.lt_succ_self _⟩
    · intro s hs; simp [hnone] at hs
    · exact fun hp => .inl hp
  | closed s =>
    simp only [Wire.step] at hstep
    split at hstep <;> cases hstep
    rename_i hs
    refine h.other rfl rfl rfl (Nat.le_refl _) (fun _ h => by cases h) (fun _ _ _ => hs.2) ?_
      (fun hp => .inl hp) ?_
    · intro hc
      simp [(h.notConnected hc).2] at hs
    · rintro _ ⟨⟩
      exact ⟨hs.1, rfl, hs.2⟩
  | processed n r =>
    cases hstep
    exact h.other rfl rfl rfl (Nat.le_refl _) (fun _ => .inl) (fun _ h₁ h₂ => absurd h₁ h₂)
      (fun hc => ⟨hc, rfl⟩) (fun _ => .inr ⟨n, r, rfl⟩) (fun _ h => by cases h)
  | _ =>
    cases hstep
    exact h.other rfl rfl rfl (Nat.le_refl _) (fun _ => .inl) (fun _ h₁ h₂ => absurd h₁ h₂)
      (fun hc => ⟨hc, rfl⟩) (fun hp => .inl hp) (fun _ h => by cases h)

theorem reads_of_run (h : run {} l = some m) : Reads l m := by
  induction l using List.reverseRecOn generalizing m with
  | nil => cases h; exact reads_nil
  | append_singleton l e ih =>
    obtain ⟨m₁, hl, he⟩ := run_append.mp h
    exact (ih hl).step (by simpa [run] using he)

end Wire

end NetFT.Client
