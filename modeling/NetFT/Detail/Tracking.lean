import Mathlib.Data.List.Induction
import NetFT.Detail.Sequence

/-! What the trackers of `NetFT.Detail.Sequence` mean. The RDT tracker, which sees stream positions
modulo `2^32` and remembers one of them, refines the comparison of unbounded positions with the
largest one so far. The FT tracker reports a restart exactly on two consecutive confirming
values. -/

namespace NetFT.Detail

/-! ## Positions of the RDT stream -/

/-- A stream position as the record carries it. -/
def word (position : Int) : UInt32 := UInt32.ofInt position

theorem toNat_word (position : Int) : ((word position).toNat : Int) = position % 2 ^ 32 := by
  simp only [word, UInt32.ofInt, UInt32.toNat_ofNat']
  omega

theorem word_sub (n m : Int) : word n - word m = word (n - m) := by
  rw [word, word, word, Int.sub_eq_add_neg, UInt32.ofInt_add, UInt32.ofInt_neg,
    UInt32.sub_eq_add_neg]

/-- What an observer of the positions themselves would say of `n`, with `front` the largest one
so far. -/
def classify (front n : Int) : SequenceObservation :=
  if n = front then { kind := .duplicate }
  else if n < front then { kind := .outOfOrder }
  else if n = front + 1 then { kind := .contiguous }
  else { kind := .gap, gap := word (n - front - 1) }

/-- A position in the window of the tracker. -/
def Near (front n : Int) : Prop := -2 ^ 31 ≤ n - front ∧ n - front < 2 ^ 31

/-- The tracker has seen positions up to `front`. -/
def RdtSequenceTracker.At (t : RdtSequenceTracker) (front : Int) : Prop :=
  t.hasLast = true ∧ t.previous = word front

theorem observe_first {t : RdtSequenceTracker} (h : t.hasLast = false) (n : Int) :
    (t.observe (word n)).1.At n ∧ (t.observe (word n)).2 = { kind := .first } := by
  simp [RdtSequenceTracker.observe, h, RdtSequenceTracker.At]

/-- One observation of a position in the window. -/
theorem RdtSequenceTracker.At.observe {t : RdtSequenceTracker} {front n : Int} (h : t.At front)
    (hn : Near front n) :
    (t.observe (word n)).1.At (max front n) ∧ (t.observe (word n)).2 = classify front n := by
  obtain ⟨hlast, hprevious⟩ := h
  obtain ⟨hlow, hhigh⟩ := hn
  have hdelta : word n - t.previous = word (n - front) := by rw [hprevious, word_sub]
  have hnat := toNat_word (n - front)
  have hzero : word (n - front) = 0 ↔ n = front := by
    rw [← UInt32.toNat_inj]
    simp only [UInt32.toNat_zero]
    omega
  have hhalf : word (n - front) < halfRange ↔ front ≤ n := by
    rw [UInt32.lt_iff_toNat_lt]
    have : halfRange.toNat = 2147483648 := rfl
    omega
  have hone : word (n - front) = 1 ↔ n = front + 1 := by
    rw [← UInt32.toNat_inj]
    simp only [UInt32.toNat_one]
    omega
  simp only [RdtSequenceTracker.observe, hlast, Bool.not_true, Bool.false_eq_true, if_false, hdelta,
    hzero, hhalf, hone, classify, RdtSequenceTracker.At]
  rcases Int.lt_trichotomy n front with hlt | heq | hgt
  · have hne : n ≠ front := by omega
    have hback : ¬ front ≤ n := by omega
    have hmax : max front n = front := by omega
    simp only [if_neg hne, if_neg hback, if_pos hlt, hmax]
    exact ⟨⟨hlast, hprevious⟩, trivial⟩
  · have hmax : max front n = front := by omega
    simp only [if_pos heq, hmax]
    exact ⟨⟨hlast, hprevious⟩, trivial⟩
  · have hne : n ≠ front := by omega
    have hle : front ≤ n := by omega
    have hlt : ¬ n < front := by omega
    have hmax : max front n = n := by omega
    have hgap : word (n - front) - 1 = word (n - front - 1) := word_sub (n - front) 1
    simp only [if_neg hne, if_neg hlt, if_pos hle, hmax, hgap]
    exact ⟨⟨trivial, trivial⟩, trivial⟩

/-- The observations of a sequence of positions, and the tracker after them. -/
def feed : RdtSequenceTracker → List Int → RdtSequenceTracker × List SequenceObservation
  | t, [] => (t, [])
  | t, n :: ns =>
    let (t', o) := t.observe (word n)
    let (t'', os) := feed t' ns
    (t'', o :: os)

/-- The largest position of an epoch that begins with `first`. -/
def front (first : Int) (rest : List Int) : Int := rest.foldl max first

/-- Every position of an epoch is in the window of the tracker when it arrives. -/
def Windowed (first : Int) (rest : List Int) : Prop :=
  ∀ before n after, rest = before ++ n :: after → Near (front first before) n

/-- A record with this observation may be delivered. -/
def SequenceObservation.advances (o : SequenceObservation) : Bool :=
  o.kind = .first || o.kind = .contiguous || o.kind = .gap

/-- What an observation adds to `lost_count`. -/
def SequenceObservation.lost (o : SequenceObservation) : Nat :=
  if o.kind = .gap then o.gap.toNat else 0

/-- The observation of `n` is the one that the positions themselves call for. -/
structure Refines (front n : Int) (o : SequenceObservation) : Prop where
  contiguous : o.kind = .contiguous ↔ n = front + 1
  gap : o.kind = .gap ↔ n > front + 1
  width : o.kind = .gap → (o.gap.toNat : Int) = n - front - 1
  duplicate : o.kind = .duplicate ↔ n = front
  outOfOrder : o.kind = .outOfOrder ↔ n < front

/-- The width of a gap in the window. -/
theorem Near.gap {front n : Int} (h : Near front n) (hgt : front + 1 < n) :
    ((word (n - front - 1)).toNat : Int) = n - front - 1 := by
  obtain ⟨hlow, hhigh⟩ := h
  have hnat := toNat_word (n - front - 1)
  omega

theorem Near.refines {front n : Int} (h : Near front n) : Refines front n (classify front n) := by
  unfold classify
  split
  · constructor <;> simp <;> omega
  · split
    · constructor <;> simp <;> omega
    · split
      · constructor <;> simp <;> omega
      · have hgt : front + 1 < n := by omega
        constructor <;> simp
        · omega
        · omega
        · exact h.gap hgt
        · omega
        · omega

/-- A record in the window may be delivered if its position is a new front; what it adds to
`lost_count` is the number of positions it skips. -/
theorem Near.advances {front n : Int} (h : Near front n) :
    (classify front n).advances = true ∧ front < n ∧
        ((classify front n).lost : Int) = n - front - 1 ∨
      (classify front n).advances = false ∧ n ≤ front ∧ (classify front n).lost = 0 := by
  unfold classify
  split
  · exact .inr ⟨rfl, by omega, rfl⟩
  · split
    · exact .inr ⟨rfl, by omega, rfl⟩
    · split
      · exact .inl ⟨rfl, by omega, by simp [SequenceObservation.lost]; omega⟩
      · exact .inl ⟨rfl, by omega, by simpa [SequenceObservation.lost] using h.gap (by omega)⟩

theorem windowed_nil (first : Int) : Windowed first [] := by
  rintro before n after heq
  simp at heq

theorem windowed_cons {first n : Int} {rest : List Int} :
    Windowed first (n :: rest) ↔ Near first n ∧ Windowed (max first n) rest := by
  constructor
  · intro h
    exact ⟨h [] n rest rfl, fun before m after heq => h (n :: before) m after (by rw [heq]; rfl)⟩
  · rintro ⟨hn, hrest⟩ before m after heq
    cases before with
    | nil =>
      obtain ⟨rfl, -⟩ := List.cons.inj heq
      exact hn
    | cons k before =>
      obtain ⟨rfl, hsplit⟩ := List.cons.inj heq
      exact hrest before m after hsplit

theorem feed_cons (t : RdtSequenceTracker) (n : Int) (ns : List Int) :
    (feed t (n :: ns)).1 = (feed (t.observe (word n)).1 ns).1 := rfl

/-- After an epoch the tracker is at its largest position. -/
theorem feed_at {t : RdtSequenceTracker} {first : Int} {rest : List Int} (ht : t.At first)
    (h : Windowed first rest) : (feed t rest).1.At (front first rest) := by
  induction rest generalizing t first with
  | nil => exact ht
  | cons n rest ih =>
    obtain ⟨hn, hrest⟩ := windowed_cons.mp h
    exact ih (ht.observe hn).1 hrest

/-! ## Histories of the FT tracker -/

inductive FtCall
  | observe (value : UInt32)
  | beginSession
  deriving DecidableEq, Repr

namespace FtSequenceTracker

/-- The tracker after a call. -/
def call (t : FtSequenceTracker) : FtCall → FtSequenceTracker
  | .observe value => (t.observe value).1
  | .beginSession => t.beginSession

/-- The tracker after a history of calls, from the first to the last. -/
def after (calls : List FtCall) : FtSequenceTracker := calls.foldl call {}

theorem after_concat (calls : List FtCall) (c : FtCall) :
    after (calls ++ [c]) = (after calls).call c := by
  simp [after]

/-- The last call was an `observe` of `value` that returned `Backward`. -/
def EndsBackward (calls : List FtCall) (value : UInt32) : Prop :=
  ∃ before, calls = before ++ [.observe value] ∧ ((after before).observe value).2 = .backward

/-- What a value does to a tracker that has a baseline. -/
theorem observe_cases {t : FtSequenceTracker} (h : t.hasLast = true) (v : UInt32) :
    v = t.previous ∧ t.observe v = ({ t with hasRestartCandidate := false }, .stall) ∨
    v ≠ t.previous ∧ v - t.previous < halfRange ∧
      t.observe v = ({ t with previous := v, hasRestartCandidate := false }, .forward) ∨
    v ≠ t.previous ∧ ¬ v - t.previous < halfRange ∧ t.confirmsRestart v = true ∧
      t.observe v = ({ t with previous := v, hasRestartCandidate := false }, .restart) ∨
    v ≠ t.previous ∧ ¬ v - t.previous < halfRange ∧ t.confirmsRestart v = false ∧
      t.observe v = ({ t with restartCandidate := v, hasRestartCandidate := true }, .backward) := by
  unfold FtSequenceTracker.observe
  rw [h]
  simp only [Bool.not_true, Bool.false_eq_true, if_false]
  split
  · exact .inl ⟨‹_›, rfl⟩
  · split
    · exact .inr (.inl ⟨‹_›, ‹_›, rfl⟩)
    · split
      · exact .inr (.inr (.inl ⟨‹_›, ‹_›, ‹_›, rfl⟩))
      · exact .inr (.inr (.inr ⟨‹_›, ‹_›, eq_false_of_ne_true ‹_›, rfl⟩))

theorem observe_fresh {t : FtSequenceTracker} (h : t.hasLast = false) (v : UInt32) :
    t.observe v = ({ t with hasLast := true, previous := v }, .first) := by
  simp [FtSequenceTracker.observe, h]

theorem observe_hasLast (t : FtSequenceTracker) (v : UInt32) : (t.observe v).1.hasLast = true := by
  cases h : t.hasLast with
  | false => rw [observe_fresh h]
  | true =>
    rcases observe_cases h v with ⟨-, ho⟩ | ⟨-, -, ho⟩ | ⟨-, -, -, ho⟩ | ⟨-, -, -, ho⟩ <;>
      rw [ho] <;> exact h

/-- The tracker has a baseline once a value was observed. -/
theorem after_hasLast (calls : List FtCall) :
    (after calls).hasLast = true ↔ ∃ value, .observe value ∈ calls := by
  induction calls using List.reverseRecOn with
  | nil => simp [after]
  | append_singleton calls c ih =>
    rw [after_concat]
    cases c with
    | observe value => simp [call, observe_hasLast]
    | beginSession => simpa [call, beginSession] using ih

theorem after_fresh {calls : List FtCall} (h : (after calls).hasLast = false) :
    after calls = {} := by
  induction calls using List.reverseRecOn with
  | nil => rfl
  | append_singleton calls c ih =>
    rw [after_concat] at h ⊢
    cases c with
    | observe value => simp [call, observe_hasLast] at h
    | beginSession => rw [ih h]; rfl

theorem endsBackward_concat (calls : List FtCall) (c : FtCall) (value : UInt32) :
    EndsBackward (calls ++ [c]) value ↔
      c = .observe value ∧ ((after calls).observe value).2 = .backward := by
  constructor
  · rintro ⟨before, heq, hback⟩
    obtain ⟨rfl, hc⟩ := List.append_inj' heq rfl
    exact ⟨List.singleton_inj.mp hc, hback⟩
  · rintro ⟨rfl, hback⟩
    exact ⟨calls, rfl, hback⟩

/-- An observed value becomes the candidate exactly when it is `Backward`. -/
theorem observe_candidate {t : FtSequenceTracker}
    (h : t.hasLast = false → t.hasRestartCandidate = false) (v value : UInt32) :
    (t.observe v).1.hasRestartCandidate = true ∧ (t.observe v).1.restartCandidate = value ↔
      v = value ∧ (t.observe v).2 = .backward := by
  cases hlast : t.hasLast with
  | false => simp [observe_fresh hlast, h hlast]
  | true =>
    rcases observe_cases hlast v with ⟨-, ho⟩ | ⟨-, -, ho⟩ | ⟨-, -, -, ho⟩ | ⟨-, -, -, ho⟩ <;>
      simp [ho]

/-- The candidate is the value that the last call observed as `Backward`. -/
theorem after_candidate (calls : List FtCall) (value : UInt32) :
    (after calls).hasRestartCandidate = true ∧ (after calls).restartCandidate = value ↔
      EndsBackward calls value := by
  induction calls using List.reverseRecOn with
  | nil => simp [after, EndsBackward]
  | append_singleton calls c ih =>
    rw [after_concat, endsBackward_concat]
    cases c with
    | beginSession => simp [call, beginSession]
    | observe v =>
      have hfresh : (after calls).hasLast = false → (after calls).hasRestartCandidate = false :=
        fun hlast => by rw [after_fresh hlast]
      rw [call, observe_candidate hfresh, FtCall.observe.injEq]
      constructor <;> rintro ⟨rfl, hback⟩ <;> exact ⟨rfl, hback⟩

/-- Of two low values the one that is ahead in the half-range sense is the larger one. -/
theorem ahead_of_low {c v : UInt32} (hc : c ≤ kRestartLowMax) (hv : v ≤ kRestartLowMax) :
    v - c > 0 ∧ v - c < halfRange ↔ c < v := by
  have hlow : kRestartLowMax.toNat = 65535 := rfl
  have hhalf : halfRange.toNat = 2147483648 := rfl
  have hsub := UInt32.toNat_sub v c
  rw [UInt32.le_iff_toNat_le] at hc hv
  rw [gt_iff_lt, UInt32.lt_iff_toNat_lt, UInt32.lt_iff_toNat_lt, UInt32.lt_iff_toNat_lt,
    UInt32.toNat_zero]
  omega

/-- The restart test, in terms of the history. -/
theorem confirmsRestart_iff (calls : List FtCall) (v : UInt32) :
    (after calls).confirmsRestart v = true ↔
      kRestartMinBaseline ≤ (after calls).previous ∧
        ∃ c, EndsBackward calls c ∧ c ≤ kRestartLowMax ∧ c < v ∧ v ≤ kRestartLowMax := by
  simp only [confirmsRestart, Bool.and_eq_true, decide_eq_true_eq, ge_iff_le, ← after_candidate]
  constructor
  · rintro ⟨⟨⟨⟨hbase, hcand⟩, hc⟩, hv⟩, hdelta⟩
    exact ⟨hbase, _, ⟨hcand, rfl⟩, hc, (ahead_of_low hc hv).mp hdelta, hv⟩
  · rintro ⟨hbase, c, ⟨hcand, rfl⟩, hc, hlt, hv⟩
    exact ⟨⟨⟨⟨hbase, hcand⟩, hc⟩, hv⟩, (ahead_of_low hc hv).mpr hlt⟩

/-- Two confirming values in a row, the second one behind the baseline. -/
def Restarts (calls : List FtCall) (v : UInt32) : Prop :=
  2 ^ 31 ≤ (v - (after calls).previous).toNat ∧ 0x10000 ≤ (after calls).previous ∧
    ∃ c, EndsBackward calls c ∧ c ≤ 0xffff ∧ c < v ∧ v ≤ 0xffff

/-- After any history of calls on a fresh tracker: `First` is returned by the first `observe` and
by no other; the baseline moves only on `First`, `Forward` and `Restart`, and then to the observed
value; and on a tracker with a baseline the four other results are told apart by the distance of
the value from the baseline and by `Restarts`. So the baseline moves backward only by a value
whose immediate predecessor was observed as `Backward`. -/
theorem restart_recognised (calls : List FtCall) (v : UInt32) :
    (((after calls).observe v).2 = .first ↔ ∀ value, .observe value ∉ calls) ∧
    (((after calls).observe v).2 ∈ [.first, .forward, .restart] →
      ((after calls).observe v).1.previous = v) ∧
    (((after calls).observe v).1.previous ≠ (after calls).previous →
      ((after calls).observe v).2 ∈ [.first, .forward, .restart]) ∧
    (after calls).beginSession.previous = (after calls).previous ∧
    ((∃ value, .observe value ∈ calls) →
      (((after calls).observe v).2 = .forward ↔
        0 < (v - (after calls).previous).toNat ∧
          (v - (after calls).previous).toNat < 2 ^ 31) ∧
      (((after calls).observe v).2 = .stall ↔ v = (after calls).previous) ∧
      (((after calls).observe v).2 = .restart ↔ Restarts calls v) ∧
      (((after calls).observe v).2 = .backward ↔
        2 ^ 31 ≤ (v - (after calls).previous).toNat ∧ ¬ Restarts calls v) ∧
      (2 ^ 31 ≤ (v - (after calls).previous).toNat →
        ((after calls).observe v).1.previous ≠ (after calls).previous →
          ∃ c, EndsBackward calls c)) := by
  have hex := after_hasLast calls
  have hres : Restarts calls v ↔ 2 ^ 31 ≤ (v - (after calls).previous).toNat ∧
      (after calls).confirmsRestart v = true := by
    rw [Restarts, confirmsRestart_iff]
    rfl
  have hzero : v = (after calls).previous ↔ (v - (after calls).previous).toNat = 0 := by
    rw [← UInt32.toNat_inj, UInt32.toNat_sub]
    have hv := v.toNat_lt
    have hp := (after calls).previous.toNat_lt
    omega
  have hhalf : v - (after calls).previous < halfRange ↔
      (v - (after calls).previous).toNat < 2 ^ 31 := Iff.rfl
  generalize (v - (after calls).previous).toNat = d at hres hzero hhalf ⊢
  cases hlast : (after calls).hasLast with
  | false =>
    have hnone : ¬ ∃ value, .observe value ∈ calls := fun h => by simp [hex.mpr h] at hlast
    rw [observe_fresh hlast]
    refine ⟨⟨fun _ value h => hnone ⟨value, h⟩, fun _ => rfl⟩, fun _ => rfl, fun _ => by simp, rfl,
      fun h => absurd h hnone⟩
  | true =>
    have hsome := hex.mp hlast
    have hnot : ¬ ∀ value, .observe value ∉ calls := fun h => hsome.elim fun value hv => h value hv
    rcases observe_cases hlast v with ⟨heq, ho⟩ | ⟨hne, hlt, ho⟩ | ⟨hne, hge, hconf, ho⟩ |
      ⟨hne, hge, hconf, ho⟩
    · rw [hzero] at heq
      simp [ho, hnot, hres, hzero, heq, beginSession]
    · rw [ne_eq, hzero] at hne
      rw [hhalf] at hlt
      simp [ho, hnot, hres, hzero, hne, beginSession]
      omega
    · rw [ne_eq, hzero] at hne
      rw [hhalf] at hge
      obtain ⟨-, c, hback, -⟩ := (confirmsRestart_iff calls v).mp hconf
      simp [ho, hnot, hres, hzero, hne, hconf, beginSession]
      exact fun _ _ => ⟨by omega, by omega, fun _ => ⟨c, hback⟩⟩
    · rw [ne_eq, hzero] at hne
      rw [hhalf] at hge
      simp [ho, hnot, hres, hzero, hne, hconf, beginSession]
      omega

end FtSequenceTracker

end NetFT.Detail
