import NetFT.Detail.XmlConfig

/-! The scanner on the bytes that are left. `scanStep` depends on the document only through the
bytes after its position, and consumes at least one of them; all the accesses it makes are inside
the document, so that the loop ends after at most as many iterations as the document has bytes,
with a `DiscoveryError` or a result. -/

namespace NetFT.Detail.Xml
open Library

theorem substr_of_le {view : Bytes} {position : Nat} (h : position ≤ view.length) :
    substr view position = .ok (view.drop position) := if_neg (Nat.not_lt.mpr h)

theorem substr_count_of_le {view : Bytes} {position : Nat} (h : position ≤ view.length)
    (count : Nat) : substr view position (some count) = .ok ((view.drop position).take count) :=
  if_neg (Nat.not_lt.mpr h)

/-- One iteration of the loop on the bytes that are left: the scanner and the bytes left after
it. -/
def stepBytes (s : Scanner) (rest : Bytes) : Except Failure (Scanner × Bytes) :=
  match firstIndex (ascii "<") rest with
  | none => .ok (s.appendRequiredText rest, [])
  | some i =>
    let s := s.appendRequiredText (rest.take i)
    let markup := rest.drop i
    if ascii "<!--" <+: markup then
      match firstIndex (ascii "-->") (markup.drop 4) with
      | none => .error (.discovery "sensor configuration contains an unterminated comment")
      | some j => .ok (s, markup.drop (4 + j + 3))
    else if ascii "<![CDATA[" <+: markup then
      match firstIndex (ascii "]]>") (markup.drop 9) with
      | none => .error (.discovery "sensor configuration contains unterminated CDATA")
      | some j => .ok (s.appendRequiredText ((markup.drop 9).take j), markup.drop (9 + j + 3))
    else if ascii "<?" <+: markup then
      match firstIndex (ascii "?>") (markup.drop 2) with
      | none => .error unterminated
      | some j => .ok (s, markup.drop (2 + j + 2))
    else if ascii "<!" <+: markup then
      .error (.discovery "sensor configuration contains unsupported markup")
    else
      match tagEnd 0 (markup.drop 1) with
      | none => .error unterminated
      | some j => (s.handleTag ((markup.drop 1).take j)).map (·, markup.drop (1 + j + 1))

theorem firstIndex_length {needle l : Bytes} {i : Nat} (h : firstIndex needle l = some i) :
    i + needle.length ≤ l.length := by
  obtain ⟨a, b, rfl, rfl, -⟩ := firstIndex_eq_some h
  simp

theorem tagEnd_lt {quote : UInt8} {l : Bytes} {i : Nat} (h : tagEnd quote l = some i) :
    i < l.length := by
  induction l generalizing quote i with
  | nil => cases h
  | cons c l ih =>
    simp only [tagEnd] at h
    (repeat' split at h) <;> first
      | (cases h; exact Nat.succ_pos _)
      | (obtain ⟨j, hj, rfl⟩ := Option.map_eq_some_iff.mp h
         exact Nat.succ_lt_succ (ih hj))

/-- The position at which the given bytes are left. -/
def scanAt (xml : Bytes) (s : Scanner) (rest : Bytes) : Scan :=
  { toScanner := s, position := xml.length - rest.length }

theorem scanAt_drop {xml : Bytes} {n : Nat} (h : n ≤ xml.length) (s : Scanner) :
    scanAt xml s (xml.drop n) = { toScanner := s, position := n } := by
  rw [scanAt, List.length_drop]
  congr 1
  omega

theorem ok_bind {α β : Type} (a : α) (f : α → Except Failure β) : (Except.ok a >>= f) = f a := rfl

theorem take_eq_iff {l needle : Bytes} {n : Nat} (hn : needle.length = n) :
    l.take n = needle ↔ needle <+: l := by
  subst hn
  rw [List.prefix_iff_eq_take, eq_comm]

theorem scanStep_eq {xml : Bytes} {s : Scan} (h : s.position ≤ xml.length) :
    scanStep xml s =
      (stepBytes s.toScanner (xml.drop s.position)).map fun r => scanAt xml r.1 r.2 := by
  unfold scanStep stepBytes
  cases hfind : firstIndex (ascii "<") (xml.drop s.position) with
  | none =>
    simp only [find, hfind, Option.map_none, substr_of_le h]
    rfl
  | some i =>
    have hi := firstIndex_length hfind
    rw [List.length_drop] at hi
    have hlen : (ascii "<").length = 1 := rfl
    have hle : s.position + i ≤ xml.length := by omega
    simp only [find, hfind, Option.map_some, substr_count_of_le h, substr_count_of_le hle,
      Nat.add_sub_cancel_left, List.drop_drop]
    simp only [ok_bind]
    by_cases hcomment : ascii "<!--" <+: xml.drop (s.position + i)
    · rw [if_pos ((take_eq_iff (n := 4) rfl).mpr hcomment), if_pos hcomment]
      cases hend : firstIndex (ascii "-->") (xml.drop (s.position + i + 4)) with
      | none => rfl
      | some j =>
        have hbound : s.position + i + (4 + j + 3) ≤ xml.length := by
          have hj := firstIndex_length hend
          have hthree : (ascii "-->").length = 3 := rfl
          rw [List.length_drop] at hj
          omega
        simp only [Option.map_some, Except.map, scanAt_drop hbound, pure, Except.pure]
        congr 2
        omega
    rw [if_neg (mt (take_eq_iff (n := 4) rfl).mp hcomment), if_neg hcomment]
    by_cases hcdata : ascii "<![CDATA[" <+: xml.drop (s.position + i)
    · rw [if_pos ((take_eq_iff (n := 9) rfl).mpr hcdata), if_pos hcdata]
      cases hend : firstIndex (ascii "]]>") (xml.drop (s.position + i + 9)) with
      | none => rfl
      | some j =>
        have hbound : s.position + i + (9 + j + 3) ≤ xml.length := by
          have hj := firstIndex_length hend
          have hthree : (ascii "]]>").length = 3 := rfl
          rw [List.length_drop] at hj
          omega
        have hstart : s.position + i + 9 ≤ xml.length := by omega
        have hcount : s.position + i + 9 + j - (s.position + i) - 9 = j := by omega
        simp only [Option.map_some, substr_count_of_le hstart, ok_bind, hcount, Except.map,
          scanAt_drop hbound, pure, Except.pure]
        congr 2
        omega
    rw [if_neg (mt (take_eq_iff (n := 9) rfl).mp hcdata), if_neg hcdata]
    by_cases hpi : ascii "<?" <+: xml.drop (s.position + i)
    · rw [if_pos ((take_eq_iff (n := 2) rfl).mpr hpi), if_pos hpi]
      cases hend : firstIndex (ascii "?>") (xml.drop (s.position + i + 2)) with
      | none => rfl
      | some j =>
        have hbound : s.position + i + (2 + j + 2) ≤ xml.length := by
          have hj := firstIndex_length hend
          have htwo : (ascii "?>").length = 2 := rfl
          rw [List.length_drop] at hj
          omega
        simp only [Option.map_some, Except.map, scanAt_drop hbound, pure, Except.pure]
        congr 2
        omega
    rw [if_neg (mt (take_eq_iff (n := 2) rfl).mp hpi), if_neg hpi]
    by_cases hbang : ascii "<!" <+: xml.drop (s.position + i)
    · rw [if_pos ((take_eq_iff (n := 2) rfl).mpr hbang), if_pos hbang]
      rfl
    rw [if_neg (mt (take_eq_iff (n := 2) rfl).mp hbang), if_neg hbang]
    simp only [findTagEnd]
    cases hend : tagEnd 0 (xml.drop (s.position + i + 1)) with
    | none => rfl
    | some j =>
      have hbound : s.position + i + (1 + j + 1) ≤ xml.length := by
        have hj := tagEnd_lt hend
        rw [List.length_drop] at hj
        omega
      have hstart : s.position + i + 1 ≤ xml.length := by omega
      have hcount : s.position + i + 1 + j - (s.position + i) - 1 = j := by omega
      simp only [ok_bind, substr_count_of_le hstart, hcount]
      cases (s.appendRequiredText ((xml.drop s.position).take i)).handleTag
        ((xml.drop (s.position + i + 1)).take j) with
      | error e => rfl
      | ok s' =>
        simp only [ok_bind, Except.map, scanAt_drop hbound, pure, Except.pure]
        congr 2
        omega

theorem map_eq_ok {α β : Type} {x : Except Failure α} {f : α → β} {b : β}
    (h : x.map f = .ok b) : ∃ a, x = .ok a ∧ f a = b := by
  cases x with
  | error e => cases h
  | ok a => exact ⟨a, rfl, Except.ok.inj h⟩

/-! ## What is thrown -/

/-- A computation that fails only with a `DiscoveryError`. -/
def OnlyDiscovery {α : Type} (x : Except Failure α) : Prop :=
  ∀ e, x = .error e → ∃ message, e = .discovery message

namespace OnlyDiscovery

variable {α β : Type} {x : Except Failure α} {f : α → Except Failure β}

theorem ok (a : α) : OnlyDiscovery (.ok a) := fun _ h => by cases h

theorem discovery (message : String) : OnlyDiscovery (.error (.discovery message) : Except Failure α) :=
  fun _ he => ⟨message, (Except.error.inj he).symm⟩

theorem bind (hx : OnlyDiscovery x) (hf : ∀ a, x = .ok a → OnlyDiscovery (f a)) :
    OnlyDiscovery (x >>= f) := by
  cases x with
  | error e => exact fun e' he => hx e' (by cases he; rfl)
  | ok a => exact hf a rfl

theorem map (hx : OnlyDiscovery x) (f : α → β) : OnlyDiscovery (x.map f) := by
  cases x with
  | error e => exact fun e' he => hx e' (by cases he; rfl)
  | ok a => exact fun _ h => by cases h

theorem substr {view : Bytes} {position : Nat} {count : Option Nat}
    (h : position ≤ view.length) : OnlyDiscovery (Xml.substr view position count) := by
  cases count with
  | none => rw [substr_of_le h]; exact .ok _
  | some count => rw [substr_count_of_le h]; exact .ok _

theorem front {view : Bytes} (h : view ≠ []) : OnlyDiscovery (Xml.front view) := by
  cases view with
  | nil => exact absurd rfl h
  | cons c view => exact .ok c

theorem back {view : Bytes} (h : view ≠ []) : OnlyDiscovery (Xml.back view) := by
  unfold Xml.back
  split
  · rename_i hnone
    exact absurd (List.getLast?_eq_none_iff.mp hnone) h
  · exact .ok _

end OnlyDiscovery

variable {s : Scanner}

theorem Scanner.closeElement_throws {tag : Bytes} (h : tag ≠ []) :
    OnlyDiscovery (s.closeElement tag) := by
  refine .bind (.substr (List.length_pos_iff.mpr h)) fun view _ => ?_
  dsimp only
  split
  · exact .discovery _
  · split
    · exact .discovery _
    · split
      · exact .discovery _
      · exact .ok _

theorem Scanner.openElement_throws {name : Bytes} {selfClosing : Bool} :
    OnlyDiscovery (s.openElement name selfClosing) := by
  unfold openElement
  dsimp only
  split
  · exact .discovery _
  · split
    · exact .ok _
    · split
      · exact .discovery _
      · exact .ok _

theorem Scanner.selfClosing_throws {tag : Bytes} (h : tag ≠ []) :
    OnlyDiscovery (selfClosing tag) := by
  refine .bind (.back h) fun c _ => ?_
  split
  · exact .bind (.substr (Nat.zero_le _)) fun _ _ => .ok _
  · exact .ok _

theorem Scanner.handleTag_throws {view : Bytes} : OnlyDiscovery (s.handleTag view) := by
  unfold handleTag
  dsimp only
  split
  · exact .discovery _
  rename_i htag
  refine .bind (.front htag) fun c _ => ?_
  split
  · exact closeElement_throws htag
  refine .bind (selfClosing_throws htag) fun r _ => ?_
  refine .bind (.substr (Nat.zero_le _)) fun name _ => ?_
  split
  · exact .discovery _
  rename_i hname
  refine .bind (.front hname) fun c _ => ?_
  split
  · exact .discovery _
  · exact openElement_throws

theorem stepBytes_throws {rest : Bytes} : OnlyDiscovery (stepBytes s rest) := by
  unfold stepBytes
  dsimp only
  (repeat' split) <;> first
    | exact .ok _
    | exact .discovery _
    | exact .map Scanner.handleTag_throws _

/-- An iteration leaves fewer bytes than there were. -/
theorem stepBytes_shrinks {s' : Scanner} {rest rest' : Bytes} (hne : rest ≠ [])
    (h : stepBytes s rest = .ok (s', rest')) : rest'.length < rest.length ∧ rest' <:+ rest := by
  unfold stepBytes at h
  dsimp only at h
  split at h
  · cases h
    exact ⟨List.length_pos_iff.mpr hne, List.nil_suffix⟩
  rename_i i hfind
  have hi := firstIndex_length hfind
  have hone : (ascii "<").length = 1 := rfl
  have hsuffix : ∀ k, 0 < k → ((rest.drop i).drop k).length < rest.length ∧
      (rest.drop i).drop k <:+ rest := fun k hk =>
    ⟨by simp only [List.length_drop]; omega,
      (List.drop_suffix ..).trans (List.drop_suffix ..)⟩
  split at h
  · split at h <;> cases h
    exact hsuffix _ (by omega)
  split at h
  · split at h <;> cases h
    exact hsuffix _ (by omega)
  split at h
  · split at h <;> cases h
    exact hsuffix _ (by omega)
  split at h
  · cases h
  split at h
  · cases h
  · obtain ⟨_, -, hr⟩ := map_eq_ok h
    cases hr
    exact hsuffix _ (by omega)

/-! ## The loop -/

/-- The loop on the bytes that are left, for at most the given number of iterations. -/
def runBytes : Nat → Scanner → Bytes → Except Failure Scanner
  | _, s, [] => .ok s
  | 0, _, _ :: _ => .error .outOfFuel
  | fuel + 1, s, c :: rest => do
    let (s, rest) ← stepBytes s (c :: rest)
    runBytes fuel s rest

theorem scanAt_toScanner (xml : Bytes) (s : Scanner) (rest : Bytes) :
    (scanAt xml s rest).toScanner = s := rfl

theorem drop_scanAt {xml rest : Bytes} (h : rest <:+ xml) (s : Scanner) :
    xml.drop (scanAt xml s rest).position = rest := (List.suffix_iff_eq_drop.mp h).symm

theorem scan_eq {xml : Bytes} (fuel : Nat) {s : Scan} (h : s.position ≤ xml.length) :
    scan xml fuel s = (runBytes fuel s.toScanner (xml.drop s.position)).map fun s' =>
      { toScanner := s', position := xml.length } := by
  induction fuel generalizing s with
  | zero =>
    unfold scan
    split
    · rename_i hlt
      cases hrest : xml.drop s.position with
      | nil => exact absurd (List.drop_eq_nil_iff.mp hrest) (Nat.not_le.mpr hlt)
      | cons c rest => rfl
    · rename_i hnlt
      have heq : s.position = xml.length := by omega
      rw [List.drop_eq_nil_of_le (Nat.le_of_eq heq.symm), runBytes, ← heq]
      rfl
  | succ fuel ih =>
    unfold scan
    split
    · rename_i hlt
      cases hrest : xml.drop s.position with
      | nil => exact absurd (List.drop_eq_nil_iff.mp hrest) (Nat.not_le.mpr hlt)
      | cons c rest =>
        rw [scanStep_eq h, hrest, runBytes]
        cases hstep : stepBytes s.toScanner (c :: rest) with
        | error e => rfl
        | ok r =>
          have hsuffix := (stepBytes_shrinks (List.cons_ne_nil c rest) hstep).2
          rw [← hrest] at hsuffix
          have hxml := hsuffix.trans (List.drop_suffix s.position xml)
          have hscan := ih (s := scanAt xml r.1 r.2) (Nat.sub_le ..)
          rw [drop_scanAt hxml, scanAt_toScanner] at hscan
          exact hscan
    · rename_i hnlt
      have heq : s.position = xml.length := by omega
      rw [List.drop_eq_nil_of_le (Nat.le_of_eq heq.symm), runBytes, ← heq]
      rfl

/-- As many iterations as there are bytes are enough. -/
theorem runBytes_fuel {fuel : Nat} {s : Scanner} {rest : Bytes} (h : rest.length ≤ fuel) :
    runBytes fuel s rest = runBytes rest.length s rest := by
  induction fuel using Nat.strong_induction_on generalizing s rest with
  | _ fuel ih =>
    cases rest with
    | nil => cases fuel <;> rfl
    | cons c rest =>
      cases fuel with
      | zero => cases h
      | succ fuel =>
        rw [List.length_cons] at h ⊢
        simp only [runBytes]
        cases hstep : stepBytes s (c :: rest) with
        | error e => rfl
        | ok r =>
          have hlt := (stepBytes_shrinks (List.cons_ne_nil c rest) hstep).1
          rw [List.length_cons] at hlt
          simp only [ok_bind]
          rw [ih fuel (Nat.lt_succ_self _) (by omega), ih rest.length (by omega) (by omega)]

/-- The whole loop on the bytes that are left. -/
def run (s : Scanner) (rest : Bytes) : Except Failure Scanner := runBytes rest.length s rest

@[simp] theorem run_nil (s : Scanner) : run s [] = .ok s := rfl

theorem run_step {rest : Bytes} (h : rest ≠ []) :
    run s rest = stepBytes s rest >>= fun r => run r.1 r.2 := by
  cases rest with
  | nil => exact absurd rfl h
  | cons c rest =>
    rw [run, List.length_cons, runBytes]
    cases hstep : stepBytes s (c :: rest) with
    | error e => rfl
    | ok r =>
      have hlt := (stepBytes_shrinks h hstep).1
      rw [List.length_cons] at hlt
      exact runBytes_fuel (Nat.le_of_lt_succ hlt)

theorem run_throws (s : Scanner) (rest : Bytes) : OnlyDiscovery (run s rest) := by
  induction hn : rest.length using Nat.strong_induction_on generalizing s rest with
  | _ n ih =>
    by_cases hrest : rest = []
    · rw [hrest]; exact .ok s
    · rw [run_step hrest]
      refine .bind stepBytes_throws fun r hr => ih r.2.length ?_ r.1 r.2 rfl
      rw [← hn]
      exact (stepBytes_shrinks hrest hr).1

/-- The fields of a document are what the scanner has read at its end. -/
theorem extractRequiredFields_eq (xml : Bytes) :
    extractRequiredFields xml = run {} xml >>= Scanner.finish := by
  unfold extractRequiredFields
  rw [scan_eq xml.length (Nat.zero_le _)]
  cases h : runBytes xml.length ({} : Scan).toScanner (xml.drop ({} : Scan).position) with
  | error e =>
    rw [run, show runBytes xml.length {} xml = .error e from h]
    rfl
  | ok s =>
    rw [run, show runBytes xml.length {} xml = .ok s from h]
    rfl

/-! ## The configuration -/

theorem Scanner.field_throws (field : Field) : OnlyDiscovery (s.field field) := by
  unfold Scanner.field
  dsimp only
  (repeat' split) <;> first
    | exact .ok _
    | exact .discovery _

theorem Scanner.field_length {field : Field} {value : Bytes} (h : s.field field = .ok value) :
    1 ≤ value.length ∧ value.length ≤ kMaximumFieldLength := by
  unfold Scanner.field at h
  dsimp only at h
  split at h
  · split at h <;> cases h
    decide
  · split at h
    · cases h
    · split at h <;> cases h
      exact ⟨List.length_pos_iff.mpr ‹_›, Nat.le_of_not_lt ‹_›⟩

theorem Scanner.finish_throws : OnlyDiscovery s.finish := by
  unfold Scanner.finish
  split
  · exact .discovery _
  · exact .bind (field_throws _) fun _ _ => .bind (field_throws _) fun _ _ =>
      .bind (field_throws _) fun _ _ => .bind (field_throws _) fun _ _ =>
      .bind (field_throws _) fun _ _ => .ok _

theorem extractRequiredFields_throws (xml : Bytes) : OnlyDiscovery (extractRequiredFields xml) := by
  rw [extractRequiredFields_eq]
  exact .bind (run_throws {} xml) fun _ _ => Scanner.finish_throws

/-- When a document is accepted, and with which values. -/
theorem Scanner.finish_eq_ok {fields : RequiredFields} :
    s.finish = .ok fields ↔ s.elements = [] ∧ s.field .prodname = .ok fields.prodname ∧
      s.field .cfgcpf = .ok fields.cfgcpf ∧ s.field .cfgcpt = .ok fields.cfgcpt ∧
      s.field .scfgfu = .ok fields.scfgfu ∧ s.field .scfgtu = .ok fields.scfgtu := by
  unfold Scanner.finish
  split
  · rename_i hne
    exact ⟨(fun h => by cases h), fun h => absurd h.1 hne⟩
  · rename_i hnil
    simp only [bind_eq_ok, not_not.mp hnil, true_and]
    constructor
    · rintro ⟨a, ha, b, hb, c, hc, d, hd, e, he, hr⟩
      cases hr
      exact ⟨ha, hb, hc, hd, he⟩
    · rintro ⟨ha, hb, hc, hd, he⟩
      exact ⟨_, ha, _, hb, _, hc, _, hd, _, he, rfl⟩

section
variable {D : Type} [Double D] [CountOrder D] {reader : NumberReader D}

theorem parsePositiveCount_throws {value : Bytes} {field : Field} :
    OnlyDiscovery (parsePositiveCount reader value field) := by
  unfold parsePositiveCount
  dsimp only
  split
  · exact .discovery _
  · split
    · exact .discovery _
    · refine .bind (.front ‹_›) fun c _ => ?_
      (repeat' split) <;> first
        | exact .ok _
        | exact .discovery _

theorem parseForceUnit_throws {value : Bytes} : OnlyDiscovery (parseForceUnit value) := by
  unfold parseForceUnit
  split <;> first
    | exact .ok _
    | exact .discovery _

theorem parseTorqueUnit_throws {value : Bytes} : OnlyDiscovery (parseTorqueUnit value) := by
  unfold parseTorqueUnit
  split <;> first
    | exact .ok _
    | exact .discovery _

theorem parseSensorConfiguration_throws (xml : Bytes) :
    OnlyDiscovery (parseSensorConfiguration reader xml) := by
  refine .bind (extractRequiredFields_throws xml) fun _ _ => .bind parsePositiveCount_throws fun _ _ =>
    .bind parsePositiveCount_throws fun _ _ => .bind parseForceUnit_throws fun _ _ =>
    .bind parseTorqueUnit_throws fun _ _ => ?_
  dsimp only
  split
  · exact .discovery _
  · exact .ok _

theorem length_text (value : Bytes) : (text value).length = value.length := by
  simp [text]

theorem parseSensorConfiguration_ok {xml : Bytes} {configuration : SensorConfiguration D}
    (h : parseSensorConfiguration reader xml = .ok configuration) :
    configuration.calibration.validate = .ok () ∧ configuration.source = .sensor ∧
      configuration.revision = 1 ∧ 1 ≤ configuration.productName.length ∧
      configuration.productName.length ≤ kMaximumFieldLength := by
  simp only [parseSensorConfiguration, bind_eq_ok] at h
  obtain ⟨fields, hfields, cpf, -, cpt, -, fu, -, tu, -, hvalid⟩ := h
  rw [extractRequiredFields_eq, bind_eq_ok] at hfields
  obtain ⟨s, -, hs⟩ := hfields
  have hlength := Scanner.field_length (Scanner.finish_eq_ok.mp hs).2.1
  split at hvalid
  · cases hvalid
  · cases hvalid
    rename_i hok
    rw [length_text]
    exact ⟨hok, rfl, rfl, hlength⟩

/-- Every document is parsed in finitely many steps. The loop needs at most as many iterations as
the document has bytes, and each of them advances the position within the document and makes no
access outside it; the result is a configuration that validates, or a `DiscoveryError`. -/
theorem parse_total (reader : NumberReader D) (xml : Bytes) :
    ((∃ configuration, parseSensorConfiguration reader xml = .ok configuration ∧
        configuration.calibration.validate = .ok () ∧ configuration.source = .sensor ∧
        configuration.revision = 1 ∧ 1 ≤ configuration.productName.length ∧
        configuration.productName.length ≤ 128) ∨
      ∃ message, parseSensorConfiguration reader xml = .error (.discovery message)) ∧
    (∀ s, s.position < xml.length → OnlyDiscovery (scanStep xml s) ∧
      ∀ s', scanStep xml s = .ok s' → s.position < s'.position ∧ s'.position ≤ xml.length) ∧
    ∀ fuel, xml.length ≤ fuel →
      OnlyDiscovery (scan xml fuel {}) ∧ scan xml fuel {} = scan xml xml.length {} := by
  refine ⟨?_, fun s hs => ?_, fun fuel hfuel => ?_⟩
  · cases h : parseSensorConfiguration reader xml with
    | ok configuration => exact .inl ⟨configuration, rfl, parseSensorConfiguration_ok h⟩
    | error e =>
      obtain ⟨message, rfl⟩ := parseSensorConfiguration_throws xml e h
      exact .inr ⟨message, rfl⟩
  · have hle := Nat.le_of_lt hs
    have hne : xml.drop s.position ≠ [] := fun hnil =>
      absurd (List.drop_eq_nil_iff.mp hnil) (Nat.not_le.mpr hs)
    rw [scanStep_eq hle]
    refine ⟨.map stepBytes_throws _, fun s' hs' => ?_⟩
    obtain ⟨r, hstep, rfl⟩ := map_eq_ok hs'
    have hlt := (stepBytes_shrinks hne hstep).1
    rw [List.length_drop] at hlt
    rw [scanAt]
    dsimp only
    omega
  · have hrun : runBytes fuel {} xml = run {} xml := runBytes_fuel hfuel
    have hscan : scan xml fuel {} = (run {} xml).map fun s' =>
        { toScanner := s', position := xml.length } := by
      rw [scan_eq fuel (Nat.zero_le _), ← hrun]
      rfl
    rw [hscan]
    refine ⟨.map (run_throws {} xml) _, ?_⟩
    rw [scan_eq xml.length (Nat.zero_le _)]
    rfl

end

end NetFT.Detail.Xml
