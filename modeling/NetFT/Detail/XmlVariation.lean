import Mathlib.Logic.Relation
import NetFT.Detail.XmlDocument

/-! Content that the scanner passes over. Documents that differ in the body of a comment or an
instruction, in the value of an attribute, or in text outside the field elements are read alike:
the scanner is at the same place after what differs, with the same elements open and the same
texts. -/

namespace NetFT.Detail.Xml
open Library

/-! ## What may differ -/

/-- The tag opens the element of a field. -/
def opensFieldElement (body : Bytes) : Bool :=
  match markup body with
  | some (.opens name) => (requiredTag name).isSome
  | _ => false

/-- Whether what follows the tokens is inside the element of a field. -/
def inField (inside : Bool) : List Token → Bool
  | [] => inside
  | .tag body :: tokens => inField (opensFieldElement body) tokens
  | _ :: tokens => inField inside tokens

/-- What is before the quote of an attribute value, in a tag that does not close an element: the
name of the element, a blank and anything that leaves no quote open. -/
structure AttributeLead (lead name : Bytes) (b : UInt8) (more : Bytes) : Prop where
  leadBlank : ∀ c ∈ lead, isAsciiWhitespace c = true
  nameSolid : ∀ c ∈ name, isAsciiWhitespace c = false
  nonempty : name ≠ []
  noSlash : name.head? ≠ some slash
  blank : isAsciiWhitespace b = true
  body : TagBody (lead ++ (name ++ b :: more))

/-- Tokens that differ in what is passed over. -/
inductive Token.Alike (inside : Bool) : Token → Token → Prop
  | comment (body body' : Bytes) : Alike inside (.comment body) (.comment body')
  | instruction (body body' : Bytes) : Alike inside (.instruction body) (.instruction body')
  | text (content content' : Bytes) (houtside : inside = false) :
    Alike inside (.text content) (.text content')
  | cdata (content content' : Bytes) (houtside : inside = false) :
    Alike inside (.cdata content) (.cdata content')
  | value (hlead : AttributeLead lead name b more) (hq : q = singleQuote ∨ q = doubleQuote)
    (value value' after : Bytes) :
    Alike inside (.tag (lead ++ (name ++ b :: more) ++ q :: (value ++ q :: after)))
      (.tag (lead ++ (name ++ b :: more) ++ q :: (value' ++ q :: after)))

/-- Documents that differ in one place. A change after a declaration, which is refused, is not
restricted. -/
inductive Variation : Bytes → Bytes → Prop
  | changed {before : List Token} {t t' : Token} (hbefore : ∀ t ∈ before, t.Valid)
    (ht : t.Valid) (ht' : t'.Valid) (halike : t.Alike (inField false before) t') (rest : Bytes) :
    Variation (render before ++ (t.bytes ++ rest)) (render before ++ (t'.bytes ++ rest))
  | comment (hbefore : ∀ t ∈ before, t.Valid) (hbody : (Token.comment body).Valid)
    (rest : Bytes) :
    Variation (render before ++ rest) (render before ++ ((Token.comment body).bytes ++ rest))
  | instruction (hbefore : ∀ t ∈ before, t.Valid) (hbody : (Token.instruction body).Valid)
    (rest : Bytes) :
    Variation (render before ++ rest) (render before ++ ((Token.instruction body).bytes ++ rest))
  | declared (hbefore : ∀ t ∈ before, t.Valid)
    (hrest : ¬ ascii "--" <+: rest ∧ ¬ ascii "[CDATA[" <+: rest)
    (hrest' : ¬ ascii "--" <+: rest' ∧ ¬ ascii "[CDATA[" <+: rest') :
    Variation (render before ++ (ascii "<!" ++ rest)) (render before ++ (ascii "<!" ++ rest'))

/-! ## The tag of an attribute -/

theorem rdropWhile_append_of_not {p : UInt8 → Bool} {q : UInt8} (hq : p q = false) (l after : Bytes) :
    (l ++ q :: after).rdropWhile p = l ++ q :: after.rdropWhile p := by
  induction after using List.reverseRecOn with
  | nil =>
    rw [List.rdropWhile_concat_neg _ _ _ (by simp [hq]), List.rdropWhile_nil]
  | append_singleton after c ih =>
    have hassoc : l ++ q :: (after ++ [c]) = (l ++ q :: after) ++ [c] := by simp
    rw [hassoc, List.rdropWhile_concat, List.rdropWhile_concat, ih]
    split
    · rfl
    · exact hassoc.symm

theorem trim_between {lead : Bytes} {c q : UInt8} (hlead : ∀ b ∈ lead, isAsciiWhitespace b = true)
    (hc : isAsciiWhitespace c = false) (hq : isAsciiWhitespace q = false) (l after : Bytes) :
    trimAsciiWhitespace (lead ++ c :: (l ++ q :: after)) =
      c :: (l ++ q :: after.rdropWhile isAsciiWhitespace) := by
  have hdrop : (lead ++ c :: (l ++ q :: after)).dropWhile isAsciiWhitespace =
      c :: l ++ q :: after := by
    rw [List.dropWhile_append_of_pos hlead, List.dropWhile_cons_of_neg (by simp [hc])]
    rfl
  rw [trimAsciiWhitespace, hdrop, rdropWhile_append_of_not hq]
  rfl

/-- What the tag is depends on the name and on what is after the value. -/
theorem AttributeLead.markup {lead name more : Bytes} {b q : UInt8}
    (h : AttributeLead lead name b more) (hq : q = singleQuote ∨ q = doubleQuote)
    (value after : Bytes) :
    markup (lead ++ (name ++ b :: more) ++ q :: (value ++ q :: after)) =
      some (if (after.rdropWhile isAsciiWhitespace).getLast? = some slash then .empty name
        else .opens name) := by
  obtain ⟨c, name, rfl⟩ := List.exists_cons_of_ne_nil h.nonempty
  have hc : isAsciiWhitespace c = false := h.nameSolid c List.mem_cons_self
  have hslash : c ≠ slash := fun heq => h.noSlash (by rw [heq]; rfl)
  have hblank : isAsciiWhitespace q = false := by rcases hq with rfl | rfl <;> decide
  have hquote : q ≠ slash := by rcases hq with rfl | rfl <;> decide
  have hname : ∀ l, elementName (c :: (name ++ b :: l)) = c :: name := fun l => by
    have hall : ∀ d ∈ c :: name, (!isAsciiWhitespace d) = true := fun d hd => by
      rw [h.nameSolid d hd]; rfl
    rw [elementName, ← List.cons_append, List.takeWhile_append_of_pos hall,
      List.takeWhile_cons_of_neg (by simp [h.blank]), List.append_nil]
  have hproper : properName (c :: name) = some (c :: name) := by
    rw [properName, if_neg (by simp [hslash])]
  have hassoc : lead ++ (c :: name ++ b :: more) ++ q :: (value ++ q :: after) =
      lead ++ c :: ((name ++ b :: (more ++ q :: value)) ++ q :: after) := by simp
  rw [hassoc, Xml.markup, trim_between h.leadBlank hc hblank]
  generalize after.rdropWhile isAsciiWhitespace = after
  dsimp only
  rw [if_neg hslash]
  cases after using List.reverseRecOn with
  | nil =>
    have hlast : (c :: ((name ++ b :: (more ++ q :: value)) ++ [q])).getLast? ≠ some slash := by
      rw [← List.cons_append, List.getLast?_concat]
      exact fun heq => hquote (Option.some.inj heq)
    have hcat : (name ++ b :: (more ++ q :: value)) ++ [q] =
        name ++ b :: (more ++ q :: value ++ [q]) := by simp
    rw [if_neg hlast, if_neg (by simp), hcat, hname, hproper]
    rfl
  | append_singleton after d =>
    have hcat : c :: ((name ++ b :: (more ++ q :: value)) ++ q :: (after ++ [d])) =
        c :: ((name ++ b :: (more ++ q :: value)) ++ q :: after) ++ [d] := by simp
    rw [hcat, List.getLast?_concat, List.getLast?_concat, List.dropLast_concat]
    split
    · have htrim : trimAsciiWhitespace ([] ++ c :: (name ++ b :: (more ++ q :: value) ++
          q :: after)) = _ := trim_between (by simp) hc hblank _ after
      rw [List.nil_append] at htrim
      rw [htrim, List.append_assoc, List.cons_append, hname, hproper]
      rfl
    · rw [List.append_assoc, List.cons_append, List.cons_append, List.append_assoc,
        List.cons_append, hname, hproper]
      rfl

/-! ## Reading what differs -/

/-- Computations that succeed with the same results. -/
def Agrees {α : Type} (x y : Except Failure α) : Prop := ∀ a, x = .ok a ↔ y = .ok a

theorem Agrees.bind {α β : Type} {x : Except Failure α} {f g : α → Except Failure β}
    (h : ∀ a, x = .ok a → Agrees (f a) (g a)) : Agrees (x >>= f) (x >>= g) := by
  intro b
  rw [bind_eq_ok, bind_eq_ok]
  exact exists_congr fun a => and_congr_right fun ha => h a ha b

namespace Scanner

variable {s s' : Scanner} {tokens : List Token}

/-- The scanner knows whether it is inside the element of a field. -/
theorem fold_inField (hs : s.Ordered) (h : tokens.foldlM consume s = .ok s') :
    s'.current.isSome = inField s.current.isSome tokens := by
  induction tokens generalizing s with
  | nil => cases h; rfl
  | cons t tokens ih =>
    rw [List.foldlM_cons, bind_eq_ok] at h
    obtain ⟨s₁, ht, h⟩ := h
    rw [ih (consume_ordered hs ht) h]
    cases t with
    | text content | cdata content => cases ht; rw [appendRequiredText_current]; rfl
    | comment body | instruction body => cases ht; rfl
    | tag body =>
      obtain ⟨m, hm, htags⟩ := handleTag_eq_ok.mp ht
      rw [inField, opensFieldElement, hm]
      congr 1
      cases htags with
      | opens name => rfl
      | empty name hcurrent =>
        have hsame : (s.mark name).current = s.current := rfl
        rw [hsame, hcurrent]
        rfl
      | closes element elements helements =>
        cases hrest : elements with
        | nil => rfl
        | cons outer elements' =>
          have hnone := hs.outer outer (by rw [helements, hrest]; exact List.mem_cons_self)
          rw [current]
          dsimp only [List.head?_cons, Option.bind_some]
          rw [hnone]
          rfl

/-- Tokens that differ in what is passed over have the same effect. -/
theorem consume_alike {t t' : Token} (h : t.Alike s.current.isSome t') :
    Agrees (s.consume t) (s.consume t') := by
  intro a
  cases h with
  | comment | instruction => exact .rfl
  | text content content' houtside | cdata content content' houtside =>
    have hnone : s.current = none := by simpa using houtside
    simp only [consume, appendRequiredText, hnone]
  | value hlead hq value value' after =>
    rw [consume, consume, handleTag_eq_ok, handleTag_eq_ok, hlead.markup hq, hlead.markup hq]

end Scanner

theorem run_declared {s : Scanner} {rest : Bytes}
    (hrest : ¬ ascii "--" <+: rest ∧ ¬ ascii "[CDATA[" <+: rest) :
    ∃ e, run s (ascii "<!" ++ rest) = .error e := by
  have hfind : firstIndex (ascii "<") (ascii "<!" ++ rest) = some 0 :=
    firstIndex_of_isPrefix ⟨_, rfl⟩
  have hcomment : ¬ ascii "<!--" <+: ascii "<!" ++ rest := fun h =>
    hrest.1 ((List.prefix_append_right_inj (ascii "<!")).mp h)
  have hcdata : ¬ ascii "<![CDATA[" <+: ascii "<!" ++ rest := fun h =>
    hrest.2 ((List.prefix_append_right_inj (ascii "<!")).mp h)
  have hquestion : ¬ ascii "<?" <+: ascii "<!" ++ rest := by
    rintro ⟨t, ht⟩
    cases ht
  rw [run_step (by simp [ascii]), stepBytes, hfind]
  dsimp only
  rw [List.drop_zero, if_neg hcomment, if_neg hcdata, if_neg hquestion,
    if_pos (List.prefix_append ..)]
  exact ⟨_, rfl⟩

theorem Variation.run {xml xml' : Bytes} (h : Variation xml xml') :
    Agrees (Xml.run {} xml) (Xml.run {} xml') := by
  cases h with
  | changed hbefore ht ht' halike rest =>
    rw [run_render hbefore, run_render hbefore]
    refine .bind fun s hs => ?_
    rw [run_token ht, run_token ht']
    have hin := Scanner.fold_inField Scanner.ordered_initial hs
    rw [show Scanner.current {} = none from rfl, Option.isSome_none] at hin
    rw [← hin] at halike
    intro a
    rw [bind_eq_ok, bind_eq_ok]
    exact exists_congr fun s' => and_congr_left fun _ => Scanner.consume_alike halike s'
  | comment hbefore hbody rest | instruction hbefore hbody rest =>
    rw [run_render hbefore, run_render hbefore]
    refine .bind fun s _ => ?_
    rw [run_token hbody]
    exact fun _ => .rfl
  | declared hbefore hrest hrest' =>
    rw [run_render hbefore, run_render hbefore]
    refine .bind fun s _ a => ?_
    obtain ⟨e, he⟩ := run_declared (s := s) hrest
    obtain ⟨e', he'⟩ := run_declared (s := s) hrest'
    rw [he, he']
    refine ⟨?_, ?_⟩ <;> intro h <;> cases h

section
variable {D : Type} [Double D] [CountOrder D] {reader : NumberReader D}

theorem Variation.parse {xml xml' : Bytes} (h : Variation xml xml') :
    Agrees (parseSensorConfiguration reader xml) (parseSensorConfiguration reader xml') := by
  intro configuration
  unfold parseSensorConfiguration
  rw [bind_eq_ok, bind_eq_ok]
  refine exists_congr fun fields => and_congr_left fun _ => ?_
  rw [extractRequiredFields_eq, extractRequiredFields_eq, bind_eq_ok, bind_eq_ok]
  exact exists_congr fun s => and_congr_left fun _ => h.run s

/-- Documents that differ only in the bodies of comments and instructions, in the values of
attributes, in text and CDATA sections outside the field elements, or in the presence of a comment
or an instruction, give the same configuration, or both are refused. -/
theorem parse_ignores_content {xml xml' : Bytes} (h : Relation.EqvGen Variation xml xml') :
    (∃ configuration, parseSensorConfiguration reader xml = .ok configuration ∧
      parseSensorConfiguration reader xml' = .ok configuration) ∨
    ∃ message message', parseSensorConfiguration reader xml = .error (.discovery message) ∧
      parseSensorConfiguration reader xml' = .error (.discovery message') := by
  have hagrees : Agrees (parseSensorConfiguration reader xml)
      (parseSensorConfiguration reader xml') := by
    induction h with
    | rel _ _ h => exact h.parse
    | refl => exact fun _ => .rfl
    | symm _ _ _ ih => exact fun a => (ih a).symm
    | trans _ _ _ _ _ ih ih' => exact fun a => (ih a).trans (ih' a)
  cases hxml : parseSensorConfiguration reader xml with
  | ok configuration => exact .inl ⟨configuration, rfl, (hagrees configuration).mp hxml⟩
  | error e =>
    obtain ⟨message, rfl⟩ := parseSensorConfiguration_throws xml e hxml
    cases hxml' : parseSensorConfiguration reader xml' with
    | ok configuration =>
      rw [(hagrees configuration).mpr hxml'] at hxml
      cases hxml
    | error e' =>
      obtain ⟨message', rfl⟩ := parseSensorConfiguration_throws xml' e' hxml'
      exact .inr ⟨message, message', rfl, rfl⟩

end

/-- Decimal digits. -/
def decimalReader : NumberReader Rat where
  environment := none
  read value :=
    let isDigit (c : UInt8) : Bool := byte '0' ≤ c ∧ c ≤ byte '9'
    let digits := value.takeWhile isDigit
    if digits = [] then none
    else
      some (digits.foldl (fun n c => 10 * n + (c - byte '0').toNat) 0, value.dropWhile isDigit)

def sheetRest : Bytes :=
  ascii ("Axia</prodname><cfgcpf>1000</cfgcpf><cfgcpt>2000</cfgcpt>" ++
    "<scfgfu>N</scfgfu><scfgtu>Nm</scfgtu></n>")

/-- A document with an attribute in the tag of a field. -/
def sheet (value : String) : Bytes :=
  ascii "<n><prodname id=\"" ++ ascii value ++ ascii "\">" ++ sheetRest

theorem variation_sheet : Variation (sheet "a") (sheet "</prodname>") := by
  have hlead : AttributeLead [] (ascii "prodname") (byte ' ') (ascii "id=") := by
    refine ⟨(fun _ h => by cases h), by decide +kernel, by decide +kernel, by decide +kernel,
      by decide +kernel, ?_⟩
    repeat refine .char (by decide +kernel) (by decide +kernel) (by decide +kernel) ?_
    exact .nil
  have hvalid : ∀ value, doubleQuote ∉ value → (Token.tag ([] ++ (ascii "prodname" ++
      byte ' ' :: ascii "id=") ++ doubleQuote :: (value ++ doubleQuote :: []))).Valid := by
    intro value hvalue
    refine ⟨?_, (by rintro ⟨t, ht⟩; cases ht), (by rintro ⟨t, ht⟩; cases ht)⟩
    repeat refine .char (by decide +kernel) (by decide +kernel) (by decide +kernel) ?_
    exact .quoted (.inr rfl) hvalue .nil
  have hbefore : ∀ t ∈ [Token.tag (ascii "n")], t.Valid := by
    intro t ht
    rw [List.mem_singleton.mp ht]
    exact ⟨.char (by decide) (by decide) (by decide) .nil, (by rintro ⟨t, ht⟩; cases ht),
      (by rintro ⟨t, ht⟩; cases ht)⟩
  have hbytes : ∀ value, sheet value = render [.tag (ascii "n")] ++ ((Token.tag ([] ++
      (ascii "prodname" ++ byte ' ' :: ascii "id=") ++
        doubleQuote :: (ascii value ++ doubleQuote :: []))).bytes ++ sheetRest) := by
    intro value
    have hopening : ascii "<n><prodname id=\"" =
        render [.tag (ascii "n")] ++ lessThan :: (ascii "prodname" ++ byte ' ' :: ascii "id=") ++
          [doubleQuote] := by decide
    have hclosing : ascii "\">" = [doubleQuote, greaterThan] := by decide
    rw [sheet, hopening, hclosing]
    simp [Token.bytes]
  rw [hbytes, hbytes]
  exact .changed hbefore (hvalid (ascii "a") (by decide))
    (hvalid (ascii "</prodname>") (by decide)) (.value hlead (.inr rfl) _ _ _) sheetRest

theorem parse_ignores_content_sheet :
    ∃ configuration : SensorConfiguration Rat,
      configuration.calibration.countsPerForceUnit = 1000 ∧
      parseSensorConfiguration decimalReader (sheet "a") = .ok configuration ∧
      parseSensorConfiguration decimalReader (sheet "</prodname>") = .ok configuration := by
  have hparsed : ((parseSensorConfiguration decimalReader (sheet "a")).toOption.map
      (·.calibration.countsPerForceUnit)) = some 1000 := by decide +kernel
  rcases @parse_ignores_content Rat _ _ decimalReader _ _ (.rel _ _ variation_sheet) with
    ⟨configuration, h, h'⟩ | ⟨message, -, h, -⟩
  · rw [h] at hparsed
    exact ⟨configuration, Option.some.inj hparsed, h, h'⟩
  · rw [h] at hparsed
    cases hparsed

end NetFT.Detail.Xml
