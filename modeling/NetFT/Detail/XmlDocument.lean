import NetFT.Detail.XmlGrammar

/-! The grammar of documents. A tag opens, closes or is an element; tags are properly nested, the
field elements have no elements inside, and each field occurs once, the name of the product at most
once. -/

namespace NetFT.Detail.Xml
open Library

/-! ## Tags -/

/-- What a tag does. -/
inductive Markup
  | opens (name : Bytes)
  | closes (name : Bytes)
  | empty (name : Bytes)
  deriving DecidableEq, Repr

/-- The name of an element: what is before the first blank. -/
def elementName (tag : Bytes) : Bytes := tag.takeWhile fun c => !isAsciiWhitespace c

/-- A name that is not empty and does not begin with a slash. -/
def properName (name : Bytes) : Option Bytes :=
  if name = [] ∨ name.head? = some slash then none else some name

/-- What the tag with the given body is, if it is well formed. -/
def markup (body : Bytes) : Option Markup :=
  match trimAsciiWhitespace body with
  | [] => none
  | c :: tag =>
    if c = slash then
      let name := trimAsciiWhitespace tag
      if name = [] ∨ ∃ c ∈ name, isAsciiWhitespace c ∨ c = slash then none
      else some (.closes name)
    else if (c :: tag).getLast? = some slash then
      (properName (elementName (trimAsciiWhitespace (c :: tag).dropLast))).map .empty
    else (properName (elementName (c :: tag))).map .opens

namespace Scanner

variable {s s' : Scanner}

/-- The field with the given name, if it is one, has occurred. -/
def mark (s : Scanner) (name : Bytes) : Scanner :=
  { s with seen := fun field => s.seen field || requiredTag name = some field }

def push (s : Scanner) (name : Bytes) : Scanner :=
  { s with elements := { name, required := requiredTag name } :: s.elements }

/-- The effect of a tag. -/
inductive Tags (s : Scanner) : Markup → Scanner → Prop
  | opens (name : Bytes) (hcurrent : s.current = none)
    (hnew : ∀ field, requiredTag name = some field → s.seen field = false) :
    Tags s (.opens name) ((s.mark name).push name)
  | empty (name : Bytes) (hcurrent : s.current = none)
    (hnew : ∀ field, requiredTag name = some field → s.seen field = false) :
    Tags s (.empty name) (s.mark name)
  | closes (element : OpenElement) (elements : List OpenElement)
    (helements : s.elements = element :: elements) :
    Tags s (.closes element.name) { s with elements }

theorem openElement_eq_ok {name : Bytes} {selfClosing : Bool} :
    s.openElement name selfClosing = .ok s' ↔ s.current = none ∧
      (∀ field, requiredTag name = some field → s.seen field = false) ∧
      s' = if selfClosing then s.mark name else (s.mark name).push name := by
  unfold openElement
  dsimp only
  split
  · rename_i hsome
    exact ⟨(fun h => by cases h), fun h => by simp [h.1] at hsome⟩
  rename_i hnone
  have hnone : s.current = none := by simpa using hnone
  cases hname : requiredTag name with
  | none =>
    have hmark : s.mark name = s := by simp [mark, hname]
    rw [hmark]
    constructor
    · intro h
      cases h
      refine ⟨hnone, (fun _ h => by cases h), ?_⟩
      cases selfClosing <;> simp [push, hname]
    · rintro ⟨-, -, rfl⟩
      cases selfClosing <;> simp [push, hname]
  | some field =>
    have hmark : s.mark name = { s with seen := Function.update s.seen field true } := by
      unfold mark
      congr 1
      funext field'
      by_cases h : field' = field
      · simp [h, hname]
      · simp [h, hname, Ne.symm h]
    dsimp only
    split
    · rename_i hseen
      exact ⟨(fun h => by cases h), fun h => by simp [h.2.1 field rfl] at hseen⟩
    · rename_i hseen
      rw [hmark]
      constructor
      · intro h
        cases h
        refine ⟨hnone, ?_, ?_⟩
        · rintro _ ⟨⟩
          simpa using hseen
        · cases selfClosing <;> simp [push, hname]
      · rintro ⟨-, -, rfl⟩
        cases selfClosing <;> simp [push, hname]

theorem closeElement_eq_ok {tag : Bytes} (h : tag ≠ []) :
    s.closeElement tag = .ok s' ↔
      ¬ (trimAsciiWhitespace tag.tail = [] ∨
        ∃ c ∈ trimAsciiWhitespace tag.tail, isAsciiWhitespace c ∨ c = slash) ∧
      s.Tags (.closes (trimAsciiWhitespace tag.tail)) s' := by
  have hsubstr : substr tag 1 = .ok tag.tail := by
    rw [substr_of_le (List.length_pos_iff.mpr h), List.drop_one]
  have hfind : (findFirstOf (blanks ++ ascii "/") (trimAsciiWhitespace tag.tail)).isSome = true ↔
      ∃ c ∈ trimAsciiWhitespace tag.tail, isAsciiWhitespace c ∨ c = slash := by
    rw [findFirstOf, List.findIdx?_isSome, List.any_eq_true]
    simp [isAsciiWhitespace, ascii, slash]
  unfold closeElement
  rw [hsubstr, ok_bind, ← hfind]
  dsimp only
  split
  · rename_i hbad
    exact ⟨(fun h => by cases h), fun h => absurd hbad h.1⟩
  rename_i hgood
  constructor
  · intro h
    split at h
    · cases h
    · rename_i element elements helements
      split at h
      · cases h
      · rename_i hname
        cases h
        rw [← not_not.mp hname]
        exact ⟨by rw [not_not.mp hname]; exact hgood, .closes element elements helements⟩
  · rintro ⟨-, htags⟩
    generalize trimAsciiWhitespace tag.tail = name at htags
    cases htags with
    | closes element elements helements => simp [helements]

theorem back_eq {tag : Bytes} {c : UInt8} (h : tag.getLast? = some c) : back tag = .ok c := by
  rw [back, h]

theorem substr_name (tag : Bytes) :
    substr tag 0 (findFirstOf blanks tag) = .ok (elementName tag) := by
  have hname : elementName tag = tag.take (tag.findIdx (· ∈ blanks)) := by
    rw [elementName, List.takeWhile_eq_take_findIdx_not]
    simp [isAsciiWhitespace]
  cases hfind : findFirstOf blanks tag with
  | none =>
    rw [substr_of_le (Nat.zero_le _), hname, List.drop_zero]
    have hall := List.findIdx?_eq_none_iff_findIdx_eq.mp hfind
    rw [hall, List.take_length]
  | some i =>
    rw [substr_count_of_le (Nat.zero_le _), hname, List.drop_zero,
      (List.findIdx?_eq_some_iff_findIdx_eq.mp hfind).2]

theorem properName_eq_some {name name' : Bytes} :
    properName name = some name' ↔ name' = name ∧ name ≠ [] ∧ front name ≠ .ok slash := by
  unfold properName
  cases name with
  | nil => simp
  | cons c name =>
    by_cases hc : c = slash
    · simp [hc, front]
    · simp [hc, front, eq_comm]

/-- The end of `handleTag`, for a tag with a name. -/
theorem named_eq_ok {tag : Bytes} {selfClosing : Bool} :
    (do
      let name ← substr tag 0 (findFirstOf blanks tag)
      if name = [] then .error malformed
      else do
        let first ← front name
        if first = slash then .error malformed else s.openElement name selfClosing) = .ok s' ↔
      ∃ name, properName (elementName tag) = some name ∧ s.openElement name selfClosing = .ok s' := by
  rw [substr_name, ok_bind]
  simp only [properName_eq_some]
  cases hname : elementName tag with
  | nil => simp
  | cons c name =>
    simp only [front, ok_bind, reduceCtorEq, if_false]
    by_cases hc : c = slash
    · simp [hc]
    · simp [hc]

theorem handleTag_eq_ok {body : Bytes} :
    s.handleTag body = .ok s' ↔ ∃ m, markup body = some m ∧ s.Tags m s' := by
  unfold handleTag markup
  cases htag : trimAsciiWhitespace body with
  | nil => simp
  | cons c tag =>
    simp only [reduceCtorEq, if_false, front, ok_bind]
    by_cases hslash : c = slash
    · rw [if_pos hslash, closeElement_eq_ok (List.cons_ne_nil c tag), List.tail_cons]
      simp only [hslash, if_true]
      split
      · simp_all
      · simp_all
    · obtain ⟨last, hlast⟩ : ∃ last, (c :: tag).getLast? = some last :=
        ⟨_, List.getLast?_eq_some_getLast (List.cons_ne_nil c tag)⟩
      simp only [if_neg hslash, selfClosing, back_eq hlast, ok_bind, hlast]
      by_cases hself : last = slash
      · have hsubstr : substr (c :: tag) 0 (some ((c :: tag).length - 1)) =
            .ok (c :: tag).dropLast := by
          rw [substr_count_of_le (Nat.zero_le _), List.drop_zero, ← List.dropLast_eq_take]
        rw [if_pos hself, hsubstr, if_pos (congrArg some hself)]
        refine named_eq_ok.trans ?_
        simp only [openElement_eq_ok, if_true]
        constructor
        · rintro ⟨name, hname, hcurrent, hnew, rfl⟩
          exact ⟨.empty name, by rw [hname]; rfl, .empty name hcurrent hnew⟩
        · rintro ⟨m, hm, htags⟩
          obtain ⟨name, hname, rfl⟩ := Option.map_eq_some_iff.mp hm
          cases htags with
          | empty _ hcurrent hnew => exact ⟨name, hname, hcurrent, hnew, rfl⟩
      · rw [if_neg hself, if_neg (fun h => hself (Option.some.inj h))]
        refine named_eq_ok.trans ?_
        simp only [openElement_eq_ok, Bool.false_eq_true, if_false]
        constructor
        · rintro ⟨name, hname, hcurrent, hnew, rfl⟩
          exact ⟨.opens name, by rw [hname]; rfl, .opens name hcurrent hnew⟩
        · rintro ⟨m, hm, htags⟩
          obtain ⟨name, hname, rfl⟩ := Option.map_eq_some_iff.mp hm
          cases htags with
          | opens _ hcurrent hnew => exact ⟨name, hname, hcurrent, hnew, rfl⟩

end Scanner

/-! ## Documents -/

/-- The tags are properly nested, and there is no tag inside a field element. -/
inductive Nested : List Token → Prop
  | nil : Nested []
  | content : t.isTag = false → Nested tokens → Nested (t :: tokens)
  | empty : markup body = some (.empty name) → Nested tokens → Nested (.tag body :: tokens)
  | element : markup body = some (.opens name) → markup body' = some (.closes name) →
    Nested contents → (requiredTag name ≠ none → ∀ t ∈ contents, t.isTag = false) → Nested tokens →
    Nested (.tag body :: (contents ++ .tag body' :: tokens))

/-- The token is a tag that opens the element of the field, or is the element. -/
def Token.opensField (field : Field) : Token → Bool
  | .tag body =>
    match markup body with
    | some (.opens name) | some (.empty name) => name = ascii field.tag
    | _ => false
  | _ => false

/-- How often the field occurs. -/
def openings (field : Field) (tokens : List Token) : Nat := tokens.countP (·.opensField field)

/-- The text up to the next tag. -/
def content : List Token → Bytes
  | .text content' :: tokens | .cdata content' :: tokens => content' ++ content tokens
  | .comment _ :: tokens | .instruction _ :: tokens => content tokens
  | .tag _ :: _ | [] => []

/-- The text inside the element of the field. -/
def fieldText (field : Field) : List Token → Bytes
  | .tag body :: tokens =>
    match markup body with
    | some (.opens name) =>
      if name = ascii field.tag then content tokens else fieldText field tokens
    | some (.empty name) => if name = ascii field.tag then [] else fieldText field tokens
    | _ => fieldText field tokens
  | _ :: tokens => fieldText field tokens
  | [] => []

theorem requiredTag_eq_some {name : Bytes} {field : Field} :
    requiredTag name = some field ↔ name = ascii field.tag := by
  constructor
  · intro h
    have hfound := List.find?_some h
    simpa using hfound
  · rintro rfl
    cases field <;> decide

theorem fieldText_of_openings {field : Field} {tokens : List Token}
    (h : openings field tokens = 0) : fieldText field tokens = [] := by
  induction tokens with
  | nil => rfl
  | cons t tokens ih =>
    rw [openings, List.countP_eq_zero] at h
    have hrest : fieldText field tokens = [] :=
      ih (List.countP_eq_zero.mpr fun t' ht' => h t' (List.mem_cons_of_mem _ ht'))
    have hfirst := h t List.mem_cons_self
    cases t with
    | tag body =>
      simp only [Token.opensField] at hfirst
      simp only [fieldText]
      split at hfirst <;> simp_all
    | _ => exact hrest

/-- The tokens close the open elements, from the innermost one on. -/
inductive Unwinds : List OpenElement → List Token → Prop
  | nil : Nested tokens → Unwinds [] tokens
  | cons : Nested contents → (element.required ≠ none → ∀ t ∈ contents, t.isTag = false) →
    markup body = some (.closes element.name) → Unwinds elements tokens →
    Unwinds (element :: elements) (contents ++ .tag body :: tokens)

/-- Tokens before those that close the innermost element. -/
theorem Unwinds.before {elements : List OpenElement} {tokens : List Token}
    (h : Unwinds elements tokens) (before : List Token)
    (hnested : ∀ tokens, Nested tokens → Nested (before ++ tokens))
    (htags : (∀ t ∈ before, t.isTag = false) ∨ elements.head?.bind OpenElement.required = none) :
    Unwinds elements (before ++ tokens) := by
  cases h with
  | nil h => exact .nil (hnested _ h)
  | cons hinner hrequired hbody hrest =>
    rw [← List.append_assoc]
    refine .cons (hnested _ hinner) (fun hne t ht => ?_) hbody hrest
    rcases List.mem_append.mp ht with ht | ht
    · rcases htags with htags | hnone
      · exact htags t ht
      · exact absurd hnone hne
    · exact hrequired hne t ht

namespace Scanner

variable {s s' : Scanner} {field : Field} {t : Token} {tokens : List Token}

/-- The invariant of the open elements: only the innermost one can be a field, which has
occurred. -/
structure Ordered (s : Scanner) : Prop where
  current : ∀ field, s.current = some field → s.seen field = true
  outer : ∀ element ∈ s.elements.tail, element.required = none

theorem ordered_initial : Ordered {} := ⟨(fun _ h => by cases h), fun _ h => by cases h⟩

/-- What a tag opens is the element of the given field. -/
def opensFieldOf (field : Field) : Markup → Bool
  | .opens name | .empty name => requiredTag name = some field
  | .closes _ => false

theorem Tags.seen {body : Bytes} {m : Markup} (hm : markup body = some m) (h : s.Tags m s') :
    s'.seen field = (s.seen field || (Token.tag body).opensField field) ∧
      ((Token.tag body).opensField field = true → s.seen field = false) := by
  have hopens : (Token.tag body).opensField field = opensFieldOf field m := by
    simp only [Token.opensField, hm]
    cases m <;> simp [opensFieldOf, requiredTag_eq_some]
  rw [hopens]
  cases h with
  | opens name hcurrent hnew | empty name hcurrent hnew =>
    exact ⟨rfl, fun h => hnew field (of_decide_eq_true h)⟩
  | closes element elements helements => exact ⟨by simp [opensFieldOf], fun h => by cases h⟩

theorem consume_seen (field : Field) (h : s.consume t = .ok s') :
    s'.seen field = (s.seen field || t.opensField field) ∧
      (t.opensField field = true → s.seen field = false) := by
  cases t with
  | text content | cdata content =>
    cases h
    rw [appendRequiredText_seen]
    exact ⟨by simp [Token.opensField], fun h => by cases h⟩
  | comment body | instruction body =>
    cases h
    exact ⟨by simp [Token.opensField], fun h => by cases h⟩
  | tag body =>
    obtain ⟨m, hm, htags⟩ := handleTag_eq_ok.mp h
    exact htags.seen hm

/-- A field that has occurred does not occur again. -/
theorem fold_seen (field : Field) (h : tokens.foldlM consume s = .ok s') :
    openings field tokens + (if s.seen field then 1 else 0) = if s'.seen field then 1 else 0 := by
  induction tokens generalizing s with
  | nil => cases h; simp [openings]
  | cons t tokens ih =>
    rw [List.foldlM_cons, bind_eq_ok] at h
    obtain ⟨s₁, hconsume, hfold⟩ := h
    obtain ⟨hseen, hnew⟩ := consume_seen field hconsume
    have hrest := ih hfold
    rw [hseen] at hrest
    rw [openings, List.countP_cons]
    rw [openings] at hrest
    cases hopens : t.opensField field with
    | false => simpa [hopens] using hrest
    | true => simpa [hopens, hnew hopens] using hrest

theorem Tags.ordered {m : Markup} (hs : s.Ordered) (h : s.Tags m s') : s'.Ordered := by
  cases h with
  | opens name hcurrent hnew =>
    refine ⟨fun field hfield => ?_, fun element helement => ?_⟩
    · have hname : requiredTag name = some field := hfield
      simp [push, mark, hname]
    · have helement : element ∈ s.elements := helement
      cases helements : s.elements with
      | nil => simp [helements] at helement
      | cons first rest =>
        rw [helements] at helement
        have houter := hs.outer
        rw [helements] at houter
        rcases List.mem_cons.mp helement with rfl | hrest
        · simpa [current, helements] using hcurrent
        · exact houter element hrest
  | empty name hcurrent hnew =>
    refine ⟨fun field hfield => ?_, hs.outer⟩
    have hfield : s.current = some field := hfield
    rw [hcurrent] at hfield
    cases hfield
  | closes element elements helements =>
    have houter := hs.outer
    rw [helements] at houter
    refine ⟨fun field hfield => ?_, fun element' h' => houter element' (List.mem_of_mem_tail h')⟩
    cases hrest : elements with
    | nil => simp [current, hrest] at hfield
    | cons next rest =>
      have hnone := houter next (by simp [hrest])
      simp [current, hrest, hnone] at hfield

theorem consume_ordered (hs : s.Ordered) (h : s.consume t = .ok s') : s'.Ordered := by
  cases t with
  | text content | cdata content =>
    cases h
    refine ⟨fun field hfield => ?_, by rw [appendRequiredText_elements]; exact hs.outer⟩
    rw [appendRequiredText_current] at hfield
    rw [appendRequiredText_seen]
    exact hs.current field hfield
  | comment body | instruction body => cases h; exact hs
  | tag body =>
    obtain ⟨m, -, htags⟩ := handleTag_eq_ok.mp h
    exact htags.ordered hs

theorem appendRequiredText_fields (text : Bytes) :
    (s.appendRequiredText text).fields field =
      s.fields field ++ if s.current = some field then text else [] := by
  cases hcurrent : s.current with
  | none => simp [appendRequiredText, hcurrent]
  | some field' =>
    by_cases hfield : field = field'
    · subst hfield
      simp [appendRequiredText, hcurrent]
    · simp [appendRequiredText, hcurrent, hfield, Ne.symm hfield]

/-- A token sequence that the scanner reads adds to each field the text inside its element. -/
theorem fold_fields (hs : s.Ordered) (h : tokens.foldlM consume s = .ok s') :
    s'.fields field = s.fields field ++
      if s.current = some field then content tokens else fieldText field tokens := by
  induction tokens generalizing s with
  | nil => cases h; simp [content, fieldText]
  | cons t tokens ih =>
    rw [List.foldlM_cons, bind_eq_ok] at h
    obtain ⟨s₁, hconsume, hfold⟩ := h
    have hrest := ih (consume_ordered hs hconsume) hfold
    -- once the field has occurred, what follows adds nothing
    have hdone : s₁.seen field = true → fieldText field tokens = [] := fun hseen => by
      refine fieldText_of_openings ?_
      have hcount := fold_seen field hfold
      rw [if_pos hseen] at hcount
      have hle : (if s'.seen field then 1 else 0) ≤ 1 := by split <;> omega
      omega
    cases t with
    | text content' | cdata content' =>
      cases hconsume
      rw [appendRequiredText_fields, appendRequiredText_current, List.append_assoc] at hrest
      rw [hrest]
      split <;> simp [content, fieldText]
    | comment body | instruction body => cases hconsume; exact hrest
    | tag body =>
      obtain ⟨m, hm, htags⟩ := handleTag_eq_ok.mp hconsume
      cases htags with
      | opens name hcurrent hnew =>
        have hnext : ((s.mark name).push name).current = requiredTag name := rfl
        simp only [hnext, requiredTag_eq_some] at hrest
        simp only [hcurrent, reduceCtorEq, if_false, fieldText, hm]
        exact hrest
      | empty name hcurrent hnew =>
        have hnext : (s.mark name).current = none := hcurrent
        rw [hnext] at hrest
        simp only [hcurrent, reduceCtorEq, if_false, fieldText, hm] at hrest ⊢
        rw [hrest]
        split
        · rename_i hname
          rw [hdone (by simp [mark, requiredTag_eq_some.mpr hname])]
          rfl
        · rfl
      | closes element elements helements =>
        have hnext : ({ s with elements } : Scanner).current ≠ some field := by
          have houter := hs.outer
          rw [helements, List.tail_cons] at houter
          cases helements' : elements with
          | nil => simp [current]
          | cons next rest => simp [current, houter next (by simp [helements'])]
        rw [if_neg hnext] at hrest
        rw [hrest]
        split
        · rename_i hcurrent
          rw [hdone (hs.current field hcurrent)]
          rfl
        · simp only [fieldText, hm]

/-- What the scanner reads up to the end of all elements is properly nested. -/
theorem unwinds_of_fold (h : tokens.foldlM consume s = .ok s') (hend : s'.elements = []) :
    Unwinds s.elements tokens := by
  induction tokens generalizing s with
  | nil => cases h; rw [hend]; exact .nil .nil
  | cons t tokens ih =>
    rw [List.foldlM_cons, bind_eq_ok] at h
    obtain ⟨s₁, hconsume, hfold⟩ := h
    have hrest := ih hfold
    have hcontent : t.isTag = false → s₁.elements = s.elements → Unwinds s.elements (t :: tokens) :=
      fun htag hsame => (hsame ▸ hrest).before [t] (fun _ hnested => .content htag hnested)
        (.inl (by simpa using htag))
    cases t with
    | text content | cdata content =>
      cases hconsume
      exact hcontent rfl (appendRequiredText_elements content)
    | comment body | instruction body => cases hconsume; exact hcontent rfl rfl
    | tag body =>
      obtain ⟨m, hm, htags⟩ := handleTag_eq_ok.mp hconsume
      cases htags with
      | opens name hcurrent hnew =>
        cases hrest with
        | cons hinner hrequired hbody hrest =>
          rename_i contents body' tokens
          have hbefore := hrest.before (.tag body :: (contents ++ [.tag body']))
            (fun tokens hnested => by
              simpa using Nested.element hm hbody hinner hrequired hnested) (.inr hcurrent)
          rw [List.cons_append, List.append_assoc] at hbefore
          exact hbefore
      | empty name hcurrent hnew =>
        exact hrest.before [.tag body] (fun _ hnested => .empty hm hnested) (.inr hcurrent)
      | closes element elements helements =>
        rw [helements]
        exact .cons .nil (by simp) hm hrest

theorem consume_content (h : t.isTag = false) :
    ∃ s', s.consume t = .ok s' ∧ s'.elements = s.elements := by
  cases t with
  | tag body => cases h
  | text content | cdata content => exact ⟨_, rfl, appendRequiredText_elements content⟩
  | comment | instruction => exact ⟨_, rfl, rfl⟩

theorem fold_content (h : ∀ t ∈ tokens, t.isTag = false) :
    ∃ s', tokens.foldlM consume s = .ok s' ∧ s'.elements = s.elements := by
  induction tokens generalizing s with
  | nil => exact ⟨s, rfl, rfl⟩
  | cons t tokens ih =>
    obtain ⟨s₁, hconsume, helements⟩ := consume_content (s := s) (h t List.mem_cons_self)
    obtain ⟨s', hfold, helements'⟩ := ih (s := s₁) fun t' ht' => h t' (List.mem_cons_of_mem _ ht')
    refine ⟨s', ?_, helements'.trans helements⟩
    rw [List.foldlM_cons, hconsume]
    exact hfold

theorem openings_append (field : Field) (tokens tokens' : List Token) :
    openings field (tokens ++ tokens') = openings field tokens + openings field tokens' :=
  List.countP_append

theorem openings_cons (field : Field) (t : Token) (tokens : List Token) :
    openings field (t :: tokens) =
      openings field tokens + if t.opensField field then 1 else 0 := List.countP_cons

/-- The fields of the tokens that are left have not occurred. -/
def Fresh (s : Scanner) (tokens : List Token) : Prop :=
  ∀ field, openings field tokens + (if s.seen field then 1 else 0) ≤ 1

theorem Fresh.consume {s₁ : Scanner} (h : s.Fresh (t :: tokens)) (hconsume : s.consume t = .ok s₁) :
    s₁.Fresh tokens := fun field => by
  have hnew := h field
  rw [openings_cons] at hnew
  obtain ⟨hseen, hfirst⟩ := consume_seen field hconsume
  rw [hseen]
  cases hopens : t.opensField field with
  | false => simpa [hopens] using hnew
  | true => simpa [hopens, hfirst hopens] using hnew

theorem Fresh.new {body name : Bytes} {m : Markup} (h : s.Fresh (.tag body :: tokens))
    (hm : markup body = some m) (hname : m = .opens name ∨ m = .empty name) (field : Field)
    (hfield : requiredTag name = some field) : s.seen field = false := by
  have hnew := h field
  have hopens : (Token.tag body).opensField field = true := by
    simp only [Token.opensField, hm]
    rcases hname with rfl | rfl <;> exact decide_eq_true (requiredTag_eq_some.mp hfield)
  rw [openings_cons, if_pos hopens] at hnew
  by_contra hseen
  rw [if_pos (by simpa using hseen)] at hnew
  omega

/-- What is properly nested, with fields that have not occurred, is read and leaves the open
elements as they were. -/
theorem fold_of_nested (h : Nested tokens) (hcurrent : s.current = none) (hnew : s.Fresh tokens) :
    ∃ s', tokens.foldlM consume s = .ok s' ∧ s'.elements = s.elements := by
  have hcurrent_of : ∀ {s s' : Scanner}, s'.elements = s.elements → s.current = none →
      s'.current = none := fun hsame hnone => by rw [current, hsame]; exact hnone
  induction h generalizing s with
  | nil => exact ⟨s, rfl, rfl⟩
  | content htag _ ih =>
    obtain ⟨s₁, hconsume, helements⟩ := consume_content (s := s) htag
    obtain ⟨s', hfold, helements'⟩ := ih (hcurrent_of helements hcurrent) (hnew.consume hconsume)
    refine ⟨s', ?_, helements'.trans helements⟩
    rw [List.foldlM_cons, hconsume]
    exact hfold
  | @empty body name tokens hm _ ih =>
    have hconsume : s.consume (.tag body) = .ok (s.mark name) :=
      handleTag_eq_ok.mpr ⟨_, hm, .empty name hcurrent (hnew.new hm (.inr rfl))⟩
    obtain ⟨s', hfold, helements⟩ := ih (s := s.mark name) hcurrent (hnew.consume hconsume)
    refine ⟨s', ?_, helements⟩
    rw [List.foldlM_cons, hconsume]
    exact hfold
  | @element body name body' contents tokens hm hm' _ hrequired _ ihinner ih =>
    have hopen : s.consume (.tag body) = .ok ((s.mark name).push name) :=
      handleTag_eq_ok.mpr ⟨_, hm, .opens name hcurrent (hnew.new hm (.inl rfl))⟩
    have hnew₁ := hnew.consume hopen
    obtain ⟨s₂, hinner, helements₂⟩ : ∃ s₂, contents.foldlM consume ((s.mark name).push name) =
        .ok s₂ ∧ s₂.elements = ((s.mark name).push name).elements := by
      by_cases hfield : requiredTag name = none
      · refine ihinner hfield fun field => ?_
        have hle := hnew₁ field
        rw [openings_append] at hle
        omega
      · exact fold_content (hrequired hfield)
    have hclose : s₂.consume (.tag body') = .ok { s₂ with elements := s.elements } :=
      handleTag_eq_ok.mpr ⟨_, hm', .closes _ _ helements₂⟩
    have hnew₂ : s₂.Fresh (.tag body' :: tokens) := fun field => by
      have hle := hnew₁ field
      rw [openings_append] at hle
      have hseen := fold_seen field hinner
      omega
    obtain ⟨s', hfold, helements⟩ := ih (s := { s₂ with elements := s.elements }) hcurrent
      (hnew₂.consume hclose)
    refine ⟨s', ?_, helements⟩
    rw [List.foldlM_cons, hopen, ok_bind, List.foldlM_append, hinner, ok_bind, List.foldlM_cons,
      hclose]
    exact hfold

theorem field_eq_ok {value : Bytes} :
    s.field field = .ok value ↔
      (s.seen field = false ∧ field = .prodname ∧ value = ascii "ATI Net F/T") ∨
      (s.seen field = true ∧ value = trimAsciiWhitespace (s.fields field) ∧ 1 ≤ value.length ∧
        value.length ≤ kMaximumFieldLength) := by
  unfold Scanner.field
  dsimp only
  cases hseen : s.seen field with
  | false =>
    by_cases hfield : field = .prodname
    · simp [hfield, eq_comm]
    · simp [hfield]
  | true =>
    simp only [Bool.true_eq_false, if_false, false_and, true_and, false_or]
    split
    · rename_i hnil
      exact ⟨(fun h => by cases h), by
        rintro ⟨heq, hpos, -⟩
        simp [heq, hnil] at hpos⟩
    rename_i hne
    split
    · rename_i hlong
      exact ⟨(fun h => by cases h), by
        rintro ⟨heq, -, hle⟩
        rw [heq] at hle
        omega⟩
    · rename_i hshort
      constructor
      · rintro ⟨⟩
        exact ⟨rfl, List.length_pos_iff.mpr hne, Nat.le_of_not_lt hshort⟩
      · rintro ⟨rfl, -, -⟩
        rfl

end Scanner

def RequiredFields.get (fields : RequiredFields) : Field → Bytes
  | .prodname => fields.prodname
  | .cfgcpf => fields.cfgcpf
  | .cfgcpt => fields.cfgcpt
  | .scfgfu => fields.scfgfu
  | .scfgtu => fields.scfgtu

/-- The documents with the given field texts. -/
structure Document (tokens : List Token) (fields : RequiredFields) : Prop where
  valid : ∀ t ∈ tokens, t.Valid
  nested : Nested tokens
  once : ∀ field, field ≠ .prodname → openings field tokens = 1
  atMostOnce : openings .prodname tokens ≤ 1
  value : ∀ field, openings field tokens = 1 →
    fields.get field = trimAsciiWhitespace (fieldText field tokens) ∧
      1 ≤ (fields.get field).length ∧ (fields.get field).length ≤ 128
  absent : openings .prodname tokens = 0 → fields.prodname = ascii "ATI Net F/T"

/-- What the scanner has read at the end of a document is accepted if each field has the given
value. -/
theorem Scanner.finish_eq_ok_iff {s : Scanner} {fields : RequiredFields} :
    s.finish = .ok fields ↔ s.elements = [] ∧ ∀ field, s.field field = .ok (fields.get field) := by
  rw [finish_eq_ok]
  constructor
  · rintro ⟨helements, hprodname, hcfgcpf, hcfgcpt, hscfgfu, hscfgtu⟩
    refine ⟨helements, fun field => ?_⟩
    cases field <;> assumption
  · rintro ⟨helements, hfields⟩
    exact ⟨helements, hfields .prodname, hfields .cfgcpf, hfields .cfgcpt, hfields .scfgfu,
      hfields .scfgtu⟩

/-- After a token sequence from the beginning, a field has been seen if it occurs, and has the text
inside its element. -/
theorem Scanner.fold_initial {s : Scanner} {tokens : List Token} (field : Field)
    (h : tokens.foldlM Scanner.consume {} = .ok s) :
    openings field tokens = (if s.seen field then 1 else 0) ∧
      s.fields field = fieldText field tokens :=
  ⟨fold_seen field h, fold_fields ordered_initial h⟩

/-- The scanner accepts exactly the documents of the grammar, and returns the trimmed texts of
their fields. -/
theorem extract_accepts_grammar (xml : Bytes) (fields : RequiredFields) :
    extractRequiredFields xml = .ok fields ↔
      ∃ tokens, render tokens = xml ∧ Document tokens fields := by
  rw [extractRequiredFields_eq, bind_eq_ok]
  simp only [run_eq_ok, Scanner.finish_eq_ok_iff]
  constructor
  · rintro ⟨s, ⟨tokens, hvalid, hrender, hfold⟩, helements, hfields⟩
    refine ⟨tokens, hrender, ?_⟩
    have hnested : Nested tokens := by
      cases Scanner.unwinds_of_fold hfold helements with
      | nil h => exact h
    have hfield := fun field => Scanner.field_eq_ok.mp (hfields field)
    have hread := fun field => Scanner.fold_initial field hfold
    refine ⟨hvalid, hnested, fun field hne => ?_, ?_, fun field hone => ?_, fun hzero => ?_⟩
    · rcases hfield field with ⟨-, heq, -⟩ | ⟨hseen, -⟩
      · exact absurd heq hne
      · rw [(hread field).1, if_pos hseen]
    · rw [(hread .prodname).1]
      split <;> omega
    · rw [(hread field).1] at hone
      rcases hfield field with ⟨hseen, -⟩ | ⟨-, hvalue, hlength⟩
      · simp [hseen] at hone
      · rw [← (hread field).2]
        exact ⟨hvalue, hlength⟩
    · rw [(hread .prodname).1] at hzero
      rcases hfield .prodname with ⟨-, -, hvalue⟩ | ⟨hseen, -⟩
      · exact hvalue
      · simp [hseen] at hzero
  · rintro ⟨tokens, hrender, hdoc⟩
    have hcount : ∀ field, openings field tokens ≤ 1 := fun field => by
      by_cases hfield : field = .prodname
      · rw [hfield]; exact hdoc.atMostOnce
      · exact Nat.le_of_eq (hdoc.once field hfield)
    obtain ⟨s, hfold, helements⟩ := Scanner.fold_of_nested (s := {}) hdoc.nested rfl
      fun field => by simpa using hcount field
    have hread := fun field => Scanner.fold_initial field hfold
    refine ⟨s, ⟨tokens, hdoc.valid, hrender, hfold⟩, helements, fun field => ?_⟩
    refine Scanner.field_eq_ok.mpr ?_
    cases hseen : s.seen field with
    | true =>
      have hone : openings field tokens = 1 := by rw [(hread field).1, if_pos hseen]
      refine .inr ⟨rfl, ?_, (hdoc.value field hone).2⟩
      rw [(hread field).2]
      exact (hdoc.value field hone).1
    | false =>
      have hzero : openings field tokens = 0 := by rw [(hread field).1]; simp [hseen]
      have hfield : field = .prodname := by
        by_contra hne
        have hone := hdoc.once field hne
        omega
      subst hfield
      exact .inl ⟨rfl, rfl, hdoc.absent hzero⟩

end NetFT.Detail.Xml
