import NetFT.Detail.XmlScan

/-! The documents that the scanner accepts. A document is a sequence of tokens, whose tags are
properly nested; the scanner reads it token by token (`run_token`), and accepts exactly the
documents of the grammar, with the trimmed texts of the field elements. -/

namespace NetFT.Detail.Xml
open Library

/-! ## Tokens -/

/-- What may stand between the brackets of a tag: a closing bracket only inside quotes. -/
inductive TagBody : Bytes → Prop
  | nil : TagBody []
  | char : c ≠ singleQuote → c ≠ doubleQuote → c ≠ greaterThan → TagBody body → TagBody (c :: body)
  | quoted : q = singleQuote ∨ q = doubleQuote → q ∉ value → TagBody body →
    TagBody (q :: (value ++ q :: body))

inductive Token
  | text (content : Bytes)
  | comment (body : Bytes)
  | cdata (content : Bytes)
  | instruction (body : Bytes)
  | tag (body : Bytes)

namespace Token

def bytes : Token → Bytes
  | .text content => content
  | .comment body => ascii "<!--" ++ (body ++ ascii "-->")
  | .cdata content => ascii "<![CDATA[" ++ (content ++ ascii "]]>")
  | .instruction body => ascii "<?" ++ (body ++ ascii "?>")
  | .tag body => lessThan :: (body ++ [greaterThan])

/-- A token ends at its first terminator. -/
def Valid : Token → Prop
  | .text content => lessThan ∉ content
  | .comment body => ¬ ascii "-->" <:+: body
  | .cdata content => ¬ ascii "]]>" <:+: content
  | .instruction body => ¬ ascii "?>" <:+: body
  | .tag body => TagBody body ∧ ¬ ascii "!" <+: body ∧ ¬ ascii "?" <+: body

def isTag : Token → Bool
  | .tag _ => true
  | _ => false

end Token

def render (tokens : List Token) : Bytes := tokens.flatMap Token.bytes

/-- The effect of a token. -/
def Scanner.consume (s : Scanner) : Token → Except Failure Scanner
  | .text content | .cdata content => .ok (s.appendRequiredText content)
  | .comment _ | .instruction _ => .ok s
  | .tag body => s.handleTag body

/-! ## The end of a tag -/

theorem tagEnd_value {q : UInt8} {value : Bytes} (hq : q ≠ 0) (h : q ∉ value) (rest : Bytes) :
    tagEnd q (value ++ q :: rest) = (tagEnd 0 rest).map (· + (value.length + 1)) := by
  induction value with
  | nil => simp [tagEnd, hq]
  | cons c value ih =>
    simp only [List.mem_cons, not_or] at h
    rw [List.cons_append, tagEnd, if_pos hq, if_neg (Ne.symm h.1), ih h.2, Option.map_map]
    rfl

theorem TagBody.tagEnd {body : Bytes} (h : TagBody body) (rest : Bytes) :
    tagEnd 0 (body ++ greaterThan :: rest) = some body.length := by
  induction h with
  | nil => rfl
  | char hsingle hdouble hgreater _ ih =>
    rw [List.cons_append, Xml.tagEnd, if_neg (by simp), if_neg (not_or.mpr ⟨hsingle, hdouble⟩),
      if_neg hgreater, ih]
    rfl
  | @quoted q value body hq hvalue _ ih =>
    have hzero : q ≠ 0 := by rcases hq with rfl | rfl <;> decide
    rw [List.cons_append, Xml.tagEnd, if_neg (by simp), if_pos hq, List.append_assoc,
      List.cons_append, tagEnd_value hzero hvalue, ih]
    simp
    omega

/-- The end of a tag that is found is the end of a tag body, where the quote that was open is
closed first. -/
theorem tagEnd_some {l : Bytes} {i : Nat} :
    (tagEnd 0 l = some i → ∃ body rest, l = body ++ greaterThan :: rest ∧ body.length = i ∧
      TagBody body) ∧
    ∀ q, q = singleQuote ∨ q = doubleQuote → tagEnd q l = some i →
      ∃ value body rest, l = value ++ q :: (body ++ greaterThan :: rest) ∧ q ∉ value ∧
        value.length + 1 + body.length = i ∧ TagBody body := by
  induction l generalizing i with
  | nil => exact ⟨(fun h => by cases h), fun _ _ => fun h => by cases h⟩
  | cons c l ih =>
    constructor
    · intro h
      rw [tagEnd, if_neg (by simp)] at h
      split at h
      · rename_i hquote
        obtain ⟨j, hj, rfl⟩ := Option.map_eq_some_iff.mp h
        obtain ⟨value, body, rest, rfl, hvalue, rfl, hbody⟩ := ih.2 c hquote hj
        exact ⟨c :: (value ++ c :: body), rest, by simp, by simp; omega,
          .quoted hquote hvalue hbody⟩
      rename_i hquote
      split at h
      · rename_i hc
        cases h
        exact ⟨[], l, by rw [hc]; rfl, rfl, .nil⟩
      · rename_i hc
        obtain ⟨j, hj, rfl⟩ := Option.map_eq_some_iff.mp h
        obtain ⟨body, rest, rfl, rfl, hbody⟩ := ih.1 hj
        exact ⟨c :: body, rest, rfl, rfl,
          .char (fun h => hquote (.inl h)) (fun h => hquote (.inr h)) hc hbody⟩
    · intro q hq h
      have hzero : q ≠ 0 := by rcases hq with rfl | rfl <;> decide
      rw [tagEnd, if_pos hzero] at h
      split at h
      · rename_i hc
        obtain ⟨j, hj, rfl⟩ := Option.map_eq_some_iff.mp h
        obtain ⟨body, rest, rfl, rfl, hbody⟩ := ih.1 hj
        exact ⟨[], body, rest, by rw [hc]; rfl, by simp, by simp; omega, hbody⟩
      · rename_i hc
        obtain ⟨j, hj, rfl⟩ := Option.map_eq_some_iff.mp h
        obtain ⟨value, body, rest, rfl, hvalue, rfl, hbody⟩ := ih.2 q hq hj
        exact ⟨c :: value, body, rest, rfl, by simp [hvalue, Ne.symm hc], by simp; omega, hbody⟩

/-! ## Reading a token -/

section
variable {s : Scanner} {rest : Bytes}

theorem Scanner.appendRequiredText_nil : s.appendRequiredText [] = s := by
  unfold appendRequiredText
  split
  · rfl
  · rw [List.append_nil, Function.update_eq_self]

@[simp] theorem Scanner.appendRequiredText_elements (text : Bytes) :
    (s.appendRequiredText text).elements = s.elements := by
  unfold appendRequiredText
  split <;> rfl

@[simp] theorem Scanner.appendRequiredText_seen (text : Bytes) :
    (s.appendRequiredText text).seen = s.seen := by
  unfold appendRequiredText
  split <;> rfl

@[simp] theorem Scanner.appendRequiredText_current (text : Bytes) :
    (s.appendRequiredText text).current = s.current := by
  rw [current, appendRequiredText_elements, current]

theorem Scanner.appendRequiredText_append (text text' : Bytes) :
    (s.appendRequiredText text).appendRequiredText text' = s.appendRequiredText (text ++ text') := by
  cases hcurrent : s.current with
  | none => simp [appendRequiredText, hcurrent]
  | some field =>
    have hnext := appendRequiredText_current (s := s) text
    rw [hcurrent] at hnext
    simp only [appendRequiredText, hcurrent]
    simp only [appendRequiredText, hcurrent] at hnext
    simp [hnext]

theorem stepBytes_comment {body : Bytes} (h : (Token.comment body).Valid) :
    stepBytes s ((Token.comment body).bytes ++ rest) = .ok (s, rest) := by
  have hfind : firstIndex (ascii "<") ((Token.comment body).bytes ++ rest) = some 0 :=
    firstIndex_of_isPrefix ⟨_, rfl⟩
  have hend : firstIndex (ascii "-->") (((Token.comment body).bytes ++ rest).drop 4) =
      some body.length := by
    rw [Token.bytes, List.append_assoc, List.append_assoc]
    exact firstIndex_append (by decide) h rest
  have hopener : ascii "<!--" <+: (Token.comment body).bytes ++ rest :=
    ⟨_, (List.append_assoc ..).symm⟩
  have hlength : (Token.comment body).bytes.length = 4 + body.length + 3 := by
    simp [Token.bytes, ascii]; omega
  simp only [stepBytes, hfind, List.take_zero, List.drop_zero, Scanner.appendRequiredText_nil]
  rw [if_pos hopener, hend]
  simp only [List.drop_left' hlength]

theorem stepBytes_cdata {content : Bytes} (h : (Token.cdata content).Valid) :
    stepBytes s ((Token.cdata content).bytes ++ rest) =
      .ok (s.appendRequiredText content, rest) := by
  have hfind : firstIndex (ascii "<") ((Token.cdata content).bytes ++ rest) = some 0 :=
    firstIndex_of_isPrefix ⟨_, rfl⟩
  have hdrop : ((Token.cdata content).bytes ++ rest).drop 9 =
      content ++ (ascii "]]>" ++ rest) := by
    rw [Token.bytes, List.append_assoc, List.append_assoc]
    rfl
  have hend : firstIndex (ascii "]]>") (content ++ (ascii "]]>" ++ rest)) =
      some content.length := firstIndex_append (by decide) h rest
  have hopener : ascii "<![CDATA[" <+: (Token.cdata content).bytes ++ rest :=
    ⟨_, (List.append_assoc ..).symm⟩
  have hlength : (Token.cdata content).bytes.length = 9 + content.length + 3 := by
    simp [Token.bytes, ascii]; omega
  have hcomment : ¬ ascii "<!--" <+: (Token.cdata content).bytes ++ rest := by
    rintro ⟨t, ht⟩
    cases ht
  simp only [stepBytes, hfind, List.take_zero, List.drop_zero, Scanner.appendRequiredText_nil]
  rw [if_neg hcomment, if_pos hopener, hdrop, hend]
  simp only [List.drop_left' hlength, List.take_left]

theorem stepBytes_instruction {body : Bytes} (h : (Token.instruction body).Valid) :
    stepBytes s ((Token.instruction body).bytes ++ rest) = .ok (s, rest) := by
  have hfind : firstIndex (ascii "<") ((Token.instruction body).bytes ++ rest) = some 0 :=
    firstIndex_of_isPrefix ⟨_, rfl⟩
  have hend : firstIndex (ascii "?>") (((Token.instruction body).bytes ++ rest).drop 2) =
      some body.length := by
    rw [Token.bytes, List.append_assoc, List.append_assoc]
    exact firstIndex_append (by decide) h rest
  have hopener : ascii "<?" <+: (Token.instruction body).bytes ++ rest :=
    ⟨_, (List.append_assoc ..).symm⟩
  have hlength : (Token.instruction body).bytes.length = 2 + body.length + 2 := by
    simp [Token.bytes, ascii]; omega
  have hcomment : ¬ ascii "<!--" <+: (Token.instruction body).bytes ++ rest := by
    rintro ⟨t, ht⟩
    cases ht
  have hcdata : ¬ ascii "<![CDATA[" <+: (Token.instruction body).bytes ++ rest := by
    rintro ⟨t, ht⟩
    cases ht
  simp only [stepBytes, hfind, List.take_zero, List.drop_zero, Scanner.appendRequiredText_nil]
  rw [if_neg hcomment, if_neg hcdata, if_pos hopener, hend]
  simp only [List.drop_left' hlength]

/-- A tag is not mistaken for other markup. -/
theorem not_isPrefix_tag {opener body : Bytes} {c : UInt8} (h : ¬ [c] <+: body)
    (hc : c ≠ greaterThan) (hopener : [lessThan, c] <+: opener) :
    ¬ opener <+: (Token.tag body).bytes ++ rest := by
  intro hpre
  obtain ⟨t, ht⟩ := hopener.trans hpre
  cases body with
  | nil => exact hc (List.cons.inj (List.cons.inj ht).2).1
  | cons c' body => exact h ⟨body, by rw [(List.cons.inj (List.cons.inj ht).2).1]; rfl⟩

theorem stepBytes_tag {body : Bytes} (h : (Token.tag body).Valid) :
    stepBytes s ((Token.tag body).bytes ++ rest) = (s.handleTag body).map (·, rest) := by
  obtain ⟨hbody, hbang, hquestion⟩ := h
  have hfind : firstIndex (ascii "<") ((Token.tag body).bytes ++ rest) = some 0 :=
    firstIndex_of_isPrefix ⟨_, rfl⟩
  have hdrop : ((Token.tag body).bytes ++ rest).drop 1 = body ++ greaterThan :: rest := by
    simp [Token.bytes]
  have hlength : (Token.tag body).bytes.length = 1 + body.length + 1 := by
    simp [Token.bytes]; omega
  have hnot : ∀ opener, ascii "<!" <+: opener → ¬ opener <+: (Token.tag body).bytes ++ rest :=
    fun opener hopener => not_isPrefix_tag hbang (by decide) hopener
  have hnot' : ¬ ascii "<?" <+: (Token.tag body).bytes ++ rest :=
    not_isPrefix_tag hquestion (by decide) (List.prefix_refl _)
  simp only [stepBytes, hfind, List.take_zero, List.drop_zero, Scanner.appendRequiredText_nil]
  rw [if_neg (hnot (ascii "<!--") (by decide)), if_neg (hnot (ascii "<![CDATA[") (by decide)),
    if_neg hnot', if_neg (hnot (ascii "<!") (by decide)), hdrop, hbody.tagEnd]
  simp only [List.take_left, List.drop_left' hlength]

theorem firstIndex_text {content : Bytes} (h : lessThan ∉ content) (rest : Bytes) :
    firstIndex (ascii "<") (content ++ rest) =
      (firstIndex (ascii "<") rest).map (content.length + ·) := by
  induction content with
  | nil => simp
  | cons c content ih =>
    simp only [List.mem_cons, not_or] at h
    have hnot : ¬ ascii "<" <+: c :: (content ++ rest) := by
      rintro ⟨t, ht⟩
      exact h.1 (List.cons.inj ht).1
    rw [List.cons_append, firstIndex, if_neg hnot, ih h.2, Option.map_map]
    congr 1
    funext i
    simp only [Function.comp_apply, List.length_cons]
    omega

theorem stepBytes_text {content : Bytes} (h : lessThan ∉ content) :
    stepBytes s (content ++ rest) = stepBytes (s.appendRequiredText content) rest := by
  unfold stepBytes
  rw [firstIndex_text h rest]
  cases firstIndex (ascii "<") rest with
  | none => simp [Scanner.appendRequiredText_append]
  | some i =>
    simp only [Option.map_some, List.take_length_add_append, List.drop_length_add_append,
      Scanner.appendRequiredText_append]

/-- The scanner reads the first token of what is left. -/
theorem run_token {t : Token} (h : t.Valid) :
    run s (t.bytes ++ rest) = s.consume t >>= fun s' => run s' rest := by
  have hne : ∀ t : Token, t.isTag = true ∨ (∀ content, t ≠ .text content) → t.bytes ++ rest ≠ [] := by
    intro t ht
    cases t with
    | text content => simp [Token.isTag] at ht
    | _ => simp [Token.bytes, ascii]
  cases t with
  | text content =>
    by_cases hrest : rest = []
    · subst hrest
      by_cases hcontent : content = []
      · subst hcontent
        simp [Token.bytes, Scanner.consume, Scanner.appendRequiredText_nil, ok_bind]
      · rw [Token.bytes, List.append_nil, run_step hcontent, stepBytes]
        have hnone : firstIndex (ascii "<") content = none := by
          have htext := firstIndex_text h []
          rw [List.append_nil] at htext
          exact htext
        rw [hnone]
        rfl
    · have hcat : content ++ rest ≠ [] := by simp [hrest]
      rw [Token.bytes, run_step hcat, stepBytes_text h, ← run_step hrest]
      rfl
  | comment body => rw [run_step (hne _ (by simp)), stepBytes_comment h]; rfl
  | cdata content => rw [run_step (hne _ (by simp)), stepBytes_cdata h]; rfl
  | instruction body => rw [run_step (hne _ (by simp)), stepBytes_instruction h]; rfl
  | tag body =>
    rw [run_step (hne _ (.inl rfl)), stepBytes_tag h, Scanner.consume]
    cases s.handleTag body <;> rfl

theorem run_render {tokens : List Token} (h : ∀ t ∈ tokens, t.Valid) :
    run s (render tokens ++ rest) = tokens.foldlM Scanner.consume s >>= fun s' => run s' rest := by
  induction tokens generalizing s with
  | nil => rfl
  | cons t tokens ih =>
    rw [render, List.flatMap_cons, List.append_assoc, run_token (h t List.mem_cons_self),
      List.foldlM_cons]
    cases s.consume t with
    | error e => rfl
    | ok s' => exact ih fun t' ht' => h t' (List.mem_cons_of_mem _ ht')

/-- Markup that is terminated. -/
theorem terminated {opener terminator markup : Bytes} {j : Nat} (hopener : opener <+: markup)
    (hne : terminator ≠ [])
    (hend : firstIndex terminator (markup.drop opener.length) = some j) :
    ∃ body rest, markup = opener ++ (body ++ terminator) ++ rest ∧ ¬ terminator <:+: body ∧
      (markup.drop opener.length).take j = body ∧
      markup.drop (opener.length + j + terminator.length) = rest := by
  obtain ⟨tail, rfl⟩ := hopener
  rw [List.drop_left] at hend
  obtain ⟨body, rest, rfl, rfl, hfree⟩ := firstIndex_eq_some hend
  refine ⟨body, rest, by simp only [List.append_assoc], hfree hne, ?_, ?_⟩
  · rw [List.drop_left, List.take_left]
  · have hlength : (opener ++ (body ++ terminator)).length =
        opener.length + body.length + terminator.length := by
      simp only [List.length_append]; omega
    have hassoc : opener ++ (body ++ (terminator ++ rest)) =
        opener ++ (body ++ terminator) ++ rest := by simp only [List.append_assoc]
    rw [hassoc, List.drop_left' hlength]

theorem lessThan_not_mem {l : Bytes} (h : ¬ ascii "<" <:+: l) : lessThan ∉ l := fun hmem => by
  obtain ⟨a, b, rfl⟩ := List.append_of_mem hmem
  exact h ⟨a, b, by simp [ascii, lessThan]⟩

/-- What an iteration has read. -/
theorem stepBytes_tokens {s' : Scanner} {rest' : Bytes} (h : stepBytes s rest = .ok (s', rest')) :
    ∃ tokens : List Token, (∀ t ∈ tokens, t.Valid) ∧ rest = render tokens ++ rest' ∧
      tokens.foldlM Scanner.consume s = .ok s' := by
  unfold stepBytes at h
  dsimp only at h
  split at h
  · rename_i hnone
    cases h
    have htext : (Token.text rest).Valid := lessThan_not_mem (firstIndex_eq_none hnone)
    exact ⟨[.text rest], by simpa using htext, by simp [render, Token.bytes], rfl⟩
  rename_i i hfind
  obtain ⟨content, tail, rfl, rfl, hfree⟩ := firstIndex_eq_some hfind
  rw [List.take_left, List.drop_left] at h
  have htext : (Token.text content).Valid := lessThan_not_mem (hfree (by decide))
  -- the text before the markup, and then the token that the markup is
  suffices hmarkup : ∃ t : Token, t.Valid ∧ ascii "<" ++ tail = t.bytes ++ rest' ∧
      (s.appendRequiredText content).consume t = .ok s' by
    obtain ⟨t, ht, hbytes, hconsume⟩ := hmarkup
    refine ⟨[.text content, t], by simp [htext, ht], ?_, ?_⟩
    · simp [render, Token.bytes, hbytes]
    · rw [List.foldlM_cons, Scanner.consume, ok_bind, List.foldlM_cons, hconsume]
      rfl
  split at h
  · rename_i hopener
    split at h <;> cases h
    rename_i j hend
    obtain ⟨body, rest, hmarkup, hbody, -, hrest⟩ := terminated hopener (by decide) hend
    exact ⟨.comment body, hbody, hrest.symm ▸ hmarkup, rfl⟩
  split at h
  · rename_i hopener
    split at h <;> cases h
    rename_i j hend
    obtain ⟨body, rest, hmarkup, hbody, htake, hrest⟩ := terminated hopener (by decide) hend
    exact ⟨.cdata body, hbody, hrest.symm ▸ hmarkup, by rw [← htake]; rfl⟩
  split at h
  · rename_i hopener
    split at h <;> cases h
    rename_i j hend
    obtain ⟨body, rest, hmarkup, hbody, -, hrest⟩ := terminated hopener (by decide) hend
    exact ⟨.instruction body, hbody, hrest.symm ▸ hmarkup, rfl⟩
  rename_i hquestion
  split at h
  · cases h
  rename_i hbang
  split at h
  · cases h
  · rename_i j hend
    obtain ⟨body, rest, htail, rfl, hbody⟩ := tagEnd_some.1 hend
    obtain rfl : tail = body ++ greaterThan :: rest := htail
    have hmarkup : ascii "<" ++ (body ++ greaterThan :: rest) = (Token.tag body).bytes ++ rest := by
      simp [Token.bytes, ascii, lessThan]
    have hlength : (Token.tag body).bytes.length = 1 + body.length + 1 := by
      simp [Token.bytes]; omega
    have hview : ((ascii "<" ++ (body ++ greaterThan :: rest)).drop 1).take body.length = body :=
      List.take_left
    rw [hview, hmarkup, List.drop_left' hlength] at h
    obtain ⟨s'', hs'', hr⟩ := map_eq_ok h
    cases hr
    have hfirst : ∀ c, ¬ [lessThan, c] <+: ascii "<" ++ (body ++ greaterThan :: rest') →
        ¬ [c] <+: body := by
      rintro c hnot ⟨t, ht⟩
      exact hnot ⟨t ++ greaterThan :: rest', by rw [← ht]; simp [ascii, lessThan]⟩
    exact ⟨.tag body, ⟨hbody, hfirst _ hbang, hfirst _ hquestion⟩, hmarkup, hs''⟩

/-- The scanner accepts what it can read token by token. -/
theorem run_eq_ok {s' : Scanner} :
    run s rest = .ok s' ↔ ∃ tokens : List Token, (∀ t ∈ tokens, t.Valid) ∧ render tokens = rest ∧
      tokens.foldlM Scanner.consume s = .ok s' := by
  constructor
  · intro h
    induction hn : rest.length using Nat.strong_induction_on generalizing s rest with
    | _ n ih =>
      by_cases hrest : rest = []
      · subst hrest
        exact ⟨[], by simp, rfl, h⟩
      · rw [run_step hrest, bind_eq_ok] at h
        obtain ⟨⟨s₁, rest₁⟩, hstep, hrun⟩ := h
        have hlt := (stepBytes_shrinks hrest hstep).1
        obtain ⟨tokens, hvalid, hrender, hfold⟩ := stepBytes_tokens hstep
        obtain ⟨tokens₁, hvalid₁, hrender₁, hfold₁⟩ := ih rest₁.length (hn ▸ hlt) hrun rfl
        have hrender₁ : render tokens₁ = rest₁ := hrender₁
        refine ⟨tokens ++ tokens₁, ?_, ?_, ?_⟩
        · intro t ht
          exact (List.mem_append.mp ht).elim (hvalid t) (hvalid₁ t)
        · rw [render, List.flatMap_append, hrender, ← hrender₁]
          rfl
        · rw [List.foldlM_append, hfold]
          exact hfold₁
  · rintro ⟨tokens, hvalid, rfl, hfold⟩
    have hrun : run s (render tokens ++ []) = _ := run_render hvalid
    rw [List.append_nil, hfold] at hrun
    exact hrun

end

end NetFT.Detail.Xml
