import PrismaticOS.Html.Markup
import PrismaticOS.Html.ParserEnds

/-!
# Runs of text

`html_parser_next_token` passes spaces before it looks whether a tag or a text follows. So the text
node of a run of text has no spaces at its beginning. And there is none if the parser stops before
it, at a value without quotes that has a `/`.

## What is proved

* `wellFormed_turns` — the parser comes to the end of what is well-formed, without such a value.
* `wellFormed_stops` — it stops before if there is one.
* `text_run_node` — the node of a run of text.
* `text_preserved_iff` — the text is kept exactly if the parser comes to it and it does not begin
  with a space.
-/

namespace PrismaticOS.Html

open PrismaticOS.Libc

/-- Runs without `<`, and markup after each. -/
inductive WellFormed (Bare : Str → Prop) : Str → Prop where
  /-- Nothing. -/
  | nil : WellFormed Bare []
  /-- A run, which may be empty, and markup. -/
  | cons {run w more : Str} (hrun : chr '<' ∉ run) (hw : IsMarkup Bare w)
    (hmore : WellFormed Bare more) : WellFormed Bare (run ++ (w ++ more))

/-- Every value without quotes is meant. -/
def AnyValue (_ : Str) : Prop := True

/-- From the start on, the parser comes to a position where the next turn makes a text node with
this text, a child of the open element. -/
def TextKept (start : HtmlState) (position : ℕ) (t : Str) : Prop :=
  ∃ st st', Relation.ReflTransGen Turn start st ∧ st.parser.position = position ∧ Turn st st' ∧
    Created st'.dom st.dom.fresh ∧ st'.dom.parent st.dom.fresh = st.parser.currentNode ∧
    IsText (st'.dom.content st.dom.fresh) t

variable {Bare : Str → Prop} {st st' : HtmlState} {d : Dom} {run w s t pre post : Str}
  {lo node n : ℕ}

theorem IsMarkup.head (h : IsMarkup Bare w) (s : Str) :
    ∀ c, (w ++ s).head? = some c → c = chr '<' := by
  intro c hc
  cases h with
  | tag h =>
    cases h
    cases hc
    rfl
  | comment h =>
    cases hc
    rfl
  | doctype hword hdata =>
    cases hc
    rfl

theorem IsMarkup.length_pos (h : IsMarkup Bare w) : 0 < w.length := by
  cases h with
  | tag h =>
    cases h
    exact Nat.succ_pos _
  | comment h => exact Nat.succ_pos _
  | doctype hword hdata => exact Nat.succ_pos _

/-- A run before markup is passed, but perhaps for spaces. -/
theorem run_passed (h : Running lo st) (hrun : chr '<' ∉ run)
    (hs : ∀ c, s.head? = some c → c = chr '<') (hleft : st.left = run ++ s) :
    ∃ st' gap, Relation.ReflTransGen Turn st st' ∧ Running lo st' ∧ Gap gap ∧
      st'.left = gap ++ s := by
  by_cases hgap : Gap run
  · exact ⟨st, run, .refl, h, hgap, hleft⟩
  · have hsome : ∃ c ∈ run, isspace c = false := by simpa [Gap] using hgap
    have htext := textRun_token hrun hsome hs
    rw [← hleft] at htext
    obtain ⟨st', -, hturn, hrunning, hleft'⟩ := h.takes htext
    exact ⟨st', [], .single hturn, hrunning, gap_nil, hleft'⟩

/-- A run and the markup after it are passed. -/
theorem run_turns (h : Running lo st) (hrun : chr '<' ∉ run) (hw : IsMarkup NoSlash w)
    (hleft : st.left = run ++ (w ++ s)) :
    ∃ st', Relation.ReflTransGen Turn st st' ∧ Running lo st' ∧ st'.left = s := by
  obtain ⟨token, htoken⟩ := markup_token hw s
  obtain ⟨st₁, gap, hturns₁, hrunning₁, hgap, hleft₁⟩ := run_passed h hrun (hw.head s) hleft
  have hnext : htmlParserNextToken st₁.left = (some token, s) := by
    rw [hleft₁, nextToken_gap hgap, htoken]
  obtain ⟨st', -, hturn, hrunning, hleft'⟩ := hrunning₁.takes hnext
  exact ⟨st', hturns₁.tail hturn, hrunning, hleft'⟩

/-- **What is well-formed** is passed. -/
theorem wellFormed_turns (hpre : WellFormed NoSlash pre) (h : Running lo st)
    (hleft : st.left = pre ++ s) :
    ∃ st', Relation.ReflTransGen Turn st st' ∧ Running lo st' ∧ st'.left = s := by
  induction hpre generalizing st with
  | nil => exact ⟨st, .refl, h, hleft⟩
  | cons hrun hw hmore ih =>
    rw [List.append_assoc, List.append_assoc] at hleft
    obtain ⟨st₁, hturns₁, hrunning₁, hleft₁⟩ := run_turns h hrun hw hleft
    obtain ⟨st', hturns, hrunning, hleft'⟩ := ih hrunning₁ hleft₁
    exact ⟨st', hturns₁.trans hturns, hrunning, hleft'⟩

/-! ### Where the parser stops -/

/-- There is one next turn at most. -/
theorem turn_unique : Relator.RightUnique Turn := by
  rintro st st₁ st₂ ⟨token, hnext, hhandle⟩ ⟨token', hnext', hhandle'⟩
  cases hnext.symm.trans hnext'
  exact Option.some.inj (hhandle.symm.trans hhandle')

/-- Turns leave less of the input. -/
theorem Running.left_length (h : Running lo st) (hturns : Relation.ReflTransGen Turn st st') :
    st'.left.length ≤ st.left.length := by
  induction hturns with
  | refl => exact le_rfl
  | tail hbefore hturn ih =>
    obtain ⟨hrunning, -⟩ := h.turns hbefore
    obtain ⟨token, rest, hnext, -⟩ := (turn_iff hrunning.inside).mp hturn
    obtain ⟨-, -, hleft⟩ := hrunning.turn hturn
    have hlt := nextToken_length (congrArg Prod.fst hnext)
    rw [← hleft] at hlt
    exact hlt.le.trans ih

/-- If more than `n` characters are left from some turn on, they are left before it too. -/
theorem Running.left_before (h : Running lo st) (hturns : Relation.ReflTransGen Turn st st')
    (hafter : ∀ st₁, Relation.ReflTransGen Turn st' st₁ → n < st₁.left.length) :
    ∀ st₁, Relation.ReflTransGen Turn st st₁ → n < st₁.left.length := by
  intro st₁ hturns₁
  rcases Relation.ReflTransGen.total_of_right_unique turn_unique hturns hturns₁ with
    hlater | hearlier
  · exact hafter st₁ hlater
  · exact (hafter st' .refl).trans_le ((h.turns hturns₁).1.left_length hearlier)

/-- **The parser stops** in what is well-formed, unless no value without quotes has a `/`. -/
theorem wellFormed_stops (hpre : WellFormed Bare pre) (h : Running lo st)
    (hleft : st.left = pre ++ s) : WellFormed NoSlash pre ∨
      ∀ st', Relation.ReflTransGen Turn st st' → s.length < st'.left.length := by
  induction hpre generalizing st with
  | nil => exact .inl .nil
  | @cons run w more hrun hw hmore ih =>
    rw [List.append_assoc, List.append_assoc] at hleft
    obtain hread | hnone := markup_read_or_not hw
    · obtain ⟨st₁, hturns₁, hrunning₁, hleft₁⟩ := run_turns h hrun hread hleft
      exact (ih hrunning₁ hleft₁).imp (.cons hrun hread) (h.left_before hturns₁)
    · right
      obtain ⟨st₁, gap, hturns₁, hrunning₁, hgap, hleft₁⟩ :=
        run_passed h hrun (hw.head (more ++ s)) hleft
      apply h.left_before hturns₁
      intro st' hturns
      -- no turn is made from here
      rcases hturns.cases_head with rfl | ⟨st₂, hturn, -⟩
      · have hne := hw.length_pos
        simp only [hleft₁, List.length_append]
        omega
      · obtain ⟨token, rest, hnext, -⟩ := (turn_iff hrunning₁.inside).mp hturn
        have htoken := hnone (more ++ s)
        rw [hleft₁, nextToken_gap hgap] at hnext
        rw [hnext] at htoken
        cases htoken

/-- **The node of a run of text** is a child of the open element, with the text from the first
character on that is no space. -/
theorem text_run_node (h : Running lo st) (ht : chr '<' ∉ t) (hsome : ∃ c ∈ t, isspace c = false)
    (hpost : ∀ c, post.head? = some c → c = chr '<') (hleft : st.left = t ++ post)
    (hturn : Turn st st') :
    Created st'.dom st.dom.fresh ∧ st'.dom.parent st.dom.fresh = st.parser.currentNode ∧
      IsText (st'.dom.content st.dom.fresh) (t.dropWhile isspace) := by
  have htoken := textRun_token ht hsome hpost
  rw [← hleft] at htoken
  obtain ⟨token, rest, hnext, hhandle⟩ := (turn_iff h.inside).mp hturn
  rw [htoken] at hnext
  cases hnext
  have hne := dropWhile_ne_nil hsome
  have htext : htmlHandleText (st.at post) (t.dropWhile isspace) = { st.at post with
      dom := domNodeAppendChild (st.dom.add
        { blankNode .text with
          data := some (t.dropWhile isspace), textContent := some (t.dropWhile isspace) })
        st.parser.currentNode st.dom.fresh } := if_neg hne
  have hst' := (Option.some.inj hhandle).symm.trans htext
  subst hst'
  have hfresh : st.dom.fresh ≠ 0 := Nat.succ_ne_zero _
  refine ⟨⟨hfresh, ?_⟩, ?_, ?_⟩
  · simp only [appendChild_count]
    exact le_rfl
  · rw [appendChild_parent _ h.rooted.created.1 hfresh, Function.update_self]
  · rw [appendChild_content, Dom.content, Dom.add_fresh]
    exact ⟨rfl, rfl, rfl⟩

/-- **Text.** In a string, a run of text stands behind what is well-formed, and up to a `<` or the
end. It gets a node with that text exactly if no value without quotes before it has a `/`, and it
does not begin with a space. -/
theorem text_preserved_iff {create : Dom → Option (ℕ × Dom)} (hcreate : ReturnsNode create)
    (hnode : create st.dom = some (node, d)) {html : List UInt8}
    (hhtml : html.takeWhile (· != 0) = pre ++ (t ++ post)) (hpre : WellFormed AnyValue pre)
    (ht : chr '<' ∉ t) (hsome : ∃ c ∈ t, isspace c = false)
    (hpost : ∀ c, post.head? = some c → c = chr '<') :
    TextKept (parseStart st html node d) pre.length t ↔
      WellFormed NoSlash pre ∧ ∀ c, t.head? = some c → isspace c = false := by
  have hrunning := parseStart_running (hcreate _ _ _ hnode) st html
  constructor
  · rintro ⟨st₁, st₂, hturns, hposition, hturn, -, -, htext⟩
    obtain ⟨hrunning₁, hkept⟩ := hrunning.turns hturns
    have hinput : st₁.parser.input = pre ++ (t ++ post) := hkept.input.trans hhtml
    have hleft : st₁.left = t ++ post := by
      rw [HtmlState.left, hinput, hposition, List.drop_left]
    refine ⟨(wellFormed_stops hpre hrunning hhtml).resolve_right ?_, fun c hc => ?_⟩
    · intro hstops
      have hlt := hstops st₁ hturns
      rw [hleft] at hlt
      exact absurd hlt (lt_irrefl _)
    obtain ⟨-, -, hnode⟩ := text_run_node hrunning₁ ht hsome hpost hleft hturn
    have hdata : t.dropWhile isspace = t := Option.some.inj (hnode.data.symm.trans htext.data)
    obtain ⟨r, rfl⟩ := List.head?_eq_some_iff.mp hc
    exact dropWhile_head hdata
  · rintro ⟨hread, hhead⟩
    obtain ⟨st₁, hturns, hrunning₁, hleft⟩ := wellFormed_turns hread hrunning hhtml
    obtain ⟨-, hkept⟩ := hrunning.turns hturns
    have htoken := textRun_token ht hsome hpost
    rw [← hleft] at htoken
    obtain ⟨st₂, -, hturn, -⟩ := hrunning₁.takes htoken
    obtain ⟨hcreated, hparent, htext⟩ := text_run_node hrunning₁ ht hsome hpost hleft hturn
    have hdata : t.dropWhile isspace = t := by
      cases t with
      | nil => rfl
      | cons c r => exact List.dropWhile_cons_of_neg (by simp [hhead c rfl])
    rw [hdata] at htext
    exact ⟨st₁, st₂, hturns,
      position_eq hrunning₁.inside (hkept.input.trans hhtml) hleft, hturn, hcreated, hparent, htext⟩

/-- `<b>a</b>`. -/
theorem wellFormed_bold (Bare : Str → Prop) : WellFormed Bare (str "<b>a</b>") := by
  have hname : IsTagName (str "b") := ⟨by decide, List.all_eq_true.mp (by decide)⟩
  have hstart : IsMarkup Bare (str "<b>") := .tag (.mk (.inl rfl) hname .nil gap_nil (.inl rfl))
  have hend : IsMarkup Bare (str "</b>") := .tag (.mk (.inr rfl) hname .nil gap_nil (.inl rfl))
  have hafter : WellFormed Bare (str "a" ++ (str "</b>" ++ [])) := .cons (by decide) hend .nil
  show WellFormed Bare ([] ++ (str "<b>" ++ (str "a" ++ (str "</b>" ++ []))))
  exact .cons List.not_mem_nil hstart hafter

/-- The text behind `<b>a</b>` is kept when it begins with a comma. -/
theorem text_preserved_comma : TextKept (parseStart (newParser noNodes) (str "<b>a</b>, c ") 1
    (domDocumentCreate noNodes).1) 8 (str ", c ") :=
  (text_preserved_iff documentCreate_returns rfl
    (show (str "<b>a</b>, c ").takeWhile (· != 0) = str "<b>a</b>" ++ (str ", c " ++ []) by
      decide +kernel) (wellFormed_bold _) (by decide) ⟨chr ',', by decide, by decide⟩
    (fun c hc => by cases hc)).mpr
      ⟨wellFormed_bold _, fun c hc => by cases hc; decide⟩

/-- The space in `<b>a</b> c` is lost. -/
theorem text_space_lost : ¬ ∀ pre t post : Str, 0 ∉ pre ++ (t ++ post) →
    WellFormed AnyValue pre → chr '<' ∉ t → (∃ c ∈ t, isspace c = false) →
    (post = [] ∨ ∃ w more, post = w ++ more ∧ IsMarkup AnyValue w) →
      TextKept (parseStart (newParser noNodes) (pre ++ (t ++ post)) 1
        (domDocumentCreate noNodes).1) pre.length t := by
  intro h
  obtain ⟨st₁, st₂, hturns, hposition, hturn, -, -, htext⟩ := h (str "<b>a</b>") (str " c") []
    (by decide) (wellFormed_bold _) (by decide) ⟨chr 'c', by decide, by decide⟩ (.inl rfl)
  have hrunning := parseStart_running (documentCreate_returns noNodes 1 _ rfl) (newParser noNodes)
    (str "<b>a</b>" ++ (str " c" ++ []))
  obtain ⟨hrunning₁, hkept⟩ := hrunning.turns hturns
  have hleft : st₁.left = str " c" ++ [] := by
    rw [HtmlState.left, hkept.input, hposition]
    decide +kernel
  obtain ⟨-, -, hnode⟩ := text_run_node hrunning₁ (by decide)
    ⟨chr 'c', by decide, by decide⟩ (fun c hc => by cases hc) hleft hturn
  have hdata := hnode.data.symm.trans htext.data
  revert hdata
  decide

end PrismaticOS.Html
