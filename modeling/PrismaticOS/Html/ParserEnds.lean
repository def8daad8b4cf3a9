import PrismaticOS.Html.InputReads
import PrismaticOS.Html.RoundTrip
import PrismaticOS.Html.Truncation
import PrismaticOS.Library.ParentPointers

/-!
# The HTML parser ends

The loop of `html_build_dom_tree`, turn by turn, for every string.

## The model

A `Turn` is a call of `html_parser_next_token` that returns a token, and the handling of the token.
The call is the one that keeps a record of what it reads.

## What is proved

* `Running.turn` — what a turn keeps.
* `Running.buildLoop` — the loop makes turns until there is no token.
* `parse_terminates` — the parser returns, and before each call it is safe.
-/

namespace PrismaticOS.Html

open PrismaticOS.Library PrismaticOS.Libc

/-- What is left of the input. -/
def HtmlState.left (st : HtmlState) : Str := st.parser.input.drop st.parser.position

/-- The next call of `html_parser_next_token`. -/
def HtmlState.next (st : HtmlState) : Option HtmlToken × Cursor :=
  nextTokenAt st.parser.input ⟨st.parser.position, []⟩

/-- The position after that call. -/
def HtmlState.passed (st : HtmlState) : HtmlState :=
  st.modify fun p => { p with position := st.next.2.position }

/-- One turn of the loop of `html_build_dom_tree`. -/
def Turn (st st' : HtmlState) : Prop :=
  ∃ token, st.next.1 = some token ∧ htmlHandleToken st.passed token = some st'

/-- The state before the first turn, where `node` is the new document and `d` the memory with
it. -/
def parseStart (st : HtmlState) (html : List UInt8) (node : ℕ) (d : Dom) : HtmlState :=
  { parser := { st.parser with
      input := html.takeWhile (· != 0)
      position := 0
      document := node
      currentNode := node
      inHead := false
      inBody := false
      inScript := false
      inStyle := false
      hasErrors := false }
    doc := ⟨0, 0, 0⟩
    dom := d }

/-- The parser is where it should be, and the next call reads the input only. -/
structure Safe (st : HtmlState) : Prop where
  /-- The position is in the input, or at its end. -/
  inside : st.parser.position ≤ st.parser.length
  /-- The open element is the document, or lies below it. -/
  below : st.parser.document ≠ 0 ∧ LeadsTo st.dom.parent st.parser.currentNode st.parser.document
  /-- The next call stays there. -/
  stays : st.next.2.position ≤ st.parser.length
  /-- It reads nothing behind the input. -/
  reads : ∀ i ∈ st.next.2.reads, i < st.parser.length
  /-- If it returns a token, it goes on. -/
  goesOn : ∀ token, st.next.1 = some token → st.parser.position < st.next.2.position

/-- The parser is in its loop. -/
structure Running (lo : ℕ) (st : HtmlState) : Prop where
  /-- The nodes it made lie below the document. -/
  rooted : st.Rooted lo
  /-- The position is in the input, or at its end. -/
  inside : st.parser.position ≤ st.parser.length

variable {lo document current : ℕ} {d : Dom} {st st' : HtmlState} {token : HtmlToken} {rest : Str}

/-- The open element lies below the document. -/
theorem Rooted.leads (h : Rooted lo document current d) : LeadsTo d.parent current document := by
  induction current using Nat.strong_induction_on with
  | _ current ih =>
  rcases h.below with heq | ⟨hlo, hcount⟩
  · rw [heq]
    exact .refl
  · obtain ⟨hlt, habove⟩ := h.parents current hlo hcount
    have hparent : Rooted lo document (d.parent current) d :=
      ⟨h.made, h.old, habove.imp_right fun hlo => ⟨hlo, by omega⟩, h.parents⟩
    exact .head rfl (ih _ hlt hparent)

/-- The next call begins at the position. -/
theorem stands_start (h : st.parser.position ≤ st.parser.length) :
    Stands st.parser.input ⟨st.parser.position, []⟩ st.left :=
  ⟨h, rfl, fun _ hi => absurd hi List.not_mem_nil⟩

/-- The next call finds the next token, and reads the input only. -/
theorem next_agrees (h : st.parser.position ≤ st.parser.length) :
    Agrees st.parser.input st.next (htmlParserNextToken st.left) :=
  nextToken_agrees (stands_start h)

theorem Running.safe (h : Running lo st) : Safe st := by
  have hstart := stands_start h.inside
  obtain ⟨htoken, hstands⟩ := next_agrees h.inside
  refine ⟨h.inside, ⟨h.rooted.made.1, h.rooted.leads⟩, hstands.inside, hstands.reads, ?_⟩
  intro token hnext
  have hlt := nextToken_length (htoken.symm.trans hnext)
  have hlength := hstart.length_eq
  have hlength' := hstands.length_eq
  simp only at hlength
  omega

/-! ### Turns -/

theorem startSpecial_position (st : HtmlState) (tagName : Str) (element : ℕ) :
    (startSpecial st tagName element).parser.position = st.parser.position := by
  unfold startSpecial
  split_ifs <;> rfl

theorem endSpecial_position (st : HtmlState) (tagName : Str) :
    (endSpecial st tagName).parser.position = st.parser.position := by
  unfold endSpecial
  split_ifs <;> rfl

/-- The handling of a token does not move the position. -/
theorem handleToken_position {token : HtmlToken} (h : htmlHandleToken st token = some st') :
    st'.parser.position = st.parser.position := by
  cases token with
  | startTag tagName attrs selfClosing =>
    obtain rfl := Option.some.inj h
    unfold htmlHandleStartTag
    simp only
    split_ifs
    all_goals exact startSpecial_position _ _ _
  | endTag tagName attrs selfClosing =>
    obtain ⟨found, -, rfl⟩ := Option.map_eq_some_iff.mp h
    rw [endSpecial_position]
    cases found with
    | none => rfl
    | some current =>
      simp only
      split_ifs <;> rfl
  | text data =>
    obtain rfl := Option.some.inj h
    unfold htmlHandleText
    split_ifs <;> rfl
  | comment data => exact Option.some.inj h ▸ rfl
  | doctype => exact Option.some.inj h ▸ rfl

/-- The position after a call, by what is left of the input. -/
theorem passed_eq (h : st.parser.position ≤ st.parser.length) :
    st.passed = st.at (htmlParserNextToken st.left).2 := by
  obtain ⟨-, hstands⟩ := next_agrees h
  have hlength := hstands.length_eq
  have hinside := hstands.inside
  have hposition : st.next.2.position = st.parser.input.length -
      (htmlParserNextToken st.left).2.length := by omega
  unfold HtmlState.passed HtmlState.at
  rw [hposition]
  rfl

/-- A turn takes the next token. -/
theorem turn_iff (h : st.parser.position ≤ st.parser.length) :
    Turn st st' ↔ ∃ token rest, htmlParserNextToken st.left = (some token, rest) ∧
      htmlHandleToken (st.at rest) token = some st' := by
  obtain ⟨htoken, -⟩ := next_agrees h
  have hpassed := passed_eq h
  constructor
  · rintro ⟨token, hnext, hhandle⟩
    refine ⟨token, (htmlParserNextToken st.left).2, Prod.ext (htoken.symm.trans hnext) rfl, ?_⟩
    rwa [← hpassed]
  · rintro ⟨token, rest, hnext, hhandle⟩
    rw [hnext] at htoken hpassed
    exact ⟨token, htoken, hpassed ▸ hhandle⟩

/-- **One turn**: it keeps the nodes below the document, and goes on behind the token. -/
theorem Running.turn (h : Running lo st) (hturn : Turn st st') :
    Running lo st' ∧ Kept st st' ∧ st'.left = (htmlParserNextToken st.left).2 := by
  obtain ⟨-, hstands⟩ := next_agrees h.inside
  obtain ⟨token, -, hhandle⟩ := hturn
  have hposition := handleToken_position hhandle
  obtain ⟨st₁, hsome, hkept, hrooted⟩ :=
    handleToken_rooted (show st.passed.Rooted lo from h.rooted) token
  rw [hhandle] at hsome
  cases hsome
  refine ⟨⟨hrooted, ?_⟩, ⟨hkept.input, hkept.hasErrors, hkept.document⟩, ?_⟩
  · rw [hposition, HtmlParser.length, hkept.input]
    exact hstands.inside
  · rw [HtmlState.left, hposition, hkept.input]
    exact hstands.left

/-- A token that is handled makes a turn, and the parser goes on behind it. -/
theorem Running.handled (h : Running lo st) (hnext : htmlParserNextToken st.left = (some token, rest))
    (hhandle : htmlHandleToken (st.at rest) token = some st') :
    Turn st st' ∧ Running lo st' ∧ st'.left = rest := by
  have hturn : Turn st st' := (turn_iff h.inside).mpr ⟨token, rest, hnext, hhandle⟩
  obtain ⟨hrunning, -, hleft⟩ := h.turn hturn
  rw [hnext] at hleft
  exact ⟨hturn, hrunning, hleft⟩

/-- Every token is handled. -/
theorem Running.takes (h : Running lo st)
    (hnext : htmlParserNextToken st.left = (some token, rest)) :
    ∃ st', htmlHandleToken (st.at rest) token = some st' ∧ Turn st st' ∧ Running lo st' ∧
      st'.left = rest := by
  obtain ⟨st', hhandle, -⟩ := handleToken_rooted (show (st.at rest).Rooted lo from h.rooted) token
  exact ⟨st', hhandle, h.handled hnext hhandle⟩

/-- What a run of turns keeps. -/
theorem Running.turns (h : Running lo st) (hturns : Relation.ReflTransGen Turn st st') :
    Running lo st' ∧ Kept st st' := by
  induction hturns with
  | refl => exact ⟨h, ⟨rfl, rfl, rfl⟩⟩
  | tail _ hturn ih =>
    obtain ⟨hrunning, hkept⟩ := ih
    obtain ⟨hrunning', hkept', -⟩ := hrunning.turn hturn
    exact ⟨hrunning', ⟨hkept'.input.trans hkept.input, hkept'.hasErrors.trans hkept.hasErrors,
      hkept'.document.trans hkept.document⟩⟩

/-- **The loop** makes turns, until there is no token. -/
theorem Running.buildLoop {s : Str} (h : Running lo st) (hs : st.left = s) :
    ∃ last, Relation.ReflTransGen Turn st last ∧ last.next.1 = none ∧
      Html.buildLoop st s = some last.passed := by
  fun_induction leftover s generalizing st with
  | case1 s rest hnone =>
    have hpassed := passed_eq h.inside
    obtain ⟨htoken, -⟩ := next_agrees h.inside
    rw [hs, hnone] at htoken hpassed
    exact ⟨st, .refl, htoken, by rw [buildLoop_none hnone, hpassed]⟩
  | case2 s token rest hsome hlt ih =>
    rw [← hs] at hsome
    obtain ⟨st₁, hhandle, hturn, hrunning, hleft⟩ := h.takes hsome
    obtain ⟨last, hturns, hlast, hloop⟩ := ih hrunning hleft
    refine ⟨last, .head hturn hturns, hlast, ?_⟩
    rw [← hs, buildLoop_some hsome, hhandle]
    exact hloop

/-- Turns are turns of the loop. -/
theorem Running.buildLoop_turns (h : Running lo st) (hturns : Relation.ReflTransGen Turn st st') :
    Html.buildLoop st st.left = Html.buildLoop st' st'.left := by
  induction hturns with
  | refl => rfl
  | tail hbefore hturn ih =>
    obtain ⟨hrunning, -⟩ := h.turns hbefore
    obtain ⟨token, rest, hnext, hhandle⟩ := (turn_iff hrunning.inside).mp hturn
    obtain ⟨-, -, hleft⟩ := hrunning.turn hturn
    rw [ih, buildLoop_some hnext, hhandle, Option.bind_some, hleft, hnext]

/-- The position behind a first part of the input, by what is left. -/
theorem position_eq {a : Str} (h : st.parser.position ≤ st.parser.length)
    (hinput : st.parser.input = a ++ rest) (hleft : st.left = rest) :
    st.parser.position = a.length := by
  have hlength := congrArg List.length hleft
  rw [HtmlState.left, List.length_drop] at hlength
  rw [HtmlParser.length] at h
  rw [hinput, List.length_append] at hlength h
  omega

/-! ### The parser -/

/-- In the beginning there is the document only. -/
theorem parseStart_running {node : ℕ} (h : Created d node) (st : HtmlState) (html : List UInt8) :
    Running d.count (parseStart st html node d) :=
  ⟨⟨h, le_rfl, .inl rfl, fun _ hlo hc => absurd hc (not_le.mpr hlo)⟩, Nat.zero_le _⟩

/-- In memory that is in order the parser may begin. -/
theorem parseStart_ready (h : DomInv st.dom) {node : DomNode} (hnode : Loose node)
    (html : List UInt8) :
    ∃ kids, Ready kids (parseStart st html st.dom.fresh (st.dom.add node)) := by
  obtain ⟨kids, hk⟩ := h.lists
  obtain ⟨hlists, -, -⟩ := h.lists_add hk hnode
  exact ⟨kids, h.add hnode, hlists, ⟨Nat.succ_ne_zero _, le_rfl⟩, le_rfl⟩

theorem parse_loop {create : Dom → Option (ℕ × Dom)} (st : HtmlState) (html : List UInt8)
    {node : ℕ} (hnode : create st.dom = some (node, d)) : htmlParserParse create st html =
      (buildLoop (parseStart st html node d) (html.takeWhile (· != 0))).map
        fun st => (some node, st) := by
  unfold htmlParserParse htmlBuildDomTree
  simp only [HtmlState.modify, hnode]
  rfl

/-- **The parser ends** for every string, and before each call of `html_parser_next_token` the
position is in the input, the open element is the document or lies below it, and the call reads the
input only and goes on if it returns a token. -/
theorem parse_terminates {create : Dom → Option (ℕ × Dom)} (hcreate : ReturnsNode create)
    (st : HtmlState) (html : List UInt8) :
    (∃ result, htmlParserParse create st html = some result) ∧
    ∀ node d, create st.dom = some (node, d) →
      (∀ st', Relation.ReflTransGen Turn (parseStart st html node d) st' → Safe st') ∧
      ∃ last, Relation.ReflTransGen Turn (parseStart st html node d) last ∧
        last.next.1 = none ∧ htmlParserParse create st html = some (some node, last.passed) := by
  have hruns : ∀ node d, create st.dom = some (node, d) →
      (∀ st', Relation.ReflTransGen Turn (parseStart st html node d) st' → Safe st') ∧
      ∃ last, Relation.ReflTransGen Turn (parseStart st html node d) last ∧
        last.next.1 = none ∧ htmlParserParse create st html = some (some node, last.passed) := by
    intro node d hnode
    have hrunning := parseStart_running (hcreate _ _ _ hnode) st html
    refine ⟨fun st' hturns => (hrunning.turns hturns).1.safe, ?_⟩
    obtain ⟨last, hturns, hlast, hloop⟩ := hrunning.buildLoop rfl
    refine ⟨last, hturns, hlast, ?_⟩
    rw [parse_loop st html hnode]
    exact congrArg (Option.map _) hloop
  refine ⟨?_, hruns⟩
  cases hnode : create st.dom with
  | none =>
    unfold htmlParserParse htmlBuildDomTree
    simp [HtmlState.modify, hnode]
  | some made =>
    obtain ⟨-, last, -, -, hparse⟩ := hruns made.1 made.2 hnode
    exact ⟨_, hparse⟩

/-- A comment that does not end. -/
theorem parse_terminates_comment :
    ∃ result, htmlParserParse documentCreate (newParser noNodes) (str "<b>c</a><!--") =
      some result :=
  (parse_terminates documentCreate_returns (newParser noNodes) (str "<b>c</a><!--")).1

end PrismaticOS.Html
