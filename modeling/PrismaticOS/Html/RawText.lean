import PrismaticOS.Html.ParserEnds
import Mathlib.Data.List.TakeWhile

/-!
# The text of `script` and `style`

`html_handle_start_tag` records in `in_script` and `in_style` that such an element is open.
`html_parser_next_token` does not look there: a `<` begins a tag in the text of a script, too.

## What is proved

* `plain_turn` — no text has a `<` in it.
* `raw_text_iff` — a script or a style with text is parsed as such exactly if the text has no `<`.
-/

namespace PrismaticOS.Html

open PrismaticOS.Library PrismaticOS.Libc

/-- An element with a text in it, as it is written. -/
def rawElement (raw t : Str) : Str :=
  chr '<' :: (raw ++ chr '>' :: (t ++ chr '<' :: chr '/' :: (raw ++ [chr '>'])))

/-- A new child of the document is an element with that name, and its only child is a text. -/
def RawText (raw t : Str) (document : ℕ) (d : Dom) : Prop :=
  ∃ x y, Created d x ∧ document < x ∧ d.parent x = document ∧ IsElement (d.content x) raw [] ∧
    ChildList d x [y] ∧ d.parent y = x ∧ IsText (d.content y) t

/-- The element is parsed as it should be, and the parser goes on behind its end tag, where `rest`
is. -/
def ParsesRaw (create : Dom → Option (ℕ × Dom)) (st : HtmlState) (raw t rest : Str) : Prop :=
  ∃ node d st', create st.dom = some (node, d) ∧
    Relation.ReflTransGen Turn (parseStart st (rawElement raw t ++ rest) node d) st' ∧
    st'.parser.position = (rawElement raw t).length ∧ RawText raw t node st'.dom ∧
    (rest = [] → ∃ final, htmlParserParse create st (rawElement raw t ++ rest) =
      some (some node, final) ∧ RawText raw t node final.dom)

variable {st st' : HtmlState} {d : Dom} {raw t rest : Str} {lo document current : ℕ}

/-! ### No text has a `<` -/

/-- A text without `<`. -/
def HtmlToken.Plain : HtmlToken → Prop
  | .text data => chr '<' ∉ data
  | _ => True

theorem tag_plain {s : Str} {token : HtmlToken} (h : (htmlParseTag s).1 = some token) :
    token.Plain := by
  unfold htmlParseTag at h
  simp only at h
  generalize htmlParseTagName (accept (chr '/') s).2 = named at h
  obtain ⟨_ | tagName, r⟩ := named
  · cases h
  · simp only at h
    split_ifs at h
    all_goals
      cases h
      trivial

theorem text_plain {s : Str} {token : HtmlToken} (h : (htmlParseText s).1 = some token) :
    token.Plain := by
  unfold htmlParseText at h
  split_ifs at h
  cases h
  intro hmem
  have hpassed := List.mem_takeWhile_imp hmem
  simp at hpassed

theorem comment_plain {s : Str} {token : HtmlToken} (h : (htmlParseComment s).1 = some token) :
    token.Plain := by
  unfold htmlParseComment at h
  simp only at h
  split_ifs at h
  cases h
  trivial

theorem nextToken_plain {s : Str} {token : HtmlToken}
    (h : (htmlParserNextToken s).1 = some token) : token.Plain := by
  unfold htmlParserNextToken at h
  cases hs : s.dropWhile isspace with
  | nil => simp [hs] at h
  | cons c r =>
    simp only [hs] at h
    split_ifs at h
    · exact comment_plain h
    · cases h
      trivial
    · exact tag_plain h
    · exact text_plain h

/-- The texts below the document have no `<`. -/
def Plain (document : ℕ) (d : Dom) : Prop :=
  ∀ c data, document ≤ d.parent c → (d.content c).type = .text → (d.content c).data = some data →
    chr '<' ∉ data

/-- A new child that is no text with a `<`. -/
theorem Plain.append (h : Plain document d) (hcurrent : current ≠ 0) {node : DomNode}
    (hnode : node.type = .text → ∀ data, node.data = some data → chr '<' ∉ data) :
    Plain document (domNodeAppendChild (d.add node) current d.fresh) := by
  intro c data hparent htype hdata
  have hfresh : d.fresh ≠ 0 := Nat.succ_ne_zero _
  rw [appendChild_parent _ hcurrent hfresh] at hparent
  rw [appendChild_content] at htype hdata
  by_cases hc : c = d.fresh
  · rw [hc, Dom.content, Dom.add_fresh] at htype hdata
    exact hnode htype data hdata
  · rw [Function.update_of_ne hc] at hparent
    have hold : (d.add node).nodes c = d.nodes c := Dom.add_of_ne d node hc
    simp only [Dom.content, Dom.parent, hold] at hparent htype hdata
    exact h c data hparent htype hdata

theorem handleToken_plain {token : HtmlToken} (hhandle : htmlHandleToken st token = some st')
    (htoken : token.Plain) (hcurrent : st.parser.currentNode ≠ 0) (h : Plain document st.dom) :
    Plain document st'.dom := by
  cases token with
  | startTag tagName attrs selfClosing =>
    obtain rfl := Option.some.inj hhandle
    obtain ⟨node, hstart, hnew⟩ := startElement_new st.dom tagName attrs
    have hnode : node.type = .text → ∀ data, node.data = some data → chr '<' ∉ data := by
      intro htype
      rw [hnew.type] at htype
      cases htype
    have happend := h.append hcurrent hnode
    have hf := startSpecial_flagged { st with
      dom := domNodeAppendChild (st.dom.add node) st.parser.currentNode st.dom.fresh }
      tagName st.dom.fresh
    unfold htmlHandleStartTag
    rw [hstart]
    simp only
    split_ifs
    · simpa only [HtmlState.modify, hf.dom] using happend
    · simpa only [hf.dom] using happend
  | endTag tagName attrs selfClosing =>
    obtain ⟨found, -, rfl⟩ := Option.map_eq_some_iff.mp hhandle
    rw [(endSpecial_flagged _ tagName).dom]
    cases found with
    | none => exact h
    | some current =>
      simp only
      split_ifs <;> exact h
  | text data =>
    obtain rfl := Option.some.inj hhandle
    unfold htmlHandleText
    split_ifs
    · exact h
    · refine h.append hcurrent fun _ data' hdata => ?_
      cases hdata
      exact htoken
  | comment data => exact Option.some.inj hhandle ▸ h
  | doctype => exact Option.some.inj hhandle ▸ h

/-- **A run** makes no text with a `<`. -/
theorem turns_plain (hturns : Relation.ReflTransGen Turn st st') (hr : Running lo st)
    (h : Plain document st.dom) : Plain document st'.dom := by
  induction hturns with
  | refl => exact h
  | tail hbefore hturn ih =>
    obtain ⟨hrunning, -⟩ := hr.turns hbefore
    obtain ⟨token, rest, hnext, hhandle⟩ := (turn_iff hrunning.inside).mp hturn
    exact handleToken_plain hhandle (nextToken_plain (congrArg Prod.fst hnext))
      hrunning.rooted.created.1 ih

/-- In the beginning there is no text. -/
theorem parseStart_plain (h : DomInv st.dom) {node : DomNode} (hnode : Loose node)
    (html : List UInt8) :
    Plain st.dom.fresh (parseStart st html st.dom.fresh (st.dom.add node)).dom := by
  obtain ⟨kids, hk⟩ := h.lists
  obtain ⟨-, -, hparent⟩ := h.lists_add hk hnode
  intro c data hbelow
  have hold := h.parents c
  have hlate : st.dom.count < st.dom.fresh := Nat.lt_succ_self _
  simp only [parseStart, hparent] at hbelow
  omega

/-- **A text with a `<`** is not parsed as one. -/
theorem not_parsesRaw {create : Dom → Option (ℕ × Dom)} (hcreate : MakesDocument create)
    (h : DomInv st.dom) (ht : chr '<' ∈ t) : ¬ ParsesRaw create st raw t rest := by
  rintro ⟨node, d, st', hnode, hturns, -, ⟨x, y, -, hx, -, -, -, hy, htext⟩, -⟩
  obtain ⟨new, hmade, -, hloose⟩ := hcreate st.dom
  rw [hnode] at hmade
  cases hmade
  have hcreated : Created (st.dom.add new) st.dom.fresh := ⟨Nat.succ_ne_zero _, le_rfl⟩
  have hrunning := parseStart_running hcreated st (rawElement raw t ++ rest)
  have hplain := turns_plain hturns hrunning (parseStart_plain h hloose _)
  exact hplain y t (hy ▸ hx.le) htext.type htext.data ht

/-! ### A text without `<` -/

/-- The names of the two elements. -/
def IsRaw (raw : Str) : Prop := raw = str "script" ∨ raw = str "style"

theorem IsRaw.nameOk (h : IsRaw raw) : NameOk raw := by
  rcases h with rfl | rfl
  · exact ⟨by decide, by decide +kernel, by decide +kernel⟩
  · exact ⟨by decide, by decide +kernel, by decide +kernel⟩

/-- Three turns: the start tag, the text and the end tag. -/
theorem rawElement_turns {kids : ℕ → List ℕ} (hraw : IsRaw raw) (ht : TextOk t)
    (hr : Running lo st) (h : Ready kids st) (hleft : st.left = rawElement raw t ++ rest) :
    ∃ st' kids' x, Relation.ReflTransGen Turn st st' ∧ st'.left = rest ∧
      Built (.element raw [] (.text t .nil) .nil) kids st st' kids' [x] := by
  have hname := hraw.nameOk
  have hne : t ≠ [] := by
    obtain ⟨c, r, rfl, -⟩ := ht.head
    exact List.cons_ne_nil c r
  have hwritten : rawElement raw t ++ rest = chr '<' :: (raw ++ (serializeAttrs [] ++ chr '>' ::
      (t ++ chr '<' :: chr '/' :: (raw ++ chr '>' :: rest)))) := by
    simp [rawElement, serializeAttrs]
  rw [hwritten] at hleft
  -- the start tag
  have hattrs : ∀ a ∈ ([] : List (Str × Str)), AttrOk a := fun a ha => absurd ha List.not_mem_nil
  have hstart := startTag_token (r := t ++ chr '<' :: chr '/' :: (raw ++ chr '>' :: rest)) hname
    hattrs
  rw [← hleft] at hstart
  have h₀ := h.at (t ++ chr '<' :: chr '/' :: (raw ++ chr '>' :: rest))
  have hnodup : (([] : List (Str × Str)).map Prod.fst).Nodup := List.nodup_nil
  obtain ⟨st₁, kids₁, x, hhandle₁, hopen⟩ := startTag_built h₀ hname hnodup
  obtain ⟨hturn₁, hr₁, hleft₁⟩ := hr.handled hstart hhandle₁
  -- the text
  have htext := text_token (r := chr '<' :: chr '/' :: (raw ++ chr '>' :: rest)) ht
    fun c hc => (Option.some.inj hc).symm
  rw [← hleft₁] at htext
  have h₁ := (hopen.ready h₀).at (chr '<' :: chr '/' :: (raw ++ chr '>' :: rest))
  obtain ⟨st₂, kids₂, xs, hhandle₂, hbuilt₂⟩ := text_built h₁ hne
  obtain ⟨hturn₂, hr₂, hleft₂⟩ := hr₁.handled htext hhandle₂
  -- the end tag
  have hend := endTag_token (r := rest) hname
  rw [← hleft₂] at hend
  obtain ⟨st₃, hhandle₃, hbuilt₃⟩ := endTag_built h₀ hopen (hbuilt₂.of_at.at rest)
  obtain ⟨hturn₃, -, hleft₃⟩ := hr₂.handled hend hhandle₃
  exact ⟨st₃, kids₂, x, .head hturn₁ (.head hturn₂ (.single hturn₃)), hleft₃, hbuilt₃.of_at⟩

/-- What these turns leave. -/
theorem Built.rawText {kids kids' : ℕ → List ℕ} {x : ℕ} (h : Ready kids st)
    (hdocument : document = st.dom.count) (hcurrent : st.parser.currentNode = document)
    (hb : Built (.element raw [] (.text t .nil) .nil) kids st st' kids' [x]) :
    RawText raw t document st'.dom := by
  obtain ⟨x', ys, heq, hlate, hcount, helement, hchildren, -⟩ := hb.reads
  cases heq
  obtain ⟨y, ys, hy, hlate', hcount', htext, -, rfl⟩ := hchildren
  have hx : Created st'.dom x := ⟨by omega, hcount⟩
  have hparent : ∀ n c, n ≠ 0 → c ∈ kids' n → st'.dom.parent c = n :=
    fun n c hn hc => ((hb.grown.lists.mem n c hn).mp hc).2
  refine ⟨x, y, hx, by omega, ?_, helement, ?_, ?_, htext⟩
  · rw [← hcurrent]
    apply hparent _ _ h.current.1
    rw [hb.grown.children]
    exact List.mem_append_right _ (List.mem_singleton_self x)
  · rw [hb.grown.lists.childList_iff hx.1, hy]
  · apply hparent _ _ hx.1
    rw [hy]
    exact List.mem_singleton_self y

theorem rawElement_nonzero (hraw : IsRaw raw) (ht : TextOk t) (hrest : 0 ∉ rest) :
    0 ∉ rawElement raw t ++ rest := by
  have hname : 0 ∉ raw := fun hmem => absurd (hraw.nameOk.nameChars 0 hmem) (by decide)
  have htext : 0 ∉ t := fun hmem => (ht.chars 0 hmem).1 rfl
  have hmarks : (0 : UInt8) ≠ chr '<' ∧ (0 : UInt8) ≠ chr '/' ∧ (0 : UInt8) ≠ chr '>' := by
    decide
  simp only [rawElement, List.cons_append, List.append_assoc, List.mem_cons, List.mem_append,
    not_or, List.not_mem_nil]
  tauto

/-- **A text without `<`** is parsed. -/
theorem parsesRaw_of_plain {create : Dom → Option (ℕ × Dom)} (hcreate : MakesDocument create)
    (h : DomInv st.dom) (hraw : IsRaw raw) (ht : TextOk t) (hrest : 0 ∉ rest) :
    ParsesRaw create st raw t rest := by
  obtain ⟨node, hnode, -, hloose⟩ := hcreate st.dom
  have hcreated : Created (st.dom.add node) st.dom.fresh := ⟨Nat.succ_ne_zero _, le_rfl⟩
  have hrunning := parseStart_running hcreated st (rawElement raw t ++ rest)
  obtain ⟨kids, hready⟩ := parseStart_ready h hloose (rawElement raw t ++ rest)
  have hinput := takeWhile_nonzero (rawElement_nonzero hraw ht hrest)
  have hstart : (parseStart st (rawElement raw t ++ rest) st.dom.fresh (st.dom.add node)).left =
      rawElement raw t ++ rest := hinput
  obtain ⟨st', kids', x, hturns, hleft, hbuilt⟩ := rawElement_turns hraw ht hrunning hready hstart
  obtain ⟨hrunning', hkept⟩ := hrunning.turns hturns
  have hraw' : RawText raw t st.dom.fresh st'.dom := hbuilt.rawText hready rfl rfl
  refine ⟨st.dom.fresh, st.dom.add node, st', hnode, hturns, ?_, hraw', ?_⟩
  · exact position_eq hrunning'.inside (hkept.input.trans hinput) hleft
  · rintro rfl
    have hloop := hrunning.buildLoop_turns hturns
    rw [hleft, buildLoop_none (show htmlParserNextToken [] = (none, []) from rfl)] at hloop
    refine ⟨st'.at [], ?_, hraw'⟩
    rw [parse_loop st _ hnode]
    exact congrArg (Option.map _) hloop

/-- **Raw text.** A script or a style with a text that does not begin with a space is parsed as
one, whatever stands behind it, exactly if the text has no `<`. -/
theorem raw_text_iff {create : Dom → Option (ℕ × Dom)} (hcreate : MakesDocument create)
    {calls : List DomCall} (hrun : run domStep noNodes calls = some st.dom) (hraw : IsRaw raw)
    (hhead : ∃ c r, t = c :: r ∧ isspace c = false) (ht : 0 ∉ t) (hrest : 0 ∉ rest) :
    ParsesRaw create st raw t rest ↔ chr '<' ∉ t := by
  have hinv := run_inv hrun
  constructor
  · intro hparses hmem
    exact not_parsesRaw hcreate hinv hmem hparses
  · intro hplain
    have hok : TextOk t :=
      ⟨hhead, fun c hc => ⟨fun hzero => ht (hzero ▸ hc), fun hlt => hplain (hlt ▸ hc)⟩⟩
    exact parsesRaw_of_plain hcreate hinv hraw hok hrest

/-- A script with quotes, slashes and a `>`. -/
theorem raw_text_quotes :
    ParsesRaw documentCreate (newParser noNodes) (str "script") (str "a>\"/b\"") (str "<p>") :=
  (@raw_text_iff (newParser noNodes) _ _ _ _ documentCreate_makes [] rfl (.inl rfl)
    ⟨chr 'a', str ">\"/b\"", rfl, by decide⟩ (by decide) (by decide)).mpr (by decide)

/-- In a script, `a<b` is not a text. -/
theorem raw_text_less : ¬ ∀ t : Str, (∃ c r, t = c :: r ∧ isspace c = false) → 0 ∉ t →
    (∀ w, w <:+: t → sameCase w (str "</script") = false) →
      ParsesRaw documentCreate (newParser noNodes) (str "script") t [] := by
  intro h
  have hno : ¬ ParsesRaw documentCreate (newParser noNodes) (str "script") (str "a<b") [] :=
    not_parsesRaw documentCreate_makes noNodes_inv (by decide)
  apply hno
  apply h (str "a<b") ⟨chr 'a', str "<b", rfl, by decide⟩ (by decide)
  intro w hw
  by_contra hsame
  have hmap := congrArg List.length (eq_of_beq (eq_true_of_ne_false hsame))
  have hlong : (str "</script").length = 8 := rfl
  have hshort := hw.length_le
  have hthree : (str "a<b").length = 3 := rfl
  rw [List.length_map, List.length_map] at hmap
  omega

end PrismaticOS.Html
