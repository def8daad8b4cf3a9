import PrismaticOS.Html.Truncation

/-!
# Ids and classes

An element keeps its id and its classes twice: as values of its attributes, and in `node->id`
and `node->class_names`, which `dom_document_get_element_by_id` and `dom_node_has_class` read.
`html_handle_start_tag` copies the first into the second.

## The model

A program parses a document and then calls `dom_node_set_attribute` and `dom_node_add_class` on
any nodes. `Coherent` says that the two copies agree, `words` are what stands between white
space in an attribute.

## What is proved

* `startElement_eq` — the node of a start tag.
* `buildLoop_coherent` — the loop of the parser, one token after the other.
* `ids_and_classes` — the copies always agree exactly if every word in a `class` of the input
  stands between spaces, and no call sets an `id` to another value or a `class` to a value with
  a word that is no class yet: `dom_node_set_attribute` changes the attribute only.
-/

namespace PrismaticOS.Html

open PrismaticOS.Library PrismaticOS.Libc

/-- The words of a string, between white space. -/
def words (s : Str) : List Str := (s.splitOnP isspace).filter (· ≠ [])

/-- The ids and the classes of the elements are those in their attributes. -/
structure Coherent (d : Dom) : Prop where
  /-- The id. -/
  id : ∀ n, Created d n → (d.nodes n).type = .element →
    (d.nodes n).id = domNodeGetAttribute d n (str "id")
  /-- The classes. -/
  classes : ∀ n, Created d n → (d.nodes n).type = .element →
    ∀ value ∈ domNodeGetAttribute d n (str "class"), ∀ c ∈ words value,
      domNodeHasClass d n c = true

/-- **The search for an id** compares with the attribute, where the copies agree. -/
theorem Coherent.hasId_iff {d : Dom} (h : Coherent d) {n : ℕ} (hn : Created d n) (id : Str) :
    hasId d id n = true ↔
      (d.nodes n).type = .element ∧ domNodeGetAttribute d n (str "id") = some id := by
  unfold hasId
  rw [Bool.and_eq_true, decide_eq_true_eq, and_congr_right_iff]
  intro htype
  rw [h.id n hn htype]
  simp [Option.any_eq_true]

/-! ### Calls -/

/-- A call on a node. -/
inductive AttrCall where
  /-- `dom_node_set_attribute(node, name, value)`. -/
  | setAttribute (node : ℕ) (name value : Option Str)
  /-- `dom_node_add_class(node, class_name)`. -/
  | addClass (node : ℕ) (className : Option Str)

/-- A call on a node that was made, or on `NULL`, with a string or `NULL`. -/
def attrStep (d : Dom) : AttrCall → Option Dom
  | .setAttribute node (some name) value =>
    if node = 0 then some d
    else if Created d node then some (domNodeSetAttribute d node name value)
    else none
  | .addClass node (some className) =>
    if node = 0 then some d
    else if Created d node then some (domNodeAddClass d node className)
    else none
  | .setAttribute _ none _ => some d
  | .addClass _ none => some d

/-- The call sets no `id` of an element to another value, and no `class` to a value with a word
that is not a class of the element. -/
def Unchanged (d : Dom) : AttrCall → Prop
  | .setAttribute node (some name) value =>
    node ≠ 0 → (d.nodes node).type = .element →
      (name = str "id" → value = (d.nodes node).id) ∧
      (name = str "class" → ∀ v ∈ value, ∀ c ∈ words v, c ∈ (d.nodes node).classNames)
  | _ => True

/-- The tokens of a string. -/
def htmlTokens (s : Str) : List HtmlToken :=
  match h : htmlParserNextToken s with
  | (none, _) => []
  | (some token, rest) =>
    have : rest.length < s.length := by
      have hlt := @nextToken_length s token (by rw [h])
      rwa [h] at hlt
    token :: htmlTokens rest
termination_by s.length

/-- The value that a list of attributes has for a name. -/
def lookup (name : Str) (attrs : List (Str × Option Str)) : Option Str :=
  (attrs.find? fun a => a.1 = name).bind Prod.snd

/-- Every word of the `class` of a start tag stands between spaces. -/
def BetweenSpaces : HtmlToken → Prop
  | .startTag _ attrs _ => ∀ value ∈ lookup (str "class") (setAttrs attrs),
      ∀ c ∈ words value, c ∈ strtokSpaces value
  | _ => True

instance : DecidablePred BetweenSpaces
  | .startTag _ attrs _ => inferInstanceAs (Decidable (∀ value ∈ lookup (str "class")
      (setAttrs attrs), ∀ c ∈ words value, c ∈ strtokSpaces value))
  | .endTag .. => isTrue trivial
  | .text _ => isTrue trivial
  | .comment _ => isTrue trivial
  | .doctype => isTrue trivial

/-! ### Nodes -/

/-- The copies in a node agree. -/
def DomNode.Coherent (node : DomNode) : Prop :=
  node.type = .element → node.id = lookup (str "id") node.attrs ∧
    ∀ value ∈ lookup (str "class") node.attrs, ∀ c ∈ words value, c ∈ node.classNames

theorem hasClass_iff (d : Dom) (n : ℕ) (c : Str) :
    domNodeHasClass d n c = true ↔ c ∈ (d.nodes n).classNames := by
  simp [domNodeHasClass]

/-- The copies agree if they do in every node. -/
theorem coherent_iff (d : Dom) : Coherent d ↔ ∀ n, Created d n → (d.nodes n).Coherent := by
  constructor
  · intro h n hn htype
    refine ⟨h.id n hn htype, fun value hvalue c hc => ?_⟩
    rw [← hasClass_iff]
    exact h.classes n hn htype value hvalue c hc
  · intro h
    refine ⟨fun n hn htype => (h n hn htype).1, fun n hn htype value hvalue c hc => ?_⟩
    rw [hasClass_iff]
    exact (h n hn htype).2 value hvalue c hc

/-- Links do not matter. -/
theorem coherent_congr {d d' : Dom} (hcount : d'.count = d.count)
    (hcontent : d'.content = d.content) : Coherent d' ↔ Coherent d := by
  have hnode : ∀ n, (d'.nodes n).Coherent ↔ (d.nodes n).Coherent := by
    intro n
    have hn : (d'.nodes n).content = (d.nodes n).content := congrFun hcontent n
    show (d'.nodes n).content.Coherent ↔ (d.nodes n).content.Coherent
    rw [hn]
  rw [coherent_iff, coherent_iff]
  simp only [Created, hcount, hnode]

/-- A new node. -/
theorem coherent_add (d : Dom) (node : DomNode) :
    Coherent (d.add node) ↔ Coherent d ∧ node.Coherent := by
  rw [coherent_iff, coherent_iff]
  constructor
  · intro h
    constructor
    · intro n hn
      have hread := h n ⟨hn.1, hn.2.trans (Nat.le_succ _)⟩
      rwa [Dom.add_of_ne d node (Nat.lt_succ_of_le hn.2).ne] at hread
    · have hread := h d.fresh ⟨Nat.succ_ne_zero _, le_rfl⟩
      rwa [Dom.add_fresh] at hread
  · rintro ⟨hd, hnode⟩ n hn
    by_cases hfresh : n = d.fresh
    · rw [hfresh, Dom.add_fresh]
      exact hnode
    · rw [Dom.add_of_ne d node hfresh]
      exact hd n ⟨hn.1, Nat.le_of_lt_succ (lt_of_le_of_ne hn.2 hfresh)⟩

/-- A node that changes. -/
theorem coherent_modify {d : Dom} (h : Coherent d) {n : ℕ} (hn : Created d n)
    (f : DomNode → DomNode) : Coherent (d.modify n f) ↔ (f (d.nodes n)).Coherent := by
  rw [coherent_iff] at h ⊢
  constructor
  · intro hf
    have hread := hf n hn
    rwa [Dom.modify_self] at hread
  · intro hf m hm
    by_cases hmn : m = n
    · rw [hmn, Dom.modify_self]
      exact hf
    · rw [Dom.modify_of_ne d f hmn]
      exact h m hm

/-! ### Setting an attribute -/

/-- An attribute that is set has the value, and the others keep theirs. -/
theorem lookup_setAttr (name key : Str) (value : Option Str) (attrs : List (Str × Option Str)) :
    lookup key (setAttr name value attrs) = if key = name then value else lookup key attrs := by
  induction attrs with
  | nil =>
    by_cases hkey : key = name
    · simp [lookup, setAttr, hkey]
    · simp [lookup, setAttr, hkey, Ne.symm hkey]
  | cons a attrs ih =>
    obtain ⟨n, v⟩ := a
    rw [setAttr]
    by_cases hn : n = name
    · rw [if_pos hn]
      by_cases hkey : key = name
      · simp [lookup, hn, hkey]
      · simp [lookup, hn, hkey, Ne.symm hkey]
    · rw [if_neg hn]
      by_cases hnk : n = key
      · have hkey : key ≠ name := fun heq => hn (hnk.trans heq)
        simp [lookup, hnk, hkey]
      · have hskip : ∀ as : List (Str × Option Str), lookup key ((n, v) :: as) = lookup key as :=
          fun as => by simp [lookup, hnk]
        rw [hskip, hskip, ih]

/-- An attribute is set in a node whose copies agree. -/
theorem coherent_setAttr {node : DomNode} (h : node.Coherent) (name : Str) (value : Option Str) :
    ({ node with attrs := setAttr name value node.attrs } : DomNode).Coherent ↔
      (node.type = .element → (name = str "id" → value = node.id) ∧
        (name = str "class" → ∀ v ∈ value, ∀ c ∈ words v, c ∈ node.classNames)) := by
  unfold DomNode.Coherent
  simp only [lookup_setAttr]
  rw [forall_congr']
  intro htype
  obtain ⟨hid, hclasses⟩ := h htype
  apply and_congr
  · by_cases hname : name = str "id"
    · simp [hname, eq_comm]
    · simp [hname, Ne.symm hname, hid]
  · by_cases hname : name = str "class"
    · simp [hname]
    · simp only [hname, Ne.symm hname, if_false, false_implies, iff_true]
      exact hclasses

/-! ### The parser -/

/-- A class is added, unless the element has it. -/
def addName (names : List Str) (c : Str) : List Str := if c ∈ names then names else names ++ [c]

theorem mem_addName {names : List Str} {c x : Str} :
    x ∈ addName names c ↔ x ∈ names ∨ x = c := by
  unfold addName
  split_ifs with hc
  · constructor
    · exact Or.inl
    · rintro (hx | rfl)
      · exact hx
      · exact hc
  · simp

/-- Adding classes one after the other. -/
theorem mem_addNames {names cs : List Str} {x : Str} :
    x ∈ cs.foldl addName names ↔ x ∈ names ∨ x ∈ cs := by
  induction cs generalizing names with
  | nil => simp
  | cons c cs ih =>
    rw [List.foldl_cons, ih, mem_addName, List.mem_cons, or_assoc]

/-- The node that a start tag makes. -/
def elementNode (tagName : Str) (attrs : List (Str × Option Str)) : DomNode :=
  { blankNode .element with
    tagName := some tagName
    attrs := setAttrs attrs
    id := lookup (str "id") (setAttrs attrs)
    classNames :=
      match lookup (str "class") (setAttrs attrs) with
      | some value => (strtokSpaces value).foldl addName []
      | none => [] }

theorem addClass_add (d : Dom) (node : DomNode) (cs : List Str) :
    cs.foldl (fun dom c => domNodeAddClass dom d.fresh c) (d.add node) =
      d.add { node with classNames := cs.foldl addName node.classNames } := by
  induction cs generalizing node with
  | nil => rfl
  | cons c cs ih =>
    have hadd : domNodeAddClass (d.add node) d.fresh c =
        d.add { node with classNames := addName node.classNames c } := by
      unfold domNodeAddClass addName
      rw [Dom.add_fresh, Dom.add_modify]
      split_ifs <;> rfl
    rw [List.foldl_cons, hadd, ih, List.foldl_cons]

theorem getAttribute_add (d : Dom) (node : DomNode) (name : Str) :
    domNodeGetAttribute (d.add node) d.fresh name = lookup name node.attrs := by
  unfold domNodeGetAttribute
  rw [Dom.add_fresh]
  rfl

/-- **The element of a start tag**: the id and the classes come from its attributes. -/
theorem startElement_eq (d : Dom) (tagName : Str) (attrs : List (Str × Option Str)) :
    startElement d tagName attrs = (d.add (elementNode tagName attrs), d.fresh) := by
  have hid : ∀ node : DomNode, node.id = none → setId (d.add node) d.fresh =
      d.add { node with id := lookup (str "id") node.attrs } := by
    intro node hnone
    unfold setId
    rw [getAttribute_add]
    cases hvalue : lookup (str "id") node.attrs with
    | none =>
      show d.add node = d.add { node with id := none }
      rw [← hnone]
    | some id => exact Dom.add_modify ..
  have hclass : ∀ node : DomNode, node.classNames = [] → setClasses (d.add node) d.fresh =
      d.add { node with
        classNames := match lookup (str "class") node.attrs with
          | some value => (strtokSpaces value).foldl addName []
          | none => [] } := by
    intro node hnone
    unfold setClasses
    rw [getAttribute_add]
    cases hvalue : lookup (str "class") node.attrs with
    | none =>
      show d.add node = d.add { node with classNames := [] }
      rw [← hnone]
    | some value =>
      simp only
      rw [addClass_add, hnone]
  unfold startElement domElementCreate
  simp only
  rw [setAttribute_new, hid _ rfl, hclass _ rfl]
  rfl

/-- The node of a start tag. -/
theorem elementNode_coherent (tagName : Str) (attrs : List (Str × Option Str)) :
    (elementNode tagName attrs).Coherent ↔
      ∀ value ∈ lookup (str "class") (setAttrs attrs), ∀ c ∈ words value,
        c ∈ strtokSpaces value := by
  have hnames : ∀ value ∈ lookup (str "class") (setAttrs attrs),
      ∀ c, c ∈ (elementNode tagName attrs).classNames ↔ c ∈ strtokSpaces value := by
    intro value hvalue c
    rw [Option.mem_def] at hvalue
    simp only [elementNode, hvalue, mem_addNames, List.not_mem_nil, false_or]
  constructor
  · intro h value hvalue c hc
    rw [← hnames value hvalue]
    exact (h rfl).2 value hvalue c hc
  · intro h _
    refine ⟨rfl, fun value hvalue c hc => ?_⟩
    rw [hnames value hvalue]
    exact h value hvalue c hc

/-- A node below another one. -/
theorem coherent_append (d : Dom) (node : DomNode) (current : ℕ) :
    Coherent (domNodeAppendChild (d.add node) current d.fresh) ↔ Coherent d ∧ node.Coherent := by
  rw [coherent_congr (appendChild_count ..) (appendChild_content ..), coherent_add]

theorem startTag_coherent (st : HtmlState) (tagName : Str) (attrs : List (Str × Option Str))
    (selfClosing : Bool) : Coherent (htmlHandleStartTag st tagName attrs selfClosing).dom ↔
      Coherent st.dom ∧ BetweenSpaces (.startTag tagName attrs selfClosing) := by
  have hdom : (htmlHandleStartTag st tagName attrs selfClosing).dom =
      domNodeAppendChild (st.dom.add (elementNode tagName attrs)) st.parser.currentNode
        st.dom.fresh := by
    unfold htmlHandleStartTag
    rw [startElement_eq]
    simp only
    split_ifs
    · exact (startSpecial_flagged ..).dom
    · exact (startSpecial_flagged ..).dom
  rw [hdom, coherent_append, elementNode_coherent]
  rfl

theorem endTag_dom {st st' : HtmlState} {tagName : Str}
    (h : htmlHandleEndTag st tagName = some st') : st'.dom = st.dom := by
  unfold htmlHandleEndTag at h
  obtain ⟨found, -, rfl⟩ := Option.map_eq_some_iff.mp h
  rw [(endSpecial_flagged ..).dom]
  cases found with
  | none => rfl
  | some current =>
    simp only
    split_ifs <;> rfl

/-- **A token**: the copies agree after it if they did before, and a start tag has its classes
between spaces. -/
theorem handleToken_coherent {st st' : HtmlState} {token : HtmlToken}
    (h : htmlHandleToken st token = some st') :
    Coherent st'.dom ↔ Coherent st.dom ∧ BetweenSpaces token := by
  cases token with
  | startTag tagName attrs selfClosing =>
    cases h
    exact startTag_coherent st tagName attrs selfClosing
  | endTag tagName attrs selfClosing =>
    rw [endTag_dom h]
    simp [BetweenSpaces]
  | text data =>
    cases h
    unfold htmlHandleText
    split_ifs
    · simp [BetweenSpaces]
    · show Coherent (domNodeAppendChild (st.dom.add _) _ st.dom.fresh) ↔ _
      rw [coherent_append]
      exact and_congr_right fun _ => iff_of_true (fun htype => by cases htype) trivial
  | comment data =>
    cases h
    simp [BetweenSpaces]
  | doctype =>
    cases h
    simp [BetweenSpaces]

/-- **The loop**, by induction on the tokens. -/
theorem buildLoop_coherent {st st' : HtmlState} {s : Str} (h : buildLoop st s = some st') :
    Coherent st'.dom ↔ Coherent st.dom ∧ ∀ token ∈ htmlTokens s, BetweenSpaces token := by
  fun_induction htmlTokens s generalizing st with
  | case1 s rest hnone =>
    rw [buildLoop_none hnone] at h
    cases h
    simp [HtmlState.at, HtmlState.modify]
  | case2 s token rest hsome hlt ih =>
    rw [buildLoop_some hsome] at h
    obtain ⟨st₁, htoken, hloop⟩ := Option.bind_eq_some_iff.mp h
    rw [ih hloop, handleToken_coherent htoken, List.forall_mem_cons, and_assoc]
    rfl

/-- `html_document_create` makes a node that is a document. -/
def CreatesDocument (create : Dom → Option (ℕ × Dom)) : Prop :=
  ∀ d made d', create d = some (made, d') →
    made = d.fresh ∧ ∃ node, d' = d.add node ∧ node.type = .document

/-- **A document**: the copies agree in its elements exactly if all classes stand between
spaces. -/
theorem parse_coherent {create : Dom → Option (ℕ × Dom)} (hcreate : CreatesDocument create)
    {st : HtmlState} (hst : Coherent st.dom) (html : List UInt8) : ∃ made st',
      htmlParserParse create st html = some (made, st') ∧
      (Coherent st'.dom ↔ create st.dom = none ∨
        ∀ token ∈ htmlTokens (html.takeWhile (· != 0)), BetweenSpaces token) := by
  cases hnode : create st.dom with
  | none =>
    unfold htmlParserParse htmlBuildDomTree
    simp only [HtmlState.modify, hnode]
    exact ⟨none, _, rfl, iff_of_true hst (.inl trivial)⟩
  | some made =>
    obtain ⟨node, d⟩ := made
    obtain ⟨hfresh, new, hd, htype⟩ := hcreate _ _ _ hnode
    have hreturns : ReturnsNode create := by
      intro d made d' hmade
      obtain ⟨rfl, new, rfl, -⟩ := hcreate _ _ _ hmade
      exact ⟨Nat.succ_ne_zero _, le_rfl⟩
    obtain ⟨st', hparse, -⟩ := parse_ends hreturns st html hnode
    refine ⟨some node, st', hparse, ?_⟩
    unfold htmlParserParse htmlBuildDomTree at hparse
    simp only [HtmlState.modify, hnode] at hparse
    obtain ⟨st'', hloop, heq⟩ := Option.map_eq_some_iff.mp hparse
    cases heq
    have hbefore : Coherent d := by
      rw [hd, coherent_add]
      refine ⟨hst, fun helement => ?_⟩
      rw [htype] at helement
      cases helement
    rw [buildLoop_coherent hloop]
    simp [hbefore]

/-! ### Calls after it -/

/-- A call keeps the copies in agreement exactly if it changes nothing that was copied. -/
theorem attrStep_coherent {d d' : Dom} {call : AttrCall} (h : Coherent d)
    (hs : attrStep d call = some d') : Coherent d' ↔ Unchanged d call := by
  have hnode : ∀ n, Created d n → (d.nodes n).Coherent := (coherent_iff d).mp h
  cases call with
  | setAttribute node name value =>
    cases name with
    | none =>
      cases hs
      exact iff_of_true h trivial
    | some name =>
      simp only [attrStep] at hs
      split_ifs at hs with hnull hmade
      · cases hs
        exact iff_of_true h fun hne => absurd hnull hne
      · cases hs
        unfold domNodeSetAttribute
        rw [coherent_modify h hmade, coherent_setAttr (hnode node hmade)]
        simp [Unchanged, hnull]
  | addClass node className =>
    refine iff_of_true ?_ (by cases className <;> trivial)
    cases className with
    | none =>
      cases hs
      exact h
    | some className =>
      simp only [attrStep] at hs
      split_ifs at hs with hnull hmade
      · cases hs
        exact h
      · cases hs
        unfold domNodeAddClass
        split_ifs
        · exact h
        · rw [coherent_modify h hmade]
          intro htype
          obtain ⟨hid, hclasses⟩ := hnode node hmade htype
          refine ⟨hid, fun v hv c hc => ?_⟩
          exact List.mem_append_left _ (hclasses v hv c hc)

/-- **Ids and classes.** A document is parsed, and then attributes are set and classes added.
The ids and classes of all elements are always those in their attributes, exactly if there is no
document or the classes in the input stand between spaces, and no call sets an `id` to another
value, or a `class` to a value with a word that the element does not have as a class. -/
theorem ids_and_classes {create : Dom → Option (ℕ × Dom)} (hcreate : CreatesDocument create)
    {st : HtmlState} (hst : Coherent st.dom) (html : List UInt8) (calls : List AttrCall) :
    ∃ made st', htmlParserParse create st html = some (made, st') ∧
      (Always attrStep Coherent st'.dom calls ↔
        (create st.dom = none ∨
          ∀ token ∈ htmlTokens (html.takeWhile (· != 0)), BetweenSpaces token) ∧
        Each attrStep Unchanged st'.dom calls) := by
  obtain ⟨made, st', hparse, hafter⟩ := parse_coherent hcreate hst html
  refine ⟨made, st', hparse, ?_⟩
  rw [← hafter]
  have hcalls : Coherent st'.dom →
      (Always attrStep Coherent st'.dom calls ↔ Each attrStep Unchanged st'.dom calls) := by
    apply always_iff_each
    · exact fun _ h => h
    · exact fun d call d' h hok hs => (attrStep_coherent h hs).mpr hok
    · exact fun d call d' h hno hs hd' => hno ((attrStep_coherent h hs).mp hd')
  constructor
  · intro h
    exact ⟨h.head, (hcalls h.head).mp h⟩
  · rintro ⟨hd, h⟩
    exact (hcalls hd).mpr h

theorem noNodes_coherent : Coherent noNodes :=
  ⟨fun _ hn => absurd (Nat.le_zero.mp hn.2) hn.1, fun _ hn => absurd (Nat.le_zero.mp hn.2) hn.1⟩

theorem documentCreate_creates : CreatesDocument documentCreate := by
  intro d made d' h
  cases h
  exact ⟨rfl, _, rfl, rfl⟩

/-- `<p id=a class="b c">`, where the element gets another class. -/
theorem ids_and_classes_kept : ∃ made st',
    htmlParserParse documentCreate (newParser noNodes) (str "<p id=a class=\"b c\">") =
      some (made, st') ∧ Always attrStep Coherent st'.dom [.addClass 2 (some (str "d"))] := by
  obtain ⟨made, st', hparse, hiff⟩ := @ids_and_classes _ documentCreate_creates
    (newParser noNodes) noNodes_coherent (str "<p id=a class=\"b c\">")
    [.addClass 2 (some (str "d"))]
  exact ⟨made, st', hparse, hiff.mpr ⟨.inr (by decide +kernel), fun _ _ => ⟨trivial, trivial⟩⟩⟩

/-- An `id` that is set is no id of the element. -/
theorem id_not_copied : ¬ ∀ (html : List UInt8) (calls : List AttrCall) made st',
    htmlParserParse documentCreate (newParser noNodes) html = some (made, st') →
      Always attrStep Coherent st'.dom calls := by
  intro h
  have hrun : (htmlParserParse documentCreate (newParser noNodes) (str "<p>")).map
      (fun r => ((r.2.dom.nodes 2).type, (r.2.dom.nodes 2).id, r.2.dom.count)) =
        some (.element, none, 2) := by decide +kernel
  obtain ⟨⟨made, st'⟩, hparse, heq⟩ := Option.map_eq_some_iff.mp hrun
  simp only [Prod.mk.injEq] at heq
  obtain ⟨htype, hid, hcount⟩ := heq
  have hmade : Created st'.dom 2 := ⟨by decide, hcount.ge⟩
  obtain ⟨hbefore, hcalls⟩ := h (str "<p>")
    [.setAttribute 2 (some (str "id")) (some (str "a"))] made st' hparse
  have hafter : Coherent (domNodeSetAttribute st'.dom 2 (str "id") (some (str "a"))) := by
    apply hcalls
    simp [attrStep, hmade]
  have hkept := (coherent_modify hbefore hmade _).mp hafter
  have hsame := (coherent_setAttr ((coherent_iff _).mp hbefore 2 hmade) _ _).mp hkept htype
  rw [hid] at hsame
  exact nomatch hsame.1 rfl

end PrismaticOS.Html
