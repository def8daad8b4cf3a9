import PrismaticOS.Html.Parser
import PrismaticOS.Html.TagParts

/-!
# Writing and reading a document

A forest of elements and text is written as HTML, and `html_parser_parse` builds it again.

## The model

A forest is its first tree and the trees after it. `serialize` is the text as one would write
it, with every value in double quotes. `ForestAt` says that the nodes in memory, from a first
child on, are a forest.

## What is proved

* `startTag_token`, `endTag_token`, `text_token` — the tokens of what was written.
* `buildLoop_forest` — the loop reads a forest and puts it below the open element.
* `html_round_trip` — the document of a forest that was written is that forest.
-/

namespace PrismaticOS.Html

open PrismaticOS.Library PrismaticOS.Libc

/-! ### Forests -/

/-- Elements and text. -/
inductive Forest where
  /-- Nothing. -/
  | nil
  /-- An element with attributes and children, and what follows it. -/
  | element (name : Str) (attrs : List (Str × Str)) (children next : Forest)
  /-- Text, and what follows it. -/
  | text (data : Str) (next : Forest)

/-- The attributes of a tag, as they are written. -/
def serializeAttrs : List (Str × Str) → Str
  | [] => []
  | (name, value) :: attrs =>
    chr ' ' :: (name ++ chr '=' :: chr '"' :: (value ++ chr '"' :: serializeAttrs attrs))

/-- A forest, as it is written. -/
def Forest.serialize : Forest → Str
  | .nil => []
  | .element name attrs children next =>
    chr '<' :: (name ++ (serializeAttrs attrs ++ chr '>' :: (children.serialize ++
      chr '<' :: chr '/' :: (name ++ chr '>' :: next.serialize))))
  | .text data next => data ++ next.serialize

/-- The name of an element that is not void. -/
structure NameOk (name : Str) : Prop where
  /-- It is not empty. -/
  nonempty : name ≠ []
  /-- It has letters, digits, `-` and `_`. -/
  chars : ∀ c ∈ name, isalnum c = true ∨ c = chr '-' ∨ c = chr '_'
  /-- The element is not void. -/
  notVoid : htmlIsVoidElement name = false

/-- An attribute. -/
structure AttrOk (a : Str × Str) : Prop where
  /-- It has a name. -/
  nonempty : a.1 ≠ []
  /-- The name has no space, `=`, `>` or `/`. -/
  name : ∀ c ∈ a.1, c ≠ 0 ∧ isspace c = false ∧ c ≠ chr '=' ∧ c ≠ chr '>' ∧ c ≠ chr '/'
  /-- The value has no `"`. -/
  value : ∀ c ∈ a.2, c ≠ 0 ∧ c ≠ chr '"'

/-- A text. -/
structure TextOk (data : Str) : Prop where
  /-- It is not empty, and does not begin with a space. -/
  head : ∃ c r, data = c :: r ∧ isspace c = false
  /-- It has no `<`. -/
  chars : ∀ c ∈ data, c ≠ 0 ∧ c ≠ chr '<'

/-- A forest that does not begin with text. -/
def Forest.noText : Forest → Prop
  | .text _ _ => False
  | _ => True

/-- A forest that can be written: the names of the attributes of an element differ, and no text
follows a text. -/
def Forest.Ok : Forest → Prop
  | .nil => True
  | .element name attrs children next =>
    NameOk name ∧ (attrs.map Prod.fst).Nodup ∧ (∀ a ∈ attrs, AttrOk a) ∧ children.Ok ∧ next.Ok
  | .text data next => TextOk data ∧ next.noText ∧ next.Ok

/-! ### Tokens -/

variable {name data r : Str} {attrs : List (Str × Str)}

theorem NameOk.nameChars (h : NameOk name) : ∀ c ∈ name, isNameChar c = true := by
  intro c hc
  have hchar := h.chars c hc
  simp only [isNameChar, Bool.or_eq_true, beq_iff_eq]
  tauto

theorem AttrOk.attrChars {a : Str × Str} (h : AttrOk a) :
    ∀ c ∈ a.1, isAttrChar c = true := by
  intro c hc
  obtain ⟨-, hspace, heq, hgt, hslash⟩ := h.name c hc
  simp [isAttrChar, hspace, heq, hgt, hslash]

theorem NameOk.tagName (h : NameOk name) : IsTagName name := ⟨h.nonempty, h.nameChars⟩

theorem AttrOk.attrName {a : Str × Str} (h : AttrOk a) : IsAttrName a.1 :=
  ⟨h.nonempty, h.attrChars⟩

/-- **The attributes** that were written. -/
theorem attributes_written (h : ∀ a ∈ attrs, AttrOk a) :
    htmlParseAttributes (serializeAttrs attrs ++ chr '>' :: r) =
      (attrs.map fun a => (a.1, some a.2), chr '>' :: r) := by
  induction attrs with
  | nil => exact attributes_end (List.dropWhile_cons_of_neg (by decide)) (.inl rfl)
  | cons a attrs ih =>
    obtain ⟨name, value⟩ := a
    have ha : AttrOk (name, value) := h _ List.mem_cons_self
    have hattr : IsAttrName name := ha.attrName
    obtain ⟨c, t, hc, hchar⟩ := hattr.head (chr '=' :: chr '"' ::
      (value ++ chr '"' :: (serializeAttrs attrs ++ chr '>' :: r)))
    have hskip : (serializeAttrs ((name, value) :: attrs) ++ chr '>' :: r).dropWhile isspace =
        name ++ chr '=' :: chr '"' ::
          (value ++ chr '"' :: (serializeAttrs attrs ++ chr '>' :: r)) := by
      have hwritten : serializeAttrs ((name, value) :: attrs) ++ chr '>' :: r =
          chr ' ' :: (name ++ chr '=' :: chr '"' ::
            (value ++ chr '"' :: (serializeAttrs attrs ++ chr '>' :: r))) := by
        simp [serializeAttrs]
      rw [hwritten, List.dropWhile_cons_of_pos (by decide), hc,
        List.dropWhile_cons_of_neg (by simp [isAttrChar_space hchar])]
    have hvalue : chr '"' ∉ value := fun hmem => (ha.value _ hmem).2 rfl
    obtain ⟨htake, hpassed⟩ := hattr.value_passed gap_nil gap_nil
      (chr '"' :: (value ++ chr '"' :: (serializeAttrs attrs ++ chr '>' :: r)))
    rw [List.nil_append, List.nil_append] at htake hpassed
    rw [quotedValue_parsed (.inl rfl) hvalue] at hpassed
    rw [attributes_cons hskip (by rw [htake]; exact hattr.nonempty), htake, hpassed]
    simp only
    rw [ih fun a ha => h a (List.mem_cons_of_mem _ ha)]
    rfl

/-- **A start tag** that was written. -/
theorem startTag_token (hname : NameOk name) (hattrs : ∀ a ∈ attrs, AttrOk a) :
    htmlParserNextToken (chr '<' :: (name ++ (serializeAttrs attrs ++ chr '>' :: r))) =
      (some (.startTag name (attrs.map fun a => (a.1, some a.2)) false), r) := by
  -- the name ends at the first attribute, or at the `>`
  have hnameEnd : ∀ b, (serializeAttrs attrs ++ chr '>' :: r).head? = some b →
      isNameChar b = false := by
    intro b hb
    cases attrs with
    | nil =>
      cases hb
      decide
    | cons a attrs =>
      cases hb
      decide
  have hbegun := tag_begun (.inl rfl) hname.tagName hnameEnd
  simp only [attributes_written hattrs] at hbegun
  exact hbegun

/-- **An end tag** that was written. -/
theorem endTag_token (hname : NameOk name) :
    htmlParserNextToken (chr '<' :: chr '/' :: (name ++ chr '>' :: r)) =
      (some (.endTag name [] false), r) := by
  have hnameEnd : ∀ b, (chr '>' :: r).head? = some b → isNameChar b = false := by
    intro b hb
    cases hb
    decide
  have hattrs : htmlParseAttributes (chr '>' :: r) = ([], chr '>' :: r) :=
    attributes_end (List.dropWhile_cons_of_neg (by decide)) (.inl rfl)
  have hbegun := tag_begun (.inr rfl) hname.tagName hnameEnd
  simp only [hattrs] at hbegun
  exact hbegun

/-- Spaces before a token do not matter. -/
theorem nextToken_gap {gap : Str} (hgap : ∀ c ∈ gap, isspace c = true) (s : Str) :
    htmlParserNextToken (gap ++ s) = htmlParserNextToken s := by
  unfold htmlParserNextToken
  rw [List.dropWhile_append_of_pos hgap]

/-- **A run of text**, up to the end or to the next `<`: the spaces before it are passed. -/
theorem textRun_token (hlt : chr '<' ∉ data) (hsome : ∃ c ∈ data, isspace c = false)
    (hr : ∀ c, r.head? = some c → c = chr '<') :
    htmlParserNextToken (data ++ r) = (some (.text (data.dropWhile isspace)), r) := by
  have hne := dropWhile_ne_nil hsome
  have hskip : (data ++ r).dropWhile isspace = data.dropWhile isspace ++ r := by
    rw [List.dropWhile_append, List.isEmpty_eq_false_iff.mpr hne]
    rfl
  have hchars : ∀ b ∈ data.dropWhile isspace, (b != chr '<') = true := by
    intro b hb
    rw [bne_iff_ne]
    rintro rfl
    exact hlt (List.dropWhile_subset _ hb)
  have hstop : ∀ b, r.head? = some b → (b != chr '<') = false := by
    intro b hb
    rw [hr b hb]
    decide
  have htake := takeWhile_to hchars hstop
  have hdrop := dropWhile_to hchars hstop
  obtain ⟨c, t, heq⟩ := List.exists_cons_of_ne_nil hne
  unfold htmlParserNextToken
  rw [hskip]
  rw [heq] at hchars htake hdrop ⊢
  have hc : c ≠ chr '<' := by simpa using hchars c List.mem_cons_self
  simp only [List.cons_append]
  rw [if_neg hc]
  unfold htmlParseText
  rw [List.cons_append] at htake hdrop
  rw [htake, hdrop, if_neg (List.cons_ne_nil c t)]

/-- **A text** that was written, up to the end or to the next `<`. -/
theorem text_token (hdata : TextOk data) (hr : ∀ c, r.head? = some c → c = chr '<') :
    htmlParserNextToken (data ++ r) = (some (.text data), r) := by
  obtain ⟨c, t, rfl, hspace⟩ := hdata.head
  have hlt : chr '<' ∉ c :: t := fun hmem => (hdata.chars _ hmem).2 rfl
  rw [textRun_token hlt ⟨c, List.mem_cons_self, hspace⟩ hr,
    List.dropWhile_cons_of_neg (by simp [hspace])]

/-! ### Nodes below the open element -/

variable {d d' d₁ d₂ : Dom} {kids kids' kids₁ kids₂ : ℕ → List ℕ} {cur x lo n : ℕ} {xs ys : List ℕ}

/-- New children of one node: everything else is as it was, but for nodes that are new. -/
structure Grown (cur : ℕ) (xs : List ℕ) (kids kids' : ℕ → List ℕ) (d d' : Dom) : Prop where
  /-- The memory is in order. -/
  inv : DomInv d'
  /-- The lists. -/
  lists : Lists d' kids'
  /-- No node is lost. -/
  count : d.count ≤ d'.count
  /-- The children of the node. -/
  children : kids' cur = kids cur ++ xs
  /-- The other lists. -/
  other : ∀ n, Created d n → n ≠ cur → kids' n = kids n
  /-- The nodes, but for their links. -/
  content : ∀ n, Created d n → d'.content n = d.content n

theorem Created.mono (h : Created d n) (hc : d.count ≤ d'.count) : Created d' n :=
  ⟨h.1, h.2.trans hc⟩

/-- Nothing new. -/
theorem Grown.refl (cur : ℕ) (h : DomInv d) (hk : Lists d kids) : Grown cur [] kids kids d d :=
  ⟨h, hk, le_rfl, (List.append_nil _).symm, fun _ _ _ => rfl, fun _ _ => rfl⟩

/-- More children of the same node. -/
theorem Grown.trans (h : Grown cur xs kids kids₁ d d₁) (h' : Grown cur ys kids₁ kids₂ d₁ d₂) :
    Grown cur (xs ++ ys) kids kids₂ d d₂ where
  inv := h'.inv
  lists := h'.lists
  count := h.count.trans h'.count
  children := by rw [h'.children, h.children, List.append_assoc]
  other n hn hne := (h'.other n (hn.mono h.count) hne).trans (h.other n hn hne)
  content n hn := (h'.content n (hn.mono h.count)).trans (h.content n hn)

/-- Children of a new child. -/
theorem Grown.below (h : Grown cur xs kids kids₁ d d₁) (h' : Grown x ys kids₁ kids₂ d₁ d₂)
    (hcur : Created d cur) (hx : d.count < x) : Grown cur xs kids kids₂ d d₂ where
  inv := h'.inv
  lists := h'.lists
  count := h.count.trans h'.count
  children := by rw [h'.other cur (hcur.mono h.count) (hcur.2.trans_lt hx).ne, h.children]
  other n hn hne :=
    (h'.other n (hn.mono h.count) (hn.2.trans_lt hx).ne).trans (h.other n hn hne)
  content n hn := (h'.content n (hn.mono h.count)).trans (h.content n hn)

/-- **A new child.** -/
theorem Grown.append (h : DomInv d) (hk : Lists d kids) (hcur : Created d cur) (node : DomNode)
    (hnode : Loose node) : ∃ kids',
      Grown cur [d.fresh] kids kids' d (domNodeAppendChild (d.add node) cur d.fresh) ∧
      (domNodeAppendChild (d.add node) cur d.fresh).content d.fresh = node.content ∧
      kids' d.fresh = [] ∧
      Created (domNodeAppendChild (d.add node) cur d.fresh) d.fresh := by
  obtain ⟨hlists, hempty, hparent⟩ := h.lists_add hk hnode
  have hfresh : d.fresh ≠ 0 := Nat.succ_ne_zero _
  have hne : ∀ n, Created d n → n ≠ d.fresh := fun n hn => (Nat.lt_succ_of_le hn.2).ne
  have hcount : (domNodeAppendChild (d.add node) cur d.fresh).count = d.count + 1 :=
    appendChild_count ..
  have halone : (d.add node).parent d.fresh = 0 := by
    rw [hparent]
    exact h.unused _ (Nat.lt_succ_self _)
  refine ⟨Function.update kids cur (kids cur ++ [d.fresh]), ⟨?_, ?_, ?_, ?_, ?_, ?_⟩, ?_, ?_,
    hfresh, hcount.ge⟩
  · exact (h.add hnode).append (hcur.mono (Nat.le_succ _)) ⟨hfresh, le_rfl⟩
  · rw [appendChild_eq _ hcur.1 hfresh, if_neg (not_not.mpr halone)]
    exact hlists.link hcur.1 hfresh halone
  · rw [hcount]
    exact Nat.le_succ _
  · exact Function.update_self ..
  · intro n _ hncur
    exact Function.update_of_ne hncur ..
  · intro n hn
    rw [appendChild_content]
    exact congrArg DomNode.content (Dom.add_of_ne d node (hne n hn))
  · rw [appendChild_content]
    exact congrArg DomNode.content (Dom.add_fresh d node)
  · rw [Function.update_of_ne (hne cur hcur).symm]
    exact hempty

/-! ### Forests in memory -/

/-- The node of an element. -/
structure IsElement (node : DomNode) (name : Str) (attrs : List (Str × Str)) : Prop where
  /-- It is an element. -/
  type : node.type = .element
  /-- Its name. -/
  tagName : node.tagName = some name
  /-- Its attributes, in order. -/
  attrs : node.attrs = attrs.map fun a => (a.1, some a.2)

/-- The node of a text. -/
structure IsText (node : DomNode) (text : Str) : Prop where
  /-- It is a text. -/
  type : node.type = .text
  /-- Its text. -/
  data : node.data = some text
  /-- Its text, once more. -/
  textContent : node.textContent = some text

/-- The nodes `xs`, made after the first `lo` ones, are a forest. -/
def Reads (kids : ℕ → List ℕ) (d : Dom) (lo : ℕ) : Forest → List ℕ → Prop
  | .nil, xs => xs = []
  | .element name attrs children next, xs =>
    ∃ x ys, xs = x :: ys ∧ lo < x ∧ x ≤ d.count ∧ IsElement (d.content x) name attrs ∧
      Reads kids d lo children (kids x) ∧ Reads kids d lo next ys
  | .text data next, xs =>
    ∃ x ys, xs = x :: ys ∧ lo < x ∧ x ≤ d.count ∧ IsText (d.content x) data ∧ kids x = [] ∧
      Reads kids d lo next ys

/-- A forest stays when something is added elsewhere. -/
theorem Reads.mono {f : Forest} {lo' : ℕ} (h : Reads kids d lo f xs)
    (hg : Grown cur ys kids kids' d d') (hcur : cur ≤ lo) (hlo : lo' ≤ lo) :
    Reads kids' d' lo' f xs := by
  induction f generalizing xs with
  | nil => exact h
  | element name attrs children next ihc ihn =>
    obtain ⟨x, zs, rfl, hx, hcount, helement, hchildren, hnext⟩ := h
    have hcreated : Created d x := ⟨by omega, hcount⟩
    refine ⟨x, zs, rfl, hlo.trans_lt hx, hcount.trans hg.count, ?_, ?_, ihn hnext⟩
    · rw [hg.content x hcreated]
      exact helement
    · rw [hg.other x hcreated (by omega)]
      exact ihc hchildren
  | text data next ih =>
    obtain ⟨x, zs, rfl, hx, hcount, htext, hempty, hnext⟩ := h
    have hcreated : Created d x := ⟨by omega, hcount⟩
    refine ⟨x, zs, rfl, hlo.trans_lt hx, hcount.trans hg.count, ?_, ?_, ih hnext⟩
    · rw [hg.content x hcreated]
      exact htext
    · rw [hg.other x hcreated (by omega)]
      exact hempty

/-- The nodes from `p` on, through `next_sibling`, are a forest below `parent`. -/
def ForestAt (d : Dom) (parent : ℕ) : ℕ → Forest → Prop
  | p, .nil => p = 0
  | p, .element name attrs children next =>
    p ≠ 0 ∧ d.parent p = parent ∧ IsElement (d.nodes p) name attrs ∧
      ForestAt d p (d.first p) children ∧ ForestAt d parent (d.next p) next
  | p, .text data next =>
    p ≠ 0 ∧ d.parent p = parent ∧ IsText (d.nodes p) data ∧ d.first p = 0 ∧
      ForestAt d parent (d.next p) next

/-- The lists of children, followed through the links. -/
theorem Reads.forestAt (hk : Lists d kids) {f : Forest} {parent p : ℕ} (h : Reads kids d lo f xs)
    (hseg : Seg d.next p xs 0) (hparent : ∀ x ∈ xs, d.parent x = parent) :
    ForestAt d parent p f := by
  induction f generalizing xs p parent with
  | nil =>
    subst h
    exact hseg
  | element name attrs children next ihc ihn =>
    obtain ⟨x, ys, rfl, -, -, helement, hchildren, hnext⟩ := h
    obtain ⟨rfl, hne, hrest⟩ := hseg
    refine ⟨hne, hparent p List.mem_cons_self, ⟨helement.type, helement.tagName, helement.attrs⟩,
      ?_, ?_⟩
    · apply ihc hchildren (hk.list p hne).seg
      exact fun c hc => ((hk.mem p c hne).mp hc).2
    · exact ihn hnext hrest fun c hc => hparent c (List.mem_cons_of_mem p hc)
  | text data next ih =>
    obtain ⟨x, ys, rfl, -, -, htext, hempty, hnext⟩ := h
    obtain ⟨rfl, hne, hrest⟩ := hseg
    refine ⟨hne, hparent p List.mem_cons_self, ⟨htext.type, htext.data, htext.textContent⟩, ?_, ?_⟩
    · exact (hk.list p hne).seg.eq_nil_iff.mp hempty
    · exact ih hnext hrest fun c hc => hparent c (List.mem_cons_of_mem p hc)

/-! ### The parser -/

/-- Attributes with different names are all kept, in order. -/
theorem setAttrs_nodup (h : (attrs.map Prod.fst).Nodup) :
    setAttrs (attrs.map fun a => (a.1, some a.2)) = attrs.map fun a => (a.1, some a.2) := by
  have hnew : ∀ (set : List (Str × Option Str)) (name : Str) (value : Option Str),
      name ∉ set.map Prod.fst → setAttr name value set = set ++ [(name, value)] := by
    intro set name value hname
    induction set with
    | nil => rfl
    | cons a set ih =>
      simp only [List.map_cons, List.mem_cons, not_or] at hname
      rw [setAttr, if_neg (Ne.symm hname.1), ih hname.2]
      rfl
  have hall : ∀ (as : List (Str × Str)) (set : List (Str × Option Str)),
      (set.map Prod.fst ++ as.map Prod.fst).Nodup →
        (as.map fun a => (a.1, some a.2)).foldl (fun set a => setAttr a.1 a.2 set) set =
          set ++ as.map fun a => (a.1, some a.2) := by
    intro as
    induction as with
    | nil => exact fun set _ => (List.append_nil set).symm
    | cons a as ih =>
      intro set hnd
      have ha : a.1 ∉ set.map Prod.fst := by
        intro hmem
        rw [List.map_cons, List.nodup_append] at hnd
        exact hnd.2.2 _ hmem _ List.mem_cons_self rfl
      rw [List.map_cons, List.foldl_cons, hnew set a.1 _ ha, ih]
      · simp
      · simpa using hnd
  exact hall attrs [] (by simpa using h)

/-- What was written ends, or goes on with a tag. -/
theorem serialize_head {f : Forest} (hf : f.noText) (hr : ∀ c, r.head? = some c → c = chr '<') :
    ∀ c, (f.serialize ++ r).head? = some c → c = chr '<' := by
  cases f with
  | nil => exact hr
  | element name attrs children next =>
    intro c hc
    cases hc
    rfl
  | text data next => exact hf.elim

variable {st : HtmlState}

/-- The parser may go on: the memory is in order, and the open element and the document are
there. -/
structure Ready (kids : ℕ → List ℕ) (st : HtmlState) : Prop where
  /-- The memory is in order. -/
  inv : DomInv st.dom
  /-- The lists. -/
  lists : Lists st.dom kids
  /-- The open element. -/
  current : Created st.dom st.parser.currentNode
  /-- The document. -/
  document : st.parser.document ≤ st.dom.count

/-- What the loop does with a forest: it puts it below the open element. -/
structure Built (f : Forest) (kids : ℕ → List ℕ) (st st' : HtmlState) (kids' : ℕ → List ℕ)
    (xs : List ℕ) : Prop where
  /-- The open element is open again. -/
  currentNode : st'.parser.currentNode = st.parser.currentNode
  /-- The document. -/
  document : st'.parser.document = st.parser.document
  /-- The new nodes. -/
  grown : Grown st.parser.currentNode xs kids kids' st.dom st'.dom
  /-- They are the forest. -/
  reads : Reads kids' st'.dom st.dom.count f xs

/-- After a forest the parser goes on. -/
theorem Built.ready {f : Forest} {st' : HtmlState} (h : Ready kids st)
    (hb : Built f kids st st' kids' xs) : Ready kids' st' where
  inv := hb.grown.inv
  lists := hb.grown.lists
  current := hb.currentNode ▸ h.current.mono hb.grown.count
  document := hb.document ▸ h.document.trans hb.grown.count

/-- The position does not matter. -/
theorem Ready.at (h : Ready kids st) (rest : Str) : Ready kids (st.at rest) :=
  ⟨h.inv, h.lists, h.current, h.document⟩

theorem Built.at {f : Forest} {st' : HtmlState} (h : Built f kids st st' kids' xs) (rest : Str) :
    Built f kids st (st'.at rest) kids' xs := ⟨h.currentNode, h.document, h.grown, h.reads⟩

theorem Built.of_at {f : Forest} {st' : HtmlState} {rest : Str}
    (h : Built f kids (st.at rest) st' kids' xs) : Built f kids st st' kids' xs :=
  ⟨h.currentNode, h.document, h.grown, h.reads⟩

/-- A start tag opened a new element `x`. -/
structure Opened (name : Str) (attrs : List (Str × Str)) (x : ℕ) (kids : ℕ → List ℕ)
    (st st' : HtmlState) (kids' : ℕ → List ℕ) : Prop where
  /-- It is the open element. -/
  currentNode : st'.parser.currentNode = x
  /-- The document. -/
  document : st'.parser.document = st.parser.document
  /-- It is a new child of the element that was open. -/
  grown : Grown st.parser.currentNode [x] kids kids' st.dom st'.dom
  /-- Its name and attributes. -/
  element : IsElement (st'.dom.content x) name attrs
  /-- It has no children. -/
  empty : kids' x = []
  /-- It was made. -/
  created : Created st'.dom x
  /-- It was not there before. -/
  late : st.dom.count < x

/-- In a new element the parser goes on. -/
theorem Opened.ready {x : ℕ} {st' : HtmlState} (h : Ready kids st)
    (ho : Opened name attrs x kids st st' kids') : Ready kids' st' where
  inv := ho.grown.inv
  lists := ho.grown.lists
  current := ho.currentNode ▸ ho.created
  document := ho.document ▸ h.document.trans ho.grown.count

/-- A start tag that was written opens a new element. -/
theorem startTag_built (h : Ready kids st) (hname : NameOk name)
    (hattrs : (attrs.map Prod.fst).Nodup) : ∃ st' kids' x,
      htmlHandleToken st (.startTag name (attrs.map fun a => (a.1, some a.2)) false) = some st' ∧
      Opened name attrs x kids st st' kids' := by
  obtain ⟨node, hstart, hnew⟩ :=
    startElement_new st.dom name (attrs.map fun a => (a.1, some a.2))
  obtain ⟨kids', hgrown, hcontent, hempty, hcreated⟩ := Grown.append h.inv h.lists h.current _ hnew.loose
  have hf := startSpecial_flagged { st with
    dom := domNodeAppendChild (st.dom.add node) st.parser.currentNode st.dom.fresh }
    name st.dom.fresh
  have helement : IsElement node.content name attrs :=
    ⟨hnew.type, hnew.tagName, hnew.attrs.trans (setAttrs_nodup hattrs)⟩
  have hpush : htmlHandleStartTag st name (attrs.map fun a => (a.1, some a.2)) false =
      (startSpecial { st with
        dom := domNodeAppendChild (st.dom.add node) st.parser.currentNode st.dom.fresh }
        name st.dom.fresh).modify fun p => { p with currentNode := st.dom.fresh } := by
    unfold htmlHandleStartTag
    rw [hstart]
    simp [hname.notVoid]
  refine ⟨_, kids', st.dom.fresh, congrArg some hpush, rfl, hf.kept.document, ?_, ?_, hempty, ?_,
    Nat.lt_succ_self _⟩
  · simp only [HtmlState.modify, hf.dom]
    exact hgrown
  · simp only [HtmlState.modify, hf.dom]
    exact hcontent ▸ helement
  · simp only [HtmlState.modify, hf.dom]
    exact hcreated

/-- The matching end tag closes it, after its children. -/
theorem endTag_built {children : Forest} {x : ℕ} {st₁ st₂ : HtmlState}
    (h : Ready kids st) (hopen : Opened name attrs x kids st st₁ kids₁)
    (hbuilt : Built children kids₁ st₁ st₂ kids₂ xs) : ∃ st₃,
      htmlHandleToken st₂ (.endTag name [] false) = some st₃ ∧
      Built (.element name attrs children .nil) kids st st₃ kids₂ [x] := by
  have hcur₂ : st₂.parser.currentNode = x := hbuilt.currentNode.trans hopen.currentNode
  have hdoc₂ : st₂.parser.document = st.parser.document := hbuilt.document.trans hopen.document
  have hgrown : Grown x xs kids₁ kids₂ st₁.dom st₂.dom := hopen.currentNode ▸ hbuilt.grown
  have hwhole : Grown st.parser.currentNode [x] kids kids₂ st.dom st₂.dom :=
    hopen.grown.below hgrown h.current hopen.late
  have helement : IsElement (st₂.dom.content x) name attrs := by
    rw [hgrown.content x hopen.created]
    exact hopen.element
  have hcreated : Created st₂.dom x := hopen.created.mono hgrown.count
  have hparent : st₂.dom.parent x = st.parser.currentNode := by
    apply And.right
    apply (hwhole.lists.mem _ x h.current.1).mp
    rw [hwhole.children]
    exact List.mem_append_right _ (List.mem_singleton_self x)
  have hfind : findOpen st₂.dom st₂.parser.document name (st₂.dom.count + 1)
      st₂.parser.currentNode = some (some x) := by
    have hdone : ¬ (x = 0 ∨ x = st.parser.document) :=
      not_or.mpr ⟨hcreated.1, (h.document.trans_lt hopen.late).ne'⟩
    have hmatch : (st₂.dom.nodes x).type = .element ∧
        (st₂.dom.nodes x).tagName.any fun other => sameCase other name := by
      have htag : (st₂.dom.nodes x).tagName = some name := helement.tagName
      refine ⟨helement.type, ?_⟩
      rw [htag]
      exact sameCase_self name
    unfold findOpen
    rw [hcur₂, hdoc₂, if_neg hdone, if_pos hmatch]
  have hf := endSpecial_flagged
    (st₂.modify fun p => { p with currentNode := st.parser.currentNode }) name
  refine ⟨_, ?_, ⟨hf.currentNode, hf.kept.document.trans hdoc₂, ?_, ?_⟩⟩
  · rw [htmlHandleToken, htmlHandleEndTag, hfind]
    simp only [Option.map_some, hparent, if_pos h.current.1]
  · rw [hf.dom]
    exact hwhole
  · rw [hf.dom]
    refine ⟨x, [], rfl, hopen.late, hcreated.2, helement, ?_, rfl⟩
    have hchildren : kids₂ x = xs := by rw [hgrown.children, hopen.empty, List.nil_append]
    rw [hchildren]
    exact hbuilt.reads.mono (.refl 0 hgrown.inv hgrown.lists) (Nat.zero_le _)
      hopen.grown.count

/-- A text that was written becomes a new child. -/
theorem text_built (h : Ready kids st) (hdata : data ≠ []) : ∃ st' kids' xs,
      htmlHandleToken st (.text data) = some st' ∧
      Built (.text data .nil) kids st st' kids' xs := by
  obtain ⟨kids', hgrown, hcontent, hempty, hcreated⟩ := Grown.append h.inv h.lists h.current
    { blankNode .text with data := some data, textContent := some data }
    ⟨rfl, rfl, rfl, rfl, rfl⟩
  have htext : htmlHandleText st data = { st with
      dom := domNodeAppendChild (st.dom.add
        { blankNode .text with data := some data, textContent := some data })
        st.parser.currentNode st.dom.fresh } := if_neg hdata
  refine ⟨_, kids', [st.dom.fresh], congrArg some htext, rfl, rfl, hgrown, st.dom.fresh, [], rfl,
    Nat.lt_succ_self _, hcreated.2, ?_, hempty, rfl⟩
  exact hcontent ▸ ⟨rfl, rfl, rfl⟩

/-- The first tree of a forest, alone. -/
def Forest.head : Forest → Forest
  | .nil => .nil
  | .element name attrs children _ => .element name attrs children .nil
  | .text data _ => .text data .nil

/-- The trees after the first one. -/
def Forest.tail : Forest → Forest
  | .nil => .nil
  | .element _ _ _ next => next
  | .text _ next => next

/-- **A tree, and the trees after it.** -/
theorem Built.cons {f : Forest} {st₁ st₂ : HtmlState} (hr : Ready kids st)
    (h : Built f.head kids st st₁ kids₁ xs) (h' : Built f.tail kids₁ st₁ st₂ kids₂ ys) :
    Built f kids st st₂ kids₂ (xs ++ ys) := by
  have hgrown : Grown st.parser.currentNode ys kids₁ kids₂ st₁.dom st₂.dom :=
    h.currentNode ▸ h'.grown
  have hhead : Reads kids₂ st₂.dom st.dom.count f.head xs := h.reads.mono hgrown hr.current.2 le_rfl
  have htail : Reads kids₂ st₂.dom st.dom.count f.tail ys :=
    h'.reads.mono (.refl 0 hgrown.inv hgrown.lists) (Nat.zero_le _) h.grown.count
  refine ⟨h'.currentNode.trans h.currentNode, h'.document.trans h.document, h.grown.trans hgrown,
    ?_⟩
  cases f with
  | nil =>
    rw [show xs = [] from hhead]
    exact htail
  | element name attrs children next =>
    obtain ⟨x, zs, rfl, hx, hcount, helement, hchildren, rfl⟩ := hhead
    exact ⟨x, ys, rfl, hx, hcount, helement, hchildren, htail⟩
  | text data next =>
    obtain ⟨x, zs, rfl, hx, hcount, htext, hempty, rfl⟩ := hhead
    exact ⟨x, ys, rfl, hx, hcount, htext, hempty, htail⟩

/-- **The loop** reads a forest that was written, and goes on behind it. -/
theorem buildLoop_forest (f : Forest) (hf : f.Ok) (hr : ∀ c, r.head? = some c → c = chr '<')
    (h : Ready kids st) : ∃ st' kids' xs, buildLoop st (f.serialize ++ r) = buildLoop st' r ∧
      Built f kids st st' kids' xs := by
  induction f generalizing st kids r with
  | nil => exact ⟨st, kids, [], rfl, rfl, rfl, .refl _ h.inv h.lists, rfl⟩
  | element name attrs children next ihc ihn =>
    obtain ⟨hname, hnodup, hattrs, hchildren, hnext⟩ := hf
    have hwritten : (Forest.element name attrs children next).serialize ++ r =
        chr '<' :: (name ++ (serializeAttrs attrs ++ chr '>' :: (children.serialize ++
          chr '<' :: chr '/' :: (name ++ chr '>' :: (next.serialize ++ r))))) := by
      simp [Forest.serialize]
    rw [hwritten, buildLoop_some (startTag_token hname hattrs)]
    have h₀ := h.at (children.serialize ++
      chr '<' :: chr '/' :: (name ++ chr '>' :: (next.serialize ++ r)))
    obtain ⟨st₁, kids₁, x, hstart, hopen⟩ := startTag_built h₀ hname hnodup
    rw [hstart, Option.bind_some]
    obtain ⟨st₂, kids₂, xs, hloop₂, hbuilt₂⟩ := ihc hchildren
      (r := chr '<' :: chr '/' :: (name ++ chr '>' :: (next.serialize ++ r)))
      (fun c hc => by cases hc; rfl) (hopen.ready h₀)
    rw [hloop₂, buildLoop_some (endTag_token hname)]
    obtain ⟨st₃, hend, hbuilt₃⟩ := endTag_built h₀ hopen (hbuilt₂.at (next.serialize ++ r))
    rw [hend, Option.bind_some]
    obtain ⟨st₄, kids₄, ys, hloop₄, hbuilt₄⟩ := ihn hnext hr (hbuilt₃.ready h₀)
    exact ⟨st₄, kids₄, [x] ++ ys, hloop₄, Built.cons h hbuilt₃.of_at hbuilt₄⟩
  | text data next ih =>
    obtain ⟨hdata, hno, hnext⟩ := hf
    have hwritten : (Forest.text data next).serialize ++ r = data ++ (next.serialize ++ r) :=
      List.append_assoc ..
    have hne : data ≠ [] := by
      obtain ⟨c, t, rfl, -⟩ := hdata.head
      exact List.cons_ne_nil c t
    rw [hwritten, buildLoop_some (text_token hdata (serialize_head hno hr))]
    have h₀ := h.at (next.serialize ++ r)
    obtain ⟨st₁, kids₁, xs, htoken, hbuilt₁⟩ := text_built h₀ hne
    rw [htoken, Option.bind_some]
    obtain ⟨st₂, kids₂, ys, hloop₂, hbuilt₂⟩ := ih hnext hr (hbuilt₁.ready h₀)
    exact ⟨st₂, kids₂, xs ++ ys, hloop₂, Built.cons h hbuilt₁.of_at hbuilt₂⟩

/-- What was written is a string. -/
theorem serializeAttrs_nonzero (h : ∀ a ∈ attrs, AttrOk a) : 0 ∉ serializeAttrs attrs := by
  induction attrs with
  | nil => exact List.not_mem_nil
  | cons a attrs ih =>
    have ha := h a List.mem_cons_self
    have hname : 0 ∉ a.1 := fun hmem => (ha.name 0 hmem).1 rfl
    have hvalue : 0 ∉ a.2 := fun hmem => (ha.value 0 hmem).1 rfl
    have hrest := ih fun b hb => h b (List.mem_cons_of_mem a hb)
    have hmarks : (0 : UInt8) ≠ chr ' ' ∧ (0 : UInt8) ≠ chr '=' ∧ (0 : UInt8) ≠ chr '"' := by
      decide
    simp only [serializeAttrs, List.mem_cons, List.mem_append, not_or]
    tauto

theorem serialize_nonzero {f : Forest} (hf : f.Ok) : 0 ∉ f.serialize := by
  induction f with
  | nil => exact List.not_mem_nil
  | element name attrs children next ihc ihn =>
    obtain ⟨hname, -, hattrs, hchildren, hnext⟩ := hf
    have hzero : 0 ∉ name := by
      intro hmem
      have hchar := hname.nameChars 0 hmem
      revert hchar
      decide
    have hwritten := serializeAttrs_nonzero hattrs
    have hinside := ihc hchildren
    have hafter := ihn hnext
    have hmarks : (0 : UInt8) ≠ chr '<' ∧ (0 : UInt8) ≠ chr '/' ∧ (0 : UInt8) ≠ chr '>' := by
      decide
    simp only [Forest.serialize, List.mem_cons, List.mem_append, not_or]
    tauto
  | text data next ih =>
    obtain ⟨hdata, -, hnext⟩ := hf
    have hzero : 0 ∉ data := fun hmem => (hdata.chars 0 hmem).1 rfl
    have hafter := ih hnext
    simp only [Forest.serialize, List.mem_append, not_or]
    exact ⟨hzero, hafter⟩

/-- A string without a zero is all of it. -/
theorem takeWhile_nonzero {s : Str} (h : 0 ∉ s) : s.takeWhile (· != 0) = s := by
  have hall : ∀ c ∈ s, (c != 0) = true := by
    intro c hc
    rw [bne_iff_ne]
    rintro rfl
    exact h hc
  have htake := takeWhile_to (r := []) hall (fun c hc => by cases hc)
  rwa [List.append_nil] at htake

/-- `html_document_create` makes a document, which is empty. -/
def MakesDocument (create : Dom → Option (ℕ × Dom)) : Prop :=
  ∀ d, ∃ node, create d = some (d.fresh, d.add node) ∧ node.type = .document ∧ Loose node

/-- **The round trip.** In any memory, `html_parser_parse` builds from a forest that was written
a document whose children are that forest. -/
theorem html_round_trip {create : Dom → Option (ℕ × Dom)} (hcreate : MakesDocument create)
    {calls : List DomCall} {st : HtmlState} (hrun : run domStep noNodes calls = some st.dom)
    {f : Forest} (hf : f.Ok) :
    ∃ node st', htmlParserParse create st f.serialize = some (some node, st') ∧
      ForestAt st'.dom node (st'.dom.first node) f := by
  have hinv : DomInv st.dom := run_inv hrun
  obtain ⟨node, hnode, -, hloose⟩ := hcreate st.dom
  obtain ⟨kids, hk⟩ := hinv.lists
  obtain ⟨hlists, hempty, -⟩ := hinv.lists_add hk hloose
  have hinput := takeWhile_nonzero (serialize_nonzero hf)
  unfold htmlParserParse htmlBuildDomTree
  simp only [HtmlState.modify, hnode, hinput]
  generalize hst : ({ parser := _, doc := _, dom := _ } : HtmlState) = st₀
  have hstart : st₀.dom = st.dom.add node ∧ st₀.parser.currentNode = st.dom.fresh ∧
      st₀.parser.document = st.dom.fresh := hst ▸ ⟨rfl, rfl, rfl⟩
  obtain ⟨hdom, hcurrent, hdocument⟩ := hstart
  have hready : Ready kids st₀ := by
    refine ⟨?_, ?_, ?_, ?_⟩
    · exact hdom ▸ hinv.add hloose
    · exact hdom ▸ hlists
    · rw [hdom, hcurrent]
      exact ⟨Nat.succ_ne_zero _, le_rfl⟩
    · rw [hdom, hdocument]
      exact le_rfl
  obtain ⟨st', kids', xs, hloop, hbuilt⟩ :=
    buildLoop_forest f hf (r := []) (fun c hc => by cases hc) hready
  have hend : buildLoop st' [] = some (st'.at []) := buildLoop_none rfl
  rw [List.append_nil, hend] at hloop
  have hchildren : kids' st.dom.fresh = xs := by
    rw [← hcurrent, hbuilt.grown.children, hcurrent, hempty, List.nil_append]
  have hfresh : st.dom.fresh ≠ 0 := Nat.succ_ne_zero _
  refine ⟨st.dom.fresh, st'.at [], by rw [hloop]; rfl, ?_⟩
  apply hbuilt.reads.forestAt hbuilt.grown.lists
  · rw [← hchildren]
    exact (hbuilt.grown.lists.list _ hfresh).seg
  · intro x hx
    rw [← hchildren] at hx
    exact ((hbuilt.grown.lists.mem _ x hfresh).mp hx).2

theorem documentCreate_makes : MakesDocument documentCreate :=
  fun _ => ⟨blankNode .document, rfl, rfl, rfl, rfl, rfl, rfl, rfl⟩

/-- `<p id="a">x<p>y</p></p>`: an element in one of the same name. -/
def nested : Forest :=
  .element (str "p") [(str "id", str "a")]
    (.text (str "x") (.element (str "p") [] (.text (str "y") .nil) .nil)) .nil

theorem nested_ok : nested.Ok := by
  have hp : NameOk (str "p") := ⟨by decide, by decide +kernel, by decide +kernel⟩
  have hid : AttrOk (str "id", str "a") :=
    ⟨by decide, by decide +kernel, by decide +kernel⟩
  have hx : TextOk (str "x") := ⟨⟨chr 'x', [], rfl, rfl⟩, by decide +kernel⟩
  have hy : TextOk (str "y") := ⟨⟨chr 'y', [], rfl, rfl⟩, by decide +kernel⟩
  refine ⟨hp, by decide, ?_, ⟨hx, trivial, hp, by decide, ?_, ⟨hy, trivial, trivial⟩, trivial⟩,
    trivial⟩
  · intro a ha
    rw [List.mem_singleton.mp ha]
    exact hid
  · exact fun a ha => absurd ha List.not_mem_nil

/-- The document of `nested`. -/
theorem html_round_trip_nested : ∃ node st',
    htmlParserParse documentCreate (newParser noNodes) nested.serialize = some (some node, st') ∧
      ForestAt st'.dom node (st'.dom.first node) nested :=
  @html_round_trip _ documentCreate_makes [] _ rfl _ nested_ok

end PrismaticOS.Html
