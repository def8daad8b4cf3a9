import PrismaticOS.Library.LinkedList
import PrismaticOS.Library.Runs
import PrismaticOS.Libc.Ctype

/-!
# The document tree

`html/src/dom/dom.c`: nodes, the lists of their children, their attributes and classes.

## The model

A node is the number of the allocation that made it, from 1 on; 0 is `NULL`. Strings are
lists of bytes without the final zero, and the arrays of attributes and of class names are
lists. Allocations succeed. Computed styles, layout boxes, listeners and the fields that only
a document or an element has are left out, but for the `data` of a text node.
-/

namespace PrismaticOS.Html

open PrismaticOS.Library PrismaticOS.Libc

/-- `dom_node_type_t`. -/
inductive DomNodeType where
  /-- `DOM_NODE_TYPE_ELEMENT`. -/
  | element
  /-- `DOM_NODE_TYPE_TEXT`. -/
  | text
  /-- `DOM_NODE_TYPE_COMMENT`. -/
  | comment
  /-- `DOM_NODE_TYPE_DOCUMENT`. -/
  | document
  /-- `DOM_NODE_TYPE_DOCUMENT_FRAGMENT`. -/
  | documentFragment
  deriving DecidableEq

/-- A `dom_node_t`. -/
structure DomNode where
  /-- What it is. -/
  type : DomNodeType
  /-- The name of an element. -/
  tagName : Option Str
  /-- The attribute `id`. -/
  id : Option Str
  /-- The classes. -/
  classNames : List Str
  /-- The names and values of the attributes. -/
  attrs : List (Str × Option Str)
  /-- The text. -/
  textContent : Option Str
  /-- The text of a `dom_text_t`. -/
  data : Option Str
  /-- The node that it is a child of. -/
  parent : ℕ
  /-- The first child. -/
  firstChild : ℕ
  /-- The last child. -/
  lastChild : ℕ
  /-- The child of the same node before it. -/
  prevSibling : ℕ
  /-- The child of the same node after it. -/
  nextSibling : ℕ

/-- Memory with nodes. -/
structure Dom where
  /-- The nodes. -/
  nodes : ℕ → DomNode
  /-- How many were made. -/
  count : ℕ

/-- A node that `memset` cleared, but for its type. -/
def blankNode (type : DomNodeType) : DomNode :=
  ⟨type, none, none, [], [], none, none, 0, 0, 0, 0, 0⟩

/-- Memory without nodes. -/
def noNodes : Dom := ⟨fun _ => blankNode .element, 0⟩

/-- What a node's pointer points at changes. -/
def Dom.modify (d : Dom) (node : ℕ) (f : DomNode → DomNode) : Dom :=
  { d with nodes := Function.update d.nodes node (f (d.nodes node)) }

/-- The node that the next allocation makes. -/
def Dom.fresh (d : Dom) : ℕ := d.count + 1

/-- A node is made. -/
def Dom.add (d : Dom) (n : DomNode) : Dom :=
  { nodes := Function.update d.nodes d.fresh n, count := d.count + 1 }

/-! ### Making nodes -/

/-- `dom_node_create`. -/
def domNodeCreate (d : Dom) (type : DomNodeType) : Dom × ℕ := (d.add (blankNode type), d.fresh)

/-- `dom_document_create`, but for the URL. -/
def domDocumentCreate (d : Dom) : Dom × ℕ := (d.add (blankNode .document), d.fresh)

/-- `dom_element_create`. -/
def domElementCreate (d : Dom) (tagName : Option Str) : Dom × ℕ :=
  (d.add { blankNode .element with tagName := tagName }, d.fresh)

/-- `dom_text_create`. -/
def domTextCreate (d : Dom) (data : Option Str) : Dom × ℕ :=
  (d.add { blankNode .text with data := data, textContent := data }, d.fresh)

/-! ### Links -/

namespace Dom

variable (d : Dom) (n v : ℕ)

/-- `node->parent`. -/
def parent (c : ℕ) : ℕ := (d.nodes c).parent

/-- `node->first_child`. -/
def first (p : ℕ) : ℕ := (d.nodes p).firstChild

/-- `node->last_child`. -/
def last (p : ℕ) : ℕ := (d.nodes p).lastChild

/-- `node->prev_sibling`. -/
def prev (c : ℕ) : ℕ := (d.nodes c).prevSibling

/-- `node->next_sibling`. -/
def next (c : ℕ) : ℕ := (d.nodes c).nextSibling

/-- `node->parent = v`. -/
def setParent : Dom := d.modify n fun node => { node with parent := v }

/-- `node->first_child = v`. -/
def setFirst : Dom := d.modify n fun node => { node with firstChild := v }

/-- `node->last_child = v`. -/
def setLast : Dom := d.modify n fun node => { node with lastChild := v }

/-- `node->prev_sibling = v`. -/
def setPrev : Dom := d.modify n fun node => { node with prevSibling := v }

/-- `node->next_sibling = v`. -/
def setNext : Dom := d.modify n fun node => { node with nextSibling := v }

end Dom

/-! ### Children -/

/-- `dom_node_remove_child`. -/
def domNodeRemoveChild (d : Dom) (parent child : ℕ) : Dom :=
  if parent = 0 ∨ child = 0 ∨ d.parent child ≠ parent then d
  else
    let d := if d.first parent = child then d.setFirst parent (d.next child) else d
    let d := if d.last parent = child then d.setLast parent (d.prev child) else d
    let d := if d.prev child ≠ 0 then d.setNext (d.prev child) (d.next child) else d
    let d := if d.next child ≠ 0 then d.setPrev (d.next child) (d.prev child) else d
    ((d.setParent child 0).setPrev child 0).setNext child 0

/-- `dom_node_append_child`. -/
def domNodeAppendChild (d : Dom) (parent child : ℕ) : Dom :=
  if parent = 0 ∨ child = 0 then d
  else
    let d := if d.parent child ≠ 0 then domNodeRemoveChild d (d.parent child) child else d
    let d := d.setParent child parent
    if d.first parent = 0 then (d.setFirst parent child).setLast parent child
    else
      let d := d.setNext (d.last parent) child
      let d := d.setPrev child (d.last parent)
      d.setLast parent child

/-- A node that is linked with nothing. -/
structure Loose (node : DomNode) : Prop where
  /-- No parent. -/
  parent : node.parent = 0
  /-- No first child. -/
  first : node.firstChild = 0
  /-- No last child. -/
  last : node.lastChild = 0
  /-- No node before it. -/
  prev : node.prevSibling = 0
  /-- No node after it. -/
  next : node.nextSibling = 0

/-- A node without its links. -/
def DomNode.content (node : DomNode) : DomNode :=
  { node with parent := 0, firstChild := 0, lastChild := 0, prevSibling := 0, nextSibling := 0 }

/-- `node`, but for its links. -/
def Dom.content (d : Dom) (n : ℕ) : DomNode := (d.nodes n).content

/-! ### Attributes and classes -/

/-- The loop of `dom_node_set_attribute` over the attributes: the first one with the name
gets the value, or a new one is added. -/
def setAttr (name : Str) (value : Option Str) : List (Str × Option Str) → List (Str × Option Str)
  | [] => [(name, value)]
  | (n, v) :: attrs => if n = name then (n, value) :: attrs else (n, v) :: setAttr name value attrs

/-- `dom_node_set_attribute`. -/
def domNodeSetAttribute (d : Dom) (node : ℕ) (name : Str) (value : Option Str) : Dom :=
  d.modify node fun n => { n with attrs := setAttr name value n.attrs }

/-- `dom_node_get_attribute`: `NULL` also for an attribute without a value. -/
def domNodeGetAttribute (d : Dom) (node : ℕ) (name : Str) : Option Str :=
  ((d.nodes node).attrs.find? fun a => a.1 = name).bind Prod.snd

/-- `dom_node_add_class`. -/
def domNodeAddClass (d : Dom) (node : ℕ) (className : Str) : Dom :=
  if className ∈ (d.nodes node).classNames then d
  else d.modify node fun n => { n with classNames := n.classNames ++ [className] }

/-- `dom_node_has_class`. -/
def domNodeHasClass (d : Dom) (node : ℕ) (className : Str) : Bool :=
  (d.nodes node).classNames.any fun c => c = className

/-- The test of `dom_node_get_element_by_id_recursive` for a node. -/
def hasId (d : Dom) (id : Str) (node : ℕ) : Bool :=
  (d.nodes node).type = .element && (d.nodes node).id.any fun own => own = id

mutual

/-- `dom_node_get_element_by_id_recursive`, with the node it returns or 0 for `NULL`, where the
links are followed at most as often as `fuel` says. -/
def domNodeGetElementByIdRecursive (d : Dom) (id : Str) : ℕ → ℕ → Option ℕ
  | 0, _ => none
  | fuel + 1, node =>
    if node = 0 then some 0
    else if hasId d id node then some node
    else searchChildren d id fuel (d.first node)

/-- Its loop over the children. -/
def searchChildren (d : Dom) (id : Str) : ℕ → ℕ → Option ℕ
  | 0, _ => none
  | fuel + 1, child =>
    if child = 0 then some 0
    else
      (domNodeGetElementByIdRecursive d id fuel child).bind fun result =>
        if result ≠ 0 then some result else searchChildren d id fuel (d.next child)

end

/-- `dom_document_get_element_by_id`. -/
def domDocumentGetElementById (d : Dom) (fuel doc : ℕ) (id : Str) : Option ℕ :=
  domNodeGetElementByIdRecursive d id fuel (d.first doc)

/-! ### What a change leaves -/

namespace Dom

variable (d : Dom) (n v : ℕ) (f : DomNode → DomNode)

theorem modify_self : (d.modify n f).nodes n = f (d.nodes n) := Function.update_self ..

variable {n} in
theorem modify_of_ne {m : ℕ} (h : m ≠ n) : (d.modify n f).nodes m = d.nodes m :=
  Function.update_of_ne h ..

theorem add_fresh (node : DomNode) : (d.add node).nodes d.fresh = node := Function.update_self ..

theorem add_of_ne (node : DomNode) {m : ℕ} (h : m ≠ d.fresh) :
    (d.add node).nodes m = d.nodes m := Function.update_of_ne h ..

/-- A field that a change sets. -/
theorem field_set {g : DomNode → ℕ} (h : ∀ node, g (f node) = v) :
    (fun m => g ((d.modify n f).nodes m)) = Function.update (fun m => g (d.nodes m)) n v := by
  funext m
  by_cases hm : m = n
  · rw [hm, modify_self, h, Function.update_self]
  · rw [modify_of_ne d f hm, Function.update_of_ne hm]

/-- What a change keeps. -/
theorem field_kept {β : Type} {g : DomNode → β} (h : ∀ node, g (f node) = g node) :
    (fun m => g ((d.modify n f).nodes m)) = fun m => g (d.nodes m) := by
  funext m
  by_cases hm : m = n
  · rw [hm, modify_self, h]
  · rw [modify_of_ne d f hm]

@[simp] theorem modify_count : (d.modify n f).count = d.count := rfl

@[simp] theorem setParent_content : (d.setParent n v).content = d.content :=
  field_kept d n _ fun _ => rfl

@[simp] theorem setFirst_content : (d.setFirst n v).content = d.content :=
  field_kept d n _ fun _ => rfl

@[simp] theorem setLast_content : (d.setLast n v).content = d.content :=
  field_kept d n _ fun _ => rfl

@[simp] theorem setPrev_content : (d.setPrev n v).content = d.content :=
  field_kept d n _ fun _ => rfl

@[simp] theorem setNext_content : (d.setNext n v).content = d.content :=
  field_kept d n _ fun _ => rfl

@[simp] theorem setParent_count : (d.setParent n v).count = d.count := rfl

@[simp] theorem setFirst_count : (d.setFirst n v).count = d.count := rfl

@[simp] theorem setLast_count : (d.setLast n v).count = d.count := rfl

@[simp] theorem setPrev_count : (d.setPrev n v).count = d.count := rfl

@[simp] theorem setNext_count : (d.setNext n v).count = d.count := rfl

@[simp] theorem setParent_parent : (d.setParent n v).parent = Function.update d.parent n v :=
  field_set d n v _ fun _ => rfl

@[simp] theorem setParent_first : (d.setParent n v).first = d.first := field_kept d n _ fun _ => rfl

@[simp] theorem setParent_last : (d.setParent n v).last = d.last := field_kept d n _ fun _ => rfl

@[simp] theorem setParent_prev : (d.setParent n v).prev = d.prev := field_kept d n _ fun _ => rfl

@[simp] theorem setParent_next : (d.setParent n v).next = d.next := field_kept d n _ fun _ => rfl

@[simp] theorem setFirst_parent : (d.setFirst n v).parent = d.parent :=
  field_kept d n _ fun _ => rfl

@[simp] theorem setFirst_first : (d.setFirst n v).first = Function.update d.first n v :=
  field_set d n v _ fun _ => rfl

@[simp] theorem setFirst_last : (d.setFirst n v).last = d.last := field_kept d n _ fun _ => rfl

@[simp] theorem setFirst_prev : (d.setFirst n v).prev = d.prev := field_kept d n _ fun _ => rfl

@[simp] theorem setFirst_next : (d.setFirst n v).next = d.next := field_kept d n _ fun _ => rfl

@[simp] theorem setLast_parent : (d.setLast n v).parent = d.parent := field_kept d n _ fun _ => rfl

@[simp] theorem setLast_first : (d.setLast n v).first = d.first := field_kept d n _ fun _ => rfl

@[simp] theorem setLast_last : (d.setLast n v).last = Function.update d.last n v :=
  field_set d n v _ fun _ => rfl

@[simp] theorem setLast_prev : (d.setLast n v).prev = d.prev := field_kept d n _ fun _ => rfl

@[simp] theorem setLast_next : (d.setLast n v).next = d.next := field_kept d n _ fun _ => rfl

@[simp] theorem setPrev_parent : (d.setPrev n v).parent = d.parent := field_kept d n _ fun _ => rfl

@[simp] theorem setPrev_first : (d.setPrev n v).first = d.first := field_kept d n _ fun _ => rfl

@[simp] theorem setPrev_last : (d.setPrev n v).last = d.last := field_kept d n _ fun _ => rfl

@[simp] theorem setPrev_prev : (d.setPrev n v).prev = Function.update d.prev n v :=
  field_set d n v _ fun _ => rfl

@[simp] theorem setPrev_next : (d.setPrev n v).next = d.next := field_kept d n _ fun _ => rfl

@[simp] theorem setNext_parent : (d.setNext n v).parent = d.parent := field_kept d n _ fun _ => rfl

@[simp] theorem setNext_first : (d.setNext n v).first = d.first := field_kept d n _ fun _ => rfl

@[simp] theorem setNext_last : (d.setNext n v).last = d.last := field_kept d n _ fun _ => rfl

@[simp] theorem setNext_prev : (d.setNext n v).prev = d.prev := field_kept d n _ fun _ => rfl

@[simp] theorem setNext_next : (d.setNext n v).next = Function.update d.next n v :=
  field_set d n v _ fun _ => rfl

end Dom

end PrismaticOS.Html
