import PrismaticOS.Html.Dom
import PrismaticOS.Library.Forests

/-!
# Finding an element by its id

`dom_document_get_element_by_id` begins at the first child of the document and searches below it.
It does not go on to the other children of the document.

## The model

A document is any memory where the links from its first child on are those of a forest. The nodes
of a forest are listed in document order.

## What is proved

* `searchChildren_threads` — the search in a forest.
* `element_by_id_iff` — the first element with the id is found exactly if it is the first child of
  the document or below it, or there is none.
-/

namespace PrismaticOS.Html

open PrismaticOS.Library PrismaticOS.Libc

variable {d : Dom} {id : Str} {head doc root fuel : ℕ} {xs : List ℕ} {f below : Library.Forest ℕ}

/-! ### The search -/

/-- What the search should return: the first one of the nodes with the id, or `NULL`. -/
def firstWithId (d : Dom) (id : Str) (nodes : List ℕ) : ℕ := (nodes.find? (hasId d id)).getD 0

theorem firstWithId_eq_zero (h : ∀ x ∈ xs, x ≠ 0) :
    firstWithId d id xs = 0 ↔ ∀ x ∈ xs, hasId d id x = false := by
  unfold firstWithId
  cases hfind : xs.find? (hasId d id) with
  | none => simpa using hfind
  | some x =>
    have hmem := List.mem_of_find?_eq_some hfind
    have hid := List.find?_some hfind
    refine iff_of_false (h x hmem) fun hall => ?_
    rw [hall x hmem] at hid
    cases hid

/-- The search in a list goes on where it found nothing. -/
theorem firstWithId_append (h : ∀ x ∈ xs, x ≠ 0) (ys : List ℕ) : firstWithId d id (xs ++ ys) =
    if firstWithId d id xs ≠ 0 then firstWithId d id xs else firstWithId d id ys := by
  unfold firstWithId
  rw [List.find?_append]
  cases hfind : xs.find? (hasId d id) with
  | none => simp
  | some x =>
    have hx := h x (List.mem_of_find?_eq_some hfind)
    simp [hx]

/-- The search below a node, if the loop over its children returns. -/
theorem search_root (hroot : root ≠ 0)
    (hchildren : searchChildren d id fuel (d.first root) = some (firstWithId d id below.nodes)) :
    domNodeGetElementByIdRecursive d id (fuel + 1) root =
      some (firstWithId d id (root :: below.nodes)) := by
  rw [domNodeGetElementByIdRecursive, if_neg hroot, hchildren]
  unfold firstWithId
  rw [List.find?_cons]
  cases hid : hasId d id root with
  | true => rfl
  | false => rfl

/-- **The loop over the children** finds the first one in the forest. -/
theorem searchChildren_threads (h : Threads d.next d.first head f)
    (hfuel : 2 * f.nodes.length + 1 ≤ fuel) :
    searchChildren d id fuel head = some (firstWithId d id f.nodes) := by
  induction f generalizing head fuel with
  | nil =>
    obtain ⟨fuel, rfl⟩ := Nat.exists_eq_add_of_le' hfuel
    exact if_pos h
  | tree root below after ihb iha =>
    obtain ⟨rfl, hroot, hbelow, hafter⟩ := h
    have hlength : (Library.Forest.tree head below after).nodes.length =
        below.nodes.length + after.nodes.length + 1 := by simp [Library.Forest.nodes]
    rw [hlength] at hfuel
    obtain ⟨fuel, rfl⟩ := Nat.exists_eq_add_of_le' (show 2 ≤ fuel by omega)
    have hchildren : searchChildren d id fuel (d.first head) =
        some (firstWithId d id below.nodes) := ihb hbelow (by omega)
    have hsearch := search_root hroot hchildren
    have hnodes : ∀ x ∈ head :: below.nodes, x ≠ 0 := by
      intro x hx
      rcases List.mem_cons.mp hx with rfl | hx
      · exact hroot
      · exact hbelow.ne_zero hx
    rw [searchChildren, if_neg hroot, hsearch, Option.bind_some, iha hafter (by omega)]
    rw [← apply_ite some, ← firstWithId_append hnodes after.nodes]
    rfl

/-! ### The document -/

/-- With enough fuel the search returns the first one of the nodes that has the id, and `NULL`
exactly if none has it. -/
def FindsFirst (d : Dom) (doc : ℕ) (id : Str) (nodes : List ℕ) : Prop :=
  ∃ result least, (∀ fuel, least ≤ fuel → domDocumentGetElementById d fuel doc id = some result) ∧
    (∀ x, nodes.find? (hasId d id) = some x → result = x) ∧
    (result = 0 ↔ ∀ x ∈ nodes, hasId d id x = false)

/-- **The document is searched** in its first child only. -/
theorem documentSearch_threads (h : Threads d.next d.first (d.first doc) f)
    (hfuel : 2 * f.nodes.length + 1 ≤ fuel) :
    domDocumentGetElementById d fuel doc id = some (firstWithId d id f.firstTree) := by
  obtain ⟨fuel, rfl⟩ := Nat.exists_eq_add_of_le' (show 1 ≤ fuel by omega)
  unfold domDocumentGetElementById
  cases f with
  | nil =>
    have hempty : d.first doc = 0 := h
    rw [domNodeGetElementByIdRecursive, if_pos hempty]
    rfl
  | tree root below after =>
    obtain ⟨hhead, hroot, hbelow, -⟩ := h
    have hlength : (Library.Forest.tree root below after).nodes.length =
        below.nodes.length + after.nodes.length + 1 := by simp [Library.Forest.nodes]
    rw [hlength] at hfuel
    rw [hhead]
    exact search_root hroot (searchChildren_threads hbelow (by omega))

/-- What is found, in a document that is searched in this way. -/
theorem findsFirst_iff (h : Threads d.next d.first (d.first doc) f) :
    FindsFirst d doc id f.nodes ↔
      (∀ x, f.nodes.find? (hasId d id) = some x → firstWithId d id f.firstTree = x) ∧
      (firstWithId d id f.firstTree = 0 ↔ ∀ x ∈ f.nodes, hasId d id x = false) := by
  constructor
  · rintro ⟨result, least, hreturns, hresult⟩
    have hfound := hreturns (max least (2 * f.nodes.length + 1)) (le_max_left _ _)
    rw [documentSearch_threads h (le_max_right _ _)] at hfound
    rwa [Option.some.inj hfound]
  · intro hresult
    exact ⟨_, 2 * f.nodes.length + 1, fun fuel hfuel => documentSearch_threads h hfuel, hresult⟩

/-- **Finding an element by its id.** In every document, the search finds the first element with the
id in document order, or `NULL` if there is none, exactly if the first child of the document or a
node below it has the id, or no node has it. -/
theorem element_by_id_iff (h : Threads d.next d.first (d.first doc) f) (id : Str) :
    FindsFirst d doc id f.nodes ↔
      (∃ x ∈ f.firstTree, hasId d id x = true) ∨ ∀ x ∈ f.nodes, hasId d id x = false := by
  have hnodes : ∀ x ∈ f.firstTree, x ≠ 0 := fun x hx => h.ne_zero (f.firstTree_prefix.subset hx)
  rw [findsFirst_iff h]
  constructor
  · rintro ⟨-, hnull⟩
    by_contra hno
    rw [not_or] at hno
    apply hno.2
    rw [← hnull, firstWithId_eq_zero hnodes]
    intro x hx
    rw [Bool.eq_false_iff]
    exact fun hid => hno.1 ⟨x, hx, hid⟩
  · rintro (⟨x, hx, hid⟩ | hnone)
    · obtain ⟨rest, heq⟩ := f.firstTree_prefix
      obtain ⟨y, hy⟩ := Option.isSome_iff_exists.mp (List.find?_isSome.mpr ⟨x, hx, hid⟩)
      have hfind : f.nodes.find? (hasId d id) = some y := by
        rw [← heq, List.find?_append, hy]
        rfl
      have hfirst : firstWithId d id f.firstTree = y := by rw [firstWithId, hy, Option.getD_some]
      have hmem := List.mem_of_find?_eq_some hy
      refine ⟨fun z hz => ?_, iff_of_false (hfirst ▸ hnodes y hmem) fun hall => ?_⟩
      · rw [hfirst, ← Option.some.inj (hfind.symm.trans hz)]
      · have hid' := hall x (f.firstTree_prefix.subset hx)
        rw [hid] at hid'
        cases hid'
    · have hfirst : firstWithId d id f.firstTree = 0 :=
        (firstWithId_eq_zero hnodes).mpr fun x hx => hnone x (f.firstTree_prefix.subset hx)
      refine ⟨fun z hz => ?_, iff_of_true hfirst hnone⟩
      have hid := List.find?_some hz
      rw [hnone z (List.mem_of_find?_eq_some hz)] at hid
      cases hid

/-- A document, node 1, with two children, of which the second one has the id `x`. -/
def twoChildren : Dom :=
  let d := (domElementCreate (domElementCreate (domDocumentCreate noNodes).1 none).1 none).1
  domNodeAppendChild (domNodeAppendChild
    (d.modify 3 fun node => { node with id := some (str "x") }) 1 2) 1 3

theorem twoChildren_threads : Threads twoChildren.next twoChildren.first (twoChildren.first 1)
    (.tree 2 .nil (.tree 3 .nil .nil)) :=
  ⟨rfl, by decide, rfl, rfl, by decide, rfl, rfl⟩

/-- No element has the id `y`. -/
theorem element_by_id_none : FindsFirst twoChildren 1 (str "y") [2, 3] :=
  (element_by_id_iff twoChildren_threads (str "y")).mpr (.inr (by decide))

/-- The second child is not found. -/
theorem element_by_id_second : ¬ ∀ (d : Dom) (doc : ℕ) (f : Library.Forest ℕ) (id : Str),
    Threads d.next d.first (d.first doc) f → FindsFirst d doc id f.nodes := by
  intro h
  obtain ⟨-, hnull⟩ := (findsFirst_iff twoChildren_threads).mp
    (h twoChildren 1 _ (str "x") twoChildren_threads)
  revert hnull
  decide

end PrismaticOS.Html
