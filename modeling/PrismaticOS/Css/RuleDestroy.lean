import PrismaticOS.Library.Accesses
import PrismaticOS.Library.LinkedList

/-!
# Destroying a rule

`css_rule_destroy` goes through the selectors of a rule, and destroys each of them.
`css_selector_destroy` destroys those after it, too.

## The model

A heap has the fields that the functions read. What they do is the list of their accesses to the
blocks of memory; a block keeps its contents when it is freed, so that a function that goes on with
it goes on. `fuel` is the number of calls and turns that there may be.

`css_declaration_destroy` is in no file. It is a parameter, a `DeclarationDestroyer`: it frees its
argument, and nothing else.

## What is proved

* `selectorDestroy_chain` — the selectors are freed from the last one on.
* `ruleDestroy_spec` — what `css_rule_destroy` uses, frees, and when it is in order.
* `rule_destroy_iff` — everything is freed once, and not used after that, exactly if there is at
  most one selector.
-/

namespace PrismaticOS.Css

open PrismaticOS.Library

/-- What `malloc` made. -/
inductive CssBlock where
  /-- A `css_rule_t`. -/
  | rule (p : ℕ)
  /-- A `css_selector_t`. -/
  | selector (p : ℕ)
  /-- A `css_declaration_t`. -/
  | declaration (p : ℕ)
  /-- A string of a selector. -/
  | text (p : ℕ)
  deriving DecidableEq

/-- The block is no string. -/
def CssBlock.isNode : CssBlock → Bool
  | .text _ => false
  | _ => true

/-- The fields of the rules, the selectors and the declarations. -/
structure CssHeap where
  /-- `rule->selectors`. -/
  selectors : ℕ → ℕ
  /-- `rule->declarations`. -/
  declarations : ℕ → ℕ
  /-- `selector->value`. -/
  value : ℕ → ℕ
  /-- `selector->attr_name`. -/
  attrName : ℕ → ℕ
  /-- `selector->attr_value`. -/
  attrValue : ℕ → ℕ
  /-- `selector->next`. -/
  nextSelector : ℕ → ℕ
  /-- `declaration->next`. -/
  nextDeclaration : ℕ → ℕ

/-- A `css_declaration_destroy`: its accesses. -/
structure DeclarationDestroyer where
  /-- The function. -/
  destroy : ℕ → List (Access CssBlock)
  /-- It frees its argument. -/
  freesArgument : ∀ p, frees (destroy p) = [.declaration p]
  /-- It uses nothing else. -/
  own : ∀ p, ∀ a ∈ destroy p, a.target = .declaration p
  /-- It does not use it after that. -/
  noneStale : ∀ p, NoneStale [] (destroy p)

/-- `free` of a string, or of `NULL`. -/
def freeText (p : ℕ) : List (Access CssBlock) := if p = 0 then [] else [.free (.text p)]

/-- `css_selector_destroy`. -/
def cssSelectorDestroy (h : CssHeap) : ℕ → ℕ → Option (List (Access CssBlock))
  | 0, _ => none
  | fuel + 1, p =>
    if p = 0 then some []
    else
      let rest := if h.nextSelector p ≠ 0 then cssSelectorDestroy h fuel (h.nextSelector p)
        else some []
      rest.map fun rest => .deref (.selector p) ::
        (freeText (h.value p) ++ freeText (h.attrName p) ++ freeText (h.attrValue p) ++
          .deref (.selector p) :: (rest ++ [.free (.selector p)]))

/-- The loop of `css_rule_destroy` over the selectors. -/
def destroySelectors (h : CssHeap) : ℕ → ℕ → Option (List (Access CssBlock))
  | 0, _ => none
  | fuel + 1, p =>
    if p = 0 then some []
    else
      (cssSelectorDestroy h fuel p).bind fun log =>
        (destroySelectors h fuel (h.nextSelector p)).map fun rest =>
          .deref (.selector p) :: (log ++ rest)

/-- The loop of `css_rule_destroy` over the declarations. -/
def destroyDeclarations (h : CssHeap) (css : DeclarationDestroyer) :
    ℕ → ℕ → Option (List (Access CssBlock))
  | 0, _ => none
  | fuel + 1, p =>
    if p = 0 then some []
    else
      (destroyDeclarations h css fuel (h.nextDeclaration p)).map fun rest =>
        .deref (.declaration p) :: (css.destroy p ++ rest)

/-- `css_rule_destroy`. -/
def cssRuleDestroy (h : CssHeap) (css : DeclarationDestroyer) (fuel p : ℕ) :
    Option (List (Access CssBlock)) :=
  if p = 0 then some []
  else
    (destroySelectors h fuel (h.selectors p)).bind fun selectors =>
      (destroyDeclarations h css fuel (h.declarations p)).map fun declarations =>
        .deref (.rule p) :: (selectors ++ .deref (.rule p) :: (declarations ++ [.free (.rule p)]))

/-- The accesses to rules, selectors and declarations. -/
def nodeAccesses (log : List (Access CssBlock)) : List (Access CssBlock) :=
  log.filter fun a => a.target.isNode

/-- The rule, its selectors and its declarations are freed, each once, and nothing else is; and
nothing is used or freed after it was freed. -/
structure DestroysOnce (rule : ℕ) (selectors declarations : List ℕ) (log : List (Access CssBlock)) :
    Prop where
  /-- What is freed. -/
  freed : (frees (nodeAccesses log)).Perm
    (.rule rule :: (selectors.map .selector ++ declarations.map .declaration))
  /-- The order. -/
  noneStale : NoneStale [] (nodeAccesses log)

variable {h : CssHeap} {css : DeclarationDestroyer} {p x rule : ℕ} {xs ys : List ℕ}
  {log log' : List (Access CssBlock)} {freed : List CssBlock}

@[simp] theorem nodeAccesses_nil : nodeAccesses [] = [] := rfl

@[simp] theorem nodeAccesses_append :
    nodeAccesses (log ++ log') = nodeAccesses log ++ nodeAccesses log' := List.filter_append ..

@[simp] theorem nodeAccesses_freeText (p : ℕ) : nodeAccesses (freeText p) = [] := by
  unfold freeText
  split_ifs <;> rfl

theorem nodeAccesses_cons {a : Access CssBlock} (ha : a.target.isNode = true) :
    nodeAccesses (a :: log) = a :: nodeAccesses log := List.filter_cons_of_pos ha

/-! ### The selectors -/

/-- `css_selector_destroy` on a chain. -/
def chainAccesses : List ℕ → List (Access CssBlock)
  | [] => []
  | x :: xs =>
    .deref (.selector x) :: .deref (.selector x) :: (chainAccesses xs ++ [.free (.selector x)])

/-- The loop of `css_rule_destroy` on a chain. -/
def loopAccesses : List ℕ → List (Access CssBlock)
  | [] => []
  | x :: xs => .deref (.selector x) :: (chainAccesses (x :: xs) ++ loopAccesses xs)

theorem selectorDestroy_chain (hseg : Seg h.nextSelector p xs 0) :
    ∃ log, (∀ fuel, xs.length < fuel → cssSelectorDestroy h fuel p = some log) ∧
      nodeAccesses log = chainAccesses xs := by
  induction xs generalizing p with
  | nil =>
    refine ⟨[], fun fuel hfuel => ?_, rfl⟩
    obtain ⟨fuel, rfl⟩ := Nat.exists_eq_add_of_le' hfuel
    exact if_pos hseg
  | cons x xs ih =>
    obtain ⟨rfl, hp, hrest⟩ := hseg
    obtain ⟨rest, hdestroy, hnodes⟩ := ih hrest
    refine ⟨.deref (.selector p) ::
      (freeText (h.value p) ++ freeText (h.attrName p) ++ freeText (h.attrValue p) ++
        .deref (.selector p) :: (rest ++ [.free (.selector p)])), fun fuel hfuel => ?_, ?_⟩
    · obtain ⟨fuel, rfl⟩ := Nat.exists_eq_add_of_le' (Nat.zero_lt_of_lt hfuel)
      have hcall := hdestroy fuel (Nat.lt_of_succ_lt_succ hfuel)
      rw [cssSelectorDestroy, if_neg hp]
      by_cases hnext : h.nextSelector p = 0
      · -- the call for `NULL` would do the same
        have hnil : xs = [] := Seg.unique hrest hnext
        have hrest : rest = [] := by
          have hzero := hdestroy 1 (by simp [hnil])
          rw [hnext, cssSelectorDestroy, if_pos rfl] at hzero
          exact (Option.some.inj hzero).symm
        simp [hnext, hrest]
      · simp [hnext, hcall]
    · have hnode : ∀ a : Access CssBlock, a.target = .selector p → a.target.isNode = true := by
        intro a ha
        rw [ha]
        rfl
      rw [nodeAccesses_cons (hnode _ rfl)]
      simp only [nodeAccesses_append, nodeAccesses_freeText, List.nil_append]
      rw [nodeAccesses_cons (hnode _ rfl), nodeAccesses_append, hnodes,
        nodeAccesses_cons (hnode _ rfl), nodeAccesses_nil, chainAccesses]

/-- The selectors of a chain are freed from the last one on. -/
theorem frees_chain (xs : List ℕ) : frees (chainAccesses xs) = (xs.map .selector).reverse := by
  induction xs with
  | nil => rfl
  | cons x xs ih => simp [chainAccesses, ih]

/-- **The loop** runs over the whole chain. -/
theorem destroySelectors_chain (hseg : Seg h.nextSelector p xs 0) :
    ∃ log, (∀ fuel, xs.length + 1 < fuel → destroySelectors h fuel p = some log) ∧
      nodeAccesses log = loopAccesses xs := by
  induction xs generalizing p with
  | nil =>
    refine ⟨[], fun fuel hfuel => ?_, rfl⟩
    obtain ⟨fuel, rfl⟩ := Nat.exists_eq_add_of_le' (Nat.zero_lt_of_lt hfuel)
    exact if_pos hseg
  | cons x xs ih =>
    obtain ⟨log, hdestroy, hnodes⟩ := selectorDestroy_chain hseg
    obtain ⟨rfl, hp, hrest⟩ := hseg
    obtain ⟨rest, hloop, hnodes'⟩ := ih hrest
    refine ⟨.deref (.selector p) :: (log ++ rest), fun fuel hfuel => ?_, ?_⟩
    · obtain ⟨fuel, rfl⟩ := Nat.exists_eq_add_of_le' (Nat.zero_lt_of_lt hfuel)
      have hless := Nat.lt_of_succ_lt_succ hfuel
      rw [destroySelectors, if_neg hp, hdestroy fuel hless, hloop fuel hless]
      rfl
    · rw [nodeAccesses_cons rfl, nodeAccesses_append, hnodes, hnodes', loopAccesses]

/-! ### The declarations -/

/-- **The loop** over the declarations frees each of them. -/
theorem destroyDeclarations_chain (css : DeclarationDestroyer)
    (hseg : Seg h.nextDeclaration p ys 0) :
    ∃ log, (∀ fuel, ys.length < fuel → destroyDeclarations h css fuel p = some log) ∧
      nodeAccesses log = log ∧ frees log = ys.map .declaration ∧ NoneStale [] log ∧
      ∀ a ∈ log, ∃ y ∈ ys, a.target = .declaration y := by
  have hnodup := hseg.nodup
  induction ys generalizing p with
  | nil =>
    refine ⟨[], fun fuel hfuel => ?_, rfl, rfl, trivial, fun a ha => absurd ha List.not_mem_nil⟩
    obtain ⟨fuel, rfl⟩ := Nat.exists_eq_add_of_le' hfuel
    exact if_pos hseg
  | cons y ys ih =>
    obtain ⟨rfl, hp, hrest⟩ := hseg
    obtain ⟨hnot, hnodup⟩ := List.nodup_cons.mp hnodup
    obtain ⟨rest, hloop, hnodes, hfrees, hstale, htargets⟩ := ih hrest hnodup
    refine ⟨.deref (.declaration p) :: (css.destroy p ++ rest), fun fuel hfuel => ?_, ?_, ?_, ?_,
      ?_⟩
    · obtain ⟨fuel, rfl⟩ := Nat.exists_eq_add_of_le' (Nat.zero_lt_of_lt hfuel)
      rw [destroyDeclarations, if_neg hp, hloop fuel (Nat.lt_of_succ_lt_succ hfuel)]
      rfl
    · have hown : nodeAccesses (css.destroy p) = css.destroy p := by
        refine List.filter_eq_self.mpr fun a ha => ?_
        rw [css.own p a ha]
        rfl
      rw [nodeAccesses_cons rfl, nodeAccesses_append, hown, hnodes]
    · rw [frees_deref, frees_append, css.freesArgument, hfrees]
      rfl
    · rw [noneStale_deref, noneStale_append, css.freesArgument, List.append_nil]
      refine ⟨List.not_mem_nil, css.noneStale p, ?_⟩
      apply hstale.weaken
      intro a ha
      obtain ⟨y, hy, htarget⟩ := htargets a ha
      rw [htarget, List.mem_singleton, CssBlock.declaration.injEq]
      rintro rfl
      exact hnot hy
    · intro a ha
      simp only [List.mem_cons, List.mem_append] at ha
      rcases ha with rfl | ha | ha
      · exact ⟨p, List.mem_cons_self, rfl⟩
      · exact ⟨p, List.mem_cons_self, css.own p a ha⟩
      · obtain ⟨y, hy, htarget⟩ := htargets a ha
        exact ⟨y, List.mem_cons_of_mem p hy, htarget⟩

/-! ### The rule -/

/-- From the second selector on, the loop goes on with what was freed. -/
theorem loop_stale (x y : ℕ) (xs : List ℕ) : ¬ NoneStale [] (loopAccesses (x :: y :: xs)) := by
  rw [loopAccesses, noneStale_deref, noneStale_append, frees_chain, loopAccesses]
  rintro ⟨-, -, hy, -⟩
  apply hy
  simp

/-- One selector is destroyed once. -/
theorem loop_once (hlength : xs.length ≤ 1) :
    frees (loopAccesses xs) = xs.map .selector ∧ NoneStale [] (loopAccesses xs) := by
  match xs with
  | [] => exact ⟨rfl, trivial⟩
  | [x] => simp [loopAccesses, chainAccesses]
  | x :: y :: xs => simp at hlength

theorem chain_own (xs : List ℕ) : ∀ a ∈ chainAccesses xs, ∃ x ∈ xs, a.target = .selector x := by
  induction xs with
  | nil => exact fun a ha => absurd ha List.not_mem_nil
  | cons x xs ih =>
    intro a ha
    simp only [chainAccesses, List.mem_cons, List.mem_append, List.not_mem_nil, or_false] at ha
    rcases ha with rfl | rfl | ha | rfl
    · exact ⟨x, List.mem_cons_self, rfl⟩
    · exact ⟨x, List.mem_cons_self, rfl⟩
    · obtain ⟨y, hy, htarget⟩ := ih a ha
      exact ⟨y, List.mem_cons_of_mem x hy, htarget⟩
    · exact ⟨x, List.mem_cons_self, rfl⟩

/-- The loop uses the selectors only. -/
theorem loop_own (xs : List ℕ) : ∀ a ∈ loopAccesses xs, ∃ x ∈ xs, a.target = .selector x := by
  induction xs with
  | nil => exact fun a ha => absurd ha List.not_mem_nil
  | cons x xs ih =>
    intro a ha
    rw [loopAccesses, List.mem_cons, List.mem_append] at ha
    rcases ha with rfl | ha | ha
    · exact ⟨x, List.mem_cons_self, rfl⟩
    · exact chain_own (x :: xs) a ha
    · obtain ⟨y, hy, htarget⟩ := ih a ha
      exact ⟨y, List.mem_cons_of_mem x hy, htarget⟩

/-- The blocks of a rule. -/
def ruleBlocks (rule : ℕ) (xs ys : List ℕ) : List CssBlock :=
  .rule rule :: (xs.map .selector ++ ys.map .declaration)

/-- What `css_rule_destroy` does: it uses nothing but the blocks of the rule, and is in order only if
there is at most one selector; then it frees everything once. -/
theorem ruleDestroy_spec (h : CssHeap) (css : DeclarationDestroyer) (hrule : rule ≠ 0)
    (hselectors : Seg h.nextSelector (h.selectors rule) xs 0)
    (hdeclarations : Seg h.nextDeclaration (h.declarations rule) ys 0) :
    ∃ log, (∀ fuel, xs.length + ys.length + 1 < fuel → cssRuleDestroy h css fuel rule = some log) ∧
      (∀ a ∈ nodeAccesses log, a.target ∈ ruleBlocks rule xs ys) ∧
        (NoneStale [] (nodeAccesses log) → xs.length ≤ 1) ∧
          (xs.length ≤ 1 → DestroysOnce rule xs ys log) := by
  obtain ⟨selectors, hselectors, hnodes⟩ := destroySelectors_chain hselectors
  obtain ⟨declarations, hdeclarations, hnodes', hfrees, hstale, htargets⟩ :=
    destroyDeclarations_chain css hdeclarations
  refine ⟨.deref (.rule rule) :: (selectors ++ .deref (.rule rule) ::
    (declarations ++ [.free (.rule rule)])), fun fuel hfuel => ?_, ?_⟩
  · rw [cssRuleDestroy, if_neg hrule, hselectors fuel (by omega), hdeclarations fuel (by omega)]
    rfl
  have hlog : nodeAccesses (.deref (.rule rule) :: (selectors ++ .deref (.rule rule) ::
      (declarations ++ [.free (.rule rule)]))) = .deref (.rule rule) :: (loopAccesses xs ++
        .deref (.rule rule) :: (declarations ++ [.free (.rule rule)])) := by
    rw [nodeAccesses_cons rfl, nodeAccesses_append, nodeAccesses_cons rfl, nodeAccesses_append,
      hnodes, hnodes']
    rfl
  refine ⟨fun a ha => ?_, fun hnone => ?_, fun hlength => ?_⟩
  · rw [hlog] at ha
    simp only [List.mem_cons, List.mem_append, List.not_mem_nil, or_false] at ha
    rw [ruleBlocks, List.mem_cons, List.mem_append]
    rcases ha with rfl | ha | rfl | ha | rfl
    · exact .inl rfl
    · obtain ⟨x, hx, htarget⟩ := loop_own xs a ha
      exact .inr (.inl (htarget ▸ List.mem_map_of_mem hx))
    · exact .inl rfl
    · obtain ⟨y, hy, htarget⟩ := htargets a ha
      exact .inr (.inr (htarget ▸ List.mem_map_of_mem hy))
    · exact .inl rfl
  · rw [hlog, noneStale_deref, noneStale_append] at hnone
    match xs with
    | [] => exact Nat.zero_le 1
    | [x] => exact le_rfl
    | x :: y :: xs => exact absurd hnone.2.1 (loop_stale x y xs)
  · obtain ⟨hloop, hnone⟩ := loop_once hlength
    constructor
    · rw [hlog]
      simp only [frees_deref, frees_append, frees_free, frees_nil, hloop, hfrees]
      rw [← List.append_assoc]
      exact List.perm_append_singleton _ _
    · -- a declaration is no selector, and the rule is neither
      have hdeclarations : NoneStale (xs.map .selector) declarations := by
        apply hstale.weaken
        intro a ha hmem
        obtain ⟨y, -, htarget⟩ := htargets a ha
        obtain ⟨x, -, hx⟩ := List.mem_map.mp (htarget ▸ hmem)
        cases hx
      rw [hlog]
      simp only [noneStale_deref, noneStale_append, noneStale_free, hloop, hfrees, List.append_nil]
      refine ⟨List.not_mem_nil, hnone, ?_, hdeclarations, ?_, trivial⟩
      · simp
      · simp

/-- **Destroying a rule.** The rule, its selectors and its declarations are freed once, and not used
after that, exactly if the rule has at most one selector. -/
theorem rule_destroy_iff (h : CssHeap) (css : DeclarationDestroyer) (hrule : rule ≠ 0)
    (hselectors : Seg h.nextSelector (h.selectors rule) xs 0)
    (hdeclarations : Seg h.nextDeclaration (h.declarations rule) ys 0) :
    ∃ log, (∀ fuel, xs.length + ys.length + 1 < fuel → cssRuleDestroy h css fuel rule = some log) ∧
      (DestroysOnce rule xs ys log ↔ xs.length ≤ 1) := by
  obtain ⟨log, hrun, -, hstale, honce⟩ := ruleDestroy_spec h css hrule hselectors hdeclarations
  exact ⟨log, hrun, fun hdestroys => hstale hdestroys.noneStale, honce⟩

/-- A rule with one selector and one declaration. -/
def smallRule : CssHeap where
  selectors := fun _ => 2
  declarations := fun _ => 3
  value := fun _ => 4
  attrName := fun _ => 0
  attrValue := fun _ => 0
  nextSelector := fun _ => 0
  nextDeclaration := fun _ => 0

/-- A `css_declaration_destroy` that frees the declaration only. -/
def freeOnly : DeclarationDestroyer where
  destroy p := [.deref (.declaration p), .free (.declaration p)]
  freesArgument _ := rfl
  own p a ha := by
    simp only [List.mem_cons, List.not_mem_nil, or_false] at ha
    rcases ha with rfl | rfl <;> rfl
  noneStale p := by simp

/-- Such a rule is destroyed once. -/
theorem rule_destroy_small :
    ∃ log, (∀ fuel, 3 < fuel → cssRuleDestroy smallRule freeOnly fuel 1 = some log) ∧
      (DestroysOnce 1 [2] [3] log ↔ [2].length ≤ 1) :=
  @rule_destroy_iff 1 [2] [3] smallRule freeOnly (by decide) (by simp [smallRule])
    (by simp [smallRule])

/-- A rule with two selectors. -/
def compoundRule : CssHeap where
  selectors := fun _ => 2
  declarations := fun _ => 0
  value := fun _ => 0
  attrName := fun _ => 0
  attrValue := fun _ => 0
  nextSelector := fun p => if p = 2 then 3 else 0
  nextDeclaration := fun _ => 0

/-- The second selector of two is destroyed again. -/
theorem second_selector_again : Seg compoundRule.nextSelector (compoundRule.selectors 1) [2, 3] 0 ∧
    Seg compoundRule.nextDeclaration (compoundRule.declarations 1) [] 0 ∧
    ∃ log, cssRuleDestroy compoundRule freeOnly 5 1 = some log ∧ ¬ DestroysOnce 1 [2, 3] [] log := by
  refine ⟨by simp [compoundRule], by simp [compoundRule], _, rfl, fun h => ?_⟩
  have hnone := h.noneStale
  revert hnone
  decide

end PrismaticOS.Css
