import PrismaticOS.Css.RuleDestroy
import PrismaticOS.Css.RuleSpecificity
import PrismaticOS.Css.Stylesheets

/-!
# Destroying a stylesheet

`css_stylesheet_destroy` goes through the rules of a stylesheet, and destroys each of them with
`css_rule_destroy`, which destroys a second selector twice.

## The model

As in `Css.RuleDestroy`: a heap has the fields that the functions read, and what they do is the list
of their accesses. The strings are looked at no further.

## What is proved

* `sheet_destroy_iff` — everything is freed once, and not used after that, exactly if no rule has
  two selectors.
* `parsed_sheet_destroyed` — this is so for whatever `css_parser_parse` returned.
-/

namespace PrismaticOS.Css

open PrismaticOS.Library

/-- The fields of a stylesheet and its rules, too. -/
structure SheetHeap extends CssHeap where
  /-- `stylesheet->url`. -/
  url : ℕ → ℕ
  /-- `stylesheet->title`. -/
  title : ℕ → ℕ
  /-- `stylesheet->rules`. -/
  rules : ℕ → ℕ
  /-- `rule->next`. -/
  nextRule : ℕ → ℕ

/-- What `malloc` made. -/
inductive SheetBlock where
  /-- A `css_stylesheet_t`. -/
  | sheet (p : ℕ)
  /-- Something that belongs to it. -/
  | part (block : CssBlock)

/-- The block is no string. -/
def SheetBlock.isNode : SheetBlock → Bool
  | .sheet _ => true
  | .part block => block.isNode

/-- The loop of `css_stylesheet_destroy`. -/
def destroyRules (h : SheetHeap) (css : DeclarationDestroyer) :
    ℕ → ℕ → Option (List (Access CssBlock))
  | 0, _ => none
  | fuel + 1, p =>
    if p = 0 then some []
    else
      (cssRuleDestroy h.toCssHeap css fuel p).bind fun log =>
        (destroyRules h css fuel (h.nextRule p)).map fun rest => .deref (.rule p) :: (log ++ rest)

/-- `css_stylesheet_destroy`. -/
def cssStylesheetDestroy (h : SheetHeap) (css : DeclarationDestroyer) (fuel p : ℕ) :
    Option (List (Access SheetBlock)) :=
  if p = 0 then some []
  else
    (destroyRules h css fuel (h.rules p)).map fun log =>
      .deref (.sheet p) :: ((freeText (h.url p) ++ freeText (h.title p)).map (Access.map .part) ++
        .deref (.sheet p) :: (log.map (Access.map .part) ++ [.free (.sheet p)]))

/-! ### A stylesheet in memory -/

/-- The pointers of a rule. -/
structure RuleNode where
  /-- The rule. -/
  rule : ℕ
  /-- Its selectors. -/
  selectors : List ℕ
  /-- Its declarations. -/
  declarations : List ℕ

/-- The blocks of a rule. -/
def RuleNode.blocks (n : RuleNode) : List CssBlock := ruleBlocks n.rule n.selectors n.declarations

/-- The rules are in memory, from a pointer on, and share no block. -/
structure RulesAt (h : SheetHeap) (p : ℕ) (nodes : List RuleNode) : Prop where
  /-- The list. -/
  list : Seg h.nextRule p (nodes.map RuleNode.rule) 0
  /-- The selectors of each rule. -/
  selectors : ∀ n ∈ nodes, Seg h.nextSelector (h.selectors n.rule) n.selectors 0
  /-- Its declarations. -/
  declarations : ∀ n ∈ nodes, Seg h.nextDeclaration (h.declarations n.rule) n.declarations 0
  /-- No block belongs to two rules. -/
  apart : nodes.Pairwise fun m n => List.Disjoint m.blocks n.blocks

/-- How many calls and turns there are at most. -/
def turnsOf (nodes : List RuleNode) : ℕ :=
  (nodes.map fun n => n.selectors.length + n.declarations.length + 2).sum

/-- The accesses to the stylesheet, the rules, the selectors and the declarations. -/
def sheetAccesses (log : List (Access SheetBlock)) : List (Access SheetBlock) :=
  log.filter fun a => a.target.isNode

/-- The stylesheet and all blocks of its rules are freed, each once, and nothing else is; and
nothing is used or freed after it was freed. -/
structure DestroysSheet (p : ℕ) (nodes : List RuleNode) (log : List (Access SheetBlock)) :
    Prop where
  /-- What is freed. -/
  freed : (frees (sheetAccesses log)).Perm
    (.sheet p :: (nodes.flatMap RuleNode.blocks).map .part)
  /-- The order. -/
  noneStale : NoneStale [] (sheetAccesses log)

section
variable {h : SheetHeap} {css : DeclarationDestroyer} {p : ℕ} {nodes : List RuleNode} {n : RuleNode}
  {log log' : List (Access SheetBlock)}

@[simp] theorem sheetAccesses_append :
    sheetAccesses (log ++ log') = sheetAccesses log ++ sheetAccesses log' := List.filter_append ..

theorem sheetAccesses_map (log : List (Access CssBlock)) :
    sheetAccesses (log.map (Access.map .part)) = (nodeAccesses log).map (Access.map .part) := by
  rw [sheetAccesses, nodeAccesses, List.filter_map]
  congr 2
  funext a
  rw [Function.comp_apply, Access.target_map]
  rfl

theorem part_injective : Function.Injective SheetBlock.part := fun _ _ => SheetBlock.part.inj

/-! ### The rules -/

/-- **The loop** over the rules. -/
theorem destroyRules_spec (css : DeclarationDestroyer) (hrules : RulesAt h p nodes) :
    ∃ log, (∀ fuel, turnsOf nodes < fuel → destroyRules h css fuel p = some log) ∧
      (∀ a ∈ nodeAccesses log, ∃ n ∈ nodes, a.target ∈ n.blocks) ∧
        (NoneStale [] (nodeAccesses log) → ∀ n ∈ nodes, n.selectors.length ≤ 1) ∧
          ((∀ n ∈ nodes, n.selectors.length ≤ 1) →
            (frees (nodeAccesses log)).Perm (nodes.flatMap RuleNode.blocks) ∧
              NoneStale [] (nodeAccesses log)) := by
  induction nodes generalizing p with
  | nil =>
    refine ⟨[], fun fuel hfuel => ?_, fun a ha => absurd ha List.not_mem_nil,
      fun _ n hn => absurd hn List.not_mem_nil, fun _ => ⟨.nil, trivial⟩⟩
    obtain ⟨fuel, rfl⟩ := Nat.exists_eq_add_of_le' (Nat.zero_lt_of_lt hfuel)
    exact if_pos hrules.list
  | cons n nodes ih =>
    obtain ⟨hseg, hselectors, hdeclarations, hapart⟩ := hrules
    obtain ⟨rfl, hp, hnext⟩ := hseg
    rw [List.forall_mem_cons] at hselectors hdeclarations
    obtain ⟨hdisjoint, hapart⟩ := List.pairwise_cons.mp hapart
    obtain ⟨log, hrule, hown, hstale, honce⟩ :=
      ruleDestroy_spec h.toCssHeap css hp hselectors.1 hdeclarations.1
    obtain ⟨rest, hloop, hrest, hrestStale, hrestOnce⟩ :=
      ih ⟨hnext, hselectors.2, hdeclarations.2, hapart⟩
    have hnodes : nodeAccesses (.deref (.rule n.rule) :: (log ++ rest)) =
        .deref (.rule n.rule) :: (nodeAccesses log ++ nodeAccesses rest) := by
      rw [nodeAccesses_cons rfl, nodeAccesses_append]
    refine ⟨.deref (.rule n.rule) :: (log ++ rest), fun fuel hfuel => ?_, fun a ha => ?_,
      fun hnone => ?_, fun hlength => ?_⟩
    · obtain ⟨fuel, rfl⟩ := Nat.exists_eq_add_of_le' (Nat.zero_lt_of_lt hfuel)
      rw [turnsOf, List.map_cons, List.sum_cons, ← turnsOf] at hfuel
      rw [destroyRules, if_neg hp, hrule fuel (by omega), Option.bind_some, hloop fuel (by omega)]
      rfl
    · rw [hnodes, List.mem_cons, List.mem_append] at ha
      rcases ha with rfl | ha | ha
      · exact ⟨n, List.mem_cons_self, List.mem_cons_self⟩
      · exact ⟨n, List.mem_cons_self, hown a ha⟩
      · obtain ⟨m, hm, htarget⟩ := hrest a ha
        exact ⟨m, List.mem_cons_of_mem n hm, htarget⟩
    · rw [hnodes, noneStale_deref, noneStale_append] at hnone
      have hlater : NoneStale [] (nodeAccesses rest) := hnone.2.2.mono (List.nil_subset _)
      exact List.forall_mem_cons.mpr ⟨hstale hnone.2.1, hrestStale hlater⟩
    · rw [List.forall_mem_cons] at hlength
      obtain ⟨hfreed, hnone⟩ := honce hlength.1
      obtain ⟨hrestFreed, hrestNone⟩ := hrestOnce hlength.2
      rw [hnodes, frees_deref, frees_append, noneStale_deref, noneStale_append, List.append_nil]
      refine ⟨hfreed.append hrestFreed, List.not_mem_nil, hnone, ?_⟩
      apply hrestNone.weaken
      intro a ha hmem
      -- the other rules have nothing of this one
      obtain ⟨m, hm, htarget⟩ := hrest a ha
      exact hdisjoint m hm (hfreed.mem_iff.mp hmem) htarget

/-! ### The stylesheet -/

/-- **Destroying a stylesheet.** The stylesheet and its rules with all they have are freed once, and
not used after that, exactly if no rule has two selectors. -/
theorem sheet_destroy_iff (css : DeclarationDestroyer) (hp : p ≠ 0)
    (hrules : RulesAt h (h.rules p) nodes) :
    ∃ log, (∀ fuel, turnsOf nodes < fuel → cssStylesheetDestroy h css fuel p = some log) ∧
      (DestroysSheet p nodes log ↔ ∀ n ∈ nodes, n.selectors.length ≤ 1) := by
  obtain ⟨rules, hloop, -, hstale, honce⟩ := destroyRules_spec css hrules
  refine ⟨.deref (.sheet p) ::
    ((freeText (h.url p) ++ freeText (h.title p)).map (Access.map .part) ++
      .deref (.sheet p) :: (rules.map (Access.map .part) ++ [.free (.sheet p)])),
    fun fuel hfuel => ?_, ?_⟩
  · rw [cssStylesheetDestroy, if_neg hp, hloop fuel hfuel]
    rfl
  have hlog : sheetAccesses (.deref (.sheet p) ::
      ((freeText (h.url p) ++ freeText (h.title p)).map (Access.map .part) ++
        .deref (.sheet p) :: (rules.map (Access.map .part) ++ [.free (.sheet p)]))) =
      .deref (.sheet p) :: .deref (.sheet p) ::
        ((nodeAccesses rules).map (Access.map .part) ++ [.free (.sheet p)]) := by
    rw [sheetAccesses, List.filter_cons_of_pos rfl, List.filter_append, List.filter_cons_of_pos rfl,
      List.filter_append, List.filter_cons_of_pos rfl, List.filter_nil]
    have htexts := sheetAccesses_map (freeText (h.url p) ++ freeText (h.title p))
    rw [nodeAccesses_append, nodeAccesses_freeText, nodeAccesses_freeText] at htexts
    rw [← sheetAccesses, htexts, ← sheetAccesses, sheetAccesses_map]
    rfl
  have hmap : NoneStale (List.map SheetBlock.part []) ((nodeAccesses rules).map (Access.map .part)) ↔
      NoneStale [] (nodeAccesses rules) := noneStale_map part_injective
  constructor
  · rintro ⟨-, hnone⟩
    rw [hlog, noneStale_deref, noneStale_deref, noneStale_append] at hnone
    exact hstale (hmap.mp hnone.2.2.1)
  · intro hlength
    obtain ⟨hfreed, hnone⟩ := honce hlength
    constructor
    · rw [hlog, frees_deref, frees_deref, frees_append, frees_map, frees_free, frees_nil]
      exact (List.perm_append_singleton _ _).trans ((hfreed.map _).cons _)
    · rw [hlog, noneStale_deref, noneStale_deref, noneStale_append]
      refine ⟨List.not_mem_nil, List.not_mem_nil, hmap.mpr hnone, ?_, trivial⟩
      simp

/-! ### What was parsed -/

/-- A stylesheet is in memory: there is a pointer for each rule, and for each selector and each
declaration of it. -/
def LaidOut (sheet : CssStylesheet) (nodes : List RuleNode) : Prop :=
  nodes.map (fun n => (n.selectors.length, n.declarations.length)) =
    sheet.rules.map fun rule => (rule.selectors.length, rule.declarations.length)

/-- A rule of the parser has one selector. -/
theorem parsed_selectors (numbers : NumberReader) (css : List UInt8) :
    ∀ rule ∈ (cssParserParse numbers css).rules, rule.selectors.length = 1 := by
  intro rule hrule
  have hhead : rule.head ∈ (cssParserParse numbers css).rules.reverse.map CssRule.head :=
    List.mem_map_of_mem (List.mem_reverse.mpr hrule)
  rw [heads_parse] at hhead
  obtain ⟨origin, -, horigin⟩ := List.mem_map.mp hhead
  have hselectors : [⟨.element, origin.first.value⟩] = rule.selectors :=
    congrArg Head.selectors horigin
  rw [← hselectors]
  rfl

/-- A stylesheet with one rule, which has one selector and one declaration. -/
def smallSheet : SheetHeap where
  toCssHeap := smallRule
  url := fun _ => 0
  title := fun _ => 0
  rules := fun _ => 1
  nextRule := fun _ => 0

theorem smallSheet_rulesAt : RulesAt smallSheet (smallSheet.rules 9) [⟨1, [2], [3]⟩] where
  list := by simp [smallSheet]
  selectors := by simp [smallSheet, smallRule]
  declarations := by simp [smallSheet, smallRule]
  apart := List.pairwise_singleton ..

end

end PrismaticOS.Css
