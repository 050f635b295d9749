import GitIM.DepthFirst
import GitIM.Flows

/-!
# What the validation of a flow accepts

The search for cycles works on a list of marks, and is the depth-first search of the graph of needs.
The other checks run node by node, and together they accept the well-formed documents and no others.
-/

namespace FlowValidation

open Relation TextLines FileTree Checked ThreadFormat Cards Flows

section Search
variable {nodes : List FlowNode} {marks : List (Text × Mark)}

def colourOf : Mark → DepthFirst.Colour
  | .white => .white
  | .gray => .gray
  | .black => .black

/-- An id without a mark counts as black. -/
def colours (marks : List (Text × Mark)) (id : Text) : DepthFirst.Colour :=
  colourOf ((marks.lookup id).getD .black)

theorem colours_upsert (mark : Mark) (id : Text) (marks : List (Text × Mark)) :
    colours (upsert (fun _ => mark) id marks) =
      Function.update (colours marks) id (colourOf mark) := by
  funext other
  rw [colours, lookup_upsert]
  by_cases hother : other = id
  · rw [if_pos hother, hother, Function.update_self]
    rfl
  · rw [if_neg hother, Function.update_of_ne hother]
    rfl

/-- The search on marks and the search on colours end alike. -/
def Agree (r : Bool × List (Text × Mark)) (r' : Bool × (Text → DepthFirst.Colour)) : Prop :=
  r' = (r.1, colours r.2)

theorem visitAll_agree {visit : Text → List (Text × Mark) → Bool × List (Text × Mark)}
    {visit' : Text → (Text → DepthFirst.Colour) → Bool × (Text → DepthFirst.Colour)}
    (hvisit : ∀ id marks, Agree (visit id marks) (visit' id (colours marks))) (ids : List Text)
    (marks : List (Text × Mark)) :
    Agree (visitAll visit ids marks) (DepthFirst.visitAll visit' ids (colours marks)) := by
  induction ids generalizing marks with
  | nil => rfl
  | cons id rest ih =>
    have hfirst := hvisit id marks
    rw [visitAll, DepthFirst.visitAll, hfirst]
    rcases visit id marks with ⟨_ | _, marks'⟩
    · exact ih marks'
    · rfl

theorem dfs_agree (nodes : List FlowNode) (fuel : Nat) (id : Text) (marks : List (Text × Mark)) :
    Agree (dfs nodes fuel id marks) (DepthFirst.dfs (needsOf nodes) fuel id (colours marks)) := by
  induction fuel generalizing id marks with
  | zero => rfl
  | succ fuel ih =>
    have hall := visitAll_agree ih (needsOf nodes id) (upsert (fun _ => .gray) id marks)
    rw [colours_upsert] at hall
    rw [dfs, DepthFirst.dfs]
    cases hmark : (marks.lookup id).getD .black with
    | gray =>
      have hcolour : colours marks id = .gray := by rw [colours, hmark]; rfl
      rw [hcolour]
      rfl
    | black =>
      have hcolour : colours marks id = .black := by rw [colours, hmark]; rfl
      rw [hcolour]
      rfl
    | white =>
      have hcolour : colours marks id = .white := by rw [colours, hmark]; rfl
      simp only [hcolour]
      rw [show DepthFirst.Colour.gray = colourOf .gray from rfl, hall]
      rcases visitAll (dfs nodes fuel) (needsOf nodes id) (upsert (fun _ => .gray) id marks)
        with ⟨_ | _, marks'⟩
      · exact congrArg (Prod.mk false) (colours_upsert .black id marks').symm
      · rfl

def nodeIds (nodes : List FlowNode) : Finset Text := (nodes.map FlowNode.id).toFinset

theorem colours_initial (ids : List Text) :
    colours (ids.map fun id => (id, .white)) = DepthFirst.initial ids.toFinset := by
  funext id
  induction ids with
  | nil => rfl
  | cons first rest ih =>
    rw [List.map_cons, colours, lookup_cons_ite]
    rw [DepthFirst.initial] at ih ⊢
    by_cases hid : id = first
    · rw [if_pos hid, if_pos (by simp [hid])]
      rfl
    · rw [if_neg hid]
      have hmem : id ∈ (first :: rest).toFinset ↔ id ∈ rest.toFinset := by simp [hid]
      simp only [hmem]
      exact ih

theorem needsOf_outside {id : Text} (h : id ∉ nodeIds nodes) : needsOf nodes id = [] := by
  have hnone : nodes.reverse.find? (fun n => n.id = id) = none := by
    rw [List.find?_eq_none]
    intro n hn hid
    refine h (List.mem_toFinset.mpr (List.mem_map.mpr ⟨n, List.mem_reverse.mp hn, ?_⟩))
    exact of_decide_eq_true hid
  rw [needsOf, hnone]
  rfl

theorem card_nodeIds_le (nodes : List FlowNode) : (nodeIds nodes).card ≤ nodes.length :=
  (List.toFinset_card_le _).trans (List.length_map ..).le

/-- The search from every id with so much depth. -/
def searchCycle (nodes : List FlowNode) (depth : Nat) : Bool :=
  let ids := nodes.map FlowNode.id
  (visitAll (dfs nodes depth) ids (ids.map fun id => (id, .white))).1

theorem searchCycle_eq (nodes : List FlowNode) (depth : Nat) :
    searchCycle nodes depth = (DepthFirst.visitAll (DepthFirst.dfs (needsOf nodes) depth)
      (nodes.map FlowNode.id) (DepthFirst.initial (nodeIds nodes))).1 := by
  have hagree := visitAll_agree (dfs_agree nodes depth) (nodes.map FlowNode.id)
    ((nodes.map FlowNode.id).map fun id => (id, .white))
  rw [colours_initial] at hagree
  exact (congrArg Prod.fst hagree).symm

/-- No document makes the search run out of its depth. -/
theorem searchCycle_depth {depth : Nat} (hdepth : nodes.length < depth) :
    searchCycle nodes depth = hasCycle nodes := by
  have hcard := card_nodeIds_le nodes
  have hdeep : (nodeIds nodes).card < depth := by omega
  have hbound : (nodeIds nodes).card < nodes.length + 1 := by omega
  have hlast : hasCycle nodes = searchCycle nodes (nodes.length + 1) := rfl
  rw [hlast, searchCycle_eq, searchCycle_eq, DepthFirst.search_fuel hdeep,
    DepthFirst.search_fuel hbound]

theorem hasCycle_iff (nodes : List FlowNode) :
    hasCycle nodes = true ↔ DepthFirst.Cyclic (needsOf nodes) := by
  have hcard := card_nodeIds_le nodes
  have hlast : hasCycle nodes = searchCycle nodes (nodes.length + 1) := rfl
  rw [hlast, searchCycle_eq]
  refine DepthFirst.search_iff (by omega) (fun id hid => needsOf_outside hid) ?_
  intro id hid
  exact List.mem_toFinset.mp hid

end Search

section Checks

/-- What slugs and node ids have in common, over the characters they may hold. -/
structure WellFormed (allowed : Char → Bool) (t : Text) : Prop where
  nonempty : t ≠ []
  short : utf8Len t ≤ 39
  chars : t.all allowed = true
  boundary : t.head? ≠ some '-' ∧ t.getLast? ≠ some '-'
  hyphens : ¬ "--".toList <:+: t

theorem find?_not_eq_none_iff {allowed : Char → Bool} {t : Text} :
    t.find? (fun c => !allowed c) = none ↔ t.all allowed = true := by
  rw [List.find?_eq_none, List.all_eq_true]
  simp

theorem flowSlugError_eq_none_iff {s : Text} :
    flowSlugError s = none ↔ WellFormed isHandlerChar s := by
  rw [flowSlugError]
  constructor
  · intro h
    rcases hchar : s.find? (fun c => !isHandlerChar c) with _ | c
    · rw [hchar] at h
      simp only at h
      split_ifs at h with hempty hlong hboundary hhyphens
      exact ⟨hempty, Nat.not_lt.mp hlong, find?_not_eq_none_iff.mp hchar, not_or.mp hboundary,
        hhyphens⟩
    · rw [hchar] at h
      simp only at h
      split_ifs at h
  · intro h
    have hboundary : ¬ (s.head? = some '-' ∨ s.getLast? = some '-') := not_or.mpr h.boundary
    rw [if_neg h.nonempty, if_neg (Nat.not_lt.mpr h.short), find?_not_eq_none_iff.mpr h.chars]
    simp only [if_neg hboundary, if_neg h.hyphens]

theorem validateNodeId_ok_iff {quote : Char → Text} {id : Text} :
    validateNodeId quote id = .ok () ↔ WellFormed isLabelChar id := by
  rw [validateNodeId]
  constructor
  · intro h
    split_ifs at h with hempty hlong
    · rcases hchar : id.find? (fun c => !isLabelChar c) with _ | c
      · rw [hchar] at h
        simp only [then_eq_ok_iff, refuse_eq_ok_iff] at h
        exact ⟨hempty, Nat.not_lt.mp hlong, find?_not_eq_none_iff.mp hchar, not_or.mp h.1, h.2⟩
      · rw [hchar] at h
        cases h
  · intro h
    rw [if_neg h.nonempty, if_neg (Nat.not_lt.mpr h.short), find?_not_eq_none_iff.mpr h.chars]
    simp only [then_eq_ok_iff, refuse_eq_ok_iff]
    exact ⟨not_or.mpr h.boundary, h.hyphens⟩

/-- The ids are different from each other and from those seen before. -/
theorem checkDistinct_ok_iff {seen ids : List Text} :
    checkDistinct seen ids = .ok () ↔ ids.Nodup ∧ ∀ id ∈ ids, id ∉ seen := by
  induction ids generalizing seen with
  | nil => simp [checkDistinct]
  | cons id rest ih =>
    rw [checkDistinct, then_eq_ok_iff, refuse_eq_ok_iff, ih, List.nodup_cons,
      List.forall_mem_cons]
    simp only [List.mem_cons, not_or]
    constructor
    · rintro ⟨hnew, hdistinct, hrest⟩
      exact ⟨⟨fun hmem => (hrest id hmem).1 rfl, hdistinct⟩, hnew, fun b hb => (hrest b hb).2⟩
    · rintro ⟨⟨hmem, hdistinct⟩, hnew, hrest⟩
      refine ⟨hnew, hdistinct, fun b hb => ⟨?_, hrest b hb⟩⟩
      rintro rfl
      exact hmem hb

structure ValidLabel (label : Text) : Prop where
  nonempty : label ≠ []
  short : utf8Len label ≤ maxLabelLen
  chars : label.all isLabelChar = true

theorem validateLabel_ok_iff {label : Text} :
    validateLabel label = .ok () ↔ ValidLabel label := by
  rw [validateLabel]
  constructor
  · intro h
    split_ifs at h with hlength
    rcases hchar : label.find? (fun c => !isLabelChar c) with _ | c
    · exact ⟨fun hempty => hlength (Or.inl hempty), Nat.not_lt.mp fun hlong => hlength (Or.inr hlong),
        find?_not_eq_none_iff.mp hchar⟩
    · rw [hchar] at h
      cases h
  · intro h
    have hlength : ¬ (label = [] ∨ utf8Len label > maxLabelLen) :=
      not_or.mpr ⟨h.nonempty, Nat.not_lt.mpr h.short⟩
    rw [if_neg hlength, find?_not_eq_none_iff.mpr h.chars]

theorem validateLabelsFrom_ok_iff {seen labels : List Text} :
    validateLabelsFrom seen labels = .ok () ↔
      (∀ l ∈ labels, ValidLabel l) ∧ labels.Nodup ∧ ∀ l ∈ labels, l ∉ seen := by
  induction labels generalizing seen with
  | nil => simp [validateLabelsFrom]
  | cons l rest ih =>
    rw [validateLabelsFrom, then_eq_ok_iff, then_eq_ok_iff, validateLabel_ok_iff,
      refuse_eq_ok_iff, ih, List.nodup_cons, List.forall_mem_cons, List.forall_mem_cons]
    simp only [List.mem_cons, not_or]
    constructor
    · rintro ⟨hvalid, hnew, hvalids, hdistinct, hrest⟩
      exact ⟨⟨hvalid, hvalids⟩, ⟨fun hmem => (hrest l hmem).1 rfl, hdistinct⟩, hnew,
        fun b hb => (hrest b hb).2⟩
    · rintro ⟨⟨hvalid, hvalids⟩, ⟨hmem, hdistinct⟩, hnew, hrest⟩
      refine ⟨hvalid, hnew, hvalids, hdistinct, fun b hb => ⟨?_, hrest b hb⟩⟩
      rintro rfl
      exact hmem hb

structure ValidLabels (labels : List Text) (maxCount : Nat) : Prop where
  few : labels.length ≤ maxCount
  valid : ∀ l ∈ labels, ValidLabel l
  distinct : labels.Nodup

theorem validateLabels_ok_iff {labels : List Text} {maxCount : Nat} :
    validateLabels labels maxCount = .ok () ↔ ValidLabels labels maxCount := by
  rw [validateLabels, then_eq_ok_iff, refuse_eq_ok_iff, validateLabelsFrom_ok_iff]
  constructor
  · rintro ⟨hfew, hvalid, hdistinct, -⟩
    exact ⟨Nat.not_lt.mp hfew, hvalid, hdistinct⟩
  · rintro ⟨hfew, hvalid, hdistinct⟩
    exact ⟨Nat.not_lt.mpr hfew, hvalid, hdistinct, fun _ _ hmem => by cases hmem⟩

/-- The field that the type of a node requires. -/
def HasRequiredField (n : FlowNode) : Prop :=
  match n.nodeType with
  | .agentMention => n.owner ≠ none
  | .channelThread => n.participants ≠ []
  | .humanReview => True
  | .waitForSignal => n.signal ≠ none

theorem requiredField_ok_iff {n : FlowNode} : requiredField n = .ok () ↔ HasRequiredField n := by
  rw [requiredField, HasRequiredField]
  cases n.nodeType with
  | humanReview => exact iff_of_true rfl trivial
  | _ => exact refuse_eq_ok_iff

theorem unit_ok_iff {ε : Type} {x : Except ε Unit} : (∃ u, x = .ok u) ↔ x = .ok () := by
  constructor
  · rintro ⟨u, h⟩
    exact h
  · intro h
    exact ⟨(), h⟩

theorem exists_mapM_ok_iff {ε α β : Type} {f : α → Except ε β} {xs : List α} :
    (∃ bs, xs.mapM f = .ok bs) ↔ ∀ x ∈ xs, ∃ b, f x = .ok b := by
  constructor
  · rintro ⟨bs, hbs⟩
    have hall := mapM_eq_ok_iff.mp hbs
    clear hbs
    induction hall with
    | nil => exact List.forall_mem_nil _
    | cons hx _ ih => exact List.forall_mem_cons.mpr ⟨⟨_, hx⟩, ih⟩
  · exact mapM_succeeds

/-- A traversal whose results are not used. -/
theorem traverse_ok_iff {ε α β γ : Type} {f : α → Except ε β} {xs : List α} {y : Except ε γ} {c : γ} :
    (do let _ ← xs.mapM f; y) = .ok c ↔ (∀ x ∈ xs, ∃ b, f x = .ok b) ∧ y = .ok c := by
  rw [bind_eq_ok_iff, ← exists_mapM_ok_iff, exists_and_right]

theorem checkSlug_ok_iff {s : Text} {e : FlowSlugError → FlowError} :
    (checkSome (flowSlugError s) fun error => .error (e error)) = .ok () ↔
      WellFormed isHandlerChar s := by
  rw [checkSome_eq_ok_iff, ← flowSlugError_eq_none_iff, Option.eq_none_iff_forall_ne_some]
  constructor
  · intro h error herror
    cases h error herror
  · intro h error herror
    exact absurd herror (h error)

end Checks

section Document
variable {nodes : List FlowNode}

def Needs (nodes : List FlowNode) (a b : Text) : Prop := ∃ n ∈ nodes, n.id = a ∧ b ∈ n.needs

theorem mem_needsOf_iff (hdistinct : (nodes.map FlowNode.id).Nodup) {a b : Text} :
    b ∈ needsOf nodes a ↔ Needs nodes a b := by
  rcases hfind : nodes.reverse.find? (fun n => n.id = a) with _ | n
  · rw [needsOf, hfind]
    refine iff_of_false List.not_mem_nil ?_
    rintro ⟨n, hn, hid, -⟩
    have hnone := List.find?_eq_none.mp hfind n (List.mem_reverse.mpr hn)
    exact hnone (decide_eq_true hid)
  · have hn : n ∈ nodes := List.mem_reverse.mp (List.mem_of_find?_eq_some hfind)
    have hid : n.id = a := by simpa using List.find?_some hfind
    rw [needsOf, hfind]
    constructor
    · intro hb
      exact ⟨n, hn, hid, hb⟩
    · rintro ⟨m, hm, hma, hb⟩
      rw [List.inj_on_of_nodup_map hdistinct hm hn (hma.trans hid.symm)] at hb
      exact hb

/-- A cycle goes through nodes only. -/
theorem cyclic_iff : DepthFirst.Cyclic (needsOf nodes) ↔
    ∃ n ∈ nodes, TransGen (DepthFirst.Edge (needsOf nodes)) n.id n.id := by
  constructor
  · rintro ⟨a, hcycle⟩
    obtain ⟨b, hedge, -⟩ := TransGen.head'_iff.mp hcycle
    have hmem : a ∈ nodeIds nodes := by
      by_contra houtside
      rw [DepthFirst.Edge, needsOf_outside houtside] at hedge
      cases hedge
    obtain ⟨n, hn, rfl⟩ := List.mem_map.mp (List.mem_toFinset.mp hmem)
    exact ⟨n, hn, hcycle⟩
  · rintro ⟨n, -, hcycle⟩
    exact ⟨n.id, hcycle⟩

/-- A well-formed flow at its path. -/
structure ValidFlow (doc : FlowMeta) (slugInPath : Text) : Prop where
  slug : WellFormed isHandlerChar doc.slug
  path : WellFormed isHandlerChar slugInPath
  same : doc.slug = slugInPath
  ids : ∀ n ∈ doc.nodes, WellFormed isLabelChar n.id
  distinct : (doc.nodes.map FlowNode.id).Nodup
  needs : ∀ n ∈ doc.nodes, ∀ need ∈ n.needs, ∃ m ∈ doc.nodes, m.id = need
  fields : ∀ n ∈ doc.nodes, HasRequiredField n
  labels : ∀ n ∈ doc.nodes, ValidLabels n.requiredLabels flowNodeMaxLabels
  acyclic : ∀ n ∈ doc.nodes, ¬ TransGen (Needs doc.nodes) n.id n.id

theorem validateFlowDocument_ok_iff {quote : Char → Text} {doc : FlowMeta} {slugInPath : Text} :
    validateFlowDocument quote doc slugInPath = .ok () ↔ ValidFlow doc slugInPath := by
  have hcycle : (doc.nodes.map FlowNode.id).Nodup → (¬ hasCycle doc.nodes = true ↔
      ∀ n ∈ doc.nodes, ¬ TransGen (Needs doc.nodes) n.id n.id) := by
    intro hdistinct
    have hsame : DepthFirst.Edge (needsOf doc.nodes) = Needs doc.nodes := by
      funext a b
      exact propext (mem_needsOf_iff hdistinct)
    rw [hasCycle_iff, cyclic_iff, hsame]
    simp only [not_exists, not_and]
  simp only [validateFlowDocument, then_eq_ok_iff, traverse_ok_iff, exists_mapM_ok_iff, unit_ok_iff,
    checkSlug_ok_iff, refuse_eq_ok_iff, mapError_eq_ok_iff, validateNodeId_ok_iff,
    checkDistinct_ok_iff, requiredField_ok_iff, validateLabels_ok_iff, exists_and_left, exists_const,
    not_not, List.mem_map]
  constructor
  · rintro ⟨hslug, hpath, hsame, hids, ⟨hdistinct, -⟩, hneeds, hnodes, hfree⟩
    exact ⟨hslug, hpath, hsame, hids, hdistinct, hneeds, fun n hn => (hnodes n hn).1,
      fun n hn => (hnodes n hn).2, (hcycle hdistinct).mp hfree⟩
  · intro h
    exact ⟨h.slug, h.path, h.same, h.ids, ⟨h.distinct, fun _ _ hmem => by cases hmem⟩, h.needs,
      fun n hn => ⟨h.fields n hn, h.labels n hn⟩, (hcycle h.distinct).mpr h.acyclic⟩

/-- The validation accepts the well-formed flows. Of nodes with one id the search for cycles, which
ends at any depth beyond the number of nodes, reads the last. -/
theorem validation_exact (quote : Char → Text) (doc : FlowMeta) (slugInPath : Text) :
    (validateFlowDocument quote doc slugInPath = .ok () ↔ ValidFlow doc slugInPath) ∧
    (hasCycle doc.nodes = true ↔
      ∃ n ∈ doc.nodes, TransGen (DepthFirst.Edge (needsOf doc.nodes)) n.id n.id) ∧
    ∀ deeper, searchCycle doc.nodes (doc.nodes.length + 1 + deeper) = hasCycle doc.nodes := by
  refine ⟨validateFlowDocument_ok_iff, (hasCycle_iff doc.nodes).trans cyclic_iff, ?_⟩
  intro deeper
  exact searchCycle_depth (by omega)

end Document

end FlowValidation
