import NixSecrets.PlanFates

namespace NixSecrets.Manager

open Inventory

/-- The classes that a requested value can be in. -/
inductive Class
  | stored | derived | derivedOnTarget | generated | task | hostDefault | missing

def Place.toClass : Place → Class
  | .generate | .shared => .generated
  | .derived => .derived
  | .derivedOnTarget => .derivedOnTarget
  | .hostDefault => .hostDefault
  | .missing => .missing

/-- The plan puts a value in a class; what it does not list is sent as stored, or is a task. -/
def UnsetPlan.puts (plan : UnsetPlan) (leaf : Option LeafSpec) (identifier : String) : Class → Prop
  | .stored => (∃ path spec, leaf = some (.stored path spec)) ∧ ∀ place, identifier ∉ plan.lists place
  | .task => (∃ path spec, leaf = some (.generated path spec)) ∧ ∀ place, identifier ∉ plan.lists place
  | .derived => identifier ∈ plan.lists .derived
  | .derivedOnTarget => identifier ∈ plan.lists .derivedOnTarget
  | .generated => plan.generates identifier = true
  | .hostDefault => identifier ∈ plan.lists .hostDefault
  | .missing => identifier ∈ plan.lists .missing

/-- A plan in which the classes of a request are exact and closed. -/
structure Closed (libs : Libraries) (schema : Inventory.Schema) (identifiers mismatched : List String)
    (plan : UnsetPlan) : Prop where
  one : ∀ identifier ∈ identifiers,
    ∃! found, plan.puts (leafOf libs schema identifier).toOption identifier found
  sourced : ∀ item ∈ plan.derivedOnTarget, plan.generates item.2 = true
  consumed : ∀ source ∈ plan.lists .shared, ∃ item ∈ plan.derivedOnTarget, item.2 = source
  apart : ∀ identifier, identifier ∈ plan.lists .missing ∨ identifier ∈ mismatched →
    ∀ place, place ≠ .missing → identifier ∉ plan.lists place

theorem puts_of_lists {plan : UnsetPlan} {leaf : Option LeafSpec} {identifier : String} {place : Place}
    (h : identifier ∈ plan.lists place) : plan.puts leaf identifier place.toClass := by
  cases place with
  | generate => exact (generates_iff plan identifier).mpr (.inl h)
  | shared => exact (generates_iff plan identifier).mpr (.inr h)
  | derived => exact h
  | derivedOnTarget => exact h
  | hostDefault => exact h
  | missing => exact h

/-- A value that the plan does not list is in a class by its leaf. -/
theorem puts_unlisted {plan : UnsetPlan} {leaf : Option LeafSpec} {identifier : String} {found : Class}
    (hnone : ∀ place, identifier ∉ plan.lists place) (h : plan.puts leaf identifier found) :
    found = .stored ∧ (∃ path spec, leaf = some (.stored path spec)) ∨
      found = .task ∧ ∃ path spec, leaf = some (.generated path spec) := by
  cases found with
  | stored => exact .inl ⟨rfl, h.1⟩
  | task => exact .inr ⟨rfl, h.1⟩
  | derived => exact absurd h (hnone .derived)
  | derivedOnTarget => exact absurd h (hnone .derivedOnTarget)
  | hostDefault => exact absurd h (hnone .hostDefault)
  | missing => exact absurd h (hnone .missing)
  | generated =>
    rcases (generates_iff plan identifier).mp h with h | h
    · exact absurd h (hnone .generate)
    · exact absurd h (hnone .shared)

theorem puts_listed {plan : UnsetPlan} {leaf : Option LeafSpec} {identifier : String} {found : Class} {place : Place}
    (hplace : identifier ∈ plan.lists place) (h : plan.puts leaf identifier found) :
    ∃ place', identifier ∈ plan.lists place' ∧ place'.toClass = found := by
  cases found with
  | stored => exact absurd hplace (h.2 place)
  | task => exact absurd hplace (h.2 place)
  | derived => exact ⟨.derived, h, rfl⟩
  | derivedOnTarget => exact ⟨.derivedOnTarget, h, rfl⟩
  | hostDefault => exact ⟨.hostDefault, h, rfl⟩
  | missing => exact ⟨.missing, h, rfl⟩
  | generated =>
    rcases (generates_iff plan identifier).mp h with h | h
    · exact ⟨.generate, h, rfl⟩
    · exact ⟨.shared, h, rfl⟩

/-- A value is in one class when its places have one class, and it is stored or a task where it has none. -/
theorem puts_unique_iff (plan : UnsetPlan) (leaf : Option LeafSpec) (identifier : String) :
    (∃! found, plan.puts leaf identifier found) ↔
      (∀ place place', identifier ∈ plan.lists place → identifier ∈ plan.lists place' →
        place.toClass = place'.toClass) ∧
      ((∀ place, identifier ∉ plan.lists place) →
        ∃ path, (∃ spec, leaf = some (.stored path spec)) ∨ ∃ spec, leaf = some (.generated path spec)) := by
  constructor
  · intro h
    obtain ⟨found, hfound, hunique⟩ := h
    constructor
    · intro place place' hplace hplace'
      rw [hunique _ (puts_of_lists hplace), hunique _ (puts_of_lists hplace')]
    · intro hnone
      rcases puts_unlisted hnone hfound with ⟨_, path, spec, hleaf⟩ | ⟨_, path, spec, hleaf⟩
      · exact ⟨path, .inl ⟨spec, hleaf⟩⟩
      · exact ⟨path, .inr ⟨spec, hleaf⟩⟩
  · intro h
    obtain ⟨hsame, hunlisted⟩ := h
    by_cases hlisted : ∃ place, identifier ∈ plan.lists place
    · obtain ⟨place, hplace⟩ := hlisted
      refine ⟨place.toClass, puts_of_lists hplace, fun found hfound => ?_⟩
      obtain ⟨place', hplace', rfl⟩ := puts_listed hplace hfound
      exact hsame place' place hplace' hplace
    · have hnone : ∀ place, identifier ∉ plan.lists place := fun place hplace => hlisted ⟨place, hplace⟩
      obtain ⟨path, ⟨spec, hleaf⟩ | ⟨spec, hleaf⟩⟩ := hunlisted hnone
      · refine ⟨.stored, ⟨⟨path, spec, hleaf⟩, hnone⟩, fun found hfound => ?_⟩
        rcases puts_unlisted hnone hfound with ⟨hfound, _⟩ | ⟨_, _, _, hother⟩
        · exact hfound
        · rw [hleaf] at hother
          cases hother
      · refine ⟨.task, ⟨⟨path, spec, hleaf⟩, hnone⟩, fun found hfound => ?_⟩
        rcases puts_unlisted hnone hfound with ⟨_, _, _, hother⟩ | ⟨hfound, _⟩
        · rw [hleaf] at hother
          cases hother
        · exact hfound

/-- What changes no list but that of the missing values. -/
structure OnlyMissing (before after : UnsetPlan) : Prop where
  generate : after.generate = before.generate
  derived : after.derived = before.derived
  derivedOnTarget : after.derivedOnTarget = before.derivedOnTarget
  hostDefault : after.hostDefault = before.hostDefault
  shared : after.shared = before.shared

theorem OnlyMissing.lists {before after : UnsetPlan} (h : OnlyMissing before after) {place : Place}
    (hplace : place ≠ .missing) (x : String) : x ∈ after.lists place ↔ x ∈ before.lists place := by
  cases place with
  | generate => rw [UnsetPlan.lists, UnsetPlan.lists, h.generate]
  | derived => rw [UnsetPlan.lists, UnsetPlan.lists, h.derived]
  | derivedOnTarget => rw [UnsetPlan.lists, UnsetPlan.lists, h.derivedOnTarget]
  | hostDefault => rw [UnsetPlan.lists, UnsetPlan.lists, h.hostDefault]
  | shared => rw [UnsetPlan.lists, UnsetPlan.lists, h.shared]
  | missing => exact absurd rfl hplace

namespace Preflight

section

variable (libs : Libraries) (schema : Inventory.Schema) (host : Inventory.HostSchema) (identifiers : List String)
  (set stale : BTreeSet String)

theorem problem_congr {plan plan' : UnsetPlan} (h : OnlyMissing plan plan') (identifier : String) (leaf : LeafSpec) :
    problem libs host identifiers set stale plan' identifier leaf =
      problem libs host identifiers set stale plan identifier leaf := by
  cases leaf with
  | generated path task => rfl
  | operator path spec => rfl
  | stored path spec =>
    unfold problem storedProblem
    rw [h.generate, h.derivedOnTarget, h.shared]

/-- A value that the host cannot receive as it is planned. -/
def Late (plan : UnsetPlan) (identifier : String) : Prop :=
  ∃ leaf, leafOf libs schema identifier = .ok leaf ∧
    (problem libs host identifiers set stale plan identifier leaf).isSome

/-- The check lists every value as missing that the host cannot receive. -/
theorem checkOne_all (requested : List String) {first plan : UnsetPlan} (h : OnlyMissing first plan) :
    OnlyMissing first (requested.foldl (checkOne libs schema host identifiers set stale) plan) ∧ ∀ x,
      x ∈ (requested.foldl (checkOne libs schema host identifiers set stale) plan).lists .missing ↔
        x ∈ plan.lists .missing ∨ x ∈ requested ∧ Late libs schema host identifiers set stale first x := by
  induction requested generalizing plan with
  | nil => exact ⟨h, fun x => by simp⟩
  | cons identifier rest ih =>
    have hone : OnlyMissing plan (checkOne libs schema host identifiers set stale plan identifier) ∧ ∀ x,
        x ∈ (checkOne libs schema host identifiers set stale plan identifier).lists .missing ↔
          x ∈ plan.lists .missing ∨ x = identifier ∧ Late libs schema host identifiers set stale first x := by
      have hsame : OnlyMissing plan plan := ⟨rfl, rfl, rfl, rfl, rfl⟩
      unfold checkOne
      split
      next hmissing =>
        refine ⟨hsame, fun x => (or_iff_left_of_imp fun hx => ?_).symm⟩
        obtain ⟨item, hmem, hitem⟩ := List.any_eq_true.mp hmissing
        rw [hx.1, ← of_decide_eq_true hitem]
        exact List.mem_map_of_mem hmem
      next =>
        cases hleaf : leafOf libs schema identifier with
        | error error =>
          refine ⟨hsame, fun x => (or_iff_left_of_imp fun hx => ?_).symm⟩
          obtain ⟨rfl, leaf, hfound, _⟩ := hx
          rw [hleaf] at hfound
          cases hfound
        | ok leaf =>
          dsimp only
          cases hproblem : problem libs host identifiers set stale plan identifier leaf with
          | none =>
            refine ⟨hsame, fun x => (or_iff_left_of_imp fun hx => ?_).symm⟩
            obtain ⟨rfl, found, hfound, hsome⟩ := hx
            rw [hleaf] at hfound
            cases hfound
            rw [← problem_congr libs host identifiers set stale h, hproblem] at hsome
            cases hsome
          | some reason =>
            refine ⟨⟨rfl, rfl, rfl, rfl, rfl⟩, fun x => ?_⟩
            rw [miss_lists]
            apply or_congr_right
            refine ⟨fun hx => ⟨hx.1, leaf, by rw [hx.1, hleaf], ?_⟩, fun hx => ⟨hx.1, rfl⟩⟩
            rw [← problem_congr libs host identifiers set stale h, hx.1, hproblem]
            rfl
    have htrans : OnlyMissing first (checkOne libs schema host identifiers set stale plan identifier) := by
      obtain ⟨h', _⟩ := hone
      exact ⟨h'.generate.trans h.generate, h'.derived.trans h.derived, h'.derivedOnTarget.trans h.derivedOnTarget,
        h'.hostDefault.trans h.hostDefault, h'.shared.trans h.shared⟩
    obtain ⟨hsame, hlists⟩ := ih htrans
    refine ⟨hsame, fun x => ?_⟩
    rw [List.foldl_cons, hlists, hone.2, List.mem_cons, or_assoc, or_and_right]

end

end Preflight

/-- A derived value is no longer framed on the target, and is missing. -/
structure LeavesOut (identifier : String) (before after : UnsetPlan) : Prop where
  same : ∀ place x, place ≠ .derivedOnTarget → place ≠ .missing → (x ∈ after.lists place ↔ x ∈ before.lists place)
  framed : ∀ item, item ∈ after.derivedOnTarget ↔ item ∈ before.derivedOnTarget ∧ item.1 ≠ identifier
  missing : ∀ x, x ∈ after.lists .missing ↔ x ∈ before.lists .missing ∨ x = identifier

theorem leavesOut_miss (plan : UnsetPlan) (identifier : String) (kind : MissingKind) (reason : String) :
    LeavesOut identifier plan
      ({ plan with derivedOnTarget := without identifier plan.derivedOnTarget }.miss identifier kind reason) := by
  constructor
  · intro place x hdot hmissing
    rw [miss_lists]
    cases place <;> simp_all [UnsetPlan.lists]
  · intro item
    simp [UnsetPlan.miss, without]
  · intro x
    rw [miss_lists]
    simp [UnsetPlan.lists]

/-- Every item of a list is left out. -/
theorem leavesOut_all {step : UnsetPlan → String × String → UnsetPlan}
    (h : ∀ plan item, LeavesOut item.1 plan (step plan item)) (items : List (String × String)) (plan : UnsetPlan) :
    (∀ place x, place ≠ .derivedOnTarget → place ≠ .missing →
      (x ∈ (items.foldl step plan).lists place ↔ x ∈ plan.lists place)) ∧
    (∀ item, item ∈ (items.foldl step plan).derivedOnTarget ↔
      item ∈ plan.derivedOnTarget ∧ item.1 ∉ items.map (·.1)) ∧
    ∀ x, x ∈ (items.foldl step plan).lists .missing ↔ x ∈ plan.lists .missing ∨ x ∈ items.map (·.1) := by
  induction items generalizing plan with
  | nil => exact ⟨fun _ _ _ _ => Iff.rfl, by simp, by simp⟩
  | cons item rest ih =>
    obtain ⟨hsame, hframed, hmissing⟩ := ih (step plan item)
    have hstep := h plan item
    refine ⟨fun place x hdot hmiss => ?_, fun other => ?_, fun x => ?_⟩
    · rw [List.foldl_cons, hsame place x hdot hmiss, hstep.same place x hdot hmiss]
    · rw [List.foldl_cons, hframed, hstep.framed, List.map_cons, List.mem_cons, not_or, and_assoc]
    · rw [List.foldl_cons, hmissing, hstep.missing, List.map_cons, List.mem_cons, or_assoc]

/-- What the check of the host makes of a plan. -/
structure Settled (lost : String → Prop) (first plan : UnsetPlan) : Prop where
  same : ∀ place x, place ≠ .generate → place ≠ .derivedOnTarget → place ≠ .missing →
    (x ∈ plan.lists place ↔ x ∈ first.lists place)
  generate : ∀ x, x ∈ plan.lists .generate ↔ x ∈ first.lists .generate ∧ ¬ lost x
  framed : ∀ item, item ∈ plan.derivedOnTarget ↔
    item ∈ first.derivedOnTarget ∧ plan.generates item.2 = true
  missing : ∀ x, x ∈ plan.lists .missing ↔ x ∈ first.lists .missing ∨ lost x ∨
    ∃ item ∈ first.derivedOnTarget, item.1 = x ∧ plan.generates item.2 = false

/-- Framed values of one identifier have one source. -/
def OneSource (plan : UnsetPlan) : Prop :=
  ∀ item ∈ plan.derivedOnTarget, ∀ other ∈ plan.derivedOnTarget, item.1 = other.1 → item.2 = other.2

theorem mem_waiting (plan : UnsetPlan) (item : String × String) :
    item ∈ plan.waiting ↔ item ∈ plan.derivedOnTarget ∧ plan.generates item.2 = false := by
  simp [UnsetPlan.waiting]

/-- Leaving out the values that wait keeps those whose source is generated. -/
theorem leavesOut_waiting {step : UnsetPlan → String × String → UnsetPlan}
    (h : ∀ plan item, LeavesOut item.1 plan (step plan item)) {plan : UnsetPlan} (hsource : OneSource plan) :
    (∀ place x, place ≠ .derivedOnTarget → place ≠ .missing →
      (x ∈ (plan.waiting.foldl step plan).lists place ↔ x ∈ plan.lists place)) ∧
    (∀ item, item ∈ (plan.waiting.foldl step plan).derivedOnTarget ↔
      item ∈ plan.derivedOnTarget ∧ plan.generates item.2 = true) ∧
    ∀ x, x ∈ (plan.waiting.foldl step plan).lists .missing ↔ x ∈ plan.lists .missing ∨
      ∃ item ∈ plan.derivedOnTarget, item.1 = x ∧ plan.generates item.2 = false := by
  obtain ⟨hsame, hframed, hmissing⟩ := leavesOut_all h plan.waiting plan
  refine ⟨hsame, fun item => ?_, fun x => ?_⟩
  · rw [hframed]
    apply and_congr_right
    intro hitem
    rw [← Bool.not_eq_false]
    apply not_congr
    constructor
    · intro hmem
      obtain ⟨other, hother, hsame⟩ := List.mem_map.mp hmem
      obtain ⟨hframed, hgenerates⟩ := (mem_waiting plan other).mp hother
      rw [← hsource other hframed item hitem hsame]
      exact hgenerates
    · intro hgenerates
      exact List.mem_map.mpr ⟨item, (mem_waiting plan item).mpr ⟨hitem, hgenerates⟩, rfl⟩
  · rw [hmissing]
    apply or_congr_right
    rw [List.mem_map]
    constructor
    · intro hx
      obtain ⟨item, hitem, hx⟩ := hx
      obtain ⟨hframed, hgenerates⟩ := (mem_waiting plan item).mp hitem
      exact ⟨item, hframed, hx, hgenerates⟩
    · intro hx
      obtain ⟨item, hframed, hx, hgenerates⟩ := hx
      exact ⟨item, (mem_waiting plan item).mpr ⟨hframed, hgenerates⟩, hx⟩

/-- What a plan generates, by what it lists. -/
theorem generates_congr {plan plan' : UnsetPlan} (hgenerate : ∀ x, x ∈ plan'.lists .generate ↔ x ∈ plan.lists .generate)
    (hshared : ∀ x, x ∈ plan'.lists .shared ↔ x ∈ plan.lists .shared) (x : String) :
    plan'.generates x = plan.generates x := by
  apply Bool.eq_iff_iff.mpr
  rw [generates_iff, generates_iff, hgenerate, hshared]

section

variable (libs : Libraries) (schema : Inventory.Schema) (identifiers : List String) (set : BTreeSet String)

/-- The host that a request is checked for. -/
def requestHost : Option Inventory.HostSchema :=
  identifiers.head?.bind fun identifier => schema.lookup (hostPart identifier)

/-- The public information of a plan that the schema rejects. -/
def rejected (plan : UnsetPlan) : BTreeSet String :=
  Std.ExtTreeSet.ofList ((plan.reasons.toList.filter (·.2 = .invalidUnderSchema)).map (·.1)) compare

/-- A requested value that the host of the request cannot receive. -/
def Lost (plan : UnsetPlan) (identifier : String) : Prop :=
  identifier ∈ identifiers ∧ ∃ host, requestHost schema identifiers = some host ∧
    Preflight.Late libs schema host identifiers set (rejected plan) plan identifier

variable {libs schema identifiers set}

theorem check_settled {first : UnsetPlan} (hmissing : ∀ x ∈ first.lists .generate, x ∉ first.lists .missing)
    (hframed : ∀ item ∈ first.derivedOnTarget, first.generates item.2 = true) (hsource : OneSource first) :
    Settled (Lost libs schema identifiers set first) first (Preflight.check libs schema identifiers set first) := by
  unfold Preflight.check
  cases hhost : identifiers.head?.bind fun identifier => schema.lookup (hostPart identifier) with
  | none =>
    have hlost : ∀ x, ¬ Lost libs schema identifiers set first x := by
      intro x h
      obtain ⟨_, host, hfound, _⟩ := h
      rw [requestHost, hhost] at hfound
      cases hfound
    refine ⟨fun _ _ _ _ _ => Iff.rfl, fun x => (and_iff_left (hlost x)).symm,
      fun item => (and_iff_left_of_imp (hframed item)).symm, fun x => ?_⟩
    rw [or_iff_right (hlost x)]
    refine (or_iff_left ?_).symm
    intro h
    obtain ⟨item, hitem, _, hgenerates⟩ := h
    rw [hframed item hitem] at hgenerates
    cases hgenerates
  | some host =>
    dsimp only
    have hlost : ∀ x, x ∈ identifiers ∧ Preflight.Late libs schema host identifiers set (rejected first) first x ↔
        Lost libs schema identifiers set first x := by
      intro x
      constructor
      · intro h
        exact ⟨h.1, host, hhost, h.2⟩
      · intro h
        obtain ⟨hx, other, hother, hlate⟩ := h
        cases hhost.symm.trans hother
        exact ⟨hx, hlate⟩
    have hfirst : OnlyMissing first first := ⟨rfl, rfl, rfl, rfl, rfl⟩
    obtain ⟨hsame, hmarked⟩ :=
      Preflight.checkOne_all libs schema host identifiers set (rejected first) identifiers hfirst
    generalize hchecked : identifiers.foldl (Preflight.checkOne libs schema host identifiers set (rejected first))
      first = checked at hsame hmarked
    have hchecked' : identifiers.foldl (Preflight.checkOne libs schema host identifiers set
        (Std.ExtTreeSet.ofList ((first.reasons.toList.filter (·.2 = .invalidUnderSchema)).map (·.1)) compare))
        first = checked := hchecked
    rw [hchecked']
    generalize hkept : { checked with
      generate := checked.generate.filter fun item => !checked.missing.any (·.1 = item.1) } = kept
    have hgenerate : ∀ x, x ∈ kept.lists .generate ↔
        x ∈ first.lists .generate ∧ ¬ Lost libs schema identifiers set first x := by
      intro x
      have hx : x ∈ kept.lists .generate ↔ x ∈ checked.lists .generate ∧ x ∉ checked.lists .missing := by
        rw [← hkept]
        simp only [UnsetPlan.lists, List.mem_map, List.mem_filter, Bool.not_eq_true', List.any_eq_false,
          decide_eq_true_eq]
        constructor
        · intro h
          obtain ⟨item, ⟨hitem, hnone⟩, hx⟩ := h
          refine ⟨⟨item, hitem, hx⟩, fun hmissing => ?_⟩
          obtain ⟨other, hother, hsame⟩ := hmissing
          exact hnone other hother (hsame.trans hx.symm)
        · intro h
          obtain ⟨⟨item, hitem, hx⟩, hnone⟩ := h
          exact ⟨item, ⟨hitem, fun other hother hsame => hnone ⟨other, hother, hsame.trans hx⟩⟩, hx⟩
      rw [hx, hsame.lists (by simp), hmarked, hlost]
      constructor
      · intro h
        exact ⟨h.1, fun hlate => h.2 (.inr hlate)⟩
      · intro h
        exact ⟨h.1, fun hx => hx.elim (hmissing x h.1) h.2⟩
    have hrest : ∀ place x, place ≠ .generate → (x ∈ kept.lists place ↔ x ∈ checked.lists place) := by
      intro place x hplace
      rw [← hkept]
      cases place with
      | generate => exact absurd rfl hplace
      | derived => rfl
      | derivedOnTarget => rfl
      | hostDefault => rfl
      | missing => rfl
      | shared => rfl
    have hdot : kept.derivedOnTarget = first.derivedOnTarget := by
      rw [← hkept]
      exact hsame.derivedOnTarget
    have hone : OneSource kept := by
      unfold OneSource
      rw [hdot]
      exact hsource
    have hstep : ∀ (plan : UnsetPlan) (item : String × String), LeavesOut item.1 plan
        (if { plan with derivedOnTarget := without item.1 plan.derivedOnTarget }.missing.any (·.1 = item.1) then
          { plan with derivedOnTarget := without item.1 plan.derivedOnTarget }
        else { plan with derivedOnTarget := without item.1 plan.derivedOnTarget }.miss item.1 .cannotDeploy
          ("its source " ++ item.2 ++ " cannot be generated in this deployment")) := by
      intro plan item
      split
      next hmissing =>
        refine ⟨fun place x hdot _ => ?_, fun other => ?_, fun x => ?_⟩
        · cases place <;> first | rfl | exact absurd rfl hdot
        · simp [without]
        · refine (or_iff_left_of_imp fun hx => ?_).symm
          obtain ⟨other, hmem, hother⟩ := List.any_eq_true.mp hmissing
          rw [hx, ← of_decide_eq_true hother]
          exact List.mem_map_of_mem hmem
      · exact leavesOut_miss plan item.1 _ _
    obtain ⟨hlists, hframed', hmissing'⟩ := leavesOut_waiting hstep hone
    have hgenerates : ∀ x, (kept.waiting.foldl (fun plan item =>
        if { plan with derivedOnTarget := without item.1 plan.derivedOnTarget }.missing.any (·.1 = item.1) then
          { plan with derivedOnTarget := without item.1 plan.derivedOnTarget }
        else { plan with derivedOnTarget := without item.1 plan.derivedOnTarget }.miss item.1 .cannotDeploy
          ("its source " ++ item.2 ++ " cannot be generated in this deployment")) kept).generates x =
        kept.generates x :=
      generates_congr (fun x => hlists .generate x (by simp) (by simp)) fun x => hlists .shared x (by simp) (by simp)
    refine ⟨fun place x hgen hdot hmiss => ?_, fun x => ?_, fun item => ?_, fun x => ?_⟩
    · rw [hlists place x hdot hmiss, hrest place x hgen, hsame.lists hmiss]
    · rw [hlists .generate x (by simp) (by simp), hgenerate]
    · rw [hframed', hgenerates, hdot]
    · rw [hmissing', hrest .missing x (by simp), hmarked, hlost, hdot, or_assoc]
      simp only [hgenerates]

end

/-- What the fate of a value says about its leaf. -/
def Fate.Fits (set : BTreeSet String) (identifier : String) (leaf : LeafSpec) : Fate → Prop
  | .missing => True
  | .derived _ | .hostDefault => ∃ path spec, leaf = .stored path spec
  | .waits source => (∃ path spec, leaf = .stored path spec) ∧ set.contains source = false
  | .stored => (∃ path spec, leaf = .stored path spec) ∧ set.contains identifier = true
  | .task => ∃ path spec, leaf = .generated path spec
  | .generated => ∃ path spec, leaf = .stored path spec ∧ spec.kind ≠ .publicInfo ∧ spec.derivedFrom = none
  | .refused => ∃ path spec, leaf = .operator path spec

theorem leafFate_fits (schema : Inventory.Schema) (set : BTreeSet String) (identifier : String) (leaf : LeafSpec) :
    (leafFate schema set identifier leaf).Fits set identifier leaf := by
  unfold leafFate
  split
  · trivial
  · cases leaf with
    | operator path spec =>
      dsimp only [derivedSource]
      split
      · exact ⟨path, spec, rfl⟩
      · exact ⟨path, spec, rfl⟩
    | generated path spec =>
      dsimp only [derivedSource]
      split
      · exact ⟨path, spec, rfl⟩
      · dsimp only [unsetFate]
        split
        · trivial
        · exact ⟨path, spec, rfl⟩
    | stored path spec =>
      dsimp only [derivedSource]
      cases hderived : spec.derivedFrom with
      | some source =>
        dsimp only [Option.map_some]
        split
        · exact ⟨path, spec, rfl⟩
        next hunset => exact ⟨⟨path, spec, rfl⟩, Bool.eq_false_iff.mpr hunset⟩
      | none =>
        dsimp only [Option.map_none]
        split
        next hset => exact ⟨⟨path, spec, rfl⟩, hset⟩
        next =>
          dsimp only [unsetFate]
          split
          · split
            · exact ⟨path, spec, rfl⟩
            · trivial
          next hkind =>
            split
            · trivial
            · split
              · exact ⟨path, spec, rfl, hkind, hderived⟩
              · trivial

section

variable {libs : Libraries} {schema : Inventory.Schema} {set : BTreeSet String} {stale : BTreeMap String String}
  {identifiers : List String}

theorem fate_leaf {identifier : String} {found : Fate} (h : fate schema set libs stale identifier = some found)
    (hfound : found ≠ .missing) :
    ∃ leaf, leafOf libs schema identifier = .ok leaf ∧ found.Fits set identifier leaf := by
  unfold fate at h
  cases hstale : stale[identifier]? with
  | some reason =>
    rw [hstale] at h
    exact absurd (Option.some.inj h).symm hfound
  | none =>
    rw [hstale] at h
    cases hleaf : leafOf libs schema identifier with
    | error error =>
      rw [hleaf] at h
      cases h
    | ok leaf =>
      rw [hleaf] at h
      cases h
      exact ⟨leaf, rfl, leafFate_fits schema set identifier leaf⟩

/-- The source of a waiting value is unset. -/
theorem awaited_unset {item : String × String} (h : item ∈ awaited libs schema set stale identifiers) :
    set.contains item.2 = false := by
  obtain ⟨_, hfate⟩ := awaited_fate h
  obtain ⟨leaf, _, _, hunset⟩ := fate_leaf hfate (by simp)
  exact hunset

theorem foreign_leaf {source : String} (h : Foreign libs schema set stale identifiers source) :
    (∃ path leaf, leafOf libs schema source = .ok (.stored path leaf)) ∧ set.contains source = false := by
  obtain ⟨_, item, hmem, rfl, hgenerator, _⟩ := h
  refine ⟨?_, awaited_unset hmem⟩
  cases hstored : storedLeaf libs schema item.2 with
  | none =>
    rw [sharedGenerator, hstored] at hgenerator
    cases hgenerator
  | some leaf =>
    unfold storedLeaf at hstored
    cases hleaf : leafOf libs schema item.2 with
    | error error =>
      rw [hleaf] at hstored
      cases hstored
    | ok found =>
      rw [hleaf] at hstored
      cases found with
      | stored path spec => exact ⟨path, spec, rfl⟩
      | generated path spec => cases hstored
      | operator path spec => cases hstored

/-- A waiting value is framed or unframed. -/
theorem waits_cases {identifier source : String} (hmem : identifier ∈ identifiers)
    (h : fate schema set libs stale identifier = some (.waits source)) :
    FramedThere libs schema set stale identifiers (identifier, source) ∨
      Unframed libs schema set stale identifiers (identifier, source) := by
  have hawaited : (identifier, source) ∈ awaited libs schema set stale identifiers := by
    apply List.mem_flatMap.mpr
    refine ⟨identifier, hmem, ?_⟩
    rw [h]
    exact List.mem_singleton.mpr rfl
  obtain ⟨earlier, later, hsplit⟩ := List.append_of_mem hawaited
  by_cases hframed : Framed libs schema (Own libs schema set stale identifiers) earlier (identifier, source)
  · exact .inl ⟨earlier, later, hsplit, hframed⟩
  · exact .inr ⟨earlier, later, hsplit, hframed⟩

end

section

variable (schema : Inventory.Schema) (identifiers : List String)

/-- The deployment protocol of the host that a request is checked for. -/
def receiver : Option UInt16 :=
  (requestHost schema identifiers).bind (·.metadata.deployment.protocolVersion)

end

/-- The receiver of this protocol cannot take a value that is framed there, from a source of another host. -/
def TooOld (protocol : UInt16) (leaf : Inventory.SecretLeaf) (framed foreign : Prop) : Prop :=
  framed ∧ protocol < Transport.generationProtocolVersion ∨
  foreign ∧ protocol < Transport.sharedSourceProtocolVersion ∨
  (leaf.derivedFrom.any fun derived => derived.tomlPath ≠ []) = true ∧
    protocol < Transport.sharedSourceProtocolVersion ∨
  (leaf.kind = .publicInfo ∧ (1 < leaf.sshHosts.length ∨ Preflight.multiLine leaf = true)) ∧
    protocol < Transport.notDeployedProtocolVersion

theorem needs_isSome (protocol version : UInt16) (feature : String) :
    (Preflight.needs protocol version feature).isSome ↔ protocol < version := by
  unfold Preflight.needs
  split
  next h => exact iff_of_true rfl h
  next h => exact iff_of_false Bool.false_ne_true h

theorem storedProblem_isSome (leaf : Inventory.SecretLeaf) (plan : UnsetPlan) (identifier : String)
    (protocol : UInt16) : (Preflight.storedProblem leaf plan identifier protocol).isSome ↔
      TooOld protocol leaf
        (plan.generate.any (·.1 = identifier) = true ∨ plan.derivedOnTarget.any (·.1 = identifier) = true)
        (((plan.derivedOnTarget.find? (·.1 = identifier)).any fun item => plan.shared.any (·.1 = item.2)) = true) := by
  have hif : ∀ (c : Prop) [Decidable c] (version : UInt16) (feature : String),
      (if c then Preflight.needs protocol version feature else none).isSome ↔ c ∧ protocol < version := by
    intro c _ version feature
    split
    next h => rw [needs_isSome, and_iff_right h]
    next h => exact iff_of_false Bool.false_ne_true fun hc => h hc.1
  unfold Preflight.storedProblem TooOld
  dsimp only
  simp only [Option.isSome_or, Option.orElse_eq_or, Option.orElse_eq_orElse, Bool.or_eq_true, hif]

section

variable {libs : Libraries} {schema : Inventory.Schema} {set : BTreeSet String} {identifiers : List String}
  {first : UnsetPlan}

/-- A stored value is lost to a receiver that is too old for it. -/
theorem lost_stored {identifier : String} {path : SecretPath} {leaf : Inventory.SecretLeaf}
    (hleaf : leafOf libs schema identifier = .ok (.stored path leaf)) :
    Lost libs schema identifiers set first identifier ↔
      identifier ∈ identifiers ∧ ∃ protocol, receiver schema identifiers = some protocol ∧
        TooOld protocol leaf (identifier ∈ first.lists .generate ∨ identifier ∈ first.lists .derivedOnTarget)
          (((first.derivedOnTarget.find? (·.1 = identifier)).any fun item =>
            first.shared.any (·.1 = item.2)) = true) := by
  have hany : ∀ items : List (String × String), items.any (·.1 = identifier) = true ↔
      identifier ∈ items.map (·.1) := by
    intro items
    simp
  unfold Lost receiver
  apply and_congr_right
  intro _
  cases requestHost schema identifiers with
  | none => simp
  | some host =>
    simp only [Option.some.injEq, exists_eq_left', Option.bind_some, UnsetPlan.lists, ← hany]
    constructor
    · intro h
      obtain ⟨found, hfound, hproblem⟩ := h
      rw [hleaf] at hfound
      cases hfound
      cases hprotocol : host.metadata.deployment.protocolVersion with
      | none =>
        simp only [Preflight.problem, hprotocol] at hproblem
        cases hproblem
      | some protocol =>
        simp only [Preflight.problem, hprotocol] at hproblem
        exact ⟨protocol, rfl, (storedProblem_isSome leaf first identifier protocol).mp hproblem⟩
    · intro h
      obtain ⟨protocol, hprotocol, hold⟩ := h
      refine ⟨_, hleaf, ?_⟩
      simp only [Preflight.problem, hprotocol]
      exact (storedProblem_isSome leaf first identifier protocol).mpr hold

/-- An operator-only value is not lost. -/
theorem not_lost_operator {identifier : String} {path : SecretPath} {leaf : OperatorLeaf}
    (hleaf : leafOf libs schema identifier = .ok (.operator path leaf)) :
    ¬ Lost libs schema identifiers set first identifier := by
  intro h
  obtain ⟨_, host, _, found, hfound, hproblem⟩ := h
  rw [hleaf] at hfound
  cases hfound
  cases hproblem

end

end NixSecrets.Manager
