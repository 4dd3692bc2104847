import NixSecrets.PlanClosed

namespace NixSecrets.Manager

open Inventory

section

variable (libs : Libraries) (schema : Inventory.Schema) (set : BTreeSet String) (stale : BTreeMap String String)
  (identifiers : List String)

/-- A request whose classes come out exact and closed. -/
structure Plannable : Prop where
  deployable : ∀ identifier ∈ identifiers, fate schema set libs stale identifier ≠ some .refused
  /-- The receiver can take every value that the operator derives or the host has a default for. -/
  receivable : ∀ identifier ∈ identifiers, (∃ source, fate schema set libs stale identifier =
    some (.derived source)) ∨ fate schema set libs stale identifier = some .hostDefault →
    ∀ path leaf protocol, leafOf libs schema identifier = .ok (.stored path leaf) →
      receiver schema identifiers = some protocol → ¬ TooOld protocol leaf False False
  /-- The receiver can take every framed value, or generates none of the host's values. -/
  frameable : ∀ item, FramedThere libs schema set stale identifiers item → ∀ path leaf protocol,
    leafOf libs schema item.1 = .ok (.stored path leaf) → receiver schema identifiers = some protocol →
      TooOld protocol leaf True (Foreign libs schema set stale identifiers item.2) →
      Own libs schema set stale identifiers item.2 ∧ protocol < Transport.generationProtocolVersion
  elsewhere : ∀ source, Foreign libs schema set stale identifiers source → source ∉ identifiers
  steady : ∀ item, FramedThere libs schema set stale identifiers item →
    ¬ Unframed libs schema set stale identifiers item

/-- Every source of another host that is still generated is left a value to frame. -/
def Consumed (mismatched : List String) : Prop :=
  ∀ source, Foreign libs schema set stale identifiers source → source ∈ mismatched ∨
    ∃ item, FramedThere libs schema set stale identifiers item ∧ item.2 = source ∧ item.1 ∉ mismatched

variable {libs schema set stale identifiers} {first plan : UnsetPlan}

theorem Sketched.generate (h : Sketched libs schema set stale identifiers first) (x : String) :
    x ∈ first.lists .generate ↔ Own libs schema set stale identifiers x := by
  rw [h.listed .generate x (by simp) (by simp) (by simp), place_generate]
  rfl

theorem Sketched.dot (h : Sketched libs schema set stale identifiers first) (x : String) :
    x ∈ first.lists .derivedOnTarget ↔ ∃ item, FramedThere libs schema set stale identifiers item ∧ item.1 = x := by
  constructor
  · intro hx
    obtain ⟨item, hitem, hx⟩ := List.mem_map.mp hx
    exact ⟨item, (h.framed item).mp hitem, hx⟩
  · intro hx
    obtain ⟨item, hitem, hx⟩ := hx
    exact List.mem_map.mpr ⟨item, (h.framed item).mpr hitem, hx⟩

theorem Sketched.generates (h : Sketched libs schema set stale identifiers first) (x : String) :
    first.generates x = true ↔
      Own libs schema set stale identifiers x ∨ Foreign libs schema set stale identifiers x := by
  rw [generates_iff, h.generate, h.shared]

theorem Sketched.oneSource (h : Sketched libs schema set stale identifiers first) : OneSource first := by
  intro item hitem other hother hsame
  have hfate := ((h.framed item).mp hitem).fate.2
  rw [hsame, ((h.framed other).mp hother).fate.2] at hfate
  exact (Fate.waits.inj (Option.some.inj hfate)).symm

theorem Sketched.settled (h : Sketched libs schema set stale identifiers first) :
    Settled (Lost libs schema identifiers set first) first (Preflight.check libs schema identifiers set first) := by
  apply check_settled
  · intro x hx hmissing
    have hgenerated := ((h.generate x).mp hx).2
    rcases (h.missing x).mp hmissing with hmissing | hunframed
    · rw [hmissing.2] at hgenerated
      cases hgenerated
    · obtain ⟨item, rfl, hunframed⟩ := hunframed
      rw [hunframed.fate.2] at hgenerated
      cases hgenerated
  · intro item hitem
    exact (h.generates item.2).mpr ((h.framed item).mp hitem).source
  · exact h.oneSource

/-- The values of a fate, where the host is not looked at. -/
theorem lost_plain (h : Sketched libs schema set stale identifiers first) {identifier : String} {found : Fate}
    {path : SecretPath} {leaf : Inventory.SecretLeaf} (hmem : identifier ∈ identifiers)
    (hfate : fate schema set libs stale identifier = some found) (hgenerated : found ≠ .generated)
    (hwaits : ∀ source, found ≠ .waits source)
    (hleaf : leafOf libs schema identifier = .ok (.stored path leaf)) :
    Lost libs schema identifiers set first identifier ↔
      ∃ protocol, receiver schema identifiers = some protocol ∧ TooOld protocol leaf False False := by
  have hgenerate : identifier ∉ first.lists .generate := by
    intro hx
    have hown := ((h.generate identifier).mp hx).2
    rw [hfate] at hown
    exact hgenerated (Option.some.inj hown)
  have hdot : identifier ∉ first.lists .derivedOnTarget := by
    intro hx
    obtain ⟨item, hitem, rfl⟩ := (h.dot identifier).mp hx
    rw [hitem.fate.2] at hfate
    exact hwaits item.2 (Option.some.inj hfate).symm
  have hfind : first.derivedOnTarget.find? (·.1 = identifier) = none := by
    apply List.find?_eq_none.mpr
    intro item hitem hsame
    exact hdot (List.mem_map.mpr ⟨item, hitem, of_decide_eq_true hsame⟩)
  rw [lost_stored hleaf, and_iff_right hmem, hfind]
  simp only [hgenerate, hdot, or_self, Option.any_none, Bool.false_eq_true]

theorem lost_own (h : Sketched libs schema set stale identifiers first) {identifier : String}
    (hown : Own libs schema set stale identifiers identifier) :
    Lost libs schema identifiers set first identifier ↔
      ∃ protocol, receiver schema identifiers = some protocol ∧ protocol < Transport.generationProtocolVersion := by
  obtain ⟨leaf, hleaf, path, spec, rfl, hkind, hderived⟩ := fate_leaf hown.2 (by simp)
  have hgenerate : identifier ∈ first.lists .generate := (h.generate identifier).mpr hown
  have hdot : identifier ∉ first.lists .derivedOnTarget := by
    intro hx
    obtain ⟨item, hitem, rfl⟩ := (h.dot identifier).mp hx
    have hfate := hitem.fate.2
    rw [hown.2] at hfate
    cases hfate
  have hfind : first.derivedOnTarget.find? (·.1 = identifier) = none := by
    apply List.find?_eq_none.mpr
    intro item hitem hsame
    exact hdot (List.mem_map.mpr ⟨item, hitem, of_decide_eq_true hsame⟩)
  rw [lost_stored hleaf, and_iff_right hown.1, hfind]
  simp [TooOld, hgenerate, hkind, hderived]

theorem lost_framed (h : Sketched libs schema set stale identifiers first) {item : String × String}
    (hitem : FramedThere libs schema set stale identifiers item) {path : SecretPath} {leaf : Inventory.SecretLeaf}
    (hleaf : leafOf libs schema item.1 = .ok (.stored path leaf)) :
    Lost libs schema identifiers set first item.1 ↔ ∃ protocol, receiver schema identifiers = some protocol ∧
      TooOld protocol leaf True (Foreign libs schema set stale identifiers item.2) := by
  have hmem : item ∈ first.derivedOnTarget := (h.framed item).mpr hitem
  have hdot : item.1 ∈ first.lists .derivedOnTarget := List.mem_map_of_mem hmem
  obtain ⟨found, hfind⟩ : ∃ found, first.derivedOnTarget.find? (·.1 = item.1) = some found := by
    apply Option.isSome_iff_exists.mp
    exact List.find?_isSome.mpr ⟨item, hmem, decide_eq_true rfl⟩
  have hsource : found.2 = item.2 :=
    h.oneSource found (List.mem_of_find?_eq_some hfind) item hmem
      (of_decide_eq_true (List.find?_some hfind :))
  have hforeign : (first.shared.any (·.1 = item.2)) = true ↔ Foreign libs schema set stale identifiers item.2 := by
    rw [← h.shared]
    simp [UnsetPlan.lists]
  rw [lost_stored hleaf, and_iff_right hitem.fate.1, hfind]
  simp only [hdot, or_true, Option.any_some, hsource, hforeign]

theorem place_derived {found : Option Fate} (h : found.bind (·.place) = some .derived) :
    ∃ source, found = some (.derived source) := by
  cases found with
  | none => cases h
  | some found => cases found <;> simp_all [Fate.place]

theorem place_hostDefault {found : Option Fate} (h : found.bind (·.place) = some .hostDefault) :
    found = some .hostDefault := by
  cases found with
  | none => cases h
  | some found => cases found <;> simp_all [Fate.place]

/-- Every value a plan lists is requested, or is a source of another host. -/
theorem Sketched.requested (h : Sketched libs schema set stale identifiers first) {place : Place} {x : String}
    (hx : x ∈ first.lists place) (hplace : place ≠ .shared) : x ∈ identifiers := by
  cases place with
  | shared => exact absurd rfl hplace
  | generate => exact ((h.generate x).mp hx).1
  | derived => exact ((h.listed .derived x (by simp) (by simp) (by simp)).mp hx).1
  | hostDefault => exact ((h.listed .hostDefault x (by simp) (by simp) (by simp)).mp hx).1
  | derivedOnTarget =>
    obtain ⟨item, hitem, hx⟩ := (h.dot x).mp hx
    rw [← hx]
    exact hitem.fate.1
  | missing =>
    rcases (h.missing x).mp hx with hx | hx
    · exact hx.1
    · obtain ⟨item, hx, hitem⟩ := hx
      rw [← hx]
      exact hitem.fate.1

/-- A requested value that is neither stored, a task nor refused is listed. -/
theorem Sketched.listed_of_fate (h : Sketched libs schema set stale identifiers first) {x : String} {found : Fate}
    (hmem : x ∈ identifiers) (hfate : fate schema set libs stale x = some found) (hstored : found ≠ .stored)
    (htask : found ≠ .task) (hrefused : found ≠ .refused) : ∃ place, place ≠ .shared ∧ x ∈ first.lists place := by
  have hplace : ∀ place, place ≠ .derivedOnTarget → place ≠ .missing → place ≠ .shared →
      found.place = some place → x ∈ first.lists place := by
    intro place hdot hmissing hshared hfound
    apply (h.listed place x hdot hmissing hshared).mpr
    rw [hfate]
    exact ⟨hmem, hfound⟩
  cases found with
  | missing => exact ⟨.missing, by simp, (h.missing x).mpr (.inl ⟨hmem, hfate⟩)⟩
  | derived source => exact ⟨.derived, by simp, hplace .derived (by simp) (by simp) (by simp) rfl⟩
  | hostDefault => exact ⟨.hostDefault, by simp, hplace .hostDefault (by simp) (by simp) (by simp) rfl⟩
  | generated => exact ⟨.generate, by simp, hplace .generate (by simp) (by simp) (by simp) rfl⟩
  | waits source =>
    rcases waits_cases hmem hfate with hframed | hunframed
    · exact ⟨.derivedOnTarget, by simp, (h.dot x).mpr ⟨_, hframed, rfl⟩⟩
    · exact ⟨.missing, by simp, (h.missing x).mpr (.inr ⟨_, rfl, hunframed⟩)⟩
  | stored => exact absurd rfl hstored
  | task => exact absurd rfl htask
  | refused => exact absurd rfl hrefused

/-- What was listed stays there, or is missing. -/
theorem Settled.kept {lost : String → Prop} (h : Settled lost first plan) {place : Place} {x : String}
    (hx : x ∈ first.lists place) : x ∈ plan.lists place ∨ x ∈ plan.lists .missing := by
  by_cases hgenerate : place = .generate
  · subst hgenerate
    by_cases hlost : lost x
    · exact .inr ((h.missing x).mpr (.inr (.inl hlost)))
    · exact .inl ((h.generate x).mpr ⟨hx, hlost⟩)
  · by_cases hdot : place = .derivedOnTarget
    · subst hdot
      obtain ⟨item, hitem, rfl⟩ := List.mem_map.mp hx
      cases hgenerates : plan.generates item.2 with
      | true => exact .inl (List.mem_map_of_mem ((h.framed item).mpr ⟨hitem, hgenerates⟩))
      | false => exact .inr ((h.missing item.1).mpr (.inr (.inr ⟨item, hitem, rfl, hgenerates⟩)))
    · by_cases hmissing : place = .missing
      · subst hmissing
        exact .inl ((h.missing x).mpr (.inl hx))
      · exact .inl ((h.same place x hgenerate hdot hmissing).mpr hx)

/-- What is listed was listed there, or it is missing and lost or framed before. -/
theorem Settled.before {lost : String → Prop} (h : Settled lost first plan) {place : Place} {x : String}
    (hx : x ∈ plan.lists place) : x ∈ first.lists place ∨
      place = .missing ∧ (lost x ∨ x ∈ first.lists .derivedOnTarget) := by
  by_cases hgenerate : place = .generate
  · subst hgenerate
    exact .inl ((h.generate x).mp hx).1
  · by_cases hdot : place = .derivedOnTarget
    · subst hdot
      obtain ⟨item, hitem, rfl⟩ := List.mem_map.mp hx
      exact .inl (List.mem_map_of_mem ((h.framed item).mp hitem).1)
    · by_cases hmissing : place = .missing
      · subst hmissing
        rcases (h.missing x).mp hx with hfirst | hlost | hframed
        · exact .inl hfirst
        · exact .inr ⟨rfl, .inl hlost⟩
        · obtain ⟨item, hitem, hx, _⟩ := hframed
          exact .inr ⟨rfl, .inr (List.mem_map.mpr ⟨item, hitem, hx⟩)⟩
      · exact .inl ((h.same place x hgenerate hdot hmissing).mp hx)

/-- The sources of another host are those of the sketch. -/
theorem Settled.shared {lost : String → Prop} (hplan : Settled lost first plan)
    (h : Sketched libs schema set stale identifiers first) (x : String) :
    x ∈ plan.lists .shared ↔ Foreign libs schema set stale identifiers x := by
  rw [hplan.same .shared x (by simp) (by simp) (by simp), h.shared]

theorem Settled.own {lost : String → Prop} (hplan : Settled lost first plan)
    (h : Sketched libs schema set stale identifiers first) {x : String}
    (hown : Own libs schema set stale identifiers x) : plan.generates x = true ↔ ¬ lost x := by
  rw [generates_iff, hplan.generate, hplan.shared h, h.generate, or_iff_left fun hforeign => hforeign.1 hown,
    and_iff_right hown]

end

section

variable {libs : Libraries} {schema : Inventory.Schema} {set : BTreeSet String} {stale : BTreeMap String String}
  {identifiers : List String} {first plan : UnsetPlan} (h : Sketched libs schema set stale identifiers first)
  (hplan : Settled (Lost libs schema identifiers set first) first plan)

include h hplan

theorem Closed.deployable (hclosed : Closed libs schema identifiers [] plan) {x : String} (hmem : x ∈ identifiers) :
    fate schema set libs stale x ≠ some .refused := by
  intro hfate
  obtain ⟨_, hleaf, path, spec, rfl⟩ := fate_leaf hfate (by simp)
  have hfirst : ∀ place, x ∉ first.lists place := by
    intro place hx
    have hwaits : ∀ item : String × String, item.1 = x → fate schema set libs stale item.1 ≠ some (.waits item.2) := by
      intro item hitem hwaits
      rw [hitem, hfate] at hwaits
      cases hwaits
    have hlisted : ∀ place, place ≠ .derivedOnTarget → place ≠ .missing → place ≠ .shared →
        x ∉ first.lists place := by
      intro place hdot hmissing hshared hx
      have hplace := ((h.listed place x hdot hmissing hshared).mp hx).2
      rw [hfate] at hplace
      cases hplace
    cases place with
    | generate => exact hlisted .generate (by simp) (by simp) (by simp) hx
    | derived => exact hlisted .derived (by simp) (by simp) (by simp) hx
    | hostDefault => exact hlisted .hostDefault (by simp) (by simp) (by simp) hx
    | derivedOnTarget =>
      obtain ⟨item, hitem, hx⟩ := (h.dot x).mp hx
      exact hwaits item hx hitem.fate.2
    | shared =>
      obtain ⟨⟨_, _, hstored⟩, _⟩ := foreign_leaf ((h.shared x).mp hx)
      rw [hleaf] at hstored
      cases hstored
    | missing =>
      rcases (h.missing x).mp hx with hx | hx
      · rw [hfate] at hx
        cases hx.2
      · obtain ⟨item, hx, hitem⟩ := hx
        exact hwaits item hx hitem.fate.2
  have hnone : ∀ place, x ∉ plan.lists place := by
    intro place hx
    rcases hplan.before hx with hx | ⟨_, hlost | hx⟩
    · exact hfirst place hx
    · exact not_lost_operator hleaf hlost
    · exact hfirst .derivedOnTarget hx
  obtain ⟨_, hunlisted⟩ := (puts_unique_iff plan _ x).mp (hclosed.one x hmem)
  obtain ⟨_, ⟨_, hleaf'⟩ | ⟨_, hleaf'⟩⟩ := hunlisted hnone
  · rw [hleaf] at hleaf'
    cases hleaf'
  · rw [hleaf] at hleaf'
    cases hleaf'

theorem Closed.elsewhere (hclosed : Closed libs schema identifiers [] plan) {source : String}
    (hforeign : Foreign libs schema set stale identifiers source) : source ∉ identifiers := by
  intro hmem
  have hshared : source ∈ plan.lists .shared := (hplan.shared h source).mpr hforeign
  obtain ⟨⟨_, _, hleaf⟩, hunset⟩ := foreign_leaf hforeign
  obtain ⟨hsame, _⟩ := (puts_unique_iff plan _ source).mp (hclosed.one source hmem)
  obtain ⟨found, hfate⟩ := Option.isSome_iff_exists.mp (h.known source hmem)
  have hstored : found ≠ .stored := by
    rintro rfl
    obtain ⟨_, _, _, hset⟩ := fate_leaf hfate (by simp)
    rw [hunset] at hset
    cases hset
  have htask : found ≠ .task := by
    rintro rfl
    obtain ⟨_, hfound, _, _, rfl⟩ := fate_leaf hfate (by simp)
    rw [hleaf] at hfound
    cases hfound
  have hrefused : found ≠ .refused := by
    rintro rfl
    obtain ⟨_, hfound, _, _, rfl⟩ := fate_leaf hfate (by simp)
    rw [hleaf] at hfound
    cases hfound
  obtain ⟨place, hplace, hlisted⟩ := h.listed_of_fate hmem hfate hstored htask hrefused
  have hgenerate : place ≠ .generate := by
    rintro rfl
    exact hforeign.1 ((h.generate source).mp hlisted)
  rcases hplan.kept hlisted with hkept | hmissing
  · have hclass := hsame place .shared hkept hshared
    cases place <;> first | exact hplace rfl | exact hgenerate rfl | cases hclass
  · cases hsame .missing .shared hmissing hshared

/-- The request of a closed plan can be planned. -/
theorem Closed.plannable (hclosed : Closed libs schema identifiers [] plan) :
    Plannable libs schema set stale identifiers := by
  refine ⟨fun x hmem => hclosed.deployable h hplan hmem, ?_, ?_,
    fun source hforeign => hclosed.elsewhere h hplan hforeign, ?_⟩
  · intro x hmem hfate path leaf protocol hleaf hprotocol hold
    have hmissing : ∀ found, fate schema set libs stale x = some found → found ≠ .generated →
        (∀ source, found ≠ .waits source) → x ∈ plan.lists .missing := by
      intro found hfound hgenerated hwaits
      apply (hplan.missing x).mpr
      exact .inr (.inl ((lost_plain h hmem hfound hgenerated hwaits hleaf).mpr ⟨protocol, hprotocol, hold⟩))
    have hkept : ∀ found place, fate schema set libs stale x = some found → found.place = some place →
        place ≠ .generate → place ≠ .derivedOnTarget → place ≠ .missing → place ≠ .shared →
        x ∈ plan.lists place := by
      intro found place hfound hplace hgenerate hdot hmissing hshared
      rw [hplan.same place x hgenerate hdot hmissing, h.listed place x hdot hmissing hshared, hfound]
      exact ⟨hmem, hplace⟩
    rcases hfate with ⟨source, hfate⟩ | hfate
    · exact hclosed.apart x (.inl (hmissing _ hfate (by simp) (by simp))) .derived (by simp)
        (hkept _ .derived hfate rfl (by simp) (by simp) (by simp) (by simp))
    · exact hclosed.apart x (.inl (hmissing _ hfate (by simp) (by simp))) .hostDefault (by simp)
        (hkept _ .hostDefault hfate rfl (by simp) (by simp) (by simp) (by simp))
  · intro item hitem path leaf protocol hleaf hprotocol hold
    have hmissing : item.1 ∈ plan.lists .missing :=
      (hplan.missing item.1).mpr (.inr (.inl ((lost_framed h hitem hleaf).mpr ⟨protocol, hprotocol, hold⟩)))
    have hgenerates : plan.generates item.2 ≠ true := by
      intro hgenerates
      have hframed : item ∈ plan.derivedOnTarget := (hplan.framed item).mpr ⟨(h.framed item).mpr hitem, hgenerates⟩
      exact hclosed.apart item.1 (.inl hmissing) .derivedOnTarget (by simp) (List.mem_map_of_mem hframed)
    have hown : Own libs schema set stale identifiers item.2 := by
      rcases hitem.source with hown | hforeign
      · exact hown
      · exact absurd ((generates_iff plan item.2).mpr (.inr ((hplan.shared h item.2).mpr hforeign))) hgenerates
    refine ⟨hown, ?_⟩
    rw [ne_eq, hplan.own h hown, Classical.not_not, lost_own h hown, hprotocol] at hgenerates
    obtain ⟨found, hfound, hold⟩ := hgenerates
    cases hfound
    exact hold
  · intro item hitem hunframed
    have hforeign : Foreign libs schema set stale identifiers item.2 := by
      rcases hitem.source with hown | hforeign
      · obtain ⟨_, _, _, hnot⟩ := hunframed
        exact absurd (.inl hown) hnot
      · exact hforeign
    have hgenerates : plan.generates item.2 = true :=
      (generates_iff plan item.2).mpr (.inr ((hplan.shared h item.2).mpr hforeign))
    have hframed : item ∈ plan.derivedOnTarget := (hplan.framed item).mpr ⟨(h.framed item).mpr hitem, hgenerates⟩
    have hmissing : item.1 ∈ plan.lists .missing :=
      (hplan.missing item.1).mpr (.inl ((h.missing item.1).mpr (.inr ⟨item, rfl, hunframed⟩)))
    exact hclosed.apart item.1 (.inl hmissing) .derivedOnTarget (by simp) (List.mem_map_of_mem hframed)

theorem Plannable.apart (hplannable : Plannable libs schema set stale identifiers) {x : String} {place : Place}
    (hmissing : x ∈ plan.lists .missing) (hplace : place ≠ .missing) : x ∉ plan.lists place := by
  intro hx
  -- Before the host is looked at, no value is both listed there and missing.
  have hwaiting : ∀ item, FramedThere libs schema set stale identifiers item → x ∈ first.lists .missing →
      item.1 ≠ x := by
    intro item hitem hfirst hsame
    rcases (h.missing x).mp hfirst with ⟨_, hfate⟩ | ⟨other, hother, hunframed⟩
    · rw [← hsame, hitem.fate.2] at hfate
      cases hfate
    · have hfate := hunframed.fate.2
      rw [hother, ← hsame, hitem.fate.2] at hfate
      have hitem' : item = other :=
        Prod.ext (hsame.trans hother.symm) (Fate.waits.inj (Option.some.inj hfate))
      rw [← hitem'] at hunframed
      exact hplannable.steady item hitem hunframed
  have hmem : x ∈ identifiers := by
    rcases (hplan.missing x).mp hmissing with hfirst | hlost | ⟨item, hitem, rfl, _⟩
    · exact h.requested hfirst (by simp)
    · exact hlost.1
    · exact ((h.framed item).mp hitem).fate.1
  have hlisted : ∀ found, fate schema set libs stale x = some found → found ≠ .missing →
      (∀ source, found ≠ .waits source) → Lost libs schema identifiers set first x := by
    intro found hfate hfound hwaits
    rcases (hplan.missing x).mp hmissing with hfirst | hlost | ⟨item, hitem, hsame, _⟩
    · rcases (h.missing x).mp hfirst with hfirst | ⟨item, hsame, hunframed⟩
      · rw [hfate] at hfirst
        exact absurd (Option.some.inj hfirst.2) hfound
      · have hfate' := hunframed.fate.2
        rw [hsame, hfate] at hfate'
        exact absurd (Option.some.inj hfate') (hwaits item.2)
    · exact hlost
    · have hfate' := ((h.framed item).mp hitem).fate.2
      rw [hsame, hfate] at hfate'
      exact absurd (Option.some.inj hfate') (hwaits item.2)
  have hreceived : ∀ found, fate schema set libs stale x = some found →
      ((∃ source, found = .derived source) ∨ found = .hostDefault) → False := by
    intro found hfate hfound
    have hstored : ∃ path leaf, leafOf libs schema x = .ok (.stored path leaf) := by
      rcases hfound with ⟨source, rfl⟩ | rfl
      · obtain ⟨_, hleaf, path, spec, rfl⟩ := fate_leaf hfate (by simp)
        exact ⟨path, spec, hleaf⟩
      · obtain ⟨_, hleaf, path, spec, rfl⟩ := fate_leaf hfate (by simp)
        exact ⟨path, spec, hleaf⟩
    obtain ⟨path, leaf, hleaf⟩ := hstored
    have hkinds : found ≠ .missing ∧ found ≠ .generated ∧ ∀ source, found ≠ .waits source := by
      rcases hfound with ⟨source, rfl⟩ | rfl <;> simp
    have hlost := hlisted found hfate hkinds.1 hkinds.2.2
    obtain ⟨protocol, hprotocol, hold⟩ := (lost_plain h hmem hfate hkinds.2.1 hkinds.2.2 hleaf).mp hlost
    refine hplannable.receivable x hmem ?_ path leaf protocol hleaf hprotocol hold
    rcases hfound with ⟨source, rfl⟩ | rfl
    · exact .inl ⟨source, hfate⟩
    · exact .inr hfate
  cases place with
  | missing => exact hplace rfl
  | shared => exact hplannable.elsewhere x ((hplan.shared h x).mp hx) hmem
  | generate =>
    obtain ⟨hgenerate, hkept⟩ := (hplan.generate x).mp hx
    exact hkept (hlisted _ ((h.generate x).mp hgenerate).2 (by simp) (by simp))
  | derived =>
    rw [hplan.same .derived x (by simp) (by simp) (by simp), h.listed .derived x (by simp) (by simp) (by simp)] at hx
    obtain ⟨source, hfate⟩ := place_derived hx.2
    exact hreceived _ hfate (.inl ⟨source, rfl⟩)
  | hostDefault =>
    rw [hplan.same .hostDefault x (by simp) (by simp) (by simp),
      h.listed .hostDefault x (by simp) (by simp) (by simp)] at hx
    exact hreceived _ (place_hostDefault hx.2) (.inr rfl)
  | derivedOnTarget =>
    obtain ⟨item, hitem, rfl⟩ := List.mem_map.mp hx
    obtain ⟨hmember, hgenerates⟩ := (hplan.framed item).mp hitem
    have hframed := (h.framed item).mp hmember
    rcases (hplan.missing item.1).mp hmissing with hfirst | hlost | ⟨other, hother, hsame, hwaits⟩
    · exact hwaiting item hframed hfirst rfl
    · obtain ⟨_, hleaf, ⟨path, leaf, rfl⟩, _⟩ := fate_leaf hframed.fate.2 (by simp)
      obtain ⟨protocol, hprotocol, hold⟩ := (lost_framed h hframed hleaf).mp hlost
      obtain ⟨hown, hyoung⟩ := hplannable.frameable item hframed path leaf protocol hleaf hprotocol hold
      exact (hplan.own h hown).mp hgenerates ((lost_own h hown).mpr ⟨protocol, hprotocol, hyoung⟩)
    · rw [h.oneSource other hother item hmember hsame, hgenerates] at hwaits
      cases hwaits

theorem Plannable.one (hplannable : Plannable libs schema set stale identifiers) {x : String}
    (hmem : x ∈ identifiers) : ∃! found, plan.puts (leafOf libs schema x).toOption x found := by
  obtain ⟨found, hfate⟩ := Option.isSome_iff_exists.mp (h.known x hmem)
  -- Where a value that is not missing is listed follows from its fate.
  have hplaces : ∀ place, x ∈ plan.lists place → place ≠ .missing → place ≠ .derivedOnTarget →
      found.place = some place := by
    intro place hx hmissing hdot
    have hshared : place ≠ .shared := by
      rintro rfl
      exact hplannable.elsewhere x ((hplan.shared h x).mp hx) hmem
    rcases hplan.before hx with hx | ⟨hplace, _⟩
    · have hplace := ((h.listed place x hdot hmissing hshared).mp hx).2
      rw [hfate] at hplace
      exact hplace
    · exact absurd hplace hmissing
  have hwaits : x ∈ plan.lists .derivedOnTarget → found.place = none := by
    intro hx
    rcases hplan.before hx with hx | ⟨hplace, _⟩
    · obtain ⟨item, hitem, rfl⟩ := (h.dot x).mp hx
      have hsource := hitem.fate.2
      rw [hfate] at hsource
      rw [Option.some.inj hsource]
      rfl
    · cases hplace
  apply (puts_unique_iff plan _ x).mpr
  constructor
  · intro place place' hx hx'
    by_cases hmissing : place = .missing
    · by_cases hmissing' : place' = .missing
      · rw [hmissing, hmissing']
      · rw [hmissing] at hx
        exact absurd hx' (Plannable.apart h hplan hplannable hx hmissing')
    · by_cases hmissing' : place' = .missing
      · rw [hmissing'] at hx'
        exact absurd hx (Plannable.apart h hplan hplannable hx' hmissing)
      · by_cases hdot : place = .derivedOnTarget
        · by_cases hdot' : place' = .derivedOnTarget
          · rw [hdot, hdot']
          · rw [hdot] at hx
            have hplace := hplaces place' hx' hmissing' hdot'
            rw [hwaits hx] at hplace
            cases hplace
        · have hplace := hplaces place hx hmissing hdot
          by_cases hdot' : place' = .derivedOnTarget
          · rw [hdot'] at hx'
            rw [hwaits hx'] at hplace
            cases hplace
          · rw [hplaces place' hx' hmissing' hdot'] at hplace
            rw [Option.some.inj hplace]
  · intro hnone
    have hlisted : ¬ (found ≠ .stored ∧ found ≠ .task ∧ found ≠ .refused) := by
      intro hfound
      obtain ⟨place, _, hx⟩ := h.listed_of_fate hmem hfate hfound.1 hfound.2.1 hfound.2.2
      rcases hplan.kept hx with hx | hx
      · exact hnone place hx
      · exact hnone .missing hx
    by_cases hstored : found = .stored
    · subst hstored
      obtain ⟨_, hleaf, ⟨path, spec, rfl⟩, _⟩ := fate_leaf hfate (by simp)
      exact ⟨path, .inl ⟨spec, by rw [hleaf]; rfl⟩⟩
    · by_cases htask : found = .task
      · subst htask
        obtain ⟨_, hleaf, path, spec, rfl⟩ := fate_leaf hfate (by simp)
        exact ⟨path, .inr ⟨spec, by rw [hleaf]; rfl⟩⟩
      · refine absurd ⟨hstored, htask, ?_⟩ hlisted
        rintro rfl
        exact hplannable.deployable x hmem hfate

/-- The classes of a planned request are exact and closed when it can be planned. -/
theorem closed_iff_plannable :
    Closed libs schema identifiers [] plan ↔ Plannable libs schema set stale identifiers := by
  constructor
  · exact fun hclosed => hclosed.plannable h hplan
  · intro hplannable
    constructor
    · exact fun x hmem => Plannable.one h hplan hplannable hmem
    · exact fun item hitem => ((hplan.framed item).mp hitem).2
    · intro source hsource
      obtain ⟨item, hitem, hsame⟩ := ((hplan.shared h source).mp hsource).framed
      refine ⟨item, (hplan.framed item).mpr ⟨(h.framed item).mpr hitem, ?_⟩, hsame⟩
      rw [hsame]
      exact (generates_iff plan source).mpr (.inr hsource)
    · intro x hx place hplace
      exact Plannable.apart h hplan hplannable (hx.resolve_right List.not_mem_nil) hplace

end

/-- Mismatching values are left out of every list but that of the missing values. -/
theorem exclude_lists (mismatches : List (String × MissingKind × String)) (plan : UnsetPlan) :
    (∀ place x, place ≠ .missing → (x ∈ (mismatches.foldl UnsetPlan.exclude plan).lists place ↔
      x ∈ plan.lists place ∧ x ∉ mismatches.map (·.1))) ∧
    (∀ item, item ∈ (mismatches.foldl UnsetPlan.exclude plan).derivedOnTarget ↔
      item ∈ plan.derivedOnTarget ∧ item.1 ∉ mismatches.map (·.1)) ∧
    ∀ x, x ∈ (mismatches.foldl UnsetPlan.exclude plan).lists .missing ↔
      x ∈ plan.lists .missing ∨ x ∈ mismatches.map (·.1) := by
  induction mismatches generalizing plan with
  | nil => exact ⟨fun _ _ _ => by simp, by simp, by simp⟩
  | cons mismatch rest ih =>
    obtain ⟨hlists, hframed, hmissing⟩ := ih (plan.exclude mismatch)
    refine ⟨fun place x hplace => ?_, fun item => ?_, fun x => ?_⟩
    · have hone : x ∈ (plan.exclude mismatch).lists place ↔ x ∈ plan.lists place ∧ x ≠ mismatch.1 := by
        unfold UnsetPlan.exclude
        rw [miss_lists, or_iff_left fun hx => hplace hx.2]
        cases place <;> first | exact absurd rfl hplace | simp [UnsetPlan.lists, without]
      rw [List.foldl_cons, hlists place x hplace, hone, List.map_cons, List.mem_cons, not_or, and_assoc]
    · have hone : item ∈ (plan.exclude mismatch).derivedOnTarget ↔
          item ∈ plan.derivedOnTarget ∧ item.1 ≠ mismatch.1 := by
        simp [UnsetPlan.exclude, UnsetPlan.miss, without]
      rw [List.foldl_cons, hframed, hone, List.map_cons, List.mem_cons, not_or, and_assoc]
    · have hone : x ∈ (plan.exclude mismatch).lists .missing ↔ x ∈ plan.lists .missing ∨ x = mismatch.1 := by
        unfold UnsetPlan.exclude
        rw [miss_lists, and_iff_left rfl]
        by_cases hx : x = mismatch.1
        · simp [hx]
        · simp [UnsetPlan.lists, without, hx]
      rw [List.foldl_cons, hmissing, hone, List.map_cons, List.mem_cons, or_assoc]

/-- What a plan lists after its mismatches are left out, and the values that wait for them. -/
structure Excluded (mismatched : List String) (before after : UnsetPlan) : Prop where
  same : ∀ place x, place ≠ .derivedOnTarget → place ≠ .missing →
    (x ∈ after.lists place ↔ x ∈ before.lists place ∧ x ∉ mismatched)
  framed : ∀ item, item ∈ after.derivedOnTarget ↔
    (item ∈ before.derivedOnTarget ∧ item.1 ∉ mismatched) ∧ after.generates item.2 = true
  missing : ∀ x, x ∈ after.lists .missing ↔ (x ∈ before.lists .missing ∨ x ∈ mismatched) ∨
    ∃ item, (item ∈ before.derivedOnTarget ∧ item.1 ∉ mismatched) ∧ item.1 = x ∧ after.generates item.2 = false

theorem excludeMismatches_excluded {plan : UnsetPlan} (mismatches : List (String × MissingKind × String))
    (hsource : OneSource plan) : Excluded (mismatches.map (·.1)) plan (plan.excludeMismatches mismatches) := by
  obtain ⟨hlists, hframed, hmissing⟩ := exclude_lists mismatches plan
  have hone : OneSource (mismatches.foldl UnsetPlan.exclude plan) := by
    intro item hitem other hother hsame
    exact hsource item ((hframed item).mp hitem).1 other ((hframed other).mp hother).1 hsame
  obtain ⟨hsame, hwaiting, hwaits⟩ := leavesOut_waiting
    (fun plan item => leavesOut_miss plan item.1 .cannotDeploy
      ("its source " ++ item.2 ++ " is left out of this deployment")) hone
  have hgenerates : ∀ x, (plan.excludeMismatches mismatches).generates x =
      (mismatches.foldl UnsetPlan.exclude plan).generates x :=
    generates_congr (fun x => hsame .generate x (by simp) (by simp)) fun x => hsame .shared x (by simp) (by simp)
  constructor
  · intro place x hdot hmiss
    rw [← hlists place x hmiss]
    exact hsame place x hdot hmiss
  · intro item
    rw [hgenerates, ← hframed]
    exact hwaiting item
  · intro x
    rw [← hmissing]
    simp only [hgenerates, ← hframed]
    exact hwaits x

section

variable {libs : Libraries} {schema : Inventory.Schema} {set : BTreeSet String} {stale : BTreeMap String String}
  {identifiers mismatched : List String} {first plan after : UnsetPlan}

theorem Excluded.generates (h : Excluded mismatched plan after) (x : String) :
    after.generates x = true ↔ plan.generates x = true ∧ x ∉ mismatched := by
  rw [generates_iff, generates_iff, h.same .generate x (by simp) (by simp), h.same .shared x (by simp) (by simp),
    or_and_right]

/-- What stays listed was listed there and does not mismatch. -/
theorem Excluded.before (h : Excluded mismatched plan after) {place : Place} {x : String}
    (hplace : place ≠ .missing) (hx : x ∈ after.lists place) : x ∈ plan.lists place ∧ x ∉ mismatched := by
  by_cases hdot : place = .derivedOnTarget
  · subst hdot
    obtain ⟨item, hitem, rfl⟩ := List.mem_map.mp hx
    obtain ⟨⟨hbefore, hmatched⟩, _⟩ := (h.framed item).mp hitem
    exact ⟨List.mem_map_of_mem hbefore, hmatched⟩
  · exact (h.same place x hdot hplace).mp hx

/-- What was listed stays there, or is missing. -/
theorem Excluded.kept (h : Excluded mismatched plan after) {place : Place} {x : String}
    (hx : x ∈ plan.lists place) : x ∈ after.lists place ∨ x ∈ after.lists .missing := by
  by_cases hmatched : x ∈ mismatched
  · exact .inr ((h.missing x).mpr (.inl (.inr hmatched)))
  · by_cases hdot : place = .derivedOnTarget
    · subst hdot
      obtain ⟨item, hitem, rfl⟩ := List.mem_map.mp hx
      cases hgenerates : after.generates item.2 with
      | true => exact .inl (List.mem_map_of_mem ((h.framed item).mpr ⟨⟨hitem, hmatched⟩, hgenerates⟩))
      | false => exact .inr ((h.missing item.1).mpr (.inr ⟨item, ⟨hitem, hmatched⟩, rfl, hgenerates⟩))
    · by_cases hmissing : place = .missing
      · subst hmissing
        exact .inl ((h.missing x).mpr (.inl (.inl hx)))
      · exact .inl ((h.same place x hdot hmissing).mpr ⟨hx, hmatched⟩)

/-- Leaving out mismatches keeps a plan closed when every source of another host keeps a value to frame. -/
theorem Excluded.closed_iff (h : Excluded mismatched plan after) (hclosed : Closed libs schema identifiers [] plan)
    (hsource : OneSource plan) (hmember : ∀ item ∈ plan.derivedOnTarget, item.1 ∈ identifiers) :
    Closed libs schema identifiers mismatched after ↔ ∀ source ∈ plan.lists .shared,
      source ∈ mismatched ∨ ∃ item ∈ plan.derivedOnTarget, item.2 = source ∧ item.1 ∉ mismatched := by
  constructor
  · intro hafter source hshared
    by_cases hmatched : source ∈ mismatched
    · exact .inl hmatched
    · obtain ⟨item, hitem, hsame⟩ := hafter.consumed source
        ((h.same .shared source (by simp) (by simp)).mpr ⟨hshared, hmatched⟩)
      obtain ⟨⟨hbefore, hkept⟩, _⟩ := (h.framed item).mp hitem
      exact .inr ⟨item, hbefore, hsame, hkept⟩
  · intro hconsumed
    have hapart : ∀ x, x ∈ after.lists .missing ∨ x ∈ mismatched → ∀ place, place ≠ .missing →
        x ∉ after.lists place := by
      intro x hmissing place hplace hx
      obtain ⟨hbefore, hmatched⟩ := h.before hplace hx
      rcases hmissing with hmissing | hmissing
      · rcases (h.missing x).mp hmissing with (hmissing | hmissing) | ⟨item, ⟨hitem, _⟩, rfl, hwaits⟩
        · exact hclosed.apart x (.inl hmissing) place hplace hbefore
        · exact hmatched hmissing
        · obtain ⟨hsame, _⟩ := (puts_unique_iff plan _ item.1).mp (hclosed.one item.1 (hmember item hitem))
          have hclass := hsame place .derivedOnTarget hbefore (List.mem_map_of_mem hitem)
          have hdot : place = .derivedOnTarget := by
            cases place <;> first | rfl | cases hclass
          rw [hdot] at hx
          obtain ⟨other, hother, hsame⟩ := List.mem_map.mp hx
          obtain ⟨⟨hframed, _⟩, hgenerates⟩ := (h.framed other).mp hother
          rw [hsource other hframed item hitem hsame, hwaits] at hgenerates
          cases hgenerates
      · exact hmatched hmissing
    refine ⟨?_, fun item hitem => ((h.framed item).mp hitem).2, ?_, hapart⟩
    · intro x hmem
      obtain ⟨hsame, hunlisted⟩ := (puts_unique_iff plan _ x).mp (hclosed.one x hmem)
      apply (puts_unique_iff after _ x).mpr
      constructor
      · intro place place' hx hx'
        by_cases hmissing : place = .missing
        · by_cases hmissing' : place' = .missing
          · rw [hmissing, hmissing']
          · rw [hmissing] at hx
            exact absurd hx' (hapart x (.inl hx) place' hmissing')
        · by_cases hmissing' : place' = .missing
          · rw [hmissing'] at hx'
            exact absurd hx (hapart x (.inl hx') place hmissing)
          · exact hsame place place' (h.before hmissing hx).1 (h.before hmissing' hx').1
      · intro hnone
        apply hunlisted
        intro place hx
        rcases h.kept hx with hx | hx
        · exact hnone place hx
        · exact hnone .missing hx
    · intro source hshared
      obtain ⟨hbefore, hmatched⟩ := (h.same .shared source (by simp) (by simp)).mp hshared
      obtain ⟨item, hitem, hsame, hkept⟩ := (hconsumed source hbefore).resolve_left hmatched
      refine ⟨item, (h.framed item).mpr ⟨⟨hitem, hkept⟩, ?_⟩, hsame⟩
      rw [hsame]
      exact (generates_iff after source).mpr (.inr hshared)

theorem Settled.consumed_iff {lost : String → Prop} (hplan : Settled lost first plan)
    (h : Sketched libs schema set stale identifiers first) :
    (∀ source ∈ plan.lists .shared, source ∈ mismatched ∨
      ∃ item ∈ plan.derivedOnTarget, item.2 = source ∧ item.1 ∉ mismatched) ↔
      Consumed libs schema set stale identifiers mismatched := by
  have hframed : ∀ source, Foreign libs schema set stale identifiers source → ∀ item, item.2 = source →
      (item ∈ plan.derivedOnTarget ↔ FramedThere libs schema set stale identifiers item) := by
    intro source hforeign item hsame
    rw [hplan.framed, h.framed, hsame]
    exact and_iff_left ((generates_iff plan source).mpr (.inr ((hplan.shared h source).mpr hforeign)))
  constructor
  · intro hconsumed source hforeign
    rcases hconsumed source ((hplan.shared h source).mpr hforeign) with hmatched | ⟨item, hitem, hsame, hkept⟩
    · exact .inl hmatched
    · exact .inr ⟨item, (hframed source hforeign item hsame).mp hitem, hsame, hkept⟩
  · intro hconsumed source hshared
    have hforeign := (hplan.shared h source).mp hshared
    rcases hconsumed source hforeign with hmatched | ⟨item, hitem, hsame, hkept⟩
    · exact .inl hmatched
    · exact .inr ⟨item, (hframed source hforeign item hsame).mpr hitem, hsame, hkept⟩

/-- A plan and what is left of it without its mismatches are closed when the request can be planned, and every
source of another host keeps a value to frame. -/
theorem planUnset_closed_iff (mismatches : List (String × MissingKind × String))
    (h : planUnset libs schema identifiers set stale = .ok plan) :
    (Closed libs schema identifiers [] plan ∧
      Closed libs schema identifiers (mismatches.map (·.1)) (plan.excludeMismatches mismatches)) ↔
    Plannable libs schema set stale identifiers ∧
      Consumed libs schema set stale identifiers (mismatches.map (·.1)) := by
  obtain ⟨planning, hleaves, hplan⟩ := Checked.bind_ok h
  cases hplan
  have hfirst := planLeaves_sketched hleaves
  have hsettled := hfirst.settled
  have hsource : OneSource (Preflight.check libs schema identifiers set
      (planning.2.foldl (planWaiting libs schema) planning.1)) := by
    intro item hitem other hother hsame
    exact hfirst.oneSource item ((hsettled.framed item).mp hitem).1 other ((hsettled.framed other).mp hother).1 hsame
  have hmember : ∀ item ∈ (Preflight.check libs schema identifiers set
      (planning.2.foldl (planWaiting libs schema) planning.1)).derivedOnTarget, item.1 ∈ identifiers := by
    intro item hitem
    exact ((hfirst.framed item).mp ((hsettled.framed item).mp hitem).1).fate.1
  rw [← closed_iff_plannable hfirst hsettled, ← hsettled.consumed_iff hfirst]
  apply and_congr_right
  intro hclosed
  exact (excludeMismatches_excluded mismatches hsource).closed_iff hclosed hsource hmember

end

def plannedLeaf (name : String) : Inventory.SecretLeaf where
  kind := .secret
  recipientPublicKeys := ["ssh-ed25519 AAAA"]
  recipientIds := ["operator"]
  destination := ⟨"/persistent/secrets/app/service/" ++ name, "service", "root", "root", "0400", none, none⟩
  valueType := some .password

def plannedHost (name : String) (protocol : UInt16) (leaves : List (String × Inventory.SecretNode)) :
    Inventory.HostSchema where
  metadata := {
    socketPath := "/run/nix-secrets.sock"
    deployment := { host := name, destination := "forward@" ++ name, port := 22, protocolVersion := some protocol } }
  serviceGroups := [("services", [("app", .branch leaves)])]

/-- A host whose value is a field of a value of another host. -/
def plannedSchema (protocol : UInt16) (field : List String) : Inventory.Schema :=
  [("db", plannedHost "db" 5 [("token", .secret (plannedLeaf "token"))]),
    ("web", plannedHost "web" protocol [("framed", .secret
      { plannedLeaf "framed" with derivedFrom := some { identifier := "db.services.app.token", tomlPath := field } })])]

def plannedLibraries : Libraries where
  parseIp _ := none
  decodeBase64 _ := none
  opensshKey _ := none
  regexError _ := none
  debug text := text
  transport := ⟨fun _ => none, fun _ => none, fun text => text⟩
  sshKey _ := none
  sha256 bytes := bytes
  readToml _ := none
  verifyHeader _ _ := .ok ()
  generatorText _ := ""
  derivationText _ := ""

def plannedFramed : String := "web.services.app.framed"

def plannedToken : String := "db.services.app.token"

/-- The plan for the derived value. -/
def plannedValue (protocol : UInt16) (field : List String) (set : BTreeSet String) : Checked String UnsetPlan :=
  planUnset plannedLibraries (plannedSchema protocol field) [plannedFramed] set ∅

theorem plannedValue_closed_iff : ∃ plan, plannedValue 5 [] ∅ = .ok plan ∧
    ((Closed plannedLibraries (plannedSchema 5 []) [plannedFramed] [] plan ∧
      Closed plannedLibraries (plannedSchema 5 []) [plannedFramed] [plannedFramed]
        (plan.excludeMismatches [(plannedFramed, .declaredDifferently, "owner")])) ↔
    Plannable plannedLibraries (plannedSchema 5 []) ∅ ∅ [plannedFramed] ∧
      Consumed plannedLibraries (plannedSchema 5 []) ∅ ∅ [plannedFramed] [plannedFramed]) := by
  have hsome : (plannedValue 5 [] ∅).toOption.isSome := by decide +kernel
  cases hplan : plannedValue 5 [] ∅ with
  | error error =>
    rw [hplan] at hsome
    cases hsome
  | ok plan =>
    exact ⟨plan, rfl, planUnset_closed_iff [(plannedFramed, .declaredDifferently, "owner")] hplan⟩

/-- A value that an old receiver cannot take is missing and still derived; without a mismatching value, its source
is still generated for nothing. -/
theorem plannedValue_open :
    (∃ plan, plannedValue 2 ["password"] (Std.ExtTreeSet.ofList [plannedToken] compare) = .ok plan ∧
      plannedFramed ∈ plan.lists .derived ∧ plannedFramed ∈ plan.lists .missing ∧
      ¬ Closed plannedLibraries (plannedSchema 2 ["password"]) [plannedFramed] [] plan) ∧
    ∃ plan, plannedValue 5 [] ∅ = .ok plan ∧
      let left := plan.excludeMismatches [(plannedFramed, .declaredDifferently, "owner")]
      left.lists .shared = [plannedToken] ∧ left.derivedOnTarget = [] ∧
      ¬ Closed plannedLibraries (plannedSchema 5 []) [plannedFramed] [plannedFramed] left := by
  constructor
  · have hlists : (plannedValue 2 ["password"] (Std.ExtTreeSet.ofList [plannedToken] compare)).toOption.map
        (fun plan => (plan.lists .derived, plan.lists .missing)) = some ([plannedFramed], [plannedFramed]) := by
      decide +kernel
    cases hplan : plannedValue 2 ["password"] (Std.ExtTreeSet.ofList [plannedToken] compare) with
    | error error =>
      rw [hplan] at hlists
      cases hlists
    | ok plan =>
      rw [hplan] at hlists
      obtain ⟨hderived, hmissing⟩ := Prod.mk.inj (Option.some.inj hlists)
      have hin : plannedFramed ∈ plan.lists .derived := by rw [hderived]; exact List.mem_singleton.mpr rfl
      have hleft : plannedFramed ∈ plan.lists .missing := by rw [hmissing]; exact List.mem_singleton.mpr rfl
      exact ⟨plan, rfl, hin, hleft, fun hclosed => hclosed.apart _ (.inl hleft) .derived (by simp) hin⟩
  · have hlists : (plannedValue 5 [] ∅).toOption.map (fun plan =>
        let left := plan.excludeMismatches [(plannedFramed, .declaredDifferently, "owner")]
        (left.lists .shared, left.derivedOnTarget)) = some ([plannedToken], []) := by
      decide +kernel
    cases hplan : plannedValue 5 [] ∅ with
    | error error =>
      rw [hplan] at hlists
      cases hlists
    | ok plan =>
      rw [hplan] at hlists
      obtain ⟨hshared, hframed⟩ := Prod.mk.inj (Option.some.inj hlists)
      refine ⟨plan, rfl, hshared, hframed, fun hclosed => ?_⟩
      obtain ⟨item, hitem, _⟩ := hclosed.consumed plannedToken (by rw [hshared]; exact List.mem_singleton.mpr rfl)
      rw [hframed] at hitem
      cases hitem

end NixSecrets.Manager
