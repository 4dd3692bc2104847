import NixSecrets.DeploymentPlan

namespace NixSecrets.Manager

open Inventory

/-- Where a plan can list a value. -/
inductive Place
  | generate | derived | derivedOnTarget | hostDefault | missing | shared
  deriving DecidableEq

/-- The identifiers a plan lists somewhere. -/
def UnsetPlan.lists (plan : UnsetPlan) : Place → List String
  | .generate => plan.generate.map (·.1)
  | .derived => plan.derived.map (·.1)
  | .derivedOnTarget => plan.derivedOnTarget.map (·.1)
  | .hostDefault => plan.hostDefault
  | .missing => plan.missing.map (·.1)
  | .shared => plan.shared.map (·.1)

/-- What the planning says about a requested value by itself. -/
inductive Fate
  | missing
  | derived (source : String)
  /-- Derived from a value that is unset. -/
  | waits (source : String)
  | stored
  | task
  | hostDefault
  | generated
  | refused
  deriving DecidableEq

/-- Where a value is listed at once. -/
def Fate.place : Fate → Option Place
  | .missing => some .missing
  | .derived _ => some .derived
  | .hostDefault => some .hostDefault
  | .generated => some .generate
  | .waits _ | .stored | .task | .refused => none

section

variable (schema : Inventory.Schema) (set : BTreeSet String)

def unsetFate (identifier : String) : LeafSpec → Fate
  | .operator _ _ => .refused
  | .generated _ task => if task.generatedSecret.secretType ≠ .localSshKey then .missing else .task
  | .stored _ leaf =>
    if leaf.kind = .publicInfo then if leaf.installDefaultIfMissing then .hostDefault else .missing
    else if registrationProducers schema identifier ≠ [] ∨
        leaf.destination.contentType = some "named-ssh-ed25519-public-keys" then .missing
    else if (deploymentGenerator leaf).toOption.isSome then .generated
    else .missing

def setFate : LeafSpec → Fate
  | .operator _ _ => .refused
  | .generated _ _ => .task
  | .stored _ _ => .stored

def leafFate (identifier : String) (leaf : LeafSpec) : Fate :=
  if optionalLeaf leaf && !provided set identifier leaf then .missing
  else
    match derivedSource leaf with
    | some source => if set.contains source then .derived source else .waits source
    | none => if set.contains identifier then setFate leaf else unsetFate schema identifier leaf

/-- A value whose stored public information is rejected is missing. -/
def fate (libs : Libraries) (stale : BTreeMap String String) (identifier : String) : Option Fate :=
  match stale[identifier]? with
  | some _ => some .missing
  | none => (leafOf libs schema identifier).toOption.map (leafFate schema set identifier)

end

/-- The source that a value of this fate waits for. -/
def Fate.awaits (identifier : String) : Fate → List (String × String)
  | .waits source => [(identifier, source)]
  | _ => []

/-- A value is put where its fate says. -/
structure Placed (identifier : String) (fate : Fate) (before after : Planning) : Prop where
  lists : ∀ place x, x ∈ after.1.lists place ↔
    x ∈ before.1.lists place ∨ x = identifier ∧ fate.place = some place
  derivedOnTarget : after.1.derivedOnTarget = before.1.derivedOnTarget
  waiting : after.2 = before.2 ++ fate.awaits identifier

variable {schema : Inventory.Schema} {set : BTreeSet String} {identifier : String} {planning : Planning}

theorem miss_lists (plan : UnsetPlan) (identifier : String) (kind : MissingKind) (reason : String) (place : Place)
    (x : String) : x ∈ (plan.miss identifier kind reason).lists place ↔
      x ∈ plan.lists place ∨ x = identifier ∧ place = .missing := by
  cases place <;> simp [UnsetPlan.miss, UnsetPlan.lists]

theorem placed_missing (kind : MissingKind) (reason : String) :
    Placed identifier .missing planning (planning.1.miss identifier kind reason, planning.2) := by
  refine ⟨fun place x => ?_, rfl, (List.append_nil _).symm⟩
  rw [miss_lists]
  simp [Fate.place, eq_comm]

/-- A value that is listed nowhere yet. -/
theorem placed_none {fate : Fate} (h : fate.place = none) (hawaits : fate.awaits identifier = []) :
    Placed identifier fate planning planning := by
  refine ⟨fun place x => ?_, rfl, by rw [hawaits, List.append_nil]⟩
  rw [h]
  simp

theorem planStored_placed {path : SecretPath} {leaf : Inventory.SecretLeaf} (hkind : leaf.kind ≠ .publicInfo) :
    Placed identifier (unsetFate schema identifier (.stored path leaf)) planning
      (planStored schema identifier leaf planning.1, planning.2) := by
  rw [unsetFate, if_neg hkind]
  unfold planStored
  by_cases hproducers : registrationProducers schema identifier = []
  · by_cases hcontent : leaf.destination.contentType = some "named-ssh-ed25519-public-keys"
    · rw [if_pos (.inr hcontent), if_pos ⟨hproducers, hcontent⟩]
      exact placed_missing _ _
    · rw [if_neg (not_or.mpr ⟨Classical.not_not.mpr hproducers, hcontent⟩)]
      dsimp only
      rw [if_neg (not_and.mpr fun _ => hcontent), if_neg (Classical.not_not.mpr hproducers)]
      cases hgenerator : deploymentGenerator leaf with
      | error reason => exact placed_missing _ _
      | ok generator =>
        refine ⟨fun place x => ?_, rfl, (List.append_nil _).symm⟩
        cases place <;> simp [UnsetPlan.lists, Except.toOption, Fate.place]
  · rw [if_pos (.inl hproducers)]
    dsimp only
    rw [if_neg (not_and.mpr fun h => absurd h hproducers), if_pos hproducers]
    exact placed_missing _ _

theorem planUnsetLeaf_placed (leaf : LeafSpec) :
    Placed identifier (unsetFate schema identifier leaf) planning
      (planUnsetLeaf schema identifier planning.1 leaf, planning.2) := by
  cases leaf with
  | operator path leaf => exact placed_none rfl rfl
  | generated path task =>
    dsimp only [planUnsetLeaf, unsetFate]
    by_cases hlocal : task.generatedSecret.secretType ≠ .localSshKey
    · rw [if_pos hlocal, if_pos hlocal]
      exact placed_missing _ _
    · rw [if_neg hlocal, if_neg hlocal]
      exact placed_none rfl rfl
  | stored path leaf =>
    by_cases hkind : leaf.kind = .publicInfo
    · dsimp only [planUnsetLeaf, unsetFate]
      rw [if_pos hkind, if_pos hkind]
      by_cases hdefault : leaf.installDefaultIfMissing = true
      · rw [if_pos hdefault, if_pos hdefault]
        refine ⟨fun place x => ?_, rfl, (List.append_nil _).symm⟩
        cases place <;> simp [UnsetPlan.lists, Fate.place]
      · rw [if_neg hdefault, if_neg hdefault]
        exact placed_missing _ _
    · have hplaced : Placed identifier (unsetFate schema identifier (.stored path leaf)) planning
          (planStored schema identifier leaf planning.1, planning.2) := planStored_placed hkind
      dsimp only [planUnsetLeaf]
      rwa [if_neg hkind]

theorem planLeaf_placed (leaf : LeafSpec) :
    Placed identifier (leafFate schema set identifier leaf) planning
      (planLeaf schema set identifier planning leaf) := by
  unfold planLeaf leafFate
  split
  · exact placed_missing _ _
  · cases derivedSource leaf with
    | some source =>
      dsimp only
      split
      · refine ⟨fun place x => ?_, rfl, (List.append_nil _).symm⟩
        cases place <;> simp [UnsetPlan.lists, Fate.place]
      · refine ⟨fun place x => ?_, rfl, rfl⟩
        simp [Fate.place]
    | none =>
      dsimp only
      split
      · cases leaf with
        | operator path leaf => exact placed_none rfl rfl
        | generated path task => exact placed_none rfl rfl
        | stored path leaf => exact placed_none rfl rfl
      · exact planUnsetLeaf_placed leaf

section

variable (libs : Libraries) (schema : Inventory.Schema) (set : BTreeSet String) (stale : BTreeMap String String)

/-- The requested values that wait for their source, in the order of the request. -/
def awaited (identifiers : List String) : List (String × String) :=
  identifiers.flatMap fun identifier => ((fate schema set libs stale identifier).map (·.awaits identifier)).getD []

/-- The first pass lists every value where its fate says. -/
structure FirstPass (identifiers : List String) (before after : Planning) : Prop where
  known : ∀ identifier ∈ identifiers, (fate schema set libs stale identifier).isSome
  lists : ∀ place x, x ∈ after.1.lists place ↔ x ∈ before.1.lists place ∨
    x ∈ identifiers ∧ ((fate schema set libs stale x).bind (·.place)) = some place
  derivedOnTarget : after.1.derivedOnTarget = before.1.derivedOnTarget
  waiting : after.2 = before.2 ++ awaited libs schema set stale identifiers

variable {libs schema set stale}

theorem Placed.firstPass {identifier : String} {found : Fate} {rest : List String} {before middle after : Planning}
    (hfate : fate schema set libs stale identifier = some found) (h : Placed identifier found before middle)
    (hrest : FirstPass libs schema set stale rest middle after) :
    FirstPass libs schema set stale (identifier :: rest) before after := by
  constructor
  · intro x hx
    rcases List.mem_cons.mp hx with rfl | hx
    · rw [hfate]
      rfl
    · exact hrest.known x hx
  · intro place x
    rw [hrest.lists, h.lists, List.mem_cons]
    constructor
    · intro hx
      rcases hx with (hx | ⟨rfl, hplace⟩) | ⟨hx, hplace⟩
      · exact .inl hx
      · exact .inr ⟨.inl rfl, by rw [hfate]; exact hplace⟩
      · exact .inr ⟨.inr hx, hplace⟩
    · intro hx
      rcases hx with hx | ⟨rfl | hx, hplace⟩
      · exact .inl (.inl hx)
      · rw [hfate] at hplace
        exact .inl (.inr ⟨rfl, hplace⟩)
      · exact .inr ⟨hx, hplace⟩
  · rw [hrest.derivedOnTarget, h.derivedOnTarget]
  · rw [hrest.waiting, h.waiting]
    simp [awaited, hfate]

theorem planLeaves_firstPass {identifiers : List String} {before after : Planning}
    (h : planLeaves libs schema set stale identifiers before = .ok after) :
    FirstPass libs schema set stale identifiers before after := by
  induction identifiers generalizing before with
  | nil =>
    cases h
    exact ⟨List.forall_mem_nil _, by simp, rfl, (List.append_nil _).symm⟩
  | cons identifier rest ih =>
    unfold planLeaves at h
    cases hstale : stale[identifier]? with
    | some reason =>
      rw [hstale] at h
      have hfate : fate schema set libs stale identifier = some .missing := by rw [fate, hstale]
      exact Placed.firstPass hfate (placed_missing .invalidUnderSchema reason) (ih h)
    | none =>
      rw [hstale] at h
      obtain ⟨leaf, hleaf, h⟩ := Checked.bind_ok h
      have hfate : fate schema set libs stale identifier = some (leafFate schema set identifier leaf) := by
        rw [fate, hstale, hleaf]
        rfl
      exact Placed.firstPass hfate (planLeaf_placed leaf) (ih h)

end

section

variable (libs : Libraries) (schema : Inventory.Schema)

/-- Another host may generate the source of a waiting value. -/
def Shareable (item : String × String) : Prop :=
  (sharedGenerator libs schema item.2).isSome ∧ hostPart item.2 ≠ hostPart item.1

/-- The target frames a waiting value when it generates the source, for this value or one before it. -/
def Framed (own : String → Prop) (earlier : List (String × String)) (item : String × String) : Prop :=
  own item.2 ∨ Shareable libs schema item ∨ ∃ other ∈ earlier, other.2 = item.2 ∧ Shareable libs schema other

/-- The second pass frames waiting values, or lists them as missing. -/
structure SecondPass (items : List (String × String)) (before after : UnsetPlan) : Prop where
  same : ∀ place x, place ≠ .derivedOnTarget → place ≠ .missing → place ≠ .shared →
    (x ∈ after.lists place ↔ x ∈ before.lists place)
  missing : ∀ x, x ∈ after.lists .missing ↔ x ∈ before.lists .missing ∨ ∃ earlier item later,
    items = earlier ++ item :: later ∧ item.1 = x ∧ ¬ Framed libs schema (before.generates · = true) earlier item
  framed : ∀ item, item ∈ after.derivedOnTarget ↔ item ∈ before.derivedOnTarget ∨ ∃ earlier later,
    items = earlier ++ item :: later ∧ Framed libs schema (before.generates · = true) earlier item
  shared : ∀ x, x ∈ after.lists .shared ↔ x ∈ before.lists .shared ∨ before.generates x = false ∧
    ∃ item ∈ items, item.2 = x ∧ Shareable libs schema item

variable {libs schema}

theorem generates_iff (plan : UnsetPlan) (x : String) :
    plan.generates x = true ↔ x ∈ plan.lists .generate ∨ x ∈ plan.lists .shared := by
  simp [UnsetPlan.generates, UnsetPlan.lists]

/-- What becomes of one waiting value. -/
theorem planWaiting_cases (plan : UnsetPlan) (item : String × String) :
    (plan.generates item.2 = true ∧
      planWaiting libs schema plan item = { plan with derivedOnTarget := plan.derivedOnTarget ++ [item] }) ∨
    (plan.generates item.2 = false ∧ Shareable libs schema item ∧ ∃ label, planWaiting libs schema plan item =
      { plan with
        shared := plan.shared ++ [(item.2, label)]
        derivedOnTarget := plan.derivedOnTarget ++ [item] }) ∨
    (plan.generates item.2 = false ∧ ¬ Shareable libs schema item ∧ ∃ reason, planWaiting libs schema plan item =
      plan.miss item.1 .derivedFromUnset reason) := by
  unfold planWaiting
  cases hgenerates : plan.generates item.2 with
  | true => exact .inl ⟨rfl, if_pos rfl⟩
  | false =>
    rw [if_neg Bool.false_ne_true]
    cases hgenerator : sharedGenerator libs schema item.2 with
    | none =>
      refine .inr (.inr ⟨rfl, ?_, _, rfl⟩)
      intro hshareable
      have hsome := hshareable.1
      rw [hgenerator] at hsome
      cases hsome
    | some generator =>
      dsimp only
      by_cases hhost : hostPart item.2 ≠ hostPart item.1
      · rw [if_pos hhost]
        exact .inr (.inl ⟨rfl, ⟨by rw [hgenerator]; rfl, hhost⟩, _, rfl⟩)
      · rw [if_neg hhost]
        exact .inr (.inr ⟨rfl, fun hshareable => hhost hshareable.2, _, rfl⟩)

/-- A part of a longer list is a part of its beginning, or ends with its last element. -/
theorem split_concat {α : Type} {items earlier later : List α} {last item : α} :
    items ++ [last] = earlier ++ item :: later ↔
      (∃ rest, items = earlier ++ item :: rest ∧ later = rest ++ [last]) ∨
      items = earlier ∧ last = item ∧ later = [] := by
  constructor
  · intro h
    rcases List.eq_nil_or_concat' later with rfl | ⟨rest, other, rfl⟩
    · obtain ⟨hitems, hlast⟩ := List.append_inj' h rfl
      exact .inr ⟨hitems, (List.cons.inj hlast).1, rfl⟩
    · have h : items ++ [last] = (earlier ++ item :: rest) ++ [other] := by rw [h]; simp
      obtain ⟨hitems, hlast⟩ := List.append_inj' h rfl
      obtain ⟨rfl, _⟩ := List.cons.inj hlast
      exact .inl ⟨rest, hitems, rfl⟩
  · intro h
    rcases h with ⟨rest, rfl, rfl⟩ | ⟨rfl, rfl, rfl⟩ <;> simp

/-- What the target generates after the second pass. -/
theorem SecondPass.generates {items : List (String × String)} {before after : UnsetPlan}
    (h : SecondPass libs schema items before after) (x : String) : after.generates x = true ↔
      before.generates x = true ∨ ∃ item ∈ items, item.2 = x ∧ Shareable libs schema item := by
  rw [generates_iff, generates_iff, h.same .generate x (by simp) (by simp) (by simp), h.shared,
    ← Bool.not_eq_true, generates_iff]
  by_cases hown : x ∈ before.lists .generate
  · simp [hown]
  · by_cases hshared : x ∈ before.lists .shared
    · simp [hown, hshared]
    · simp [hown, hshared]

theorem SecondPass.concat {items : List (String × String)} {before middle : UnsetPlan} {last : String × String}
    (h : SecondPass libs schema items before middle) :
    SecondPass libs schema (items ++ [last]) before (planWaiting libs schema middle last) := by
  have hframed : Framed libs schema (before.generates · = true) items last ↔
      middle.generates last.2 = true ∨ Shareable libs schema last := by
    rw [h.generates]
    unfold Framed
    constructor
    · rintro (hown | hshareable | hearlier)
      · exact .inl (.inl hown)
      · exact .inr hshareable
      · exact .inl (.inr hearlier)
    · rintro ((hown | hearlier) | hshareable)
      · exact .inl hown
      · exact .inr (.inr hearlier)
      · exact .inr (.inl hshareable)
  have hmissing : ∀ x, (∃ earlier item later, items ++ [last] = earlier ++ item :: later ∧ item.1 = x ∧
      ¬ Framed libs schema (before.generates · = true) earlier item) ↔
      (∃ earlier item later, items = earlier ++ item :: later ∧ item.1 = x ∧
        ¬ Framed libs schema (before.generates · = true) earlier item) ∨
      last.1 = x ∧ ¬ Framed libs schema (before.generates · = true) items last := by
    intro x
    constructor
    · rintro ⟨earlier, item, later, hsplit, hx, hunframed⟩
      rcases split_concat.mp hsplit with ⟨rest, hitems, _⟩ | ⟨rfl, rfl, _⟩
      · exact .inl ⟨earlier, item, rest, hitems, hx, hunframed⟩
      · exact .inr ⟨hx, hunframed⟩
    · rintro (⟨earlier, item, later, hitems, hx, hunframed⟩ | ⟨hx, hunframed⟩)
      · exact ⟨earlier, item, _, split_concat.mpr (.inl ⟨later, hitems, rfl⟩), hx, hunframed⟩
      · exact ⟨items, last, [], rfl, hx, hunframed⟩
  have hfound : ∀ item, (∃ earlier later, items ++ [last] = earlier ++ item :: later ∧
      Framed libs schema (before.generates · = true) earlier item) ↔
      (∃ earlier later, items = earlier ++ item :: later ∧
        Framed libs schema (before.generates · = true) earlier item) ∨
      last = item ∧ Framed libs schema (before.generates · = true) items last := by
    intro item
    constructor
    · rintro ⟨earlier, later, hsplit, hitem⟩
      rcases split_concat.mp hsplit with ⟨rest, hitems, _⟩ | ⟨rfl, rfl, _⟩
      · exact .inl ⟨earlier, rest, hitems, hitem⟩
      · exact .inr ⟨rfl, hitem⟩
    · rintro (⟨earlier, later, hitems, hitem⟩ | ⟨rfl, hitem⟩)
      · exact ⟨earlier, _, split_concat.mpr (.inl ⟨later, hitems, rfl⟩), hitem⟩
      · exact ⟨items, [], rfl, hitem⟩
  have hshared : ∀ x, (∃ item ∈ items ++ [last], item.2 = x ∧ Shareable libs schema item) ↔
      (∃ item ∈ items, item.2 = x ∧ Shareable libs schema item) ∨ last.2 = x ∧ Shareable libs schema last := by
    intro x
    simp [or_and_right, exists_or]
  rcases planWaiting_cases middle last with ⟨hgenerates, heq⟩ | ⟨hnew, hshareable, label, heq⟩ |
    ⟨hnew, hunshareable, reason, heq⟩
  · have hlast := hframed.mpr (.inl hgenerates)
    rw [heq]
    constructor
    · intro place x hdot hmiss hshare
      rw [← h.same place x hdot hmiss hshare]
      cases place <;> first | rfl | exact absurd rfl hdot
    · intro x
      rw [hmissing]
      simp only [hlast, not_true, and_false, or_false]
      exact h.missing x
    · intro item
      rw [hfound]
      simp only [hlast, and_true]
      show item ∈ middle.derivedOnTarget ++ [last] ↔ _
      rw [List.mem_append, h.framed, List.mem_singleton, or_assoc, eq_comm]
    · intro x
      rw [hshared]
      refine (h.shared x).trans ?_
      constructor
      · rintro (hx | ⟨hown, hx⟩)
        · exact .inl hx
        · exact .inr ⟨hown, .inl hx⟩
      · rintro (hx | ⟨hown, hx | ⟨rfl, hshareable⟩⟩)
        · exact .inl hx
        · exact .inr ⟨hown, hx⟩
        · rcases (h.generates last.2).mp hgenerates with htrue | hearlier
          · rw [htrue] at hown
            cases hown
          · exact .inr ⟨hown, hearlier⟩
  · have hlast := hframed.mpr (.inr hshareable)
    rw [heq]
    constructor
    · intro place x hdot hmiss hshare
      rw [← h.same place x hdot hmiss hshare]
      cases place <;> first | rfl | exact absurd rfl hdot | exact absurd rfl hshare
    · intro x
      rw [hmissing]
      simp only [hlast, not_true, and_false, or_false]
      exact h.missing x
    · intro item
      rw [hfound]
      simp only [hlast, and_true]
      show item ∈ middle.derivedOnTarget ++ [last] ↔ _
      rw [List.mem_append, h.framed, List.mem_singleton, or_assoc, eq_comm]
    · intro x
      rw [hshared]
      have hx : x ∈ UnsetPlan.lists { middle with
          shared := middle.shared ++ [(last.2, label)]
          derivedOnTarget := middle.derivedOnTarget ++ [last] } .shared ↔
          x ∈ middle.lists .shared ∨ x = last.2 := by simp [UnsetPlan.lists]
      rw [hx, h.shared]
      constructor
      · rintro ((hx | ⟨hown, hx⟩) | rfl)
        · exact .inl hx
        · exact .inr ⟨hown, .inl hx⟩
        · refine .inr ⟨?_, .inr ⟨rfl, hshareable⟩⟩
          apply Bool.eq_false_iff.mpr
          intro htrue
          rw [(h.generates last.2).mpr (.inl htrue)] at hnew
          cases hnew
      · rintro (hx | ⟨hown, hx | ⟨rfl, _⟩⟩)
        · exact .inl (.inl hx)
        · exact .inl (.inr ⟨hown, hx⟩)
        · exact .inr rfl
  · have hlast : ¬ Framed libs schema (before.generates · = true) items last := by
      rw [hframed, hnew]
      simp [hunshareable]
    rw [heq]
    constructor
    · intro place x hdot hmiss hshare
      rw [← h.same place x hdot hmiss hshare]
      cases place <;> first | rfl | exact absurd rfl hmiss
    · intro x
      have hx : x = last.1 ∧ Place.missing = .missing ↔
          last.1 = x ∧ ¬ Framed libs schema (before.generates · = true) items last :=
        ⟨fun h => ⟨h.1.symm, hlast⟩, fun h => ⟨h.1.symm, rfl⟩⟩
      rw [hmissing, miss_lists, h.missing, hx, or_assoc]
    · intro item
      rw [hfound]
      simp only [hlast, and_false, or_false]
      exact h.framed item
    · intro x
      rw [hshared]
      simp only [hunshareable, and_false, or_false]
      exact h.shared x

/-- The second pass over all waiting values. -/
theorem planWaiting_secondPass (items : List (String × String)) (plan : UnsetPlan) :
    SecondPass libs schema items plan (items.foldl (planWaiting libs schema) plan) := by
  induction items using List.reverseRecOn with
  | nil => exact ⟨fun _ _ _ _ _ => Iff.rfl, by simp, by simp, by simp⟩
  | append_singleton items last ih =>
    rw [List.foldl_append]
    exact ih.concat

end

section

variable (libs : Libraries) (schema : Inventory.Schema) (set : BTreeSet String) (stale : BTreeMap String String)
  (identifiers : List String)

/-- A requested value that the target generates for itself. -/
def Own (identifier : String) : Prop :=
  identifier ∈ identifiers ∧ fate schema set libs stale identifier = some .generated

/-- A requested value that the target frames from a source it generates. -/
def FramedThere (item : String × String) : Prop :=
  ∃ earlier later, awaited libs schema set stale identifiers = earlier ++ item :: later ∧
    Framed libs schema (Own libs schema set stale identifiers) earlier item

/-- A requested value that waits for its source. -/
def Unframed (item : String × String) : Prop :=
  ∃ earlier later, awaited libs schema set stale identifiers = earlier ++ item :: later ∧
    ¬ Framed libs schema (Own libs schema set stale identifiers) earlier item

/-- A source of another host that the target generates first. -/
def Foreign (source : String) : Prop :=
  ¬ Own libs schema set stale identifiers source ∧
    ∃ item ∈ awaited libs schema set stale identifiers, item.2 = source ∧ Shareable libs schema item

/-- What a plan lists before the host is looked at. -/
structure Sketched (plan : UnsetPlan) : Prop where
  known : ∀ identifier ∈ identifiers, (fate schema set libs stale identifier).isSome
  listed : ∀ place x, place ≠ .derivedOnTarget → place ≠ .missing → place ≠ .shared → (x ∈ plan.lists place ↔
    x ∈ identifiers ∧ (fate schema set libs stale x).bind (·.place) = some place)
  missing : ∀ x, x ∈ plan.lists .missing ↔ x ∈ identifiers ∧ fate schema set libs stale x = some .missing ∨
    ∃ item, item.1 = x ∧ Unframed libs schema set stale identifiers item
  framed : ∀ item, item ∈ plan.derivedOnTarget ↔ FramedThere libs schema set stale identifiers item
  shared : ∀ x, x ∈ plan.lists .shared ↔ Foreign libs schema set stale identifiers x

variable {libs schema set stale identifiers}

theorem place_missing {found : Option Fate} : found.bind (·.place) = some .missing ↔ found = some .missing := by
  cases found with
  | none => simp
  | some found => cases found <;> simp [Fate.place]

theorem place_generate {found : Option Fate} : found.bind (·.place) = some .generate ↔ found = some .generated := by
  cases found with
  | none => simp
  | some found => cases found <;> simp [Fate.place]

theorem place_shared {found : Option Fate} : found.bind (·.place) ≠ some .shared := by
  cases found with
  | none => simp
  | some found => cases found <;> simp [Fate.place]

theorem planLeaves_sketched {planning : Planning}
    (h : planLeaves libs schema set stale identifiers ({}, []) = .ok planning) :
    Sketched libs schema set stale identifiers (planning.2.foldl (planWaiting libs schema) planning.1) := by
  have hfirst := planLeaves_firstPass h
  have hwaiting : planning.2 = awaited libs schema set stale identifiers := hfirst.waiting
  have hempty : ∀ place x, x ∉ ({} : UnsetPlan).lists place := by
    intro place x
    cases place <;> exact List.not_mem_nil
  have hlists : ∀ place x, x ∈ planning.1.lists place ↔ x ∈ identifiers ∧
      (fate schema set libs stale x).bind (·.place) = some place := by
    intro place x
    rw [hfirst.lists]
    exact or_iff_right (hempty place x)
  have hown : (planning.1.generates · = true) = Own libs schema set stale identifiers := by
    funext x
    apply propext
    rw [generates_iff, hlists, hlists, place_generate, or_iff_left fun h => place_shared h.2]
    rfl
  have hsecond : SecondPass libs schema planning.2 planning.1
      (planning.2.foldl (planWaiting libs schema) planning.1) := planWaiting_secondPass planning.2 planning.1
  have hdot : planning.1.derivedOnTarget = [] := hfirst.derivedOnTarget
  constructor
  · exact hfirst.known
  · intro place x hdot hmissing hshared
    rw [hsecond.same place x hdot hmissing hshared]
    exact hlists place x
  · intro x
    rw [hsecond.missing, hlists, place_missing, hown, hwaiting]
    apply or_congr_right
    constructor
    · intro hx
      obtain ⟨earlier, item, later, hsplit, hx, hunframed⟩ := hx
      exact ⟨item, hx, earlier, later, hsplit, hunframed⟩
    · intro hx
      obtain ⟨item, hx, earlier, later, hsplit, hunframed⟩ := hx
      exact ⟨earlier, item, later, hsplit, hx, hunframed⟩
  · intro item
    rw [hsecond.framed, hown, hwaiting, hdot]
    exact or_iff_right List.not_mem_nil
  · intro x
    rw [hsecond.shared, hlists, or_iff_right fun h => place_shared h.2, ← Bool.not_eq_true, hwaiting]
    show ¬ (planning.1.generates · = true) x ∧ _ ↔ _
    rw [hown]
    rfl

/-- A waiting value is requested, and its source is unset. -/
theorem awaited_fate {item : String × String} (h : item ∈ awaited libs schema set stale identifiers) :
    item.1 ∈ identifiers ∧ fate schema set libs stale item.1 = some (.waits item.2) := by
  obtain ⟨identifier, hmem, hitem⟩ := List.mem_flatMap.mp h
  cases hfate : fate schema set libs stale identifier with
  | none =>
    rw [hfate] at hitem
    cases hitem
  | some found =>
    rw [hfate] at hitem
    cases found with
    | waits source =>
      cases List.mem_singleton.mp hitem
      exact ⟨hmem, hfate⟩
    | missing => cases hitem
    | derived source => cases hitem
    | stored => cases hitem
    | task => cases hitem
    | hostDefault => cases hitem
    | generated => cases hitem
    | refused => cases hitem

theorem FramedThere.fate {item : String × String} (h : FramedThere libs schema set stale identifiers item) :
    item.1 ∈ identifiers ∧ Manager.fate schema set libs stale item.1 = some (.waits item.2) := by
  obtain ⟨earlier, later, hsplit, _⟩ := h
  apply awaited_fate
  rw [hsplit]
  simp

theorem Unframed.fate {item : String × String} (h : Unframed libs schema set stale identifiers item) :
    item.1 ∈ identifiers ∧ Manager.fate schema set libs stale item.1 = some (.waits item.2) := by
  obtain ⟨earlier, later, hsplit, _⟩ := h
  apply awaited_fate
  rw [hsplit]
  simp

/-- The source of a framed value is generated by the target. -/
theorem FramedThere.source {item : String × String} (h : FramedThere libs schema set stale identifiers item) :
    Own libs schema set stale identifiers item.2 ∨ Foreign libs schema set stale identifiers item.2 := by
  by_cases hown : Own libs schema set stale identifiers item.2
  · exact .inl hown
  · obtain ⟨earlier, later, hsplit, hframed⟩ := h
    refine .inr ⟨hown, ?_⟩
    rw [hsplit]
    rcases hframed with hfound | hshareable | ⟨other, hother, hsource, hshareable⟩
    · exact absurd hfound hown
    · exact ⟨item, by simp, rfl, hshareable⟩
    · exact ⟨other, by simp [hother], hsource, hshareable⟩

/-- A source of another host is framed for the value that it is shared with. -/
theorem Foreign.framed {source : String} (h : Foreign libs schema set stale identifiers source) :
    ∃ item, FramedThere libs schema set stale identifiers item ∧ item.2 = source := by
  obtain ⟨_, item, hmem, hsource, hshareable⟩ := h
  obtain ⟨earlier, later, hsplit⟩ := List.append_of_mem hmem
  exact ⟨item, ⟨earlier, later, hsplit, .inr (.inl hshareable)⟩, hsource⟩

end

end NixSecrets.Manager
