import NixSecrets.DeploymentServer
import NixSecrets.Outcome
import NixSecrets.BatchPartition

namespace NixSecrets.Transport

theorem readWireJson_ok {α : Type} {decode : List UInt8 → Except String α} {input rest : List Arrival}
    {value : α} (h : readWireJson decode input = .ok (value, rest)) :
    ∃ body, body.length ≤ maxDeploymentJson ∧ decode body = .ok value ∧
      delivered input = prefixed 4 body ++ delivered rest := by
  simp only [readWireJson, except_bind_ok, exists_unit_ok, except_mapError_ok, rejectIf_ok] at h
  obtain ⟨⟨length, input'⟩, hlength, hsmall, ⟨body, rest'⟩, hbody, value', hdecode, h⟩ := h
  cases h
  obtain ⟨new, hnew, hfour, hfront⟩ := readWhole_ok hlength
  obtain ⟨new', hnew', hcount, hback⟩ := readWhole_ok hbody
  rw [List.nil_append] at hnew hnew'
  subst hnew hnew'
  have hheader : bigEndian 4 body.length = length := by
    rw [hcount, ← hfour]
    exact bigEndian_readBigEndian length
  refine ⟨body, by omega, hdecode, ?_⟩
  rw [hfront, hback, prefixed, hheader, List.append_assoc]

theorem checkSubset_ok {version : UInt16} {left right : List String} {message : String}
    (h : checkSubset version left right message = .ok ()) : ∀ k ∈ right, k ∈ left := by
  unfold checkSubset at h
  split at h
  next =>
    rw [requireSubset, rejectIf_ok, not_not] at h
    exact h.1
  next =>
    rw [requireSameSet, rejectIf_ok, not_not] at h
    exact fun k hk => (h k (List.mem_append_right left hk)).1

theorem admit_ok {libs : Libraries} {selection : DeploymentSelection} {selected : TargetState}
    {batch : WireBatch} (h : admitBatch libs selection selected batch = .ok ()) :
    (∀ k ∈ batch.requestedIdentifiers, k ∈ selection.identifiers) ∧
    (∀ k ∈ batch.requestedTasks, k ∈ selection.taskIdentifiers) ∧
    BatchAllowed libs batch { selected with protocolVersion := batch.version } := by
  simp only [admitBatch, except_bind_ok, exists_unit_ok, rejectIf_ok] at h
  obtain ⟨_, hvalues, htasks, hbatch⟩ := h
  exact ⟨checkSubset_ok hvalues, checkSubset_ok htasks, (validateBatch_ok libs).mp hbatch⟩

theorem selectState_ok {state selected : TargetState} {selection : DeploymentSelection}
    (h : selectState state selection = .ok selected) : validateSelection selection = .ok () ∧
      selected.secrets = select (·.identifier) state.secrets selection.identifiers ∧
      selected.tasks = select (·.identifier) state.tasks selection.taskIdentifiers := by
  simp only [selectState, except_bind_ok, exists_unit_ok] at h
  obtain ⟨hvalid, h⟩ := h
  cases h
  exact ⟨hvalid, rfl, rfl⟩

theorem select_subset {τ : Type} {identifier : τ → String} {available : List τ} {identifiers : List String}
    {k : String} (h : k ∈ (select identifier available identifiers).map identifier) :
    k ∈ available.map identifier := by
  obtain ⟨item, hitem, rfl⟩ := List.mem_map.mp h
  exact List.mem_map_of_mem (List.mem_filter.mp hitem).1

/-- The stream begins with a whole selection and a whole batch that the target admits. -/
structure Exchanged (libs : Libraries) (format : WireFormat) (state : TargetState) (input : List Arrival)
    (selection : DeploymentSelection) (selected : TargetState) (batch : WireBatch) : Prop where
  whole : ∃ first second rest, first.length ≤ maxDeploymentJson ∧ second.length ≤ maxDeploymentJson ∧
    delivered input = prefixed 4 first ++ (prefixed 4 second ++ rest) ∧
    format.selection first = .ok selection ∧ format.batch second = .ok batch
  serverState : validateServerState libs state = .ok ()
  answer : selectState state selection = .ok selected
  admitted : admitBatch libs selection selected batch = .ok ()

section

variable {ω : Type}

theorem check_ends {α : Type} {x : Except DeploymentError α} {s : Served ω} {failed : Served ω → Prop}
    (h : failed s) : Ends (check x) s (fun a s' => x = .ok a ∧ s = s') failed := by
  cases x with
  | error e => exact h
  | ok a => exact ⟨rfl, rfl⟩

theorem receive_ends {α : Type} {decode : List UInt8 → Except String α} {event : α → ServerEvent}
    {s : Served ω} {failed : Served ω → Prop} (h : failed s) :
    Ends (receive decode event) s (fun a s' => readWireJson decode s.input = .ok (a, s'.input) ∧
      s'.events = s.events ++ [event a]) failed := by
  unfold Ends receive
  cases hread : readWireJson decode s.input with
  | error e => exact h
  | ok received => exact ⟨rfl, rfl⟩

theorem send_ends {write : ω → List UInt8 → Except String ω} {body : Except String (List UInt8)}
    {event : ServerEvent} {s : Served ω} {failed : Served ω → Prop} (h : failed s) :
    Ends (send write body event) s
      (fun _ s' => s'.input = s.input ∧ s'.events = s.events ++ [event]) failed := by
  unfold Ends send
  cases hbody : encodeJson body with
  | error e => exact h
  | ok wire =>
    cases hwrite : write s.output wire with
    | error e => simpa only [hwrite] using h
    | ok output => simp only [hwrite, and_self]

theorem send_applied {write : ω → List UInt8 → Except String ω} {body : Except String (List UInt8)}
    {event : ServerEvent} {s : Served ω} (hevent : event.applied? = none) :
    appliedBatches (send write body event s).2.events = appliedBatches s.events := by
  unfold send
  split
  next => rfl
  next =>
    split
    next => simp [appliedBatches, hevent]
    next => rfl

variable (libs : Libraries) (format : WireFormat) (write : ω → List UInt8 → Except String ω)
  (apply : WireBatch → Except String AppliedOutput)

/-- Nothing was applied, or one batch was, after everything that has to come before it. -/
def AppliedSafely (state : TargetState) (input : List Arrival) (events : List ServerEvent) : Prop :=
  appliedBatches events = [] ∨ ∃ selection selected batch, appliedBatches events = [batch] ∧
    [.selected selection, .answered selected, .received batch, .applied batch] <+: events ∧
    Exchanged libs format state input selection selected batch

theorem serveDeployment_safely (state : TargetState) (input : List Arrival) (output : ω) :
    Ends (serveDeployment libs format write apply state) ⟨input, output, []⟩
      (fun _ s => AppliedSafely libs format state input s.events)
      (fun s => AppliedSafely libs format state input s.events) := by
  have hnone {s : Served ω} (h : appliedBatches s.events = []) :
      AppliedSafely libs format state input s.events := Or.inl h
  apply Ends.bind (check_ends (hnone rfl))
  rintro _ s ⟨hstate, rfl⟩
  apply Ends.bind (receive_ends (hnone rfl))
  rintro selection s₁ ⟨hselection, hevents₁⟩
  have hnone₁ := hnone (s := s₁) (by rw [hevents₁]; rfl)
  apply Ends.bind (check_ends hnone₁)
  rintro selected _ ⟨hselected, rfl⟩
  apply Ends.bind (send_ends hnone₁)
  rintro _ s₂ ⟨hinput₂, hevents₂⟩
  have hnone₂ := hnone (s := s₂) (by rw [hevents₂, hevents₁]; rfl)
  apply Ends.bind (receive_ends hnone₂)
  rintro batch s₃ ⟨hbatch, hevents₃⟩
  have hnone₃ := hnone (s := s₃) (by rw [hevents₃, hevents₂, hevents₁]; rfl)
  apply Ends.bind (check_ends hnone₃)
  rintro _ _ ⟨hadmitted, rfl⟩
  have hexchanged : Exchanged libs format state input selection selected batch := by
    obtain ⟨first, hfirst, hdecode, hfront⟩ := readWireJson_ok hselection
    rw [hinput₂] at hbatch
    obtain ⟨second, hsecond, hdecode', hback⟩ := readWireJson_ok hbatch
    refine ⟨⟨first, second, delivered s₃.input, hfirst, hsecond, ?_, hdecode, hdecode'⟩, hstate, hselected, hadmitted⟩
    rw [hfront, hback]
  have happlied : s₃.events ++ [.applied batch] =
      [.selected selection, .answered selected, .received batch, .applied batch] := by
    rw [hevents₃, hevents₂, hevents₁]
    rfl
  have hsafe {events : List ServerEvent} (hone : appliedBatches events = [batch])
      (hfront : s₃.events ++ [.applied batch] <+: events) : AppliedSafely libs format state input events := by
    rw [happlied] at hfront
    exact Or.inr ⟨selection, selected, batch, hone, hfront, hexchanged⟩
  have hnoted : Ends (note (.applied batch)) s₃
      (fun _ s => s.events = s₃.events ++ [.applied batch])
      (fun s => AppliedSafely libs format state input s.events) := rfl
  apply Ends.bind hnoted
  intro _ s₄ hevents₄
  have hone : appliedBatches s₄.events = [batch] := by
    rw [hevents₄, happlied]
    rfl
  have hfront : s₃.events ++ [.applied batch] <+: s₄.events :=
    ⟨[], by rw [hevents₄, List.append_nil]⟩
  apply Ends.imp (send_ends (hsafe hone hfront))
  rintro _ s₅ ⟨_, hevents₅⟩
  refine hsafe ?_ ?_
  · rw [hevents₅, hevents₄, happlied]
    rfl
  · rw [hevents₅]
    exact hfront.trans (List.prefix_append _ _)

/-- On every stream the target applies at most one batch, and only one that a whole selection and
a whole valid message have brought, which requests nothing but what was selected and is declared. -/
theorem deployment_applied_only_admitted (state : TargetState) (input : List Arrival) (output : ω) :
    appliedBatches (served libs format write apply state input output) = [] ∨
    ∃ selection selected batch,
      appliedBatches (served libs format write apply state input output) = [batch] ∧
      [.selected selection, .answered selected, .received batch, .applied batch] <+:
        served libs format write apply state input output ∧
      Exchanged libs format state input selection selected batch ∧
      (∀ k ∈ batch.requestedIdentifiers, k ∈ selection.identifiers ∧ k ∈ state.secrets.map (·.identifier)) ∧
      (∀ k ∈ batch.requestedTasks, k ∈ selection.taskIdentifiers ∧ k ∈ state.tasks.map (·.identifier)) := by
  rcases (serveDeployment_safely libs format write apply state input output).state with hnone | hone
  · exact Or.inl hnone
  · obtain ⟨selection, selected, batch, happlied, hfront, hexchanged⟩ := hone
    obtain ⟨hvalues, htasks, hallowed⟩ := admit_ok hexchanged.admitted
    obtain ⟨_, hsecrets, hselectedTasks⟩ := selectState_ok hexchanged.answer
    refine Or.inr ⟨selection, selected, batch, happlied, hfront, hexchanged, fun k hk => ?_, fun k hk => ?_⟩
    · have hdeclared := hallowed.values.available k hk
      rw [hsecrets] at hdeclared
      exact ⟨hvalues k hk, select_subset hdeclared⟩
    · have hdeclared := hallowed.tasks.available k hk
      rw [hselectedTasks] at hdeclared
      exact ⟨htasks k hk, select_subset hdeclared⟩

theorem readWireJson_of {α : Type} {decode : List UInt8 → Except String α} {input : List Arrival}
    {value : α} {body rest : List UInt8} (hbody : body.length ≤ maxDeploymentJson)
    (hdecode : decode body = .ok value) (h : delivered input = prefixed 4 body ++ rest) :
    ∃ input', readWireJson decode input = .ok (value, input') ∧ delivered input' = rest := by
  have hnumber : readBigEndian (bigEndian 4 body.length) = body.length := by
    apply readBigEndian_bigEndian
    unfold maxDeploymentJson at hbody
    omega
  rw [prefixed, List.append_assoc] at h
  obtain ⟨input₁, hlength, hdelivered⟩ := readWhole_append h
  obtain ⟨input₂, hread, hrest⟩ := readWhole_append hdelivered
  rw [bigEndian_length] at hlength
  refine ⟨input₂, ?_, hrest⟩
  simp only [readWireJson, except_bind_ok, exists_unit_ok, except_mapError_ok, rejectIf_ok]
  refine ⟨(bigEndian 4 body.length, input₁), hlength, ?_, (body, input₂), ?_, value, hdecode, rfl⟩
  · rw [hnumber]
    omega
  · rw [hnumber]
    exact hread

theorem encodeJson_of {body : List UInt8} (h : ¬ maxDeploymentJson < body.length) :
    encodeJson (.ok body) = .ok (prefixed 4 body) := by
  simp only [encodeJson, except_bind_ok, exists_unit_ok, except_mapError_ok, rejectIf_ok]
  exact ⟨body, rfl, h, rfl⟩

/-- After a whole exchange with an admitted batch, all that is left is to apply it and to report how that
went. -/
theorem exchanged_served {state selected : TargetState} {input : List Arrival} {output output' : ω}
    {selection : DeploymentSelection} {batch : WireBatch} {wire : List UInt8}
    (h : Exchanged libs format state input selection selected batch)
    (hencoded : encodeJson (format.state selected) = .ok wire) (hwritten : write output wire = .ok output') :
    ∃ input', serveDeployment libs format write apply state ⟨input, output, []⟩ =
      send write (format.result (resultOf (batch.generate.map (·.identifier)) (apply batch)))
        (.reported (resultOf (batch.generate.map (·.identifier)) (apply batch)))
        ⟨input', output', [.selected selection, .answered selected, .received batch, .applied batch]⟩ := by
  obtain ⟨first, second, rest, hfirst, hsecond, hdelivered, hdecode, hdecode'⟩ := h.whole
  obtain ⟨input₁, hread₁, hrest₁⟩ := readWireJson_of hfirst hdecode hdelivered
  obtain ⟨input₂, hread₂, _⟩ := readWireJson_of hsecond hdecode' hrest₁
  have hstate : check (validateServerState libs state) ⟨input, output, []⟩ =
      (.ok (), ⟨input, output, []⟩) := by rw [check, h.serverState]
  have hselection : receive format.selection .selected ⟨input, output, []⟩ =
      (.ok selection, ⟨input₁, output, [.selected selection]⟩) := by
    simp only [receive, hread₁]
    rfl
  have hselected (s : Served ω) : check (selectState state selection) s = (.ok selected, s) := by
    rw [check, h.answer]
  have hsent : send write (format.state selected) (.answered selected)
      ⟨input₁, output, [.selected selection]⟩ =
      (.ok (), ⟨input₁, output', [.selected selection, .answered selected]⟩) := by
    simp only [send, hencoded, hwritten]
    rfl
  have hbatch : receive format.batch .received
      ⟨input₁, output', [.selected selection, .answered selected]⟩ =
      (.ok batch, ⟨input₂, output', [.selected selection, .answered selected, .received batch]⟩) := by
    simp only [receive, hread₂]
    rfl
  have hadmitted (s : Served ω) : check (admitBatch libs selection selected batch) s = (.ok (), s) := by
    rw [check, h.admitted]
  have hnoted (s : Served ω) : note (.applied batch) s =
      (.ok (), { s with events := s.events ++ [.applied batch] }) := rfl
  refine ⟨input₂, ?_⟩
  rw [serveDeployment, run_bind_ok hstate, run_bind_ok hselection, run_bind_ok (hselected _),
    run_bind_ok hsent, run_bind_ok hbatch, run_bind_ok (hadmitted _), run_bind_ok (hnoted _)]
  rfl

/-- A batch that is admitted after a whole exchange is applied, once the selection was answered. -/
theorem exchanged_applied {state selected : TargetState} {input : List Arrival} {output output' : ω}
    {selection : DeploymentSelection} {batch : WireBatch} {wire : List UInt8}
    (h : Exchanged libs format state input selection selected batch)
    (hencoded : encodeJson (format.state selected) = .ok wire) (hwritten : write output wire = .ok output') :
    appliedBatches (served libs format write apply state input output) = [batch] := by
  obtain ⟨input', hserved⟩ := exchanged_served libs format write apply h hencoded hwritten
  rw [served, hserved]
  exact (send_applied rfl).trans rfl

end

def gitOld : String := "web.services.git.old"

/-- A selection that names a value the target does not declare. -/
def staleSelection : DeploymentSelection := ⟨[gitToken, gitOld], []⟩

def tokenBatch : WireBatch where
  version := 5
  requestedIdentifiers := [gitToken]
  entries := [⟨gitToken, "v1", "eA=="⟩]

def selectionJson : List UInt8 := utf8Bytes (jsonObject
  [jsonMember "identifiers" (jsonArray [jsonString gitToken, jsonString gitOld]),
    jsonMember "task_identifiers" (jsonArray [])])

def batchJson : List UInt8 := utf8Bytes (jsonObject
  [jsonMember "version" ['5'], jsonMember "requested_identifiers" (jsonArray [jsonString gitToken]),
    jsonMember "entries" (jsonArray [jsonStrings
      [("identifier", gitToken), ("version_id", "v1"), ("contents_base64", "eA==")]]),
    jsonMember "requested_tasks" (jsonArray []), jsonMember "tasks" (jsonArray [])])

def stateJson : List UInt8 := utf8Bytes (jsonObject
  [jsonMember "protocol_version" ['5'], jsonMember "hostname" (jsonString "web"),
    jsonMember "secrets" (jsonArray [jsonObject [jsonMember "identifier" (jsonString gitToken),
      jsonMember "recipient_ids" (jsonArray [jsonString "admin"]),
      jsonMember "destination" (jsonObject
        [jsonMember "path" (jsonString "/persistent/secrets/git/service/token"),
          jsonMember "category" (jsonString "service"), jsonMember "owner" (jsonString "git"),
          jsonMember "group" (jsonString "git"), jsonMember "mode" (jsonString "0400"),
          jsonMember "consumer_units" (jsonArray [])]),
      jsonMember "public_info" "null".toList, jsonMember "current_version_id" "null".toList]]),
    jsonMember "tasks" (jsonArray []), jsonMember "absent" (jsonArray [jsonString gitOld]),
    jsonMember "unselected" (jsonArray [jsonString gitKey])])

def resultJson : List UInt8 := utf8Bytes (jsonObject
  [jsonMember "status" (jsonString "applied"), jsonMember "versions" (jsonObject []),
    jsonMember "generated_public_keys" (jsonObject [])])

/-- The messages of one exchange, and no other. -/
def staleFormat : WireFormat where
  selection body := if body = selectionJson then .ok staleSelection else .error "expected value"
  batch body := if body = batchJson then .ok tokenBatch else .error "expected value"
  state _ := .ok stateJson
  result _ := .ok resultJson

def staleStream : List Arrival := [.bytes (prefixed 4 selectionJson ++ prefixed 4 batchJson)]

def staleAnswer : TargetState := { keyState with tasks := [], absent := [gitOld], unselected := [gitKey] }

theorem staleFormat_selection : staleFormat.selection selectionJson = .ok staleSelection := by
  simp only [staleFormat, if_true]

theorem staleFormat_batch : staleFormat.batch batchJson = .ok tokenBatch := by
  simp only [staleFormat, if_true]

theorem stale_exchanged :
    Exchanged keyLibraries staleFormat keyState staleStream staleSelection staleAnswer tokenBatch := by
  have hfirst : selectionJson.length ≤ maxDeploymentJson := by
    rw [selectionJson, utf8Bytes_flatMap]
    decide
  have hsecond : batchJson.length ≤ maxDeploymentJson := by
    rw [batchJson, utf8Bytes_flatMap]
    decide +kernel
  have hstream : delivered staleStream = prefixed 4 selectionJson ++ (prefixed 4 batchJson ++ []) := by
    have hne : prefixed 4 selectionJson ++ prefixed 4 batchJson ≠ [] :=
      List.append_ne_nil_of_left_ne_nil (prefixed_ne_nil (by decide) _) _
    rw [staleStream, delivered_bytes hne, delivered, List.append_nil, List.append_nil]
  exact ⟨⟨selectionJson, batchJson, [], hfirst, hsecond, hstream,
    staleFormat_selection, staleFormat_batch⟩,
    by decide, by decide, by decide⟩

theorem stale_encoded : encodeJson (staleFormat.state staleAnswer) = .ok (prefixed 4 stateJson) := by
  have hlength : ¬ maxDeploymentJson < stateJson.length := by
    rw [stateJson, utf8Bytes_flatMap]
    decide +kernel
  exact encodeJson_of hlength

/-- A selection may name what the target does not declare; the rest of it is still applied. -/
theorem undeclared_selection_applied :
    appliedBatches (served keyLibraries staleFormat (fun sent wire => .ok (sent ++ wire))
      (fun _ => .ok ⟨∅, ∅, ∅, ∅⟩) keyState staleStream ([] : List UInt8)) = [tokenBatch] ∧
    staleFormat.selection selectionJson = .ok staleSelection ∧
    gitOld ∈ staleSelection.identifiers ∧ gitOld ∉ keyState.secrets.map (·.identifier) := by
  exact ⟨exchanged_applied keyLibraries staleFormat _ _ stale_exchanged stale_encoded rfl,
    staleFormat_selection, by decide, by decide⟩

end NixSecrets.Transport
