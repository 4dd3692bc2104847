import NixSecrets.FrameRelay
import NixSecrets.ServerSafety

namespace NixSecrets.Transport

/-- An error of the session or of the exchange. -/
inductive ClientError
  | ssh (error : FrameError)
  | deployment (error : DeploymentError)
  deriving DecidableEq, Repr

/-- The client reads the frame that says that the relay is open. -/
def openReply (input : List Arrival) : Except ClientError (List Arrival) := do
  let (frame, rest) ← (Frame.readFrom input).mapError .ssh
  if frame.kind ≠ .data ∨ frame.payload ≠ [] then .error (.ssh (.invalid "receiver rejected open"))
  else return rest

/-- The bytes of the frames that carry a message. -/
def sendTransportJson (body : Except String (List UInt8)) : Except DeploymentError (List UInt8) := do
  let wire ← encodeJson body
  return dataFrames (chunks maxFrameBytes wire)

section

variable {α : Type} (decode : List UInt8 → Except String α)

def receiveFrames (wire : List UInt8) (input : List Arrival) : Except ClientError (α × List Arrival) :=
  match _hread : Frame.readFrom input with
  | .error e => .error (.ssh e)
  | .ok (frame, rest) =>
    if frame.kind ≠ .data then .error (.deployment (.invalid "expected deployment data frame"))
    else if maxDeploymentJson + 4 < wire.length + frame.payload.length then
      .error (.deployment (.invalid "deployment message too large"))
    else if 4 ≤ (wire ++ frame.payload).length then
      let length := readBigEndian ((wire ++ frame.payload).take 4)
      if maxDeploymentJson < length then .error (.deployment (.invalid "deployment message too large"))
      else if (wire ++ frame.payload).length = length + 4 then
        match decode ((wire ++ frame.payload).drop 4) with
        | .ok value => .ok (value, rest)
        | .error e => .error (.deployment (.json e))
      else if length + 4 < (wire ++ frame.payload).length then
        .error (.deployment (.invalid "multiple deployment messages in frame stream"))
      else receiveFrames (wire ++ frame.payload) rest
    else receiveFrames (wire ++ frame.payload) rest
  termination_by (delivered input).length
  decreasing_by
    · exact Frame.readFrom_shorter _hread
    · exact Frame.readFrom_shorter _hread

def receiveTransportJson (input : List Arrival) : Except ClientError (α × List Arrival) :=
  receiveFrames decode [] input

end

theorem openReply_of {input : List Arrival} {back : List UInt8} (h : delivered input = dataFrames [[]] ++ back) :
    ∃ rest, openReply input = .ok rest ∧ delivered rest = back := by
  have h : delivered input = Frame.bytes ⟨.data, []⟩ ++ back := h
  obtain ⟨rest, hread, hback⟩ := Frame.readFrom_bytes (Nat.zero_le _) h
  refine ⟨rest, ?_, hback⟩
  unfold openReply
  rw [hread]
  rfl

section

variable {α : Type} {decode : List UInt8 → Except String α} {body : List UInt8} {value : α}

theorem readBigEndian_wire {wire rest : List UInt8} (hbody : body.length ≤ maxDeploymentJson)
    (h : wire ++ rest = prefixed 4 body) (hfour : 4 ≤ wire.length) :
    readBigEndian (wire.take 4) = body.length := by
  have htake : wire.take 4 = bigEndian 4 body.length := by
    rw [← @List.take_append_of_le_length _ wire rest 4 hfour, h, prefixed,
      List.take_append_of_le_length (Nat.le_of_eq (bigEndian_length 4 _).symm),
      List.take_of_length_le (Nat.le_of_eq (bigEndian_length 4 _))]
  rw [htake]
  apply readBigEndian_bigEndian
  unfold maxDeploymentJson at hbody
  omega

theorem wire_length (body : List UInt8) : (prefixed 4 body).length = body.length + 4 := by
  rw [prefixed, List.length_append, bigEndian_length, Nat.add_comm]

/-- One frame that continues the message. -/
theorem receiveFrames_next {wire payload more : List UInt8} {input rest : List Arrival}
    (hbody : body.length ≤ maxDeploymentJson) (hread : Frame.readFrom input = .ok (⟨.data, payload⟩, rest))
    (h : wire ++ payload ++ more = prefixed 4 body) (hmore : more ≠ []) :
    receiveFrames decode wire input = receiveFrames decode (wire ++ payload) rest := by
  have hlength := congrArg List.length h
  have hpositive := List.length_pos_iff.mpr hmore
  rw [wire_length, List.length_append, List.length_append] at hlength
  rw [receiveFrames]
  split
  next e hread' =>
    rw [hread] at hread'
    cases hread'
  next frame rest' hread' =>
    rw [hread] at hread'
    cases hread'
    dsimp only
    rw [if_neg (by simp), if_neg (by omega)]
    by_cases hfour : 4 ≤ (wire ++ payload).length
    · have hnumber := readBigEndian_wire hbody h hfour
      have hshort : (wire ++ payload).length < body.length + 4 := by
        rw [List.length_append]
        omega
      rw [if_pos hfour, hnumber, if_neg (by omega), if_neg (by omega), if_neg (by omega)]
    · rw [if_neg hfour]

/-- The frame that completes the message. -/
theorem receiveFrames_last {wire payload : List UInt8} {input rest : List Arrival}
    (hbody : body.length ≤ maxDeploymentJson) (hdecode : decode body = .ok value)
    (hread : Frame.readFrom input = .ok (⟨.data, payload⟩, rest)) (h : wire ++ payload = prefixed 4 body) :
    receiveFrames decode wire input = .ok (value, rest) := by
  have hlength := congrArg List.length h
  rw [wire_length] at hlength
  have hsum : wire.length + payload.length = body.length + 4 := by rw [← hlength, List.length_append]
  have hfour : 4 ≤ (wire ++ payload).length := by omega
  have hwhole : wire ++ payload ++ [] = prefixed 4 body := by rw [List.append_nil, h]
  have hnumber := readBigEndian_wire hbody hwhole hfour
  have hdrop : (wire ++ payload).drop 4 = body := by
    rw [h, prefixed, List.drop_append_of_le_length (Nat.le_of_eq (bigEndian_length 4 _).symm),
      List.drop_of_length_le (Nat.le_of_eq (bigEndian_length 4 _)), List.nil_append]
  rw [receiveFrames]
  split
  next e hread' =>
    rw [hread] at hread'
    cases hread'
  next frame rest' hread' =>
    rw [hread] at hread'
    cases hread'
    dsimp only
    rw [if_neg (by simp), if_neg (by omega), if_pos hfour, hnumber, if_neg (by omega), if_pos hlength, hdrop,
      hdecode]

/-- A frame with a message and more bytes is refused. -/
theorem receiveFrames_surplus {surplus : List UInt8} {input rest : List Arrival}
    (hbody : body.length ≤ maxDeploymentJson) (hne : surplus ≠ [])
    (hread : Frame.readFrom input = .ok (⟨.data, prefixed 4 body ++ surplus⟩, rest))
    (hsmall : (prefixed 4 body ++ surplus).length ≤ maxDeploymentJson + 4) :
    receiveFrames decode [] input =
      .error (.deployment (.invalid "multiple deployment messages in frame stream")) := by
  have hpositive := List.length_pos_iff.mpr hne
  have hlength : (prefixed 4 body ++ surplus).length = body.length + 4 + surplus.length := by
    rw [List.length_append, wire_length]
  have hwire : 4 ≤ (prefixed 4 body).length := by
    rw [wire_length]
    omega
  have hnumber : readBigEndian ((prefixed 4 body ++ surplus).take 4) = body.length := by
    rw [List.take_append_of_le_length hwire]
    exact readBigEndian_wire hbody (List.append_nil (prefixed 4 body)) hwire
  rw [receiveFrames]
  split
  next e hread' =>
    rw [hread] at hread'
    cases hread'
  next frame rest' hread' =>
    rw [hread] at hread'
    cases hread'
    simp only [List.nil_append, List.length_nil, Nat.zero_add]
    rw [if_neg (by simp), if_neg (by omega), if_pos (by omega), hnumber, if_neg (by omega), if_neg (by omega),
      if_pos (by omega)]

/-- The message is put together from its frames; what stays are frames without bytes and what follows. -/
theorem receiveFrames_dataFrames {payloads : List (List UInt8)} {wire back : List UInt8} {input : List Arrival}
    (hbody : body.length ≤ maxDeploymentJson) (hdecode : decode body = .ok value)
    (hsize : ∀ payload ∈ payloads, payload.length ≤ maxFrameBytes) (h : wire ++ payloads.flatten = prefixed 4 body)
    (hopen : wire ≠ prefixed 4 body) (hinput : delivered input = dataFrames payloads ++ back) :
    ∃ rest empty, receiveFrames decode wire input = .ok (value, rest) ∧
      delivered rest = dataFrames empty ++ back ∧ ∀ payload ∈ empty, payload ∈ payloads ∧ payload = [] := by
  induction payloads generalizing wire input with
  | nil =>
    rw [List.flatten_nil, List.append_nil] at h
    exact absurd h hopen
  | cons payload payloads ih =>
    rw [dataFrames_cons, List.append_assoc] at hinput
    obtain ⟨rest, hread, hrest⟩ := Frame.readFrom_bytes (hsize payload List.mem_cons_self) hinput
    rw [List.flatten_cons, ← List.append_assoc] at h
    by_cases hmore : payloads.flatten = []
    · rw [hmore, List.append_nil] at h
      have hempty := List.flatten_eq_nil_iff.mp hmore
      exact ⟨rest, payloads, receiveFrames_last hbody hdecode hread h, hrest,
        fun later hlater => ⟨List.mem_cons_of_mem _ hlater, hempty later hlater⟩⟩
    · rw [receiveFrames_next hbody hread h hmore]
      have hopen' : wire ++ payload ≠ prefixed 4 body := by
        intro hwhole
        rw [hwhole] at h
        exact hmore (List.append_right_eq_self.mp h)
      obtain ⟨left, empty, hreceived, hleft, hempty⟩ :=
        ih (fun later hlater => hsize later (List.mem_cons_of_mem _ hlater)) h hopen' hrest
      exact ⟨left, empty, hreceived, hleft,
        fun later hlater => ⟨List.mem_cons_of_mem _ (hempty later hlater).1, (hempty later hlater).2⟩⟩

theorem data_of_kind {frame : Frame} (h : ¬ frame.kind ≠ .data) : frame = ⟨.data, frame.payload⟩ := by
  rw [← not_not.mp h]

/-- Bytes that begin with the number of those that follow are a message. -/
theorem prefixed_of_number {bytes : List UInt8} (hfour : 4 ≤ bytes.length)
    (h : bytes.length = readBigEndian (bytes.take 4) + 4) : bytes = prefixed 4 (bytes.drop 4) := by
  have hnumber := bigEndian_readBigEndian (bytes.take 4)
  have hlength : (bytes.take 4).length = 4 := by
    rw [List.length_take]
    omega
  have hdrop : (bytes.drop 4).length = readBigEndian (bytes.take 4) := by
    rw [List.length_drop]
    omega
  rw [hlength] at hnumber
  rw [prefixed, hdrop, hnumber, List.take_append_drop]

/-- The message came in whole frames of data. -/
def Came (decode : List UInt8 → Except String α) (wire : List UInt8) (input rest : List Arrival) (value : α) : Prop :=
  ∃ payloads body, (∀ payload ∈ payloads, payload.length ≤ maxFrameBytes) ∧
    delivered input = dataFrames payloads ++ delivered rest ∧ wire ++ payloads.flatten = prefixed 4 body ∧
    body.length ≤ maxDeploymentJson ∧ decode body = .ok value

theorem came_cons {frame : Frame} {wire : List UInt8} {input next rest : List Arrival}
    (hread : Frame.readFrom input = .ok (frame, next)) (hkind : ¬ frame.kind ≠ .data)
    (h : Came decode (wire ++ frame.payload) next rest value) : Came decode wire input rest value := by
  obtain ⟨hsize, hdelivered⟩ := Frame.readFrom_ok hread
  obtain ⟨payloads, body, hsizes, hnext, hmessage, hbody, hdecode⟩ := h
  refine ⟨frame.payload :: payloads, body, ?_, ?_, ?_, hbody, hdecode⟩
  · intro payload hpayload
    rcases List.mem_cons.mp hpayload with hpayload | hpayload
    · rw [hpayload]
      exact hsize
    · exact hsizes payload hpayload
  · rw [hdelivered, hnext, dataFrames_cons, ← data_of_kind hkind, List.append_assoc]
  · rw [List.flatten_cons, ← List.append_assoc]
    exact hmessage

theorem receiveFrames_came {wire : List UInt8} {input rest : List Arrival}
    (h : receiveFrames decode wire input = .ok (value, rest)) : Came decode wire input rest value := by
  fun_induction receiveFrames decode wire input with
  | case1 wire input e hread => cases h
  | case2 wire input frame next hread hkind => cases h
  | case3 wire input frame next hread hkind hlarge => cases h
  | case4 wire input frame next hread hkind hlarge hfour length hlong => cases h
  | case5 wire input frame next hread hkind hlarge hfour length hlong hwhole value' hdecode =>
    cases h
    obtain ⟨hsize, hdelivered⟩ := Frame.readFrom_ok hread
    have hmessage := prefixed_of_number hfour hwhole
    refine ⟨[frame.payload], (wire ++ frame.payload).drop 4, ?_, ?_, ?_, ?_, hdecode⟩
    · intro payload hpayload
      rw [List.mem_singleton.mp hpayload]
      exact hsize
    · rw [hdelivered, dataFrames_cons, ← data_of_kind hkind, List.append_assoc]
      rfl
    · rw [List.flatten_singleton]
      exact hmessage
    · rw [List.length_drop]
      omega
  | case6 => cases h
  | case7 => cases h
  | case8 wire input frame next hread hkind hlarge hfour length hlong hwhole hmore ih =>
    exact came_cons hread hkind (ih h)
  | case9 wire input frame next hread hkind hlarge hfour ih => exact came_cons hread hkind (ih h)

/-- A stream that ends within a message is not read as a message. -/
theorem readWireJson_cut {input : List Arrival} {missing : List UInt8} (hbody : body.length ≤ maxDeploymentJson)
    (h : delivered input ++ missing = prefixed 4 body) (hmissing : missing ≠ []) :
    ∃ e, readWireJson decode input = .error e := by
  cases hread : readWireJson decode input with
  | error e => exact ⟨e, rfl⟩
  | ok r =>
    obtain ⟨value', rest⟩ := r
    obtain ⟨body', hbody', _, hdelivered⟩ := readWireJson_ok hread
    rw [hdelivered, List.append_assoc] at h
    have hsame : prefixed 4 body' ++ (delivered rest ++ missing) = prefixed 4 body ++ [] := by
      rw [h, List.append_nil]
    have hinj := prefixed_append_inj (by unfold maxDeploymentJson at hbody'; omega)
      (by unfold maxDeploymentJson at hbody; omega) hsame
    exact absurd (List.append_eq_nil_iff.mp hinj.2).2 hmissing

/-- A message is received only when the frames that carry it came in whole. -/
theorem receiveTransportJson_cut {payloads : List (List UInt8)} {input rest : List Arrival}
    {more missing : List UInt8} {value' : α} (hbody : body.length ≤ maxDeploymentJson)
    (hdecode : decode body = .ok value) (hsize : ∀ payload ∈ payloads, payload.length ≤ maxFrameBytes)
    (h : payloads.flatten ++ more = prefixed 4 body)
    (hinput : delivered input ++ missing = dataFrames payloads ++ closeFrame.bytes)
    (hreceived : receiveTransportJson decode input = .ok (value', rest)) :
    more = [] ∧ value' = value ∧ ∃ sent, delivered input = dataFrames sent ++ delivered rest ∧
      sent.flatten = prefixed 4 body := by
  obtain ⟨sent, body', hsizes, hdelivered, hmessage, hbody', hdecode'⟩ := receiveFrames_came hreceived
  rw [List.nil_append] at hmessage
  -- The relay's reading of the same frames shows that what was sent is a part of the payloads.
  have hstream := delivered_single (dataFrames payloads ++ closeFrame.bytes)
  obtain ⟨closing, hclosing, hwhole⟩ := relayRequests_dataFrames hsize hstream
  rw [relayRequests_close (hclosing.trans (List.append_nil _).symm), List.append_nil] at hwhole
  have hsplit : delivered [.bytes (dataFrames payloads ++ closeFrame.bytes)] =
      dataFrames sent ++ (delivered rest ++ missing) := by
    rw [hstream, ← hinput, hdelivered, List.append_assoc]
  obtain ⟨left, _, hparts⟩ := relayRequests_dataFrames hsizes hsplit
  rw [hwhole] at hparts
  have hflatten : payloads.flatten = sent.flatten ++ (relayRequests left).1 := congrArg Prod.fst hparts
  rw [hflatten, hmessage, List.append_assoc] at h
  have hsame : prefixed 4 body' ++ ((relayRequests left).1 ++ more) = prefixed 4 body ++ [] := by
    rw [h, List.append_nil]
  have hinj := prefixed_append_inj (by unfold maxDeploymentJson at hbody'; omega)
    (by unfold maxDeploymentJson at hbody; omega) hsame
  rw [hinj.1, hdecode] at hdecode'
  cases hdecode'
  refine ⟨(List.append_eq_nil_iff.mp hinj.2).2, rfl, sent, hdelivered, ?_⟩
  rw [hmessage, hinj.1]

end

/-- Messages come through the frames and the relay as they were sent, however the streams are cut into frames and
reads, as long as no read runs from one answer into the next; a stream that is cut off gives no other message. -/
theorem messages_survive_transport {α : Type} (decode : List UInt8 → Except String α) (body : List UInt8) (value : α)
    (hbody : body.length ≤ maxDeploymentJson) (hdecode : decode body = .ok value) :
    (∃ payloads, sendTransportJson (.ok body) = .ok (dataFrames payloads) ∧
      (∀ payload ∈ payloads, payload.length ≤ maxFrameBytes) ∧ payloads.flatten = prefixed 4 body) ∧
    encodeJson (.ok body) = .ok (prefixed 4 body) ∧
    (∀ payloads, (∀ payload ∈ payloads, payload.length ≤ maxFrameBytes) → payloads.flatten = prefixed 4 body →
      ∀ input back, delivered input = dataFrames payloads ++ back →
        ∃ rest, delivered rest = back ∧ (relayRequests input).2 = (relayRequests rest).2 ∧
          ∀ socket, delivered socket = (relayRequests input).1 →
            ∃ left, readWireJson decode socket = .ok (value, left) ∧ delivered left = (relayRequests rest).1) ∧
    (∀ reads later input, (∀ read ∈ reads, GivesBytes read) → delivered reads = prefixed 4 body →
      ∀ requests, delivered input = (relayStreams requests (reads ++ later)).2.1 →
        ∃ opened rest, openReply input = .ok opened ∧ receiveTransportJson decode opened = .ok (value, rest) ∧
          delivered rest = (relayResponses later).1) ∧
    (∀ payloads input back, (∀ payload ∈ payloads, payload.length ≤ maxFrameBytes) →
      delivered input = dataFrames payloads ++ back → ∃ rest, delivered rest = back ∧
        relayRequests input = (payloads.flatten ++ (relayRequests rest).1, (relayRequests rest).2)) ∧
    (∀ reads later, (∀ read ∈ reads, GivesBytes read) → ∃ payloads, payloads.flatten = delivered reads ∧
      relayResponses (reads ++ later) = (dataFrames payloads ++ (relayResponses later).1, (relayResponses later).2)) ∧
    (∀ payloads, (∀ payload ∈ payloads, payload.length ≤ maxFrameBytes) → payloads.flatten = prefixed 4 body →
      ∀ input missing, delivered input ++ missing = dataFrames payloads →
        (∃ e, (relayRequests input).2 = .error e) ∧ ∀ socket, delivered socket = (relayRequests input).1 →
          (∃ e, readWireJson decode socket = .error e) ∨ (relayRequests input).1 = prefixed 4 body) ∧
    (∀ socket missing, delivered socket ++ missing = prefixed 4 body → missing ≠ [] →
      ∃ e, readWireJson decode socket = .error e) ∧
    ∀ responses more input missing, delivered responses ++ more = prefixed 4 body →
      delivered input ++ missing = (relayResponses responses).1 →
      (∃ e, receiveTransportJson decode input = .error e) ∨
        more = [] ∧ ∃ rest sent, receiveTransportJson decode input = .ok (value, rest) ∧
          delivered input = dataFrames sent ++ delivered rest ∧ sent.flatten = prefixed 4 body := by
  have hopen : ([] : List UInt8) ≠ prefixed 4 body := (prefixed_ne_nil (by decide) body).symm
  have hencoded := encodeJson_of (Nat.not_lt.mpr hbody)
  refine ⟨⟨chunks maxFrameBytes (prefixed 4 body), ?_, ?_, chunks_flatten _ _⟩, hencoded, ?_, ?_, ?_, ?_, ?_, ?_, ?_⟩
  · rw [sendTransportJson, hencoded]
    rfl
  · intro payload hpayload
    exact chunks_length (by decide) hpayload
  · intro payloads hsize hflatten input back hinput
    obtain ⟨rest, hrest, hrelay⟩ := relayRequests_dataFrames hsize hinput
    refine ⟨rest, hrest, by rw [hrelay], ?_⟩
    intro socket hsocket
    rw [hrelay, hflatten] at hsocket
    exact readWireJson_of hbody hdecode hsocket
  · intro reads later input hreads hwire requests hinput
    obtain ⟨payloads, hsizes, hflatten, hrelay⟩ := relayResponses_gives hreads later
    rw [relayStreams, hrelay] at hinput
    obtain ⟨opened, hopened, hdelivered⟩ := openReply_of hinput
    have hwhole : [] ++ payloads.flatten = prefixed 4 body := hflatten.trans hwire
    obtain ⟨rest, empty, hreceived, hrest, hempty⟩ := receiveFrames_dataFrames hbody hdecode
      (fun payload hpayload => (hsizes payload hpayload).1) hwhole hopen hdelivered
    have hnone : empty = [] := by
      rw [List.eq_nil_iff_forall_not_mem]
      intro payload hpayload
      exact (hsizes payload (hempty payload hpayload).1).2 (hempty payload hpayload).2
    rw [hnone] at hrest
    exact ⟨opened, rest, hopened, hreceived, hrest⟩
  · intro payloads input back hsize hinput
    exact relayRequests_dataFrames hsize hinput
  · intro reads later hreads
    obtain ⟨payloads, _, hflatten, hrelay⟩ := relayResponses_gives hreads later
    exact ⟨payloads, hflatten, hrelay⟩
  · intro payloads hsize hflatten input missing hinput
    obtain ⟨hfailed, missing', hforwarded⟩ := relayRequests_cut hsize hinput
    refine ⟨hfailed, ?_⟩
    intro socket hsocket
    rw [hflatten] at hforwarded
    by_cases hmissing : missing' = []
    · right
      rw [hmissing, List.append_nil] at hforwarded
      exact hforwarded
    · left
      rw [← hsocket] at hforwarded
      exact readWireJson_cut hbody hforwarded hmissing
  · intro socket missing hsocket hmissing
    exact readWireJson_cut hbody hsocket hmissing
  · intro responses more input missing hresponses hinput
    obtain ⟨payloads, tail, hsizes, hsent, missing', hforwarded⟩ := relayResponses_came responses
    have hmessage : payloads.flatten ++ (missing' ++ more) = prefixed 4 body := by
      rw [← List.append_assoc, hforwarded, hresponses]
    have hstream : delivered input ++ (missing ++ tail) = dataFrames payloads ++ closeFrame.bytes := by
      rw [← List.append_assoc, hinput, hsent]
    cases hreceived : receiveTransportJson decode input with
    | error e => exact Or.inl ⟨e, rfl⟩
    | ok r =>
      obtain ⟨value', rest⟩ := r
      obtain ⟨hmore, hvalue, sent, hdelivered, hflatten⟩ :=
        receiveTransportJson_cut hbody hdecode hsizes hmessage hstream hreceived
      refine Or.inr ⟨(List.append_eq_nil_iff.mp hmore).2, rest, sent, ?_, hdelivered, hflatten⟩
      rw [← hvalue]

theorem null_survives_transport :
    ∃ left, readWireJson (Except.ok (ε := String))
        [.bytes (relayRequests [.bytes (dataFrames [prefixed 4 [110, 117, 108, 108]] ++ closeFrame.bytes)]).1] =
      .ok ([110, 117, 108, 108], left) := by
  have hrequest := (messages_survive_transport (Except.ok (ε := String)) [110, 117, 108, 108] [110, 117, 108, 108]
    (by decide) rfl).2.2.1
  obtain ⟨rest, _, _, hread⟩ := hrequest [prefixed 4 [110, 117, 108, 108]] (by decide) rfl _ _ (delivered_single _)
  obtain ⟨left, hleft, _⟩ := hread _ (delivered_single _)
  exact ⟨left, hleft⟩

/-- A read that runs from one answer into the next: the client refuses the frame. -/
theorem coalesced_answers_refused :
    let wire := prefixed 4 [110, 117, 108, 108]
    let decode : List UInt8 → Except String (List UInt8) := .ok
    ∃ input, delivered input = (relayResponses [.bytes (wire ++ wire)]).1 ∧
      receiveTransportJson decode input =
        .error (.deployment (.invalid "multiple deployment messages in frame stream")) := by
  intro wire decode
  have hinput : delivered [.bytes (relayResponses [.bytes (wire ++ wire)]).1] =
      (⟨.data, wire ++ wire⟩ : Frame).bytes ++ closeFrame.bytes := rfl
  obtain ⟨rest, hread, _⟩ := Frame.readFrom_bytes (by decide) hinput
  exact ⟨_, rfl, receiveFrames_surplus (by decide) (by decide) hread (by decide)⟩

end NixSecrets.Transport
