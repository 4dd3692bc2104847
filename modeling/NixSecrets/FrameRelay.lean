import NixSecrets.DeploymentServer
import NixSecrets.Traversal

namespace NixSecrets.Transport

/-- `NSF1`. -/
def magic : List UInt8 := [78, 83, 70, 49]

def maxFrameBytes : Nat := 16 * 1024 * 1024

inductive FrameKind
  | openManager | openDeployer | data | close | failure
  deriving DecidableEq, Repr

def FrameKind.byte : FrameKind → UInt8
  | .openManager => 1
  | .openDeployer => 2
  | .data => 3
  | .close => 4
  | .failure => 5

def FrameKind.ofByte (byte : UInt8) : Option FrameKind :=
  [FrameKind.openManager, .openDeployer, .data, .close, .failure].find? fun kind => kind.byte = byte

structure Frame where
  kind : FrameKind
  payload : List UInt8
  deriving DecidableEq, Repr

inductive FrameError
  | io (message : String)
  | invalid (message : String)
  | tooLarge
  deriving DecidableEq, Repr

/-- `read_exact` reports a stream that ends too early as an input error. -/
def frameError : ReadStop → FrameError
  | .ended _ => .io "failed to fill whole buffer"
  | .failed e => .io e

def Frame.bytes (frame : Frame) : List UInt8 := magic ++ [frame.kind.byte] ++ prefixed 4 frame.payload

def Frame.writeTo (frame : Frame) : Except FrameError (List UInt8) :=
  if maxFrameBytes < frame.payload.length then .error .tooLarge else .ok frame.bytes

def Frame.readFrom (input : List Arrival) : Except FrameError (Frame × List Arrival) := do
  let (header, input) ← (readWhole input 9 []).mapError frameError
  if header.take 4 ≠ magic then .error (.invalid "invalid frame magic")
  else
    match FrameKind.ofByte (header.getD 4 0) with
    | none => .error (.invalid "unknown frame kind")
    | some kind =>
      let length := readBigEndian (header.drop 5)
      if maxFrameBytes < length then .error .tooLarge
      else do
        let (payload, input) ← (readWhole input length []).mapError frameError
        return (⟨kind, payload⟩, input)

theorem ofByte_byte (kind : FrameKind) : FrameKind.ofByte kind.byte = some kind := by
  cases kind <;> rfl

theorem byte_of_ofByte {byte : UInt8} {kind : FrameKind} (h : FrameKind.ofByte byte = some kind) :
    kind.byte = byte := by
  have hfound := List.find?_some h
  simpa using hfound

theorem Frame.bytes_length (frame : Frame) : frame.bytes.length = 9 + frame.payload.length := by
  simp [bytes, magic, prefixed, bigEndian_length]
  omega

theorem payload_fits {payload : List UInt8} (h : payload.length ≤ maxFrameBytes) : payload.length < 256 ^ 4 := by
  unfold maxFrameBytes at h
  omega

/-- A frame that the stream begins with is read off it. -/
theorem Frame.readFrom_bytes {frame : Frame} {input : List Arrival} {back : List UInt8}
    (hsize : frame.payload.length ≤ maxFrameBytes) (h : delivered input = frame.bytes ++ back) :
    ∃ rest, readFrom input = .ok (frame, rest) ∧ delivered rest = back := by
  have hsplit : frame.bytes ++ back =
      (magic ++ [frame.kind.byte] ++ bigEndian 4 frame.payload.length) ++ (frame.payload ++ back) := by
    simp [bytes, prefixed]
  have hlength : (magic ++ [frame.kind.byte] ++ bigEndian 4 frame.payload.length).length = 9 := by
    simp [magic, bigEndian_length]
  have hnumber : readBigEndian (bigEndian 4 frame.payload.length) = frame.payload.length :=
    readBigEndian_bigEndian (payload_fits hsize)
  rw [hsplit] at h
  obtain ⟨input₁, hheader, hrest⟩ := readWhole_append h
  obtain ⟨input₂, hpayload, hback⟩ := readWhole_append hrest
  rw [hlength] at hheader
  refine ⟨input₂, ?_, hback⟩
  have hmagic : (magic ++ [frame.kind.byte] ++ bigEndian 4 frame.payload.length).take 4 = magic := by
    simp [magic]
  have hkind : (magic ++ [frame.kind.byte] ++ bigEndian 4 frame.payload.length).getD 4 0 = frame.kind.byte := by
    simp [magic]
  have hdrop : (magic ++ [frame.kind.byte] ++ bigEndian 4 frame.payload.length).drop 5 =
      bigEndian 4 frame.payload.length := by
    simp [magic]
  unfold readFrom
  rw [except_bind_ok]
  refine ⟨(_, input₁), except_mapError_ok.mpr hheader, ?_⟩
  dsimp only
  rw [if_neg (not_not.mpr hmagic), hkind, ofByte_byte]
  dsimp only
  rw [hdrop, hnumber, if_neg (Nat.not_lt.mpr hsize), hpayload]
  rfl

theorem Frame.readFrom_ok {frame : Frame} {input rest : List Arrival} (h : readFrom input = .ok (frame, rest)) :
    frame.payload.length ≤ maxFrameBytes ∧ delivered input = frame.bytes ++ delivered rest := by
  unfold readFrom at h
  rw [except_bind_ok] at h
  obtain ⟨⟨header, input₁⟩, hheader, h⟩ := h
  rw [except_mapError_ok] at hheader
  obtain ⟨new, hnew, hnine, hfront⟩ := readWhole_ok hheader
  rw [List.nil_append] at hnew
  dsimp only at h
  split at h
  next => cases h
  next hmagic =>
    split at h
    next => cases h
    next kind hkind =>
      split at h
      next => cases h
      next hsize =>
        rw [except_bind_ok] at h
        obtain ⟨⟨payload, input₂⟩, hpayload, h⟩ := h
        rw [except_mapError_ok] at hpayload
        obtain ⟨new', hnew', hlength, hback⟩ := readWhole_ok hpayload
        rw [List.nil_append] at hnew'
        cases h
        have hmagic := not_not.mp hmagic
        have hbyte := byte_of_ofByte hkind
        rw [hnew] at hmagic hbyte hlength hsize
        rw [hnew']
        show new'.length ≤ maxFrameBytes ∧ _
        refine ⟨by omega, ?_⟩
        have hfour : (new.drop 5).length = 4 := by
          rw [List.length_drop, hnine]
        have hnumber := bigEndian_readBigEndian (new.drop 5)
        rw [hfour, ← hlength] at hnumber
        have hheader' : new = magic ++ [kind.byte] ++ bigEndian 4 new'.length := by
          have hfive : new = new.take 4 ++ (new.drop 4) := (List.take_append_drop 4 new).symm
          have hat : new.drop 4 = new.getD 4 0 :: new.drop 5 := by
            rw [List.drop_eq_getElem_cons (by omega)]
            simp [List.getD_eq_getElem?_getD, hnine]
          rw [hnumber, hbyte, List.append_assoc, List.singleton_append, ← hat, ← hmagic]
          exact hfive
        rw [hfront, hback]
        unfold bytes prefixed
        conv_lhs => rw [hheader']
        simp only [List.append_assoc]

/-- What two readers make of one stream is the same. -/
theorem Frame.readFrom_unique {frame : Frame} {input rest : List Arrival} {back : List UInt8} {frame' : Frame}
    (hsize : frame.payload.length ≤ maxFrameBytes) (h : delivered input = frame.bytes ++ back)
    (hread : readFrom input = .ok (frame', rest)) : frame' = frame ∧ delivered rest = back := by
  obtain ⟨rest', hframe, hback⟩ := readFrom_bytes hsize h
  rw [hread] at hframe
  cases hframe
  exact ⟨rfl, hback⟩

theorem Frame.readFrom_shorter {frame : Frame} {input rest : List Arrival} (h : readFrom input = .ok (frame, rest)) :
    (delivered rest).length < (delivered input).length := by
  obtain ⟨_, hdelivered⟩ := readFrom_ok h
  rw [hdelivered, List.length_append, frame.bytes_length]
  omega

inductive ReceiverError
  | arguments (message : String)
  | protocol (error : FrameError)
  | io (message : String)
  deriving DecidableEq, Repr

def relayBuffer : Nat := 64 * 1024

def closeFrame : Frame := ⟨.close, []⟩

/-- Frames of data with these payloads. -/
def dataFrames (payloads : List (List UInt8)) : List UInt8 := payloads.flatMap fun payload => Frame.bytes ⟨.data, payload⟩

/-- What is written to the deployer for the client's frames, and how that ends. -/
def relayRequests (input : List Arrival) : List UInt8 × Except ReceiverError Unit :=
  match _hread : Frame.readFrom input with
  | .error e => ([], .error (.protocol e))
  | .ok (frame, rest) =>
    match frame.kind with
    | .data => (frame.payload ++ (relayRequests rest).1, (relayRequests rest).2)
    | .close =>
      if frame.payload = [] then ([], .ok ()) else ([], .error (.arguments "invalid relay frame"))
    | _ => ([], .error (.arguments "invalid relay frame"))
  termination_by (delivered input).length
  decreasing_by exact Frame.readFrom_shorter _hread

/-- What the client is sent for the deployer's answers; a read takes as much as its buffer holds. -/
def relayResponses : List Arrival → List UInt8 × Except ReceiverError Unit
  | [] => (closeFrame.bytes, .ok ())
  | .bytes [] :: _ => (closeFrame.bytes, .ok ())
  | .interrupted :: _ => ([], .error (.io "interrupted"))
  | .failed e :: _ => ([], .error (.io e))
  | .bytes (byte :: chunk) :: rest =>
    (dataFrames (chunks relayBuffer (byte :: chunk)) ++ (relayResponses rest).1, (relayResponses rest).2)

/-- The two directions of a relay; the empty frame tells the client that it is open. -/
def relayStreams (input responses : List Arrival) :
    (List UInt8 × Except ReceiverError Unit) × (List UInt8 × Except ReceiverError Unit) :=
  (relayRequests input, (dataFrames [[]] ++ (relayResponses responses).1, (relayResponses responses).2))

theorem dataFrames_cons (payload : List UInt8) (payloads : List (List UInt8)) :
    dataFrames (payload :: payloads) = Frame.bytes ⟨.data, payload⟩ ++ dataFrames payloads := rfl

theorem dataFrames_append (payloads later : List (List UInt8)) :
    dataFrames (payloads ++ later) = dataFrames payloads ++ dataFrames later := List.flatMap_append

theorem relayRequests_frame {frame : Frame} {input rest : List Arrival} (h : Frame.readFrom input = .ok (frame, rest))
    (hdata : frame.kind = .data) :
    relayRequests input = (frame.payload ++ (relayRequests rest).1, (relayRequests rest).2) := by
  rw [relayRequests]
  split
  next e hread =>
    rw [h] at hread
    cases hread
  next frame' rest' hread =>
    rw [h] at hread
    cases hread
    rw [hdata]

theorem relayRequests_error {e : FrameError} {input : List Arrival} (h : Frame.readFrom input = .error e) :
    relayRequests input = ([], .error (.protocol e)) := by
  rw [relayRequests]
  split
  next e' hread =>
    rw [h] at hread
    cases hread
    rfl
  next frame' rest' hread =>
    rw [h] at hread
    cases hread

/-- The payloads are forwarded unchanged, however they are cut. -/
theorem relayRequests_dataFrames {payloads : List (List UInt8)} {input : List Arrival} {back : List UInt8}
    (hsize : ∀ payload ∈ payloads, payload.length ≤ maxFrameBytes) (h : delivered input = dataFrames payloads ++ back) :
    ∃ rest, delivered rest = back ∧
      relayRequests input = (payloads.flatten ++ (relayRequests rest).1, (relayRequests rest).2) := by
  induction payloads generalizing input with
  | nil => exact ⟨input, h, rfl⟩
  | cons payload payloads ih =>
    have h : delivered input = Frame.bytes ⟨.data, payload⟩ ++ (dataFrames payloads ++ back) := by
      rw [h, dataFrames_cons, List.append_assoc]
    obtain ⟨next, hread, hnext⟩ := Frame.readFrom_bytes (hsize payload List.mem_cons_self) h
    obtain ⟨rest, hrest, hrelay⟩ := ih (fun later hlater => hsize later (List.mem_cons_of_mem _ hlater)) hnext
    refine ⟨rest, hrest, ?_⟩
    rw [relayRequests_frame hread rfl, hrelay, List.flatten_cons, List.append_assoc]

theorem relayRequests_close {input : List Arrival} {back : List UInt8}
    (h : delivered input = closeFrame.bytes ++ back) : relayRequests input = ([], .ok ()) := by
  obtain ⟨rest, hread, _⟩ := Frame.readFrom_bytes (Nat.zero_le _) h
  rw [relayRequests]
  split
  next e hread' =>
    rw [hread] at hread'
    cases hread'
  next frame' rest' hread' =>
    rw [hread] at hread'
    cases hread'
    rfl

/-- What was forwarded came in whole frames of data; the end is only found at a frame that closes. -/
theorem relayRequests_came (input : List Arrival) :
    ∃ payloads back, (∀ payload ∈ payloads, payload.length ≤ maxFrameBytes) ∧
      delivered input = dataFrames payloads ++ back ∧ (relayRequests input).1 = payloads.flatten ∧
      ((relayRequests input).2 = .ok () → ∃ later, back = closeFrame.bytes ++ later) := by
  fun_induction relayRequests input with
  | case1 input e hread =>
    exact ⟨[], delivered input, nofun, rfl, rfl, nofun⟩
  | case2 input frame rest hread hkind ih =>
    obtain ⟨hsize, hdelivered⟩ := Frame.readFrom_ok hread
    obtain ⟨payloads, back, hsizes, hrest, hforwarded, hclosed⟩ := ih
    have hframe : frame = ⟨.data, frame.payload⟩ := by rw [← hkind]
    refine ⟨frame.payload :: payloads, back, ?_, ?_, ?_, hclosed⟩
    · intro payload hpayload
      rcases List.mem_cons.mp hpayload with hpayload | hpayload
      · rw [hpayload]
        exact hsize
      · exact hsizes payload hpayload
    · rw [hdelivered, hrest, dataFrames_cons, ← hframe, List.append_assoc]
    · rw [hforwarded, List.flatten_cons]
  | case3 input frame rest hread hkind hempty =>
    obtain ⟨_, hdelivered⟩ := Frame.readFrom_ok hread
    have hframe : frame = closeFrame := by
      rw [closeFrame, ← hkind, ← hempty]
    refine ⟨[], delivered input, nofun, rfl, rfl, fun _ => ⟨delivered rest, ?_⟩⟩
    rw [hdelivered, hframe]
  | case4 input frame rest hread hkind hpayload => exact ⟨[], delivered input, nofun, rfl, rfl, nofun⟩
  | case5 input frame rest hread hdata hclose => exact ⟨[], delivered input, nofun, rfl, rfl, nofun⟩

/-- A client that is cut off within its frames: the relay fails and has forwarded a part. -/
theorem relayRequests_cut {payloads : List (List UInt8)} {input : List Arrival} {missing : List UInt8}
    (hsize : ∀ payload ∈ payloads, payload.length ≤ maxFrameBytes)
    (h : delivered input ++ missing = dataFrames payloads) :
    (∃ e, (relayRequests input).2 = .error e) ∧ (relayRequests input).1 <+: payloads.flatten := by
  obtain ⟨sent, back, hsizes, hfront, hforwarded, hclosed⟩ := relayRequests_came input
  -- The whole stream is read twice, as its payloads and as what came before the cut.
  have hdelivered := delivered_single (dataFrames payloads)
  have hwholly : delivered [.bytes (dataFrames payloads)] = dataFrames payloads ++ [] := by
    rw [hdelivered, List.append_nil]
  obtain ⟨rest, hrest, hwhole⟩ := relayRequests_dataFrames hsize hwholly
  have hsplit : delivered [.bytes (dataFrames payloads)] = dataFrames sent ++ (back ++ missing) := by
    rw [hdelivered, ← h, hfront, List.append_assoc]
  obtain ⟨rest', hrest', hparts⟩ := relayRequests_dataFrames hsizes hsplit
  have hempty : ∃ e, relayRequests rest = ([], .error e) := by
    cases hread : Frame.readFrom rest with
    | error e => exact ⟨_, relayRequests_error hread⟩
    | ok r =>
      have hshorter : (delivered r.2).length < (delivered rest).length := Frame.readFrom_shorter hread
      rw [hrest] at hshorter
      cases hshorter
  obtain ⟨e, hempty⟩ := hempty
  rw [hwhole, hempty, List.append_nil] at hparts
  constructor
  · cases hout : (relayRequests input).2 with
    | error e => exact ⟨e, rfl⟩
    | ok u =>
      obtain ⟨later, hback⟩ := hclosed hout
      rw [hback, List.append_assoc] at hrest'
      rw [relayRequests_close hrest'] at hparts
      cases congrArg Prod.snd hparts
  · rw [hforwarded]
    exact ⟨_, (congrArg Prod.fst hparts).symm⟩

/-- A read gives bytes. -/
def GivesBytes : Arrival → Prop
  | .bytes chunk => chunk ≠ []
  | .interrupted => False
  | .failed _ => False

/-- The bytes of the reads are forwarded unchanged, in frames. -/
theorem relayResponses_gives {reads : List Arrival} (hreads : ∀ read ∈ reads, GivesBytes read) (later : List Arrival) :
    ∃ payloads, (∀ payload ∈ payloads, payload.length ≤ maxFrameBytes ∧ payload ≠ []) ∧
      payloads.flatten = delivered reads ∧ relayResponses (reads ++ later) =
        (dataFrames payloads ++ (relayResponses later).1, (relayResponses later).2) := by
  induction reads with
  | nil => exact ⟨[], nofun, rfl, rfl⟩
  | cons read reads ih =>
    obtain ⟨payloads, hsizes, hflatten, hrelay⟩ := ih fun next hnext => hreads next (List.mem_cons_of_mem _ hnext)
    have hread := hreads read List.mem_cons_self
    cases read with
    | interrupted => cases hread
    | failed e => cases hread
    | bytes chunk =>
      cases chunk with
      | nil => exact absurd rfl hread
      | cons byte chunk =>
        refine ⟨chunks relayBuffer (byte :: chunk) ++ payloads, ?_, ?_, ?_⟩
        · intro payload hpayload
          rcases List.mem_append.mp hpayload with hpayload | hpayload
          · have hlength := chunks_length (by decide) hpayload
            unfold relayBuffer at hlength
            unfold maxFrameBytes
            exact ⟨by omega, chunks_ne_nil hpayload⟩
          · exact hsizes payload hpayload
        · rw [List.flatten_append, chunks_flatten, hflatten]
          rfl
        · rw [List.cons_append, relayResponses, hrelay, dataFrames_append, List.append_assoc]

/-- What the relay sends for the answers, whole or not. -/
theorem relayResponses_came (responses : List Arrival) :
    ∃ payloads tail, (∀ payload ∈ payloads, payload.length ≤ maxFrameBytes) ∧
      (relayResponses responses).1 ++ tail = dataFrames payloads ++ closeFrame.bytes ∧
      payloads.flatten <+: delivered responses := by
  induction responses with
  | nil => exact ⟨[], [], nofun, List.append_nil _, List.prefix_refl _⟩
  | cons read responses ih =>
    cases read with
    | interrupted => exact ⟨[], closeFrame.bytes, nofun, rfl, List.nil_prefix⟩
    | failed e => exact ⟨[], closeFrame.bytes, nofun, rfl, List.nil_prefix⟩
    | bytes chunk =>
      cases chunk with
      | nil => exact ⟨[], [], nofun, List.append_nil _, List.nil_prefix⟩
      | cons byte chunk =>
        obtain ⟨payloads, tail, hsizes, hsent, hflatten⟩ := ih
        refine ⟨chunks relayBuffer (byte :: chunk) ++ payloads, tail, ?_, ?_, ?_⟩
        · intro payload hpayload
          rcases List.mem_append.mp hpayload with hpayload | hpayload
          · have hlength := chunks_length (by decide) hpayload
            unfold relayBuffer at hlength
            unfold maxFrameBytes
            omega
          · exact hsizes payload hpayload
        · rw [relayResponses, dataFrames_append, List.append_assoc, hsent, List.append_assoc]
        · rw [List.flatten_append, chunks_flatten]
          exact (List.prefix_append_right_inj _).mpr hflatten

end NixSecrets.Transport
