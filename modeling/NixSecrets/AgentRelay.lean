import NixSecrets.Framing
import NixSecrets.LoginSigner

namespace NixSecrets.AgentRelay

open SshAuth Framing

/-- The body of the refusal. -/
def refusal : List UInt8 := LoginSigner.failure.drop 4

/-- The next message and what is left of the stream; an end within the length counts as a clean one. -/
def readMessage (stream : List Arrival) : Except IoError (Option (List UInt8 × List Arrival)) :=
  match readExact stream 4 with
  | .error .unexpectedEof => .ok none
  | .error e => .error e
  | .ok (length, stream) =>
    let length := readBigEndian length
    if length = 0 ∨ SshAuth.maxMessage < length then .error (.invalidData "agent message has an invalid length")
    else do
      let (body, stream) ← readExact stream length
      return some (body, stream)

def writeMessage (body : List UInt8) : Except IoError (List UInt8) :=
  if body.length ≤ SshAuth.maxMessage then .ok (prefixed 4 body)
  else .error (.invalidInput "agent message too large")

/-- Messages as they stand on a stream. -/
def frames (messages : List (List UInt8)) : List UInt8 := prefixedAll 4 messages

def Sendable (message : List UInt8) : Prop := message ≠ [] ∧ message.length ≤ SshAuth.maxMessage

/-- A connection: whether its process belongs to the owner, whether the timeout can be set, what the client
sends and how many replies it takes. -/
structure Connection where
  peer : Except IoError Bool
  timeout : Except IoError Unit
  stream : List Arrival
  room : Nat

/-- What serving leaves: how it ended, what was written and the state. -/
structure Served (σ : Type) where
  ended : Except IoError Unit
  written : List UInt8
  state : σ

inductive Done
  | running
  | finished
  | vanished

inductive Accepted
  | nothing
  | failed (error : IoError)
  | connection (connection : Connection)

/-- One turn of the loop: whether the process is done, and what `accept` then returns. -/
structure Turn where
  done : Done
  accepted : Accepted

inductive Ended
  | serving
  | finished
  | failed (error : IoError)

theorem readMessage_ok {stream rest : List Arrival} {message : List UInt8}
    (h : readMessage stream = .ok (some (message, rest))) :
    Sendable message ∧ delivered stream = prefixed 4 message ++ delivered rest := by
  unfold readMessage readExact at h
  cases hheader : readWhole stream 4 [] with
  | error stop =>
    rw [hheader] at h
    cases stop <;> cases h
  | ok read =>
    obtain ⟨length, middle⟩ := read
    rw [hheader] at h
    dsimp only [Except.mapError] at h
    split at h
    next => cases h
    next hvalid =>
      cases hbody : readWhole middle (readBigEndian length) [] with
      | error stop =>
        rw [hbody] at h
        cases h
      | ok read =>
        obtain ⟨body, rest'⟩ := read
        rw [hbody] at h
        cases h
        obtain ⟨header, hheader', hfour, hfront⟩ := readWhole_ok hheader
        obtain ⟨new, hnew, hsize, hback⟩ := readWhole_ok hbody
        rw [List.nil_append] at hheader' hnew
        subst hheader' hnew
        have hwritten := bigEndian_readBigEndian length
        rw [hfour] at hwritten
        refine ⟨⟨?_, ?_⟩, ?_⟩
        · intro hempty
          have hnone : body.length = 0 := List.length_eq_zero_iff.mpr hempty
          omega
        · show body.length ≤ SshAuth.maxMessage
          omega
        · rw [hfront, hback, prefixed, hsize, hwritten, List.append_assoc]

theorem readMessage_shorter {stream rest : List Arrival} {message : List UInt8}
    (h : readMessage stream = .ok (some (message, rest))) :
    (delivered rest).length < (delivered stream).length := by
  obtain ⟨_, hdelivered⟩ := readMessage_ok h
  rw [hdelivered, prefixed, List.length_append, List.length_append, bigEndian_length]
  omega

/-- A message that the stream begins with is read off it. -/
theorem readMessage_frame {stream : List Arrival} {message back : List UInt8} (hsend : Sendable message)
    (h : delivered stream = prefixed 4 message ++ back) :
    ∃ rest, readMessage stream = .ok (some (message, rest)) ∧ delivered rest = back := by
  have hpositive := List.length_pos_iff.mpr hsend.1
  have hsmall : message.length < 256 ^ 4 := by
    have := hsend.2
    unfold SshAuth.maxMessage at this
    omega
  rw [prefixed, List.append_assoc] at h
  obtain ⟨middle, hheader, hmiddle⟩ := readWhole_append h
  rw [bigEndian_length] at hheader
  obtain ⟨rest, hbody, hrest⟩ := readWhole_append hmiddle
  refine ⟨rest, ?_, hrest⟩
  have hvalid : ¬ (message.length = 0 ∨ SshAuth.maxMessage < message.length) := by
    have := hsend.2
    omega
  unfold readMessage readExact
  rw [hheader]
  dsimp only [Except.mapError]
  rw [readBigEndian_bigEndian hsmall, if_neg hvalid, hbody]
  rfl

theorem readMessage_nothing {stream : List Arrival} (h : delivered stream = []) (message : List UInt8)
    (rest : List Arrival) : readMessage stream ≠ .ok (some (message, rest)) := by
  intro hread
  have hshorter := readMessage_shorter hread
  rw [h] at hshorter
  cases hshorter

section

variable {σ : Type} (allowed : List UInt8 → Bool)
  (forward : List UInt8 → σ → Except IoError (List UInt8) × σ)

def replyTo (message : List UInt8) (s : σ) : Except IoError (List UInt8) × σ :=
  if allowed message then forward message s else (.ok refusal, s)

/-- The messages of a connection are answered until it is broken. -/
def serveStream (stream : List Arrival) (room : Nat) (s : σ) : Served σ :=
  match _hread : readMessage stream with
  | .ok (some (message, rest)) =>
    match replyTo allowed forward message s with
    | (.error e, s) => ⟨.error e, [], s⟩
    | (.ok reply, s) =>
      match writeMessage reply, room with
      | .ok frame, room + 1 =>
        let later := serveStream rest room s
        ⟨later.ended, frame ++ later.written, later.state⟩
      | _, _ => ⟨.ok (), [], s⟩
  | _ => ⟨.ok (), [], s⟩
  termination_by (delivered stream).length
  decreasing_by exact readMessage_shorter _hread

def serveConnection (owned : Bool) (connection : Connection) (s : σ) : Served σ :=
  match if owned then connection.peer else .ok true with
  | .error e => ⟨.error e, [], s⟩
  | .ok false => ⟨.ok (), [], s⟩
  | .ok true =>
    match connection.timeout with
    | .error e => ⟨.error e, [], s⟩
    | .ok () => serveStream allowed forward connection.stream connection.room s

/-- The turns of the loop, what was written on each connection, and the state they leave. -/
def serveUntil (owned : Bool) : List Turn → σ → Ended × List (List UInt8) × σ
  | [], s => (.serving, [], s)
  | turn :: rest, s =>
    match turn.done with
    | .finished => (.finished, [], s)
    | .vanished => (.failed (.other "the signing process vanished"), [], s)
    | .running =>
      match turn.accepted with
      | .nothing => serveUntil owned rest s
      | .failed e => (.failed e, [], s)
      | .connection connection =>
        let served := serveConnection allowed forward owned connection s
        match served.ended with
        | .error e => (.failed e, [served.written], served.state)
        | .ok () =>
          let later := serveUntil owned rest served.state
          (later.1, served.written :: later.2.1, later.2.2)

/-- The replies to the messages, as long as there are any, and the state behind them. -/
def replies : List (List UInt8) → σ → List (List UInt8) × σ
  | [], s => ([], s)
  | message :: rest, s =>
    match replyTo allowed forward message s with
    | (.error _, s) => ([], s)
    | (.ok reply, s) =>
      let later := replies rest s
      (reply :: later.1, later.2)

/-- The message, if it is allowed, has a reply that can be written. -/
def Replies (message : List UInt8) : Prop :=
  ∀ s, allowed message = true → ∃ reply, (forward message s).1 = .ok reply ∧ reply.length ≤ SshAuth.maxMessage

variable {allowed forward}

theorem replyTo_replies {message : List UInt8} (h : Replies allowed forward message) (s : σ) :
    ∃ reply s', replyTo allowed forward message s = (.ok reply, s') ∧ reply.length ≤ SshAuth.maxMessage := by
  unfold replyTo
  split
  next hallowed =>
    obtain ⟨reply, hreply, hsmall⟩ := h s hallowed
    exact ⟨reply, (forward message s).2, Prod.ext hreply rfl, hsmall⟩
  next => exact ⟨refusal, s, rfl, by decide⟩

theorem replyTo_keeps {P : σ → Prop}
    (hforward : ∀ message s, allowed message = true → P s → P (forward message s).2) {message : List UInt8} {s : σ} (h : P s) : P (replyTo allowed forward message s).2 := by
  unfold replyTo
  split
  next hallowed => exact hforward message s hallowed h
  next => exact h

theorem serveStream_keeps {P : σ → Prop}
    (hforward : ∀ message s, allowed message = true → P s → P (forward message s).2)
    (stream : List Arrival) (room : Nat) (s : σ) (h : P s) :
    P (serveStream allowed forward stream room s).state := by
  fun_induction serveStream allowed forward stream room s with
  | case1 stream room s message rest hread e s' hreply =>
    have hkept : P (replyTo allowed forward message s).2 := replyTo_keeps hforward h
    rw [hreply] at hkept
    exact hkept
  | case2 stream s message rest hread reply s' hreply frame room hwritten later ih =>
    have hkept : P (replyTo allowed forward message s).2 := replyTo_keeps hforward h
    rw [hreply] at hkept
    exact ih hkept
  | case3 stream room s message rest hread reply s' hreply hbroken =>
    have hkept : P (replyTo allowed forward message s).2 := replyTo_keeps hforward h
    rw [hreply] at hkept
    exact hkept
  | case4 stream room s hnone => exact h

theorem serveConnection_keeps {P : σ → Prop}
    (hforward : ∀ message s, allowed message = true → P s → P (forward message s).2)
    (owned : Bool) (connection : Connection) {s : σ} (h : P s) :
    P (serveConnection allowed forward owned connection s).state := by
  unfold serveConnection
  split
  next => exact h
  next => exact h
  next =>
    split
    next => exact h
    next => exact serveStream_keeps hforward _ _ s h

/-- What every forwarded message keeps, the whole loop keeps, whoever connects and whatever they send. -/
theorem serveUntil_keeps {P : σ → Prop}
    (hforward : ∀ message s, allowed message = true → P s → P (forward message s).2)
    (owned : Bool) (turns : List Turn) {s : σ} (h : P s) : P (serveUntil allowed forward owned turns s).2.2 := by
  induction turns generalizing s with
  | nil => exact h
  | cons turn rest ih =>
    unfold serveUntil
    split
    next => exact h
    next => exact h
    next =>
      split
      next => exact ih h
      next => exact h
      next connection _ =>
        have hserved : P (serveConnection allowed forward owned connection s).state :=
          serveConnection_keeps hforward owned connection h
        dsimp only
        split
        next => exact hserved
        next => exact ih hserved

theorem serveStream_message {message : List UInt8} (hreplies : Replies allowed forward message)
    {stream rest : List Arrival} (hread : readMessage stream = .ok (some (message, rest))) (room : Nat) (s : σ) :
    ∃ reply s', replyTo allowed forward message s = (.ok reply, s') ∧
      serveStream allowed forward stream (room + 1) s =
        ⟨(serveStream allowed forward rest room s').ended,
          prefixed 4 reply ++ (serveStream allowed forward rest room s').written,
          (serveStream allowed forward rest room s').state⟩ := by
  obtain ⟨reply, s', hreply, hsmall⟩ := replyTo_replies hreplies s
  refine ⟨reply, s', hreply, ?_⟩
  rw [serveStream]
  split
  next message' rest' hread' =>
    rw [hread] at hread'
    cases hread'
    rw [hreply]
    dsimp only
    rw [writeMessage, if_pos hsmall]
  next hnone => exact absurd hread (hnone message rest)

/-- Messages are answered one by one and in their order, however their bytes are cut. -/
theorem serveStream_frames {messages : List (List UInt8)} {stream : List Arrival} {room : Nat}
    (hreplies : ∀ message ∈ messages, Replies allowed forward message)
    (hsend : ∀ message ∈ messages, Sendable message)
    (hroom : messages.length ≤ room) (h : delivered stream = frames messages) (s : σ) :
    serveStream allowed forward stream room s =
      ⟨.ok (), frames (replies allowed forward messages s).1, (replies allowed forward messages s).2⟩ := by
  induction messages generalizing stream room s with
  | nil =>
    rw [serveStream]
    split
    next message rest hread => exact absurd hread (readMessage_nothing h message rest)
    next => rfl
  | cons message messages ih =>
    have hfirst := hsend message List.mem_cons_self
    obtain ⟨rest, hread, hrest⟩ := readMessage_frame hfirst h
    cases room with
    | zero => cases hroom
    | succ room =>
      have hlater := ih (fun later hmem => hreplies later (List.mem_cons_of_mem message hmem))
        (fun later hmem => hsend later (List.mem_cons_of_mem message hmem)) (Nat.le_of_succ_le_succ hroom) hrest
      have hreplied := hreplies message List.mem_cons_self
      obtain ⟨reply, s', hreply, hserved⟩ := serveStream_message hreplied hread room s
      rw [hserved, hlater, replies, hreply]
      rfl

end

/-- An ssh-agent, by the frames it has heard so far: whether it is reached, and what it then sends. -/
structure SshAgent where
  reached : List (List UInt8) → Except IoError Unit
  answers : List (List UInt8) → List Arrival

/-- One request to the agent, with the frames that the agent has heard. -/
def relay (agent : SshAgent) (message : List UInt8) (heard : List (List UInt8)) :
    Except IoError (List UInt8) × List (List UInt8) :=
  if permitted message = .ok () then
    match agent.reached heard, writeMessage message with
    | .error e, _ => (.error e, heard)
    | .ok (), .error e => (.error e, heard)
    | .ok (), .ok frame =>
      let heard := heard ++ [frame]
      match readMessage (agent.answers heard) with
      | .error e => (.error e, heard)
      | .ok none => (.error .unexpectedEof, heard)
      | .ok (some (reply, _)) => (.ok reply, heard)
  else (.ok refusal, heard)

/-- How the frontend answers; an agent that is not reached reads as a refusal. -/
def agentReply (agent : Option SshAgent) (message : List UInt8) (heard : List (List UInt8)) :
    List UInt8 × List (List UInt8) :=
  match agent with
  | none => (refusal, heard)
  | some agent =>
    match relay agent message heard with
    | (.ok reply, heard) => (reply, heard)
    | (.error _, heard) => (refusal, heard)

/-- What the backend sends during a commit; `ρ` is what a commit results in. -/
inductive Response (ρ : Type)
  | agentRequest (message : List UInt8)
  | committed (result : ρ)
  | error (message : String)
  | unexpected

inductive Answer
  | agentReply (message : List UInt8)
  | unexpected

/-- The frontend's side of a commit: its result, the replies it sent and what the agent heard. -/
structure Committing (ρ : Type) where
  result : Option (Except IoError (Except String ρ))
  sent : List (List UInt8)
  heard : List (List UInt8)

section

variable {ρ : Type} (agent : Option SshAgent)

def commit : List (Except IoError (Response ρ)) → List (List UInt8) → Committing ρ
  | [], heard => ⟨none, [], heard⟩
  | .error e :: _, heard => ⟨some (.error e), [], heard⟩
  | .ok (.agentRequest message) :: rest, heard =>
    let reply := agentReply agent message heard
    let later := commit rest reply.2
    ⟨later.result, reply.1 :: later.sent, later.heard⟩
  | .ok (.committed result) :: _, heard => ⟨some (.ok (.ok result)), [], heard⟩
  | .ok (.error message) :: _, heard => ⟨some (.ok (.error message)), [], heard⟩
  | .ok .unexpected :: _, heard => ⟨some (.error (.invalidData "unexpected backend response")), [], heard⟩

/-- The frontend at the other end, while it is inside its commit. -/
def attached (message : List UInt8) (heard : List (List UInt8)) :
    Except IoError (Option Answer) × List (List UInt8) :=
  let reply := agentReply agent message heard
  (.ok (some (.agentReply reply.1)), reply.2)

def gitMay (message : List UInt8) : Bool := permitted message = .ok ()

/-- The frontend's replies in the places of the messages that may be relayed; the others are refused. -/
def placed : List (List UInt8) → List (List UInt8) → List (List UInt8)
  | [], _ => []
  | message :: rest, sent =>
    if gitMay message then
      match sent with
      | [] => []
      | reply :: sent => reply :: placed rest sent
    else refusal :: placed rest sent

variable {agent}

theorem relay_heard (agent : SshAgent) (message : List UInt8) (heard : List (List UInt8)) :
    (relay agent message heard).2 = heard ∨
      permitted message = .ok () ∧ (relay agent message heard).2 = heard ++ [prefixed 4 message] := by
  unfold relay
  split
  next hpermitted =>
    split
    next => exact Or.inl rfl
    next => exact Or.inl rfl
    next frame _ hwritten =>
      have hframe : frame = prefixed 4 message := by
        unfold writeMessage at hwritten
        split at hwritten
        next =>
          cases hwritten
          rfl
        next => cases hwritten
      have hheard : heard ++ [frame] = heard ++ [prefixed 4 message] := by rw [hframe]
      right
      refine ⟨hpermitted, ?_⟩
      dsimp only
      split
      next => exact hheard
      next => exact hheard
      next => exact hheard
  next => exact Or.inl rfl

theorem agentReply_heard (message : List UInt8) (heard : List (List UInt8)) :
    (agentReply agent message heard).2 = heard ∨
      permitted message = .ok () ∧ (agentReply agent message heard).2 = heard ++ [prefixed 4 message] := by
  cases agent with
  | none => exact Or.inl rfl
  | some agent =>
    have hsame : (agentReply (some agent) message heard).2 = (relay agent message heard).2 := by
      unfold agentReply
      dsimp only
      split
      next hresult => rw [hresult]
      next hresult => rw [hresult]
    rw [hsame]
    exact relay_heard agent message heard

/-- Whatever the backend sends during a commit, the agent only hears requests to list its keys and requests
for signatures in the namespace of git. -/
theorem agent_hears_commits (agent : Option SshAgent) (responses : List (Except IoError (Response ρ))) :
    ∀ frame ∈ (commit agent responses []).heard, ∃ message, frame = prefixed 4 message ∧
      (message = [requestIdentities] ∨ ∃ key rest flags,
        message = signingRequest key (sshsigMagic ++ (prefixed 4 (bytes "git") ++ rest)) flags) := by
  have hcommit (heard : List (List UInt8)) (h : ∀ frame ∈ heard, ∃ message,
      frame = prefixed 4 message ∧ permitted message = .ok ()) :
      ∀ frame ∈ (commit agent responses heard).heard, ∃ message,
        frame = prefixed 4 message ∧ permitted message = .ok () := by
    induction responses generalizing heard with
    | nil => exact h
    | cons response rest ih =>
      cases response with
      | error e => exact h
      | ok response =>
        cases response with
        | committed result => exact h
        | error message => exact h
        | unexpected => exact h
        | agentRequest message =>
          refine ih _ ?_
          rcases @agentReply_heard agent message heard with hsame | ⟨hpermitted, hmore⟩
          · rw [hsame]
            exact h
          · rw [hmore]
            intro frame hframe
            rcases List.mem_append.mp hframe with hframe | hframe
            · exact h frame hframe
            · exact ⟨message, List.mem_singleton.mp hframe, hpermitted⟩
  intro frame hframe
  obtain ⟨message, hmessage, hpermitted⟩ := hcommit [] nofun frame hframe
  refine ⟨message, hmessage, ?_⟩
  rcases permitted_ok hpermitted with hlist | ⟨key, rest, flags, _, _, hsign⟩
  · exact Or.inl hlist
  · exact Or.inr ⟨key, rest, flags, hsign⟩

/-- An agent that lists one key. -/
def listing : SshAgent := ⟨fun _ => .ok (), fun _ => [.bytes (prefixed 4 [12, 0, 0, 0, 0])]⟩

theorem listing_heard :
    ∃ message, prefixed 4 [requestIdentities] = prefixed 4 message ∧
      (message = [requestIdentities] ∨ ∃ key rest flags,
        message = signingRequest key (sshsigMagic ++ (prefixed 4 (bytes "git") ++ rest)) flags) :=
  let asked : List (Except IoError (Response Unit)) := [.ok (.agentRequest [requestIdentities])]
  agent_hears_commits (some listing) asked _ List.mem_cons_self

end

end NixSecrets.AgentRelay
