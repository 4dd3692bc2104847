import NixSecrets.ByteStream
import NixSecrets.LengthPrefixed

namespace NixSecrets.Framing

def maxFrameBytes : Nat := 8 * 1024 * 1024

inductive IoError
  | unexpectedEof
  | invalidData (reason : String)
  | invalidInput (reason : String)
  | other (reason : String)
  deriving DecidableEq, Repr

/-- A type with its JSON texts: what was written is read back. -/
structure Json (α : Type) where
  toVec : α → Except String (List UInt8)
  fromSlice : List UInt8 → Except String α
  read_written : ∀ value body, toVec value = .ok body → fromSlice body = .ok value

/-- How a stream that ended or failed within a buffer is reported. -/
def ReadStop.error : ReadStop → IoError
  | .ended _ => .unexpectedEof
  | .failed e => .other e

def readExact (stream : List Arrival) (length : Nat) : Except IoError (List UInt8 × List Arrival) :=
  (readWhole stream length []).mapError ReadStop.error

section

variable {α : Type} (json : Json α)

/-- The next message with what is left of the stream, or `none` when there is none. -/
def readJson (stream : List Arrival) : Except IoError (Option (α × List Arrival)) :=
  match readExact stream 4 with
  | .error .unexpectedEof => .ok none
  | .error e => .error e
  | .ok (length, stream) =>
    let length := readBigEndian length
    if maxFrameBytes < length then .error (.invalidData "JSON frame is too large")
    else do
      let (body, stream) ← readExact stream length
      let value ← (json.fromSlice body).mapError .invalidData
      return some (value, stream)

/-- The same for messages that carry plaintext, whose bytes are erased. -/
def readJsonSensitive (stream : List Arrival) : Except IoError (Option (α × List Arrival)) :=
  match readExact stream 4 with
  | .error .unexpectedEof => .ok none
  | .error e => .error e
  | .ok (length, stream) =>
    let length := readBigEndian length
    if maxFrameBytes < length then .error (.invalidData "JSON frame is too large")
    else do
      let (body, stream) ← readExact stream length
      let value ← (json.fromSlice body).mapError .invalidData
      return some (value, stream)

/-- The bytes that are written for a message. -/
def writeJson (value : α) : Except IoError (List UInt8) := do
  let body ← (json.toVec value).mapError .invalidData
  if maxFrameBytes < body.length then .error (.invalidInput "JSON frame is too large")
  else return prefixed 4 body

/-- How a reader stops: told that the peer ended, or with an error. -/
inductive Ending
  | closed
  | failed (error : IoError)
  deriving DecidableEq, Repr

/-- A reader that reads messages until it stops. -/
inductive Reads : List Arrival → List α → Ending → Prop
  | closed {stream : List Arrival} (h : readJson json stream = .ok none) : Reads stream [] .closed
  | failed {stream : List Arrival} {error : IoError} (h : readJson json stream = .error error) :
      Reads stream [] (.failed error)
  | next {stream rest : List Arrival} {value : α} {values : List α} {ending : Ending}
      (h : readJson json stream = .ok (some (value, rest))) (hrest : Reads rest values ending) :
      Reads stream (value :: values) ending

end

/-- The stream ends; it does not fail. -/
def Ends (stream : List Arrival) : Prop := ∀ error, Arrival.failed error ∉ stream

/-- How many frames are whole in the first `n` bytes. -/
def whole : List (List UInt8) → Nat → Nat
  | [], _ => 0
  | frame :: rest, n => if frame.length ≤ n then whole rest (n - frame.length) + 1 else 0

/-- How many of the first `n` bytes belong to a frame that is cut. -/
def leftover : List (List UInt8) → Nat → Nat
  | [], _ => 0
  | frame :: rest, n => if frame.length ≤ n then leftover rest (n - frame.length) else n

/-- What the reader of a cut stream should see: the whole messages, then the end exactly at a boundary. -/
structure ToldApart {α : Type} (json : Json α) (messages : List α) (frames : List (List UInt8)) (n : Nat)
    (stream : List Arrival) : Prop where
  read : ∃ ending, Reads json stream (messages.take (whole frames n)) ending ∧
    (ending = .closed ↔ leftover frames n = 0)
  sensitive : ∀ stream, readJsonSensitive json stream = readJson json stream

section

variable {α : Type} {json : Json α}

/-- A reader reads one list of messages and stops in one way. -/
theorem Reads.unique {stream : List Arrival} {values values' : List α} {ending ending' : Ending}
    (h : Reads json stream values ending) (h' : Reads json stream values' ending') :
    values = values' ∧ ending = ending' := by
  induction h generalizing values' ending' with
  | closed h =>
    cases h' with
    | closed => exact ⟨rfl, rfl⟩
    | failed h' => rw [h] at h'; cases h'
    | next h' => rw [h] at h'; cases h'
  | failed h =>
    cases h' with
    | closed h' => rw [h] at h'; cases h'
    | failed h' =>
      rw [h] at h'
      cases h'
      exact ⟨rfl, rfl⟩
    | next h' => rw [h] at h'; cases h'
  | next h _ ih =>
    cases h' with
    | closed h' => rw [h] at h'; cases h'
    | failed h' => rw [h] at h'; cases h'
    | next h' hrest' =>
      rw [h] at h'
      cases h'
      obtain ⟨hvalues, hending⟩ := ih hrest'
      exact ⟨by rw [hvalues], hending⟩

theorem writeJson_ok {value : α} {frame : List UInt8} (h : writeJson json value = .ok frame) :
    ∃ body, json.toVec value = .ok body ∧ body.length ≤ maxFrameBytes ∧ frame = prefixed 4 body := by
  unfold writeJson at h
  cases hbody : json.toVec value with
  | error e =>
    rw [hbody] at h
    cases h
  | ok body =>
    rw [hbody] at h
    change (if maxFrameBytes < body.length then _ else _) = _ at h
    split at h
    next => cases h
    next hsize =>
      cases h
      exact ⟨body, rfl, by omega, rfl⟩

theorem Ends.of_suffix {stream rest : List Arrival} (h : Ends stream)
    (hrest : ∀ error, Arrival.failed error ∈ rest → Arrival.failed error ∈ stream) : Ends rest :=
  fun error hmem => h error (hrest error hmem)

/-- Reading leaves no failure in the stream that was not there before. -/
theorem readWhole_ends {stream rest : List Arrival} {missing : Nat} {received all : List UInt8}
    (hends : Ends stream) (h : readWhole stream missing received = .ok (all, rest)) : Ends rest := by
  induction stream generalizing missing received with
  | nil =>
    cases missing with
    | zero =>
      cases h
      exact hends
    | succ missing => cases h
  | cons arrival stream ih =>
    have htail : Ends stream := fun error hmem => hends error (List.mem_cons_of_mem _ hmem)
    cases missing with
    | zero =>
      rw [readWhole] at h
      cases h
      exact hends
    | succ missing =>
      cases arrival with
      | interrupted => exact ih htail h
      | failed e => cases h
      | bytes chunk =>
        cases chunk with
        | nil => cases h
        | cons byte chunk =>
          rw [readWhole] at h
          split at h
          next => exact ih htail h
          next =>
            cases h
            intro error hmem
            cases hmem with
            | tail _ hmem => exact htail error hmem

/-- A stream that ends too early is noticed. -/
theorem readWhole_short {stream : List Arrival} {missing : Nat} (received : List UInt8) (hends : Ends stream)
    (h : (delivered stream).length < missing) : ∃ count, readWhole stream missing received = .error (.ended count) := by
  induction stream generalizing missing received with
  | nil =>
    cases missing with
    | zero => cases h
    | succ missing => exact ⟨received.length, rfl⟩
  | cons arrival stream ih =>
    have htail : Ends stream := fun error hmem => hends error (List.mem_cons_of_mem _ hmem)
    cases missing with
    | zero => cases h
    | succ missing =>
      cases arrival with
      | interrupted => exact ih received htail h
      | failed e => exact absurd (List.mem_cons_self ..) (hends e)
      | bytes chunk =>
        cases chunk with
        | nil => exact ⟨received.length, rfl⟩
        | cons byte chunk =>
          rw [delivered, List.length_append, List.length_cons] at h
          have hfits : chunk.length ≤ missing := by omega
          rw [readWhole, if_pos hfits]
          exact ih _ htail (by omega)

theorem readExact_append {stream : List Arrival} {front back : List UInt8} (hends : Ends stream)
    (h : delivered stream = front ++ back) :
    ∃ rest, readExact stream front.length = .ok (front, rest) ∧ delivered rest = back ∧ Ends rest := by
  obtain ⟨rest, hread, hback⟩ := readWhole_append h
  refine ⟨rest, ?_, hback, readWhole_ends hends hread⟩
  rw [readExact, hread]
  rfl

theorem readExact_short {stream : List Arrival} {length : Nat} (hends : Ends stream)
    (h : (delivered stream).length < length) : readExact stream length = .error .unexpectedEof := by
  obtain ⟨count, hread⟩ := readWhole_short [] hends h
  rw [readExact, hread]
  rfl

theorem length_lt {body : List UInt8} (h : body.length ≤ maxFrameBytes) : body.length < 256 ^ 4 := by
  unfold maxFrameBytes at h
  omega

/-- A whole frame at the front of a stream is read. -/
theorem readJson_whole {stream : List Arrival} {value : α} {frame rest : List UInt8}
    (hends : Ends stream) (hwritten : writeJson json value = .ok frame) (h : delivered stream = frame ++ rest) :
    ∃ stream', readJson json stream = .ok (some (value, stream')) ∧ delivered stream' = rest ∧ Ends stream' := by
  obtain ⟨body, hbody, hsize, hframe⟩ := writeJson_ok hwritten
  rw [hframe, prefixed, List.append_assoc] at h
  have hheader : (bigEndian 4 body.length).length = 4 := bigEndian_length 4 _
  obtain ⟨middle, hlength, hmiddle, hends⟩ := readExact_append hends h
  rw [hheader] at hlength
  obtain ⟨stream', hread, hrest, hends⟩ := readExact_append hends hmiddle
  refine ⟨stream', ?_, hrest, hends⟩
  have hsmall : ¬ maxFrameBytes < body.length := by omega
  unfold readJson
  rw [hlength]
  dsimp only
  rw [readBigEndian_bigEndian (length_lt hsize), if_neg hsmall, hread]
  change (json.fromSlice body).mapError IoError.invalidData >>= _ = _
  rw [json.read_written value body hbody]
  rfl

/-- A stream that ends within the length of a message looks as if it ended before it. -/
theorem readJson_header {stream : List Arrival} (hends : Ends stream) (h : (delivered stream).length < 4) :
    readJson json stream = .ok none := by
  unfold readJson
  rw [readExact_short hends h]

/-- A stream that ends within the body of a message is an error. -/
theorem readJson_body {stream : List Arrival} {value : α} {frame : List UInt8} {n : Nat} (hends : Ends stream)
    (hwritten : writeJson json value = .ok frame) (h : delivered stream = frame.take n) (hcut : n < frame.length)
    (hheader : 4 ≤ n) : readJson json stream = .error .unexpectedEof := by
  obtain ⟨body, _, hsize, hframe⟩ := writeJson_ok hwritten
  have hwidth : (bigEndian 4 body.length).length = 4 := bigEndian_length 4 _
  have hlength : frame.length = 4 + body.length := by
    rw [hframe, prefixed, List.length_append, hwidth]
  have hsplit : frame.take n = bigEndian 4 body.length ++ body.take (n - 4) := by
    rw [hframe, prefixed, List.take_append, hwidth, List.take_of_length_le (by omega)]
  obtain ⟨middle, hread, hmiddle, hends⟩ := readExact_append hends (h.trans hsplit)
  rw [hwidth] at hread
  have hshort : (delivered middle).length < body.length := by
    rw [hmiddle, List.length_take]
    omega
  have hsmall : ¬ maxFrameBytes < body.length := by omega
  unfold readJson
  rw [hread]
  dsimp only
  rw [readBigEndian_bigEndian (length_lt hsize), if_neg hsmall, readExact_short hends hshort]
  rfl

/-- Every cut is read up to the frame that it cuts, and the reader is told the end there too
when the cut is within the length of that frame. -/
theorem reads_cut {messages : List α} {frames : List (List UInt8)}
    (hwritten : List.Forall₂ (fun message frame => writeJson json message = .ok frame) messages frames) {n : Nat}
    {stream : List Arrival} (hends : Ends stream) (h : delivered stream = frames.flatten.take n) :
    ∃ ending, Reads json stream (messages.take (whole frames n)) ending ∧
      (ending = .closed ↔ leftover frames n < 4) := by
  induction hwritten generalizing n stream with
  | nil =>
    have hnone : readJson json stream = .ok none := by
      apply readJson_header hends
      rw [h]
      simp
    exact ⟨.closed, Reads.closed hnone, by simp [leftover]⟩
  | @cons message frame messages frames hfirst hrest ih =>
    rw [List.flatten_cons] at h
    by_cases hwhole : frame.length ≤ n
    · have hsplit : delivered stream = frame ++ frames.flatten.take (n - frame.length) := by
        rw [h, List.take_append, List.take_of_length_le hwhole]
      obtain ⟨stream', hread, hdelivered, hends'⟩ := readJson_whole hends hfirst hsplit
      obtain ⟨ending, hreads, hclosed⟩ := ih hends' hdelivered
      refine ⟨ending, ?_, ?_⟩
      · rw [whole, if_pos hwhole, List.take_succ_cons]
        exact Reads.next hread hreads
      · rw [leftover, if_pos hwhole]
        exact hclosed
    · have hcut : delivered stream = frame.take n := by
        rw [h, List.take_append_of_le_length (by omega)]
      rw [whole, leftover, if_neg hwhole, if_neg hwhole, List.take_zero]
      by_cases hheader : n < 4
      · have hshort : (delivered stream).length < 4 := by
          rw [hcut, List.length_take]
          omega
        exact ⟨.closed, Reads.closed (readJson_header hends hshort), by simp [hheader]⟩
      · have hbody := readJson_body hends hfirst hcut (by omega) (by omega)
        exact ⟨.failed .unexpectedEof, Reads.failed hbody, by simp [hheader]⟩

end

/-- A reader tells the end of a stream from a cut exactly if the cut is not within the length of a message. -/
theorem toldApart_iff {α : Type} (json : Json α) {messages : List α} {frames : List (List UInt8)}
    (hwritten : List.Forall₂ (fun message frame => writeJson json message = .ok frame) messages frames) (n : Nat)
    {stream : List Arrival} (hends : Ends stream) (h : delivered stream = frames.flatten.take n) :
    ToldApart json messages frames n stream ↔ ¬ (0 < leftover frames n ∧ leftover frames n < 4) := by
  obtain ⟨ending, hreads, hclosed⟩ := reads_cut hwritten hends h
  constructor
  · intro htold
    obtain ⟨ending', hreads', hclosed'⟩ := htold.read
    have hsame := (hreads.unique hreads').2
    rw [← hsame, hclosed] at hclosed'
    omega
  · intro hcut
    refine ⟨⟨ending, hreads, ?_⟩, fun _ => rfl⟩
    rw [hclosed]
    omega

/-- A message that is JSON's `null`. -/
def nullJson : Json Unit where
  toVec _ := .ok [110, 117, 108, 108]
  fromSlice body := if body = [110, 117, 108, 108] then .ok () else .error "expected value"
  read_written := by
    intro value body h
    cases h
    rfl

def nullFrame : List UInt8 := [0, 0, 0, 4, 110, 117, 108, 108]

theorem nullFrame_written :
    List.Forall₂ (fun message frame => writeJson nullJson message = .ok frame) [()] [nullFrame] :=
  .cons rfl .nil

theorem toldApart_body :
    ToldApart nullJson [()] [nullFrame] 6 [.bytes [0, 0], .interrupted, .bytes [0, 4, 110, 117]] :=
  (toldApart_iff nullJson nullFrame_written 6 (by intro error h; simp at h) rfl).mpr (by decide)

/-- One byte of a message looks like an orderly end. -/
theorem cut_not_told : writeJson nullJson () = .ok nullFrame ∧ leftover [nullFrame] 1 = 1 ∧
    readJson nullJson [.bytes (nullFrame.take 1)] = .ok none ∧
    ¬ ToldApart nullJson [()] [nullFrame] 1 [.bytes (nullFrame.take 1)] := by
  have hread : readJson nullJson [.bytes (nullFrame.take 1)] = .ok none := rfl
  refine ⟨rfl, rfl, hread, ?_⟩
  intro h
  obtain ⟨ending, hreads, hclosed⟩ := h.read
  have hsame := (hreads.unique (Reads.closed hread)).2
  rw [hsame] at hclosed
  have hnone := hclosed.mp rfl
  cases hnone

end NixSecrets.Framing
