import NixSecrets.AgentRelay

namespace NixSecrets.LoginAgent

open Inventory SshAuth Framing AgentRelay

/-- Times are in milliseconds. -/
def renewBefore : Nat := 120 * 1000

/-- What `approve-ssh-login` sends to the private agent. -/
def approvalMessage : List UInt8 := 27 :: prefixed 4 (bytes "approve-login@nix-secrets.sirati.me")

def success : List UInt8 := [6]

structure Invocation where
  login : LoginGrantRequest
  reason : Option String
  procedure : Option String
  onRequest : Bool

/-- A live approval of the logins. -/
structure Grant where
  id : String
  expires : Nat
  remaining : Nat
  deriving DecidableEq, Repr

/-- What the session asks the backend. -/
inductive Request
  | sshLoginGrant (request : LoginGrantRequest) (reason procedure : Option String)
  | sshSignature (request : SignatureRequest) (reason : Option String) (grant : String)
  deriving DecidableEq, Repr

/-- The backend's answers, behind the frames that only report progress. -/
inductive Response
  | sshLoginGranted (grant : String) (expiresInSeconds signatures : Nat)
  | sshSignature (reply : List UInt8)
  | error (message : String)
  | unexpected
  deriving DecidableEq, Repr

/-- A request, when it was decided on, and what came back. -/
structure Exchange where
  time : Nat
  request : Request
  answer : Except IoError (Option Response)

/-- `looks` counts the looks at the clock. -/
structure Session where
  grant : Option Grant
  exchanges : List Exchange
  looks : Nat

/-- The clock, and what the backend answers a request after the exchanges so far. -/
structure Surroundings where
  clock : Nat → Nat
  backend : List Exchange → Request → Except IoError (Option Response)

def Grant.live (now : Nat) (grant : Grant) : Bool := 0 < grant.remaining ∧ now < grant.expires

def connectionFailed (error : IoError) : String :=
  "backend connection failed: " ++ match error with
    | .unexpectedEof => "failed to fill whole buffer"
    | .invalidData reason => reason
    | .invalidInput reason => reason
    | .other reason => reason

/-- The check of a reply never panics. -/
def checkedReply (reply : List UInt8) : Except String (List UInt8) :=
  match validateReply reply with
  | .ok () => .ok reply
  | .error (.refused reason) => .error reason
  | .error .panicked => .error ""

section

variable (libs : Libraries) (isHostKey : List UInt8 → Bool) (invocation : Invocation) (around : Surroundings)

/-- Asks the operator, unless the approval has enough left. -/
def approve (s : Session) : Except String Unit × Session :=
  let now := around.clock s.looks
  if s.grant.any (Grant.live (now + renewBefore)) then (.ok (), { s with looks := s.looks + 1 })
  else
    let request := .sshLoginGrant invocation.login invocation.reason invocation.procedure
    let answer := around.backend s.exchanges request
    let exchanges := s.exchanges ++ [⟨now, request, answer⟩]
    match answer with
    | .ok (some (.sshLoginGranted grant expires signatures)) =>
      (.ok (), ⟨some ⟨grant, now + expires * 1000, signatures⟩, exchanges, s.looks + 1⟩)
    | .ok (some (.error message)) => (.error message, ⟨none, exchanges, s.looks + 1⟩)
    | .ok _ => (.error "backend did not answer the SSH login approval", ⟨none, exchanges, s.looks + 1⟩)
    | .error e => (.error (connectionFailed e), ⟨none, exchanges, s.looks + 1⟩)

/-- Signs one login under the live approval, without asking anyone. -/
def sign (request : SignatureRequest) (s : Session) : Except String (List UInt8) × Session :=
  let now := around.clock s.looks
  match s.grant.filter (Grant.live now) with
  | none =>
    (.error ("no SSH login approval is live; approve the logins before connecting " ++
      "(nix-secrets approve-ssh-login)"), { s with looks := s.looks + 1 })
  | some grant =>
    let request := .sshSignature request invocation.reason grant.id
    let answer := around.backend s.exchanges request
    let exchanges := s.exchanges ++ [⟨now, request, answer⟩]
    let used := { grant with remaining := grant.remaining - 1 }
    match answer with
    | .ok (some (.sshSignature reply)) => (checkedReply reply, ⟨some used, exchanges, s.looks + 1⟩)
    | .ok (some (.error message)) => (.error message, ⟨none, exchanges, s.looks + 1⟩)
    | .ok _ => (.error "backend did not return an SSH signature", ⟨some used, exchanges, s.looks + 1⟩)
    | .error e => (.error (connectionFailed e), ⟨some used, exchanges, s.looks + 1⟩)

def request (message : List UInt8) : SignatureRequest :=
  ⟨invocation.login.publicKey, invocation.login.destination, message⟩

def allowed (message : List UInt8) : Bool :=
  message = [requestIdentities] ∨ message = approvalMessage ∨
    (request invocation message).validate libs isHostKey = .ok ()

def replied {α : Type} (reply : α → List UInt8) : Except String α → List UInt8
  | .ok value => reply value
  | .error _ => refusal

def forward (message : List UInt8) (s : Session) : Except IoError (List UInt8) × Session :=
  if message = [requestIdentities] then
    match LoginSigner.identities libs invocation.login.publicKey with
    | .ok listed => (.ok listed, s)
    | .error (.refused reason) => (.error (.other reason), s)
    | .error .panicked => (.error (.other ""), s)
  else if message = approvalMessage then
    let approved := approve invocation around s
    (.ok (replied (fun _ => success) approved.1), approved.2)
  else
    let signed := sign invocation around (request invocation message) s
    (.ok (replied id signed.1), signed.2)

/-- Before the command starts. -/
def opened : Except String Unit × Session :=
  if invocation.onRequest then (.ok (), ⟨none, [], 0⟩) else approve invocation around ⟨none, [], 0⟩

/-- Without its approval the command does not start; else its connections are served. -/
def run (turns : List Turn) : Except String (AgentRelay.Ended × List (List UInt8)) × Session :=
  match (opened invocation around).1 with
  | .error e => (.error e, (opened invocation around).2)
  | .ok () =>
    let served := serveUntil (allowed libs isHostKey invocation) (forward libs invocation around) true turns
      (opened invocation around).2
    (.ok (served.1, served.2.1), served.2.2)

/-- A signature that was asked for under the approval and did not end it. -/
def Spent (id : String) (exchange : Exchange) : Prop :=
  (∃ request reason, exchange.request = .sshSignature request reason id) ∧
    ∀ message, exchange.answer ≠ .ok (some (.error message))

/-- The operator's answer to the last request for an approval, so many signatures ago. -/
def ApprovedBy (exchanges : List Exchange) (id : String) (expires used signatures : Nat) : Prop :=
  ∃ earlier approval spent seconds, exchanges = earlier ++ approval :: spent ∧
    approval.request = .sshLoginGrant invocation.login invocation.reason invocation.procedure ∧
    approval.answer = .ok (some (.sshLoginGranted id seconds signatures)) ∧
    expires = approval.time + seconds * 1000 ∧ used = spent.length ∧ ∀ exchange ∈ spent, Spent id exchange

/-- A request for an approval is one of this invocation, and a signature is one of its logins, asked for under
the approval in force before it expires and is used up. -/
def Justified (before : List Exchange) (exchange : Exchange) : Prop :=
  match exchange.request with
  | .sshLoginGrant login reason procedure =>
    login = invocation.login ∧ reason = invocation.reason ∧ procedure = invocation.procedure
  | .sshSignature login _ id =>
    (∃ message, login = request invocation message) ∧ login.validate libs isHostKey = .ok () ∧
      ∃ expires used signatures, ApprovedBy invocation before id expires used signatures ∧
        exchange.time < expires ∧ used < signatures

structure Confined (s : Session) : Prop where
  justified : ∀ before exchange after, s.exchanges = before ++ exchange :: after →
    Justified libs isHostKey invocation before exchange
  held : ∀ grant ∈ s.grant, ∃ used signatures,
    ApprovedBy invocation s.exchanges grant.id grant.expires used signatures ∧ used + grant.remaining = signatures

variable {libs isHostKey invocation around}

theorem justified_append {exchanges : List Exchange} (last : Exchange)
    (h : ∀ before exchange after, exchanges = before ++ exchange :: after →
      Justified libs isHostKey invocation before exchange)
    (hlast : Justified libs isHostKey invocation exchanges last) (before : List Exchange) (exchange : Exchange)
    (after : List Exchange) (hwhole : exchanges ++ [last] = before ++ exchange :: after) :
    Justified libs isHostKey invocation before exchange := by
  rcases List.eq_nil_or_concat after with hnil | ⟨middle, final, hafter⟩
  · rw [hnil] at hwhole
    obtain ⟨hbefore, hexchange⟩ := List.append_inj' hwhole rfl
    have hsame := List.singleton_inj.mp hexchange
    rw [← hbefore, ← hsame]
    exact hlast
  · rw [hafter, List.concat_eq_append, ← List.cons_append, ← List.append_assoc] at hwhole
    exact h before exchange middle (List.append_inj' hwhole rfl).1

theorem approve_confined (around : Surroundings) {s : Session} (h : Confined libs isHostKey invocation s) :
    Confined libs isHostKey invocation (approve invocation around s).2 ∧
      s.exchanges <+: (approve invocation around s).2.exchanges := by
  unfold approve
  dsimp only
  split
  next => exact ⟨⟨h.justified, h.held⟩, List.prefix_refl _⟩
  next =>
    generalize hanswer : around.backend s.exchanges _ = answer
    have hjustified := justified_append ⟨around.clock s.looks,
      .sshLoginGrant invocation.login invocation.reason invocation.procedure, answer⟩ h.justified ⟨rfl, rfl, rfl⟩
    split
    next grant expires signatures =>
      refine ⟨⟨hjustified, ?_⟩, List.prefix_append _ _⟩
      intro held hheld
      cases hheld
      exact ⟨0, signatures, ⟨s.exchanges, _, [], expires, rfl, rfl, rfl, rfl, rfl, nofun⟩, Nat.zero_add _⟩
    next => exact ⟨⟨hjustified, nofun⟩, List.prefix_append _ _⟩
    next => exact ⟨⟨hjustified, nofun⟩, List.prefix_append _ _⟩
    next => exact ⟨⟨hjustified, nofun⟩, List.prefix_append _ _⟩

theorem ApprovedBy.spend {exchanges : List Exchange} {last : Exchange} {id : String}
    {expires used signatures : Nat} (h : ApprovedBy invocation exchanges id expires used signatures)
    (hlast : Spent id last) : ApprovedBy invocation (exchanges ++ [last]) id expires (used + 1) signatures := by
  obtain ⟨earlier, approval, spent, seconds, hwhole, hasked, hanswered, hexpires, hused, hspent⟩ := h
  refine ⟨earlier, approval, spent ++ [last], seconds, ?_, hasked, hanswered, hexpires, ?_, ?_⟩
  · rw [hwhole, List.append_assoc, List.cons_append]
  · rw [List.length_append, hused, List.length_singleton]
  · intro exchange hmem
    rcases List.mem_append.mp hmem with hmem | hmem
    · exact hspent exchange hmem
    · rw [List.mem_singleton.mp hmem]
      exact hlast

theorem sign_confined (around : Surroundings) {s : Session} {message : List UInt8}
    (h : Confined libs isHostKey invocation s)
    (hvalid : (request invocation message).validate libs isHostKey = .ok ()) :
    Confined libs isHostKey invocation (sign invocation around (request invocation message) s).2 ∧
      s.exchanges <+: (sign invocation around (request invocation message) s).2.exchanges := by
  unfold sign
  dsimp only
  split
  next => exact ⟨⟨h.justified, h.held⟩, List.prefix_refl _⟩
  next grant hgrant =>
    obtain ⟨hheld, hlive⟩ := Option.filter_eq_some_iff.mp hgrant
    have hlive : 0 < grant.remaining ∧ around.clock s.looks < grant.expires := by simpa [Grant.live] using hlive
    obtain ⟨used, signatures, happroved, hcount⟩ := h.held grant hheld
    have hleft : used < signatures := by omega
    generalize hanswer : around.backend s.exchanges _ = answer
    have hjustified := justified_append ⟨around.clock s.looks,
      .sshSignature (request invocation message) invocation.reason grant.id, answer⟩ h.justified
      ⟨⟨message, rfl⟩, hvalid, grant.expires, used, signatures, happroved, hlive.2, hleft⟩
    have hspent (hgoes : ∀ text, answer ≠ .ok (some (.error text))) : ∀ held ∈ some { grant with
        remaining := grant.remaining - 1 }, ∃ used signatures, ApprovedBy invocation (s.exchanges ++ [⟨around.clock
          s.looks, .sshSignature (request invocation message) invocation.reason grant.id, answer⟩]) held.id
          held.expires used signatures ∧ used + held.remaining = signatures := by
      intro held hsome
      cases hsome
      refine ⟨used + 1, signatures, happroved.spend ⟨⟨_, _, rfl⟩, hgoes⟩, ?_⟩
      show used + 1 + (grant.remaining - 1) = signatures
      omega
    split
    next => exact ⟨⟨hjustified, hspent (by simp)⟩, List.prefix_append _ _⟩
    next => exact ⟨⟨hjustified, nofun⟩, List.prefix_append _ _⟩
    next other _ herror =>
      exact ⟨⟨hjustified, hspent fun text hsome => herror text (Except.ok.inj hsome)⟩, List.prefix_append _ _⟩
    next => exact ⟨⟨hjustified, hspent (by simp)⟩, List.prefix_append _ _⟩

theorem forward_confined {first : List Exchange} {s : Session} {message : List UInt8}
    (hallowed : allowed libs isHostKey invocation message = true)
    (h : Confined libs isHostKey invocation s ∧ first <+: s.exchanges) :
    Confined libs isHostKey invocation (forward libs invocation around message s).2 ∧
      first <+: (forward libs invocation around message s).2.exchanges := by
  unfold forward
  split
  next =>
    split
    next => exact h
    next => exact h
    next => exact h
  next hlist =>
    split
    next =>
      obtain ⟨hconfined, hmore⟩ := approve_confined around h.1
      exact ⟨hconfined, h.2.trans hmore⟩
    next happroval =>
      have hvalid : (request invocation message).validate libs isHostKey = .ok () := by
        simpa [allowed, hlist, happroval] using hallowed
      obtain ⟨hconfined, hmore⟩ := sign_confined around h.1 hvalid
      exact ⟨hconfined, h.2.trans hmore⟩

theorem opened_approved (hrequest : invocation.onRequest = false) (h : (opened invocation around).1 = .ok ()) :
    ∃ approval id seconds signatures, (opened invocation around).2.exchanges = [approval] ∧
      approval.request = .sshLoginGrant invocation.login invocation.reason invocation.procedure ∧
      approval.answer = .ok (some (.sshLoginGranted id seconds signatures)) := by
  unfold opened at h ⊢
  rw [hrequest, if_neg Bool.false_ne_true] at h ⊢
  unfold approve at h ⊢
  dsimp only [Option.any] at h ⊢
  rw [if_neg Bool.false_ne_true] at h ⊢
  generalize around.backend [] _ = answer at h ⊢
  split at h
  next grant seconds signatures => exact ⟨_, grant, seconds, signatures, rfl, rfl, rfl⟩
  next => cases h
  next => cases h
  next => cases h

theorem confined_start : Confined libs isHostKey invocation ⟨none, [], 0⟩ := by
  refine ⟨?_, nofun⟩
  intro before exchange after hwhole
  exact absurd hwhole.symm (by simp)

end

/-- Whoever connects and whatever they send, every request of the session is justified; and unless the command
asks for the approval itself, the operator gave it before anything was served. -/
theorem logins_confined (libs : Libraries) (isHostKey : List UInt8 → Bool) (invocation : Invocation)
    (around : Surroundings) (turns : List Turn) :
    let ran := run libs isHostKey invocation around turns
    (∀ before exchange after, ran.2.exchanges = before ++ exchange :: after →
      Justified libs isHostKey invocation before exchange) ∧
    (invocation.onRequest = false → (∃ served, ran.1 = .ok served) →
      ∃ approval rest id seconds signatures, ran.2.exchanges = approval :: rest ∧
        approval.request = .sshLoginGrant invocation.login invocation.reason invocation.procedure ∧
        approval.answer = .ok (some (.sshLoginGranted id seconds signatures))) := by
  have hopened : Confined libs isHostKey invocation (opened invocation around).2 := by
    unfold opened
    split
    next => exact confined_start
    next => exact (approve_confined around confined_start).1
  have hserved := @serveUntil_keeps Session (allowed libs isHostKey invocation) (forward libs invocation around)
    (fun s => Confined libs isHostKey invocation s ∧ (opened invocation around).2.exchanges <+: s.exchanges)
    (fun message s hallowed h => forward_confined hallowed h) true turns (opened invocation around).2
    ⟨hopened, List.prefix_refl _⟩
  dsimp only
  unfold run
  split
  next e _ => exact ⟨hopened.justified, fun _ hran => by cases hran.choose_spec⟩
  next hfirst =>
    refine ⟨hserved.1.justified, fun hrequest _ => ?_⟩
    obtain ⟨approval, id, seconds, signatures, hone, hasked, hanswered⟩ := opened_approved hrequest hfirst
    obtain ⟨rest, hrest⟩ := hserved.2
    rw [hone] at hrest
    exact ⟨approval, rest, id, seconds, signatures, hrest.symm, hasked, hanswered⟩

section

variable {libs : Libraries} {isHostKey : List UInt8 → Bool} {invocation : Invocation} {around : Surroundings}

theorem validateReply_length {reply : List UInt8} (h : validateReply reply = .ok ()) : reply.length = 88 := by
  obtain ⟨input, hkind, h⟩ := Checked.bind_ok h
  obtain ⟨⟨signature, input'⟩, hsignature, h⟩ := Checked.bind_ok h
  obtain ⟨_, hend, h⟩ := Checked.bind_ok h
  obtain ⟨⟨algorithm, signature'⟩, halgorithm, h⟩ := Checked.bind_ok h
  obtain ⟨_, hnamed, h⟩ := Checked.bind_ok h
  obtain ⟨⟨value, signature''⟩, hvalue, h⟩ := Checked.bind_ok h
  have hend : input' = [] := Classical.not_not.mp (Checked.refuseIf_ok hend)
  have hnamed : algorithm = bytes "ssh-ed25519" := Classical.not_not.mp (Checked.refuseIf_ok hnamed)
  have hlast := Checked.refuseIf_ok h
  simp only [not_or, Classical.not_not] at hlast
  have hname : (bytes "ssh-ed25519").length = 11 := by decide
  have hinput : input = _ := (string_ok hsignature).1
  have houter : signature = _ := (string_ok halgorithm).1
  have hinner : signature' = _ := (string_ok hvalue).1
  rw [behind_ok hkind, hinput, houter, hinner, hend, hnamed, hlast.2]
  simp only [prefixed, List.length_cons, List.length_append, bigEndian_length, List.length_nil, hname, hlast.1]

theorem checkedReply_ok {reply checked : List UInt8} (h : checkedReply reply = .ok checked) :
    validateReply checked = .ok () := by
  unfold checkedReply at h
  split at h
  next hvalid =>
    cases h
    exact hvalid
  next => cases h
  next => cases h

theorem sign_small {asked : SignatureRequest} {s : Session} {reply : List UInt8}
    (h : (sign invocation around asked s).1 = .ok reply) : validateReply reply = .ok () := by
  unfold sign at h
  dsimp only at h
  split at h
  next => cases h
  next =>
    split at h
    next => exact checkedReply_ok h
    next => cases h
    next => cases h
    next => cases h

theorem forward_replies {message : List UInt8} (hlist : message ≠ [requestIdentities]) :
    Replies (allowed libs isHostKey invocation) (forward libs invocation around) message := by
  intro s _
  have hrefusal : refusal.length ≤ SshAuth.maxMessage := by decide
  unfold forward
  rw [if_neg hlist]
  split
  next =>
    refine ⟨_, rfl, ?_⟩
    cases (approve invocation around s).1 with
    | ok _ =>
      show success.length ≤ SshAuth.maxMessage
      decide
    | error _ => exact hrefusal
  next =>
    refine ⟨_, rfl, ?_⟩
    cases hsigned : (sign invocation around (request invocation message) s).1 with
    | ok reply =>
      show reply.length ≤ SshAuth.maxMessage
      rw [validateReply_length (sign_small hsigned)]
      decide
    | error _ => exact hrefusal

/-- A login starts with the byte of a signing request. -/
theorem login_starts {login : List UInt8}
    (h : (request invocation login).validate libs isHostKey = .ok ()) :
    Sendable login ∧ login ≠ [requestIdentities] ∧ login ≠ approvalMessage := by
  obtain ⟨user, key, session, server, _, _, _, _, hsmall, hlogin⟩ := asksLogin_of_validate h
  have hlogin : login = signRequest :: _ := hlogin
  refine ⟨⟨?_, hsmall⟩, ?_, ?_⟩
  · intro hempty
    rw [hempty] at hlogin
    cases hlogin
  · intro hlist
    rw [hlist] at hlogin
    exact absurd (List.cons.inj hlogin).1 (by decide)
  · intro happroval
    rw [happroval] at hlogin
    exact absurd (List.cons.inj hlogin).1 (by decide)

/-- One login under a live approval. -/
theorem login_signed {s : Session} {grant : Grant} {login reply : List UInt8} (hgrant : s.grant = some grant)
    (hleft : 0 < grant.remaining) (htime : around.clock s.looks < grant.expires)
    (hvalid : (request invocation login).validate libs isHostKey = .ok ())
    (hanswer : around.backend s.exchanges (.sshSignature (request invocation login) invocation.reason grant.id) =
      .ok (some (.sshSignature reply))) (hreply : validateReply reply = .ok ()) :
    replyTo (allowed libs isHostKey invocation) (forward libs invocation around) login s =
      (.ok reply, ⟨some { grant with remaining := grant.remaining - 1 }, s.exchanges ++
        [⟨around.clock s.looks, .sshSignature (request invocation login) invocation.reason grant.id,
          .ok (some (.sshSignature reply))⟩], s.looks + 1⟩) := by
  obtain ⟨_, hlist, happroval⟩ := login_starts hvalid
  have hallowed : allowed libs isHostKey invocation login = true := by simp [allowed, hvalid]
  have hlive : s.grant.filter (Grant.live (around.clock s.looks)) = some grant := by
    rw [hgrant, Option.filter_some, if_pos (by simp [Grant.live, hleft, htime])]
  have hchecked : checkedReply reply = .ok reply := by rw [checkedReply, hreply]
  rw [replyTo, if_pos hallowed, forward, if_neg hlist, if_neg happroval, sign]
  dsimp only
  rw [hlive]
  dsimp only
  rw [hanswer]
  dsimp only
  rw [hchecked]
  rfl

theorem logins_signed {s : Session} {grant : Grant} {logins : List (List UInt8)} (hgrant : s.grant = some grant)
    (hleft : logins.length ≤ grant.remaining)
    (htime : ∀ look < logins.length, around.clock (s.looks + look) < grant.expires)
    (hvalid : ∀ login ∈ logins, (request invocation login).validate libs isHostKey = .ok ())
    (hbackend : ∀ exchanges asked, ∃ reply, around.backend exchanges
      (.sshSignature asked invocation.reason grant.id) = .ok (some (.sshSignature reply)) ∧
        validateReply reply = .ok ()) :
    ∃ asked signatures, replies (allowed libs isHostKey invocation) (forward libs invocation around) logins s =
        (signatures, ⟨some { grant with remaining := grant.remaining - logins.length }, s.exchanges ++ asked,
          s.looks + logins.length⟩) ∧
      asked.map Exchange.request =
        logins.map (fun login => .sshSignature (request invocation login) invocation.reason grant.id) ∧
      asked.map Exchange.answer = signatures.map fun reply => .ok (some (.sshSignature reply)) := by
  induction logins generalizing s grant with
  | nil =>
    refine ⟨[], [], ?_, rfl, rfl⟩
    obtain ⟨held, exchanges, looks⟩ := s
    cases hgrant
    simp [replies]
  | cons login logins ih =>
    rw [List.length_cons] at hleft
    have hnow : around.clock s.looks < grant.expires := htime 0 (Nat.succ_pos _)
    obtain ⟨reply, hanswer, hreply⟩ := hbackend s.exchanges (request invocation login)
    have hsigned := login_signed hgrant (by omega) hnow (hvalid login List.mem_cons_self) hanswer hreply
    have hlater : ∀ look < logins.length, around.clock (s.looks + 1 + look) < grant.expires := by
      intro look hlook
      have hshift : s.looks + 1 + look = s.looks + (look + 1) := by omega
      rw [hshift]
      exact htime (look + 1) (Nat.succ_lt_succ hlook)
    have hrest : logins.length ≤ grant.remaining - 1 := by omega
    obtain ⟨asked, signatures, hreplies, hrequests, hanswers⟩ := ih (s := ⟨some { grant with
      remaining := grant.remaining - 1 }, s.exchanges ++ [⟨around.clock s.looks,
        .sshSignature (request invocation login) invocation.reason grant.id, .ok (some (.sshSignature reply))⟩],
      s.looks + 1⟩) rfl hrest hlater (fun later hmem => hvalid later (List.mem_cons_of_mem _ hmem)) hbackend
    refine ⟨⟨around.clock s.looks, .sshSignature (request invocation login) invocation.reason grant.id,
      .ok (some (.sshSignature reply))⟩ :: asked, reply :: signatures, ?_, ?_, ?_⟩
    · rw [replies, hsigned]
      dsimp only
      rw [hreplies, List.length_cons, List.append_assoc, List.singleton_append]
      have hcount : grant.remaining - 1 - logins.length = grant.remaining - (logins.length + 1) := by omega
      have hlooks : s.looks + 1 + logins.length = s.looks + (logins.length + 1) := by omega
      rw [hcount, hlooks]
    · rw [List.map_cons, List.map_cons, hrequests]
    · rw [List.map_cons, List.map_cons, hanswers]

/-- Under a live approval the logins of a client are signed one by one, and the operator is asked nothing. -/
theorem approved_logins_ask_nobody (around : Surroundings) (s : Session) (grant : Grant)
    (logins : List (List UInt8)) (connection : Connection) (hgrant : s.grant = some grant) (hleft : logins.length ≤ grant.remaining)
    (htime : ∀ look < logins.length, around.clock (s.looks + look) < grant.expires)
    (hvalid : ∀ login ∈ logins, (request invocation login).validate libs isHostKey = .ok ())
    (hbackend : ∀ exchanges asked, ∃ reply, around.backend exchanges
      (.sshSignature asked invocation.reason grant.id) = .ok (some (.sshSignature reply)) ∧
        validateReply reply = .ok ())
    (hpeer : connection.peer = .ok true) (htimeout : connection.timeout = .ok ())
    (hroom : logins.length ≤ connection.room) (hstream : delivered connection.stream = frames logins) :
    ∃ asked signatures, serveConnection (allowed libs isHostKey invocation) (forward libs invocation around) true
        connection s = ⟨.ok (), frames signatures, ⟨some { grant with remaining := grant.remaining - logins.length },
          s.exchanges ++ asked, s.looks + logins.length⟩⟩ ∧
      asked.map Exchange.request =
        logins.map (fun login => .sshSignature (request invocation login) invocation.reason grant.id) ∧
      asked.map Exchange.answer = signatures.map fun reply => .ok (some (.sshSignature reply)) := by
  obtain ⟨asked, signatures, hreplies, hrequests, hanswers⟩ := logins_signed hgrant hleft htime hvalid hbackend
  refine ⟨asked, signatures, ?_, hrequests, hanswers⟩
  have hsend : ∀ login ∈ logins, Sendable login := fun login hmem => (login_starts (hvalid login hmem)).1
  have hreply (login : List UInt8) (hmem : login ∈ logins) : Replies (allowed libs isHostKey invocation)
      (forward libs invocation around) login := forward_replies (login_starts (hvalid login hmem)).2.1
  have hserved := serveStream_frames hreply hsend hroom hstream s
  rw [hreplies] at hserved
  rw [serveConnection, hpeer, htimeout]
  exact hserved

def rootInvocation : Invocation := ⟨LoginSigner.loginConfig.login, none, none, false⟩

/-- A backend that has everything signed. -/
def signing : Surroundings := ⟨fun _ => 1000, fun _ _ => .ok (some (.sshSignature LoginSigner.agentReply))⟩

/-- Two logins, the last of which uses the approval up. -/
theorem two_logins_signed :
    ∃ asked signatures, serveConnection (allowed LoginSigner.signerLibraries (fun _ => true) rootInvocation)
        (forward LoginSigner.signerLibraries rootInvocation signing) true
        ⟨.ok true, .ok (), [.bytes (frames [LoginSigner.loginMessage, LoginSigner.loginMessage])], 2⟩
        ⟨some ⟨"grant-1", 2000, 2⟩, [], 0⟩ =
          ⟨.ok (), frames signatures, ⟨some ⟨"grant-1", 2000, 0⟩, [] ++ asked, 2⟩⟩ ∧
      asked.map Exchange.request = [LoginSigner.loginMessage, LoginSigner.loginMessage].map
        (fun login => .sshSignature (request rootInvocation login) none "grant-1") ∧
      asked.map Exchange.answer = signatures.map fun reply => .ok (some (.sshSignature reply)) := by
  have hreply : validateReply LoginSigner.agentReply = .ok () := by decide +kernel
  have hlogin : (request rootInvocation LoginSigner.loginMessage).validate LoginSigner.signerLibraries
      (fun _ => true) = .ok () := by decide +kernel
  have hvalid : ∀ login ∈ [LoginSigner.loginMessage, LoginSigner.loginMessage], (request rootInvocation
      login).validate LoginSigner.signerLibraries (fun _ => true) = .ok () := by
    intro login hmem
    have hsame : login = LoginSigner.loginMessage := by simpa using hmem
    rw [hsame]
    exact hlogin
  exact approved_logins_ask_nobody signing ⟨some ⟨"grant-1", 2000, 2⟩, [], 0⟩ ⟨"grant-1", 2000, 2⟩
    [LoginSigner.loginMessage, LoginSigner.loginMessage] _ rfl (Nat.le_refl 2)
    (fun _ _ => Nat.lt_of_sub_eq_succ rfl) hvalid (fun _ _ => ⟨LoginSigner.agentReply, rfl, hreply⟩) rfl rfl
    (Nat.le_refl 2) (delivered_single _)

end

end NixSecrets.LoginAgent
