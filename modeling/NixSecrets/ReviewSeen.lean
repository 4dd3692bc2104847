import NixSecrets.HostReview

namespace NixSecrets.HostReview

namespace World

def Shown (w : World) (batch : String) (line : Nat) : Prop :=
  ∃ frame ∈ w.frames, frame.batch = batch ∧ line ∈ frame.displayed

def last (w : World) (batch : String) : Option Frame := w.frames.find? (·.batch = batch)

/-- What keeps a batch from being accepted unread. A key finds the review as it was last displayed.
The display of a batch that was scrolled to its end follows at once and in the same layout. No
display of a batch starts below the bottom of the one before. -/
def Keeps (w : World) : Event → Prop
  | .render window =>
    (w.ahead = true → window.empty = false ∧
      ∀ frame ∈ w.frames.head?, frame.layout = window.review frame.batch) ∧
    ∀ frame ∈ (w.model.render window).2, ∀ previous ∈ w.last frame.batch,
      ∀ line ∈ frame.layout.rows.take frame.top,
        line ∈ previous.layout.rows.take (previous.top + previous.layout.height)
  | .key _ _ _ => w.ahead = false ∧ (w.model.reads.isSome → w.onScreen.isSome)
  | .notice _ | .showPending _ | .becomes _ | .prompt _ | .minimise _ | .restore => w.ahead = false

def AllKeep (w : World) : List Event → Prop
  | [] => True
  | event :: events => w.Keeps event ∧ (w.step event).AllKeep events

end World

/-- The window lays out every line of every batch. -/
def Event.Whole (lines : String → Nat) : Event → Prop
  | .render window => ∀ batch, ∀ line < lines batch, line ∈ (window.review batch).rows
  | _ => True

/-- The review on screen is as it was displayed. -/
structure Current (m : Model) (frame : Frame) : Prop where
  reads : ∃ token, m.reads = some token ∧ token.getD "" = frame.batch
  limit : m.scrollLimit = frame.layout.limit
  scroll : frame.batch ≠ "" → frame.scroll = m.reviewScroll frame.batch

/-- The end of the batch is in reach, and only its display is missing. -/
structure Due (m : Model) (frame : Frame) : Prop where
  reads : ∃ token, m.reads = some token ∧ token.getD "" = frame.batch
  marked : m.hostReview = some (frame.batch, true)
  scroll : frame.layout.limit ≤ m.modalScroll
  limit : frame.layout.limit ≠ maxScroll

structure Read (lines : String → Nat) (w : World) : Prop where
  whole : ∀ frame ∈ w.frames, ∀ line < lines frame.batch, line ∈ frame.layout.rows
  covered : ∀ frame batch, batch ≠ "" → w.last batch = some frame →
    ∀ line ∈ frame.layout.rows.take (frame.top + frame.layout.height), w.Shown batch line
  started : ∀ batch seen, batch ≠ "" → w.model.hostReview = some (batch, seen) → (w.last batch).isSome
  finished : ∀ batch, batch ≠ "" → w.model.hostReview = some (batch, true) → w.ahead = false →
    ∀ line < lines batch, w.Shown batch line
  current : ∀ frame, w.onScreen = some frame → w.frames.head? = some frame ∧ Current w.model frame
  due : w.ahead = true → ∃ frame, w.frames.head? = some frame ∧ Due w.model frame
  sent : ∀ batch, (true, batch) ∈ w.sent → batch ≠ "" ∧ ∀ line < lines batch, w.Shown batch line
  counted : ∀ batch limit, (batch, limit) ∈ w.counted →
    ∃ frame ∈ w.frames, frame.batch = batch ∧ frame.layout.limit = limit

theorem last_head {w : World} {frame : Frame} (h : w.frames.head? = some frame) :
    w.last frame.batch = some frame := by
  obtain ⟨rest, hframes⟩ := List.head?_eq_some_iff.mp h
  rw [World.last, hframes]
  exact List.find?_cons_of_pos (by simp)

/-- All rows down to the bottom of the last page are all rows. -/
theorem take_bottom {layout : Layout} (h : layout.limit ≠ maxScroll) :
    layout.rows.take (layout.limit + layout.height) = layout.rows := by
  apply List.take_of_length_le
  unfold Layout.limit at h ⊢
  omega

theorem top_of_limit_le {frame : Frame} (h : frame.layout.limit ≤ frame.scroll) : frame.top = frame.layout.limit := by
  rw [Frame.top]
  omega

theorem mem_displayed {frame : Frame} {line : Nat}
    (h : line ∈ frame.layout.rows.take (frame.top + frame.layout.height)) :
    line ∈ frame.layout.rows.take frame.top ∨ line ∈ frame.displayed := by
  rw [List.take_add] at h
  exact List.mem_append.mp h

theorem reduce_unread {m : Model} {key : Key} {cursor : Nat} {reply : Reply} (h : m.reads = none) :
    (m.reduce key cursor reply).1.hostReview = m.hostReview ∧ (m.reduce key cursor reply).2 = none := by
  unfold Model.reads at h
  unfold Model.reduce
  by_cases hprompt : m.prompt = true
  · rw [if_pos hprompt]
    exact ⟨rfl, rfl⟩
  · rw [if_neg hprompt]
    cases hmessage : m.message with
    | some notice =>
      refine ⟨?_, rfl⟩
      show (m.noticeInput notice.severity key).hostReview = m.hostReview
      unfold Model.noticeInput
      cases notice.severity with
      | info => rfl
      | failure => dsimp only; split_ifs <;> rfl
    | none =>
      have hopen : ¬ (m.prompt = true ∨ m.message.isSome = true) := by simp [hprompt, hmessage]
      rw [if_neg hopen] at h
      cases hmode : m.mode with
      | review token => rw [hmode] at h; cases h
      | browse => exact ⟨rfl, rfl⟩
      | approval => dsimp only; split_ifs <;> exact ⟨rfl, rfl⟩
      | other passesThrough arrows edits =>
        cases arrows with
        | true => dsimp only; split_ifs <;> exact ⟨rfl, rfl⟩
        | false => exact ⟨rfl, rfl⟩

theorem reads_some {m : Model} {token : Option String} (h : m.reads = some token) :
    m.prompt = false ∧ m.message = none ∧ m.mode = .review token := by
  unfold Model.reads at h
  split at h
  next => cases h
  next hopen =>
    rw [not_or, Bool.not_eq_true, Option.isSome_iff_ne_none, not_not] at hopen
    cases hmode : m.mode with
    | review token' => rw [hmode] at h; cases h; exact ⟨hopen.1, hopen.2, rfl⟩
    | browse => rw [hmode] at h; cases h
    | approval => rw [hmode] at h; cases h
    | other => rw [hmode] at h; cases h

theorem reduce_read {m : Model} {token : Option String} {key : Key} {cursor : Nat} {reply : Reply}
    (h : m.reads = some token) : m.reduce key cursor reply = m.hostMutations token key reply := by
  obtain ⟨hprompt, hmessage, hmode⟩ := reads_some h
  unfold Model.reduce
  rw [if_neg (by rw [hprompt]; exact Bool.false_ne_true), hmessage, hmode]

theorem openReview_same (m : Model) (batch : String) :
    (m.openReview batch).reads = m.reads ∧ (m.openReview batch).scrollLimit = m.scrollLimit ∧
      (m.openReview batch).reviewScroll batch = m.reviewScroll batch := by
  unfold Model.openReview
  split
  next => exact ⟨rfl, rfl, rfl⟩
  next hother =>
    refine ⟨rfl, rfl, ?_⟩
    rw [Model.reviewScroll, Model.reviewScroll, if_neg hother]
    exact if_pos rfl

theorem openReview_hostReview (m : Model) (batch : String) :
    (m.openReview batch).hostReview = some (batch, false) ∨
      m.hostReview = some (batch, true) ∧ (m.openReview batch).hostReview = some (batch, true) := by
  unfold Model.openReview
  split
  next hsame =>
    obtain ⟨⟨token, seen⟩, hreview, htoken⟩ := Option.map_eq_some_iff.mp hsame
    cases htoken
    cases seen with
    | false => exact .inl hreview
    | true => exact .inr ⟨hreview, hreview⟩
  next => exact .inl rfl

theorem scrollReview_same (m : Model) (key : Key) :
    (m.scrollReview key).reads = m.reads ∧ (m.scrollReview key).scrollLimit = m.scrollLimit ∧
      (m.scrollReview key).hostReview = m.hostReview := by
  unfold Model.scrollReview
  split <;> exact ⟨rfl, rfl, rfl⟩

theorem markReview_same (m : Model) (batch : String) :
    (m.markReview batch).reads = m.reads ∧ (m.markReview batch).scrollLimit = m.scrollLimit ∧
      (m.markReview batch).modalScroll = m.modalScroll := by
  unfold Model.markReview
  split <;> exact ⟨rfl, rfl, rfl⟩

theorem markReview_atEnd {m : Model} {batch : String} (h : m.hostReview.map Prod.fst = some batch) :
    (m.markReview batch).hostReviewAtEnd batch = m.hostReviewAtEnd batch := by
  unfold Model.markReview
  split
  next =>
    unfold Model.hostReviewAtEnd Model.reviewScroll
    rw [h]
    rfl
  next => rfl

theorem readReview_reads (m : Model) (batch : String) (key : Key) :
    (m.readReview batch key).reads = m.reads ∧ (m.readReview batch key).scrollLimit = m.scrollLimit := by
  obtain ⟨hopened, hlimit, -⟩ := openReview_same m batch
  obtain ⟨hscrolled, hlimit', -⟩ := scrollReview_same (m.openReview batch) key
  obtain ⟨hmarked, hlimit'', -⟩ := markReview_same ((m.openReview batch).scrollReview key) batch
  exact ⟨hmarked.trans (hscrolled.trans hopened), hlimit''.trans (hlimit'.trans hlimit)⟩

theorem scrolled_batch (m : Model) (batch : String) (key : Key) :
    ((m.openReview batch).scrollReview key).hostReview.map Prod.fst = some batch := by
  rw [(scrollReview_same _ key).2.2]
  rcases openReview_hostReview m batch with hreview | ⟨-, hreview⟩ <;> rw [hreview] <;> rfl

theorem readReview_hostReview (m : Model) (batch : String) (key : Key) :
    (m.readReview batch key).hostReview = some (batch, false) ∧
        (m.readReview batch key).hostReviewAtEnd batch = false ∨
      (m.readReview batch key).hostReview = some (batch, true) ∧
        (m.hostReview = some (batch, true) ∨ (m.readReview batch key).hostReviewAtEnd batch = true) := by
  have hatEnd := markReview_atEnd (scrolled_batch m batch key)
  have hscrolled := (scrollReview_same (m.openReview batch) key).2.2
  unfold Model.readReview
  rw [hatEnd]
  unfold Model.markReview
  cases hend : ((m.openReview batch).scrollReview key).hostReviewAtEnd batch with
  | true => exact .inr ⟨rfl, .inr rfl⟩
  | false =>
    rcases openReview_hostReview m batch with hreview | ⟨hbefore, hreview⟩
    · exact .inl ⟨hscrolled.trans hreview, rfl⟩
    · exact .inr ⟨hscrolled.trans hreview, .inl hbefore⟩

/-- A key that is no arrow leaves the offset at which the batch is displayed. -/
theorem readReview_scroll {m : Model} {batch : String} {key : Key} (h : key.isArrow = false) :
    (m.readReview batch key).reviewScroll batch = m.reviewScroll batch := by
  have hstays : (m.openReview batch).scrollReview key = m.openReview batch := by
    rw [Model.scrollReview, if_neg (by rw [h]; exact Bool.false_ne_true)]
  have hbatch := scrolled_batch m batch key
  rw [Model.readReview, hstays]
  rw [hstays] at hbatch
  rw [← (openReview_same m batch).2.2, Model.reviewScroll, Model.reviewScroll, if_pos hbatch,
    (markReview_same _ batch).2.2]
  apply if_pos
  unfold Model.markReview
  split
  next => rfl
  next => exact hbatch

theorem readReview_batch (m : Model) (batch : String) (key : Key) :
    (m.readReview batch key).hostReview.map Prod.fst = some batch := by
  rcases readReview_hostReview m batch key with ⟨hreview, -⟩ | ⟨hreview, -⟩ <;> rw [hreview] <;> rfl

theorem atEnd_iff {m : Model} {batch : String} :
    m.hostReviewAtEnd batch = true ↔ m.hostReviewRendered = some batch ∧ m.scrollLimit ≠ maxScroll ∧
      m.scrollLimit ≤ m.reviewScroll batch := by
  simp [Model.hostReviewAtEnd, and_assoc]

theorem pushNotice_hostReview (m : Model) (notice : Notice) : (m.pushNotice notice).hostReview = m.hostReview := by
  unfold Model.pushNotice
  split
  next => rfl
  next =>
    cases m.message with
    | some displaced => dsimp only; split_ifs <;> rfl
    | none => dsimp only; split_ifs <;> rfl

theorem decide_hostReview (m : Model) (token : Option String) (accepted : Bool) (reply : Reply) :
    (m.decide token accepted reply).1.hostReview = m.hostReview := by
  unfold Model.decide
  cases token.filter (· ≠ "") with
  | none => exact pushNotice_hostReview _ _
  | some batch =>
    cases reply with
    | next mode => rfl
    | done => rfl
    | queued => rfl
    | failed message => exact pushNotice_hostReview _ _

theorem decide_sent {m : Model} {token : Option String} {accepted : Bool} {reply : Reply} {sent : Bool × String}
    (h : (m.decide token accepted reply).2 = some sent) :
    sent.1 = accepted ∧ token = some sent.2 ∧ sent.2 ≠ "" := by
  unfold Model.decide at h
  cases hbatch : token.filter (· ≠ "") with
  | none => rw [hbatch] at h; cases h
  | some batch =>
    obtain ⟨htoken, hsome⟩ := Option.filter_eq_some_iff.mp hbatch
    have hsent : some (accepted, batch) = some sent := by
      rw [hbatch] at h
      cases reply <;> exact h
    cases hsent
    exact ⟨rfl, htoken, by simpa using hsome⟩

theorem hostMutations_hostReview (m : Model) (token : Option String) (key : Key) (reply : Reply) :
    (m.hostMutations token key reply).1.hostReview = (m.readReview (token.getD "") key).hostReview := by
  unfold Model.hostMutations
  cases key with
  | yes =>
    dsimp only
    split
    next => exact decide_hostReview _ _ _ _
    next => rfl
  | no => exact decide_hostReview _ _ _ _
  | escape => exact decide_hostReview _ _ _ _
  | up | down | enter | other => rfl

theorem hostMutations_arrow (m : Model) (token : Option String) {key : Key} (reply : Reply) (h : key.isArrow = true) :
    m.hostMutations token key reply = (m.readReview (token.getD "") key, none) := by
  cases key with
  | up | down => rfl
  | yes | no | escape | enter | other => cases h

/-- An acceptance is sent only for the batch of the review, by a key that finds it seen. -/
theorem hostMutations_accepts {m : Model} {token : Option String} {key : Key} {reply : Reply} {batch : String}
    (h : (m.hostMutations token key reply).2 = some (true, batch)) :
    key = .yes ∧ token = some batch ∧ batch ≠ "" ∧ (m.readReview batch key).hostReviewSeen batch = true := by
  unfold Model.hostMutations at h
  cases key with
  | yes =>
    dsimp only at h
    split at h
    next hseen =>
      obtain ⟨-, htoken, hsome⟩ := decide_sent h
      rw [htoken] at hseen
      exact ⟨rfl, htoken, hsome, hseen⟩
    next => cases h
  | no => cases (decide_sent h).1
  | escape => cases (decide_sent h).1
  | up | down | enter | other => cases h

theorem reviewScroll_of_batch {m : Model} {batch : String} (h : m.hostReview.map Prod.fst = some batch) :
    m.reviewScroll batch = m.modalScroll := if_pos h

/-- The first reads of a batch at the top of the review start its last display. -/
theorem Read.shown_of_end {lines : String → Nat} {w : World} {frame : Frame} (h : Read lines w)
    (hhead : w.frames.head? = some frame) (hbatch : frame.batch ≠ "") (hlimit : frame.layout.limit ≠ maxScroll)
    (hend : frame.layout.limit ≤ frame.scroll) : ∀ line < lines frame.batch, w.Shown frame.batch line := by
  intro line hline
  apply h.covered frame frame.batch hbatch (last_head hhead) line
  rw [top_of_limit_le hend, take_bottom hlimit]
  exact h.whole frame (List.mem_of_head? hhead) line hline

theorem Read.change {lines : String → Nat} {w : World} {m : Model} (h : Read lines w) (hahead : w.ahead = false)
    (hreview : ∀ review, m.hostReview = some review → w.model.hostReview = some review) :
    Read lines (w.change m) where
  whole := h.whole
  covered := h.covered
  started batch seen hbatch hmarked := h.started batch seen hbatch (hreview _ hmarked)
  finished batch hbatch hmarked _ := h.finished batch hbatch (hreview _ hmarked) hahead
  current _ honScreen := nomatch honScreen
  due hdue := by rw [show (w.change m).ahead = w.ahead from rfl, hahead] at hdue; cases hdue
  sent := h.sent
  counted := h.counted

theorem minimise_hostReview {m : Model} {own : Bool} {review : String × Bool}
    (h : (m.minimise own).hostReview = some review) : m.hostReview = some review := by
  unfold Model.minimise at h
  split at h
  next => exact (Option.filter_eq_some_iff.mp h).1
  next => exact h

theorem step_key (w : World) (key : Key) (cursor : Nat) (reply : Reply) :
    (w.step (.key key cursor reply)).sent = (w.model.reduce key cursor reply).2.toList ++ w.sent ∧
      (w.step (.key key cursor reply)).counted = (w.model.counts key).toList ++ w.counted ∧
      (w.step (.key key cursor reply)).model = (w.model.reduce key cursor reply).1 ∧
      (w.step (.key key cursor reply)).ahead = (key.isArrow &&
        (w.model.reduce key cursor reply).1.hostReview.any (·.2) &&
        (w.model.reduce key cursor reply).1.hostReview != w.model.hostReview) :=
  ⟨rfl, rfl, rfl, rfl⟩

/-- A key that no review takes. -/
theorem Read.pass {lines : String → Nat} {w : World} (h : Read lines w) (hahead : w.ahead = false) {key : Key}
    {cursor : Nat} {reply : Reply} (hreads : w.model.reads = none) : Read lines (w.step (.key key cursor reply)) := by
  have hreview : (w.model.reduce key cursor reply).1.hostReview = w.model.hostReview := (reduce_unread hreads).1
  have hsent : (w.model.reduce key cursor reply).2 = none := (reduce_unread hreads).2
  have hcounts : w.model.counts key = none := by rw [Model.counts, hreads]; rfl
  have hchanged := h.change (m := (w.model.reduce key cursor reply).1) hahead fun review hsome => hreview ▸ hsome
  have hstill : (key.isArrow && (w.model.reduce key cursor reply).1.hostReview.any (·.2) &&
      (w.model.reduce key cursor reply).1.hostReview != w.model.hostReview) = false := by
    rw [hreview, bne_self_eq_false, Bool.and_false]
  unfold World.step
  dsimp only
  rw [hsent, hcounts, hstill]
  exact { hchanged with
    finished := fun batch hbatch hmarked _ => h.finished batch hbatch (hreview ▸ hmarked) hahead
    due := fun hdue => nomatch hdue }

/-- A key in the review that is on screen. -/
theorem Read.key {lines : String → Nat} {w : World} (h : Read lines w) (hahead : w.ahead = false) {key : Key}
    {cursor : Nat} {reply : Reply} {frame : Frame} (honScreen : w.onScreen = some frame) :
    Read lines (w.step (.key key cursor reply)) := by
  obtain ⟨hhead, ⟨token, hreads, htoken⟩, hlimit, hscroll⟩ := h.current frame honScreen
  have hmem := List.mem_of_head? hhead
  have hreview : (w.model.reduce key cursor reply).1.hostReview =
      (w.model.readReview frame.batch key).hostReview := by
    rw [reduce_read hreads, hostMutations_hostReview, htoken]
  obtain ⟨hsents, hcounteds, hmodel, haheads⟩ := step_key w key cursor reply
  have hread := readReview_hostReview w.model frame.batch key
  have hlimits := (readReview_reads w.model frame.batch key).2
  have hatEnd (hkey : key.isArrow = false) (hbatch : frame.batch ≠ "")
      (hend : (w.model.readReview frame.batch key).hostReviewAtEnd frame.batch = true) :
      ∀ line < lines frame.batch, w.Shown frame.batch line := by
    obtain ⟨-, hmax, hreached⟩ := atEnd_iff.mp hend
    rw [hlimits, hlimit] at hmax
    rw [hlimits, hlimit, readReview_scroll hkey, ← hscroll hbatch] at hreached
    exact h.shown_of_end hhead hbatch hmax hreached
  have hmarked (batch : String) (hsome : (w.model.readReview frame.batch key).hostReview = some (batch, true)) :
      batch = frame.batch := by
    rcases hread with ⟨hfalse, -⟩ | ⟨htrue, -⟩
    · rw [hfalse] at hsome; cases hsome
    · rw [htrue] at hsome; cases hsome; rfl
  refine ⟨h.whole, h.covered, ?_, ?_, nofun, ?_, ?_, ?_⟩
  · intro batch seen hbatch hsome
    have hsame := readReview_batch w.model frame.batch key
    rw [hmodel, hreview] at hsome
    rw [hsome] at hsame
    cases hsame
    show (w.last frame.batch).isSome
    rw [last_head hhead]
    rfl
  · intro batch hbatch hsome hnotAhead
    rw [hmodel] at hsome
    rw [haheads] at hnotAhead
    have hsame := hmarked batch (hreview ▸ hsome)
    by_cases hbefore : w.model.hostReview = some (batch, true)
    · exact h.finished batch hbatch hbefore hahead
    · have hkey : key.isArrow = false := by
        rw [hsome, Option.any_some, Bool.and_true] at hnotAhead
        by_contra harrow
        rw [Bool.not_eq_false] at harrow
        rw [harrow, Bool.true_and, bne_eq_false_iff_eq] at hnotAhead
        exact hbefore hnotAhead.symm
      rcases hread with ⟨hfalse, -⟩ | ⟨-, hmark | hend⟩
      · rw [← hreview, hsome] at hfalse; cases hfalse
      · exact absurd (hsame ▸ hmark) hbefore
      · rw [hsame]
        exact hatEnd hkey (hsame ▸ hbatch) hend
  · intro hdue
    rw [haheads, Bool.and_eq_true, Bool.and_eq_true] at hdue
    obtain ⟨⟨hkey, hany⟩, hnew⟩ := hdue
    have harrow : (w.model.reduce key cursor reply).1 = w.model.readReview frame.batch key := by
      rw [reduce_read hreads, hostMutations_arrow _ _ _ hkey, htoken]
    rw [hreview] at hany hnew
    rcases hread with ⟨hfalse, -⟩ | ⟨htrue, hmark | hend⟩
    · rw [hfalse] at hany; cases hany
    · rw [htrue, hmark, bne_self_eq_false] at hnew; cases hnew
    · obtain ⟨-, hmax, hreached⟩ := atEnd_iff.mp hend
      rw [reviewScroll_of_batch (readReview_batch w.model frame.batch key), hlimits, hlimit] at hreached
      rw [hlimits, hlimit] at hmax
      refine ⟨frame, hhead, ?_⟩
      rw [hmodel, harrow]
      exact ⟨⟨token, (readReview_reads w.model frame.batch key).1.trans hreads, htoken⟩, htrue, hreached, hmax⟩
  · intro batch hsent
    rw [hsents] at hsent
    rcases List.mem_append.mp hsent with hnew | hold
    · rw [reduce_read hreads] at hnew
      obtain ⟨hkey, htoken', hbatch, hseen⟩ := hostMutations_accepts (Option.mem_toList.mp hnew)
      have hsame : batch = frame.batch := by rw [← htoken, htoken']; rfl
      refine ⟨hbatch, ?_⟩
      rw [hsame] at hbatch hseen ⊢
      have harrow : key.isArrow = false := by rw [hkey]; rfl
      rw [Model.hostReviewSeen, Bool.or_eq_true, decide_eq_true_eq] at hseen
      rcases hseen with hmark | hend
      · rcases hread with ⟨hfalse, -⟩ | ⟨-, hbefore | hend⟩
        · rw [hfalse] at hmark; cases hmark
        · exact h.finished frame.batch hbatch hbefore hahead
        · exact hatEnd harrow hbatch hend
      · exact hatEnd harrow hbatch hend
    · exact h.sent batch hold
  · intro batch limit hcounted
    rw [hcounteds] at hcounted
    rcases List.mem_append.mp hcounted with hnew | hold
    · have hnew := Option.mem_toList.mp hnew
      rw [Model.counts, hreads, Option.bind_some] at hnew
      dsimp only at hnew
      rw [htoken] at hnew
      split at hnew
      next => cases hnew; exact ⟨frame, hmem, rfl, hlimit.symm⟩
      next => cases hnew
    · exact h.counted batch limit hold

/-- A render measures; it changes nothing that a key is taken by. -/
structure Drawn (m m' : Model) : Prop where
  mode : m'.mode = m.mode
  message : m'.message = m.message
  prompt : m'.prompt = m.prompt
  hostReview : m'.hostReview = m.hostReview
  modalScroll : m'.modalScroll = m.modalScroll

theorem Drawn.refl (m : Model) : Drawn m m := ⟨rfl, rfl, rfl, rfl, rfl⟩

theorem Drawn.trans {m m' m'' : Model} (h : Drawn m m') (h' : Drawn m' m'') : Drawn m m'' :=
  ⟨h'.mode.trans h.mode, h'.message.trans h.message, h'.prompt.trans h.prompt,
    h'.hostReview.trans h.hostReview, h'.modalScroll.trans h.modalScroll⟩

theorem Drawn.reads {m m' : Model} (h : Drawn m m') : m'.reads = m.reads := by
  rw [Model.reads, Model.reads, h.mode, h.message, h.prompt]

theorem Drawn.reviewScroll {m m' : Model} (h : Drawn m m') (batch : String) :
    m'.reviewScroll batch = m.reviewScroll batch := by
  rw [Model.reviewScroll, Model.reviewScroll, h.hostReview, h.modalScroll]

theorem drawDialog_drawn (m : Model) (window : Window) (limit : Option Nat) :
    Drawn m (m.drawDialog window limit) := by
  unfold Model.drawDialog
  split <;> exact ⟨rfl, rfl, rfl, rfl, rfl⟩

theorem measureHostReview_drawn (m : Model) (window : Window) : Drawn m (m.measureHostReview window) := by
  obtain ⟨mode, message, notifications, prompt, modalScroll, scrollLimit, hostReview, rendered⟩ := m
  cases mode with
  | review token => cases token <;> exact ⟨rfl, rfl, rfl, rfl, rfl⟩
  | browse | approval | other => exact Drawn.refl _

theorem renderModeModal_drawn (m : Model) (window : Window) : Drawn m (m.renderModeModal window).1 := by
  unfold Model.renderModeModal
  cases m.mode with
  | browse => exact Drawn.refl m
  | review token => exact drawDialog_drawn _ _ _
  | approval | other => exact drawDialog_drawn _ _ _

theorem renderModal_drawn (m : Model) (window : Window) : Drawn m (m.renderModal window).1 := by
  unfold Model.renderModal
  cases m.message with
  | none => exact renderModeModal_drawn m window
  | some notice =>
    dsimp only
    split
    next => exact drawDialog_drawn _ _ _
    next => exact renderModeModal_drawn m window

theorem render_drawn (m : Model) (window : Window) : Drawn m (m.render window).1 := by
  have hmodal := (measureHostReview_drawn m window).trans (renderModal_drawn _ window)
  unfold Model.render
  dsimp only
  split
  next => exact hmodal.trans (drawDialog_drawn _ _ _)
  next => exact hmodal

theorem renderModeModal_frame {m : Model} {window : Window} {frame : Frame}
    (h : (m.renderModeModal window).2 = some frame) : window.empty = false ∧ ∃ token, m.mode = .review token := by
  unfold Model.renderModeModal at h
  cases hmode : m.mode with
  | review token =>
    rw [hmode] at h
    cases hempty : window.empty with
    | true => simp only [hempty] at h; cases h
    | false => exact ⟨rfl, token, rfl⟩
  | browse | approval | other => rw [hmode] at h; cases h

theorem renderModal_frame {m : Model} {window : Window} {frame : Frame}
    (h : (m.renderModal window).2 = some frame) :
    window.empty = false ∧ m.message = none ∧ ∃ token, m.mode = .review token := by
  unfold Model.renderModal at h
  cases hmessage : m.message with
  | none =>
    rw [hmessage] at h
    obtain ⟨hempty, hmode⟩ := renderModeModal_frame h
    exact ⟨hempty, rfl, hmode⟩
  | some notice =>
    rw [hmessage] at h
    dsimp only at h
    split at h
    next => cases h
    next hpasses =>
      obtain ⟨-, token, hmode⟩ := renderModeModal_frame h
      rw [hmode] at hpasses
      exact absurd (.inr rfl) hpasses

/-- Only a review that takes keys is displayed. -/
theorem render_frame {m : Model} {window : Window} {frame : Frame} (h : (m.render window).2 = some frame) :
    window.empty = false ∧ ∃ token, m.reads = some token := by
  have hmeasured := measureHostReview_drawn m window
  have hmodal := renderModal_drawn (m.measureHostReview window) window
  unfold Model.render at h
  dsimp only at h
  split at h
  next => cases h
  next hprompt =>
    obtain ⟨hempty, hmessage, token, hmode⟩ := renderModal_frame h
    refine ⟨hempty, token, ?_⟩
    rw [hmodal.prompt, hmeasured.prompt] at hprompt
    rw [hmeasured.message] at hmessage
    rw [hmeasured.mode] at hmode
    have hopen : ¬ (m.prompt = true ∨ m.message.isSome = true) := by simp [hprompt, hmessage]
    rw [Model.reads, if_neg hopen, hmode]

/-- A review that takes keys is displayed by a render, in any window but an empty one. -/
theorem render_reads {m : Model} {window : Window} {token : Option String} (hreads : m.reads = some token)
    (hempty : window.empty = false) :
    (m.render window).1.scrollLimit = (window.review (token.getD "")).limit ∧
      ∃ scroll, (m.render window).2 = some ⟨token.getD "", window.review (token.getD ""), scroll⟩ ∧
        (token.getD "" ≠ "" → scroll = m.reviewScroll (token.getD "")) := by
  obtain ⟨hprompt, hmessage, hmode⟩ := reads_some hreads
  obtain ⟨mode, message, notifications, prompt, modalScroll, scrollLimit, hostReview, rendered⟩ := m
  cases hprompt
  cases hmessage
  cases hmode
  cases token with
  | none =>
    simp only [Model.render, Model.measureHostReview, Model.renderModal, Model.renderModeModal,
      Model.drawDialog, hempty]
    exact ⟨rfl, modalScroll, rfl, fun hne => absurd rfl hne⟩
  | some batch =>
    simp only [Model.render, Model.measureHostReview, Model.renderModal, Model.renderModeModal,
      Model.drawDialog, hempty]
    exact ⟨rfl, _, rfl, fun _ => rfl⟩

theorem Read.render {lines : String → Nat} {w : World} (h : Read lines w) {window : Window}
    (hwhole : (Event.render window).Whole lines) (hkeeps : w.Keeps (.render window)) :
    Read lines (w.step (.render window)) := by
  obtain ⟨hends, hgap⟩ := hkeeps
  have hdrawn := render_drawn w.model window
  have hreview := hdrawn.hostReview
  have hgrows (batch : String) (line : Nat) (hshown : w.Shown batch line) :
      (w.step (.render window)).Shown batch line := by
    obtain ⟨frame, hframe, hbatch, hline⟩ := hshown
    exact ⟨frame, List.mem_append_right _ hframe, hbatch, hline⟩
  cases hframe : (w.model.render window).2 with
  | none =>
    have hstep : w.step (.render window) =
        { w with model := (w.model.render window).1, onScreen := none, ahead := false } := by
      unfold World.step
      dsimp only
      rw [hframe]
      rfl
    have hbehind : w.ahead = false := by
      by_contra hahead
      rw [Bool.not_eq_false] at hahead
      obtain ⟨frame, -, ⟨token, hreads', -⟩, -⟩ := h.due hahead
      obtain ⟨-, scroll, hsome, -⟩ := render_reads hreads' (hends hahead).1
      rw [hframe] at hsome
      cases hsome
    rw [hstep]
    exact {
      whole := h.whole
      covered := h.covered
      started := fun batch seen hbatch hsome => h.started batch seen hbatch (hreview ▸ hsome)
      finished := fun batch hbatch hsome _ => h.finished batch hbatch (hreview ▸ hsome) hbehind
      current := fun _ honScreen => nomatch honScreen
      due := fun hdue => nomatch hdue
      sent := h.sent
      counted := h.counted }
  | some frame =>
    obtain ⟨hempty, token, htakes⟩ := render_frame hframe
    obtain ⟨hlimit, scroll, hsome, hoffset⟩ := render_reads htakes hempty
    have hbatch : frame.batch = token.getD "" := by
      rw [hframe] at hsome; cases hsome; rfl
    have hlayout : frame.layout = window.review frame.batch := by
      rw [hframe] at hsome; cases hsome; rfl
    have hat : frame.batch ≠ "" → frame.scroll = w.model.reviewScroll frame.batch := by
      rw [hframe] at hsome; cases hsome; exact hoffset
    have hstep : w.step (.render window) = { w with
        model := (w.model.render window).1
        frames := frame :: w.frames
        onScreen := some frame
        ahead := false } := by
      unfold World.step
      dsimp only
      rw [hframe]
      rfl
    have hdisplayed (line : Nat) (hline : line ∈ frame.displayed) :
        (w.step (.render window)).Shown frame.batch line := by
      rw [hstep]
      exact ⟨frame, List.mem_cons_self, rfl, hline⟩
    -- What lies above the new display was displayed before, or the display starts at the top.
    have hcovered : frame.batch ≠ "" → ∀ line ∈ frame.layout.rows.take (frame.top + frame.layout.height),
        (w.step (.render window)).Shown frame.batch line := by
      intro hne line hline
      rcases mem_displayed hline with habove | hline
      · cases hlast : w.last frame.batch with
        | some previous =>
          have hbefore := hgap frame hframe previous hlast line habove
          exact hgrows _ _ (h.covered previous frame.batch hne hlast line hbefore)
        | none =>
          have htop : frame.top = 0 := by
            rw [Frame.top, hat hne, Model.reviewScroll, if_neg]
            · exact Nat.zero_min _
            · intro hsame
              obtain ⟨⟨batch, seen⟩, hmarked, hbatch'⟩ := Option.map_eq_some_iff.mp hsame
              cases hbatch'
              have hstarted := h.started frame.batch seen hne hmarked
              rw [hlast] at hstarted
              cases hstarted
          rw [htop] at habove
          cases habove
      · exact hdisplayed line hline
    have hlasts (batch : String) : (w.step (.render window)).last batch =
        if frame.batch = batch then some frame else w.last batch := by
      rw [hstep, World.last, List.find?_cons]
      by_cases hsame : frame.batch = batch
      · rw [if_pos hsame, decide_eq_true hsame]
      · rw [if_neg hsame, decide_eq_false hsame]
        rfl
    have hmodel : (w.step (.render window)).model = (w.model.render window).1 := rfl
    have hhead : (w.step (.render window)).frames.head? = some frame := by rw [hstep]; rfl
    refine ⟨?_, ?_, ?_, ?_, ?_, ?_, ?_, ?_⟩
    · intro other hother line hline
      rw [hstep] at hother
      rcases List.mem_cons.mp hother with hnew | hold
      · rw [hnew] at hline ⊢
        rw [hlayout]
        exact hwhole frame.batch line hline
      · exact h.whole other hold line hline
    · intro other batch hne hother line hline
      rw [hlasts] at hother
      split at hother
      next hsame =>
        cases hother
        rw [← hsame] at hne ⊢
        exact hcovered hne line hline
      next => exact hgrows _ _ (h.covered other batch hne hother line hline)
    · intro batch seen hne hmarked
      rw [hmodel, hreview] at hmarked
      rw [hlasts]
      split
      next => rfl
      next => exact h.started batch seen hne hmarked
    · intro batch hne hmarked _ line hline
      rw [hmodel, hreview] at hmarked
      cases hahead : w.ahead with
      | false => exact hgrows _ _ (h.finished batch hne hmarked hahead line hline)
      | true =>
        obtain ⟨previous, hprevious, ⟨token', htakes', htoken'⟩, hmarked', hscroll, hmax⟩ := h.due hahead
        have hsame : frame.batch = batch := by
          rw [htakes] at htakes'
          cases htakes'
          rw [hmarked] at hmarked'
          cases hmarked'
          rw [hbatch, htoken']
        have hprevious' : previous.batch = batch := by rw [hmarked] at hmarked'; cases hmarked'; rfl
        have hlayout' : frame.layout = previous.layout := by
          rw [hlayout, (hends hahead).2 previous hprevious, hprevious', hsame]
        have hoffset' : frame.scroll = w.model.modalScroll := by
          rw [hat (hsame ▸ hne), hsame]
          exact reviewScroll_of_batch (by rw [hmarked]; rfl)
        rw [← hsame]
        apply hcovered (hsame ▸ hne)
        have htop : frame.top = frame.layout.limit := top_of_limit_le (by rw [hlayout', hoffset']; exact hscroll)
        rw [htop, take_bottom (by rw [hlayout']; exact hmax), hlayout, hsame]
        exact hwhole batch line hline
    · intro other hother
      rw [hstep] at hother
      cases hother
      refine ⟨hhead, ⟨token, ?_, hbatch.symm⟩, ?_, ?_⟩
      · rw [hmodel, hdrawn.reads, htakes]
      · rw [hmodel, hlimit, hlayout, hbatch]
      · intro hne
        rw [hmodel, hdrawn.reviewScroll, hat hne]
    · intro hdue
      cases hdue
    · intro batch hsent
      obtain ⟨hne, hshown⟩ := h.sent batch hsent
      exact ⟨hne, fun line hline => hgrows _ _ (hshown line hline)⟩
    · intro batch limit hcounted
      obtain ⟨other, hother, hfits⟩ := h.counted batch limit hcounted
      exact ⟨other, List.mem_append_right _ hother, hfits⟩

theorem Read.step {lines : String → Nat} {w : World} {event : Event} (h : Read lines w)
    (hwhole : event.Whole lines) (hkeeps : w.Keeps event) : Read lines (w.step event) := by
  cases event with
  | render window => exact h.render hwhole hkeeps
  | key key cursor reply =>
    obtain ⟨hahead, hshown⟩ := hkeeps
    cases hreads : w.model.reads with
    | none => exact h.pass hahead hreads
    | some token =>
      obtain ⟨frame, hframe⟩ := Option.isSome_iff_exists.mp (hshown (by rw [hreads]; rfl))
      exact h.key hahead hframe
  | notice notice => exact h.change hkeeps fun review hsome => pushNotice_hostReview w.model notice ▸ hsome
  | showPending mode =>
    apply h.change hkeeps
    intro review hsome
    unfold Model.showPending at hsome
    split at hsome <;> exact hsome
  | becomes mode => exact h.change hkeeps fun _ hsome => hsome
  | prompt shown => exact h.change hkeeps fun _ hsome => hsome
  | minimise own => exact h.change hkeeps fun _ hsome => minimise_hostReview hsome
  | restore => exact h.change hkeeps fun _ hsome => hsome

theorem start_read (lines : String → Nat) : Read lines {} where
  whole _ hframe := nomatch hframe
  covered _ _ _ hlast := nomatch hlast
  started _ _ _ hmarked := nomatch hmarked
  finished _ _ hmarked := nomatch hmarked
  current _ honScreen := nomatch honScreen
  due hdue := nomatch hdue
  sent _ hsent := nomatch hsent
  counted _ _ hcounted := nomatch hcounted

theorem run_read {lines : String → Nat} {w : World} {events : List Event} (h : Read lines w)
    (hwhole : ∀ event ∈ events, event.Whole lines) (hkeep : w.AllKeep events) : Read lines (w.run events) := by
  induction events generalizing w with
  | nil => exact h
  | cons event events ih =>
    have hnext := h.step (hwhole event List.mem_cons_self) hkeep.1
    exact ih hnext (fun other hother => hwhole other (List.mem_cons_of_mem event hother)) hkeep.2

/-- A batch is accepted once every line of it was displayed, and only limits measured for it count. -/
theorem accepted_seen {lines : String → Nat} {events : List Event}
    (hwhole : ∀ event ∈ events, event.Whole lines) (hkeep : World.AllKeep {} events) :
    (∀ batch, (true, batch) ∈ (World.run {} events).sent →
      ∀ line < lines batch, (World.run {} events).Shown batch line) ∧
    ∀ batch limit, (batch, limit) ∈ (World.run {} events).counted →
      ∃ frame ∈ (World.run {} events).frames, frame.batch = batch ∧ frame.layout.limit = limit := by
  have hread := run_read (start_read lines) hwhole hkeep
  exact ⟨fun batch hsent => (hread.sent batch hsent).2, hread.counted⟩

/-- A window that shows one line of two. -/
def lowWindow : Window where
  empty := false
  review := fun _ => ⟨[0, 1], 1⟩
  notice := 0
  dialog := none
  prompt := none

def twoLines : String → Nat := fun _ => 2

theorem lowWindow_whole : (Event.render lowWindow).Whole twoLines := by
  intro batch line hline
  have hcases : line = 0 ∨ line = 1 := by
    have hlow : line < 2 := hline
    omega
  show line ∈ [0, 1]
  rcases hcases with hzero | hone
  · rw [hzero]
    exact List.mem_cons_self
  · rw [hone]
    exact List.mem_cons_of_mem 0 List.mem_cons_self

def readOut : List Event :=
  [.becomes (.review (some "batch")), .render lowWindow, .key .down 0 .done, .render lowWindow, .key .yes 0 .done]

theorem accepted_seen_readOut : (true, "batch") ∈ (World.run {} readOut).sent ∧
    ∀ line < 2, (World.run {} readOut).Shown "batch" line := by
  have hsent : (true, "batch") ∈ (World.run {} readOut).sent := by decide
  have hwhole : ∀ event ∈ readOut, event.Whole twoLines := by
    unfold readOut
    simp only [List.forall_mem_cons]
    exact ⟨trivial, lowWindow_whole, trivial, lowWindow_whole, trivial, nofun⟩
  have hkeep : World.AllKeep {} readOut := by
    unfold readOut
    simp only [World.AllKeep, World.Keeps]
    decide
  exact ⟨hsent, (accepted_seen hwhole hkeep).1 "batch" hsent⟩

/-- Two keys come before the next render: the second line is never displayed. -/
def burst : List Event :=
  [.becomes (.review (some "batch")), .render lowWindow, .key .down 0 .done, .key .yes 0 .done]

/-- A failure covers the review, and is closed by a key right before the answer. -/
def coveredBurst : List Event :=
  [.becomes (.review (some "batch")), .render lowWindow, .key .no 0 (.failed "connection reset"),
    .render lowWindow, .key .enter 0 .done, .key .yes 0 .done]

theorem unread_accepted :
    (¬ ∀ (lines : String → Nat) (events : List Event), (∀ event ∈ events, event.Whole lines) →
      ∀ batch, (true, batch) ∈ (World.run {} events).sent →
        ∀ line < lines batch, (World.run {} events).Shown batch line) ∧
    ¬ ∀ (lines : String → Nat) (events : List Event), (∀ event ∈ events, event.Whole lines) →
      ∀ batch limit, (batch, limit) ∈ (World.run {} events).counted →
        ∃ frame ∈ (World.run {} events).frames, frame.batch = batch ∧ frame.layout.limit = limit := by
  constructor
  · intro h
    have hwhole : ∀ event ∈ burst, event.Whole twoLines := by
      unfold burst
      simp only [List.forall_mem_cons]
      exact ⟨trivial, lowWindow_whole, trivial, trivial, nofun⟩
    obtain ⟨frame, hframe, -, hline⟩ := h twoLines burst hwhole "batch" (by decide) 1 (by decide)
    have hunread : ∀ frame ∈ (World.run {} burst).frames, 1 ∉ frame.displayed := by decide
    exact hunread frame hframe hline
  · intro h
    have hwhole : ∀ event ∈ coveredBurst, event.Whole twoLines := by
      unfold coveredBurst
      simp only [List.forall_mem_cons]
      exact ⟨trivial, lowWindow_whole, trivial, lowWindow_whole, trivial, trivial, nofun⟩
    obtain ⟨frame, hframe, -, hlimit⟩ := h twoLines coveredBurst hwhole "batch" 0 (by decide)
    have hother : ∀ frame ∈ (World.run {} coveredBurst).frames, frame.layout.limit ≠ 0 := by decide
    exact hother frame hframe hlimit

end NixSecrets.HostReview
