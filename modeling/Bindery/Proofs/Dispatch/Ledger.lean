import Bindery.Proofs.Dispatch.Machine
/-!
# Every dispatch keeps its record

The ledger of a run says, for each ticket, which deeds its dispatch has left so far: nothing before
it is taken, the beginning of its record while it is open, and the whole record once it is over.
`ledger_step` is the step lemma and `Runs.ledger` the run lemma; neither asks how a run ends, so
both hold in the middle of a run as well.

`Runs.nested` adds the order between dispatches: from the entering of a dispatch to its end, no
dispatch that encloses it does anything.
-/

namespace Bindery.Machine

/-! ## The ledger -/

/-- The handler of a call after some replies. The first one stays. -/
def handlerAfter (call : Call) (replies : List Value) : Option Handler :=
  call.callback.map fun _ => ⟨replies.head?⟩

/-- The deeds of an open dispatch, as far as it has come. -/
def Stage.Recorded (stage : Stage) (taken : Taken) (deeds : Journal) : Prop :=
  ∃ count replies, match stage with
    | .delegate _ _ _ handler =>
      handler = handlerAfter taken.call replies ∧ deeds = taken.begun count replies
    | .over handler =>
      handler = handlerAfter taken.call replies ∧
        deeds = taken.begun count replies ++ [.exited taken.ticket]
    | .callback _ =>
      taken.call.callback.isSome ∧
        deeds = taken.begun count replies ++
          [.exited taken.ticket, .called taken.ticket replies.head?]

/-- The deeds of a dispatch that is over. -/
def Complete (ticket : Nat) (deeds : Journal) : Prop :=
  ∃ (taken : Taken) (count : UInt64) (replies : List Value),
    taken.ticket = ticket ∧ deeds = taken.record count replies

/-- What the journal of a run holds of each dispatch, when so many have been taken and these are
open. -/
structure Ledger (journal : Journal) (tickets : Nat) (frames : List Frame) : Prop where
  /-- An open dispatch is younger than those that enclose it. -/
  sorted : frames.Pairwise fun inner outer => outer.taken.ticket < inner.taken.ticket
  bounded : ∀ frame ∈ frames, frame.taken.ticket < tickets
  opened : ∀ frame ∈ frames, frame.stage.Recorded frame.taken (own frame.taken.ticket journal)
  closed : ∀ ticket < tickets, (∀ frame ∈ frames, frame.taken.ticket ≠ ticket) →
    Complete ticket (own ticket journal)
  fresh : ∀ ticket, tickets ≤ ticket → own ticket journal = []

/-- A step adds nothing to the deeds of another dispatch. -/
theorem own_append_of_ne {ticket : Nat} {journal : Journal} {deed : Option Deed}
    (h : ∀ d ∈ deed, d.ticket? ≠ some ticket) :
    own ticket (journal ++ deed.toList) = own ticket journal := by
  have hnone : own ticket deed.toList = [] := by
    cases deed with
    | none => rfl
    | some d => simpa [own] using h d rfl
  rw [own_append, hnone, List.append_nil]

theorem own_append_of_eq {ticket : Nat} {journal : Journal} {deed : Option Deed}
    (h : ∀ d ∈ deed, d.ticket? = some ticket) :
    own ticket (journal ++ deed.toList) = own ticket journal ++ deed.toList := by
  have hall : own ticket deed.toList = deed.toList := by
    cases deed with
    | none => rfl
    | some d => simpa [own] using h d rfl
  rw [own_append, hall]

theorem own_append_other {ticket other : Nat} {journal : Journal} {deed : Option Deed}
    (h : ∀ d ∈ deed, d.ticket? = some ticket) (hne : other ≠ ticket) :
    own other (journal ++ deed.toList) = own other journal :=
  own_append_of_ne fun d hd => by simpa [h d hd] using Ne.symm hne

theorem ledger_start : Ledger [] 0 [] where
  sorted := .nil
  bounded _ h := by cases h
  opened _ h := by cases h
  closed _ h := absurd h (Nat.not_lt_zero _)
  fresh _ _ := rfl

/-! ## The four ways in which a step changes it -/

section
variable {journal : Journal} {tickets : Nat} {frames : List Frame} {deed : Option Deed}

/-- A step that belongs to no dispatch leaves every record as it is. -/
theorem Ledger.idle (h : Ledger journal tickets frames) (hdeed : ∀ d ∈ deed, d.ticket? = none) :
    Ledger (journal ++ deed.toList) tickets frames := by
  have hown : ∀ ticket, own ticket (journal ++ deed.toList) = own ticket journal := fun ticket =>
    own_append_of_ne fun d hd => by simp [hdeed d hd]
  refine ⟨h.sorted, h.bounded, fun frame hf => ?_, fun ticket ht hn => ?_, fun ticket ht => ?_⟩
  · rw [hown]; exact h.opened frame hf
  · rw [hown]; exact h.closed ticket ht hn
  · rw [hown]; exact h.fresh ticket ht

/-- A dispatch is entered: it is the youngest, and its record begins. -/
theorem Ledger.enter {call : Call} {taker : DelegateId} {route : Route} {delegate : Delegate}
    (h : Ledger journal tickets frames)
    (hdeed : deed = some (.entered ⟨tickets, call, taker, route⟩ (invocationOf call delegate)
      (handlerOf call))) :
    Ledger (journal ++ deed.toList) (tickets + 1)
      (⟨⟨tickets, call, taker, route⟩,
        .delegate delegate (invocationOf call delegate) delegate.script (handlerOf call)⟩ ::
          frames) := by
  have hother : ∀ other ≠ tickets, own other (journal ++ deed.toList) = own other journal :=
    fun other hne => own_append_other (fun d hd => by subst hdeed; cases hd; rfl) hne
  refine ⟨List.pairwise_cons.2 ⟨fun frame hf => h.bounded frame hf, h.sorted⟩, ?_, ?_, ?_, ?_⟩
  · intro frame hf
    rcases List.mem_cons.1 hf with rfl | hf
    · exact Nat.lt_succ_self _
    · exact Nat.lt_succ_of_lt (h.bounded frame hf)
  · intro frame hf
    rcases List.mem_cons.1 hf with rfl | hf
    · refine ⟨delegate.count, [], rfl, ?_⟩
      rw [hdeed, own_append, h.fresh _ (Nat.le_refl _)]
      simp [own, Deed.ticket?, Taken.begun, invocationOf, handlerOf]
    · rw [hother _ (Nat.ne_of_lt (h.bounded frame hf))]
      exact h.opened frame hf
  · intro ticket ht hn
    have hne : tickets ≠ ticket := hn _ List.mem_cons_self
    rw [hother _ hne.symm]
    exact h.closed ticket (by omega) fun frame hf => hn frame (List.mem_cons_of_mem _ hf)
  · intro ticket ht
    rw [hother _ (by omega)]
    exact h.fresh ticket (by omega)

/-- The innermost dispatch goes on: its record grows, and no other one does. -/
theorem Ledger.advance {taken : Taken} {stage stage' : Stage}
    (h : Ledger journal tickets (⟨taken, stage⟩ :: frames))
    (hdeed : ∀ d ∈ deed, d.ticket? = some taken.ticket)
    (hstage : stage.Recorded taken (own taken.ticket journal) →
      stage'.Recorded taken (own taken.ticket journal ++ deed.toList)) :
    Ledger (journal ++ deed.toList) tickets (⟨taken, stage'⟩ :: frames) := by
  obtain ⟨houter, hsorted⟩ := List.pairwise_cons.1 h.sorted
  have htaken : taken.ticket < tickets := h.bounded ⟨taken, stage⟩ List.mem_cons_self
  refine ⟨List.pairwise_cons.2 ⟨houter, hsorted⟩, ?_, ?_, ?_, ?_⟩
  · intro frame hf
    rcases List.mem_cons.1 hf with rfl | hf
    · exact htaken
    · exact h.bounded frame (List.mem_cons_of_mem _ hf)
  · intro frame hf
    rcases List.mem_cons.1 hf with rfl | hf
    · rw [own_append_of_eq hdeed]
      exact hstage (h.opened ⟨taken, stage⟩ List.mem_cons_self)
    · rw [own_append_other hdeed (Nat.ne_of_lt (houter frame hf))]
      exact h.opened frame (List.mem_cons_of_mem _ hf)
  · intro ticket ht hn
    have hne : taken.ticket ≠ ticket := hn _ List.mem_cons_self
    rw [own_append_other hdeed hne.symm]
    refine h.closed ticket ht fun frame hf => ?_
    rcases List.mem_cons.1 hf with rfl | hf
    · exact hne
    · exact hn frame (List.mem_cons_of_mem _ hf)
  · intro ticket ht
    rw [own_append_other hdeed (by omega)]
    exact h.fresh ticket ht

/-- The innermost dispatch is over: its record is complete. -/
theorem Ledger.leave {taken : Taken} {stage : Stage}
    (h : Ledger journal tickets (⟨taken, stage⟩ :: frames))
    (hdeed : ∀ d ∈ deed, d.ticket? = some taken.ticket)
    (hstage : stage.Recorded taken (own taken.ticket journal) →
      Complete taken.ticket (own taken.ticket journal ++ deed.toList)) :
    Ledger (journal ++ deed.toList) tickets frames := by
  obtain ⟨houter, hsorted⟩ := List.pairwise_cons.1 h.sorted
  have htaken : taken.ticket < tickets := h.bounded ⟨taken, stage⟩ List.mem_cons_self
  refine ⟨hsorted, fun frame hf => h.bounded frame (List.mem_cons_of_mem _ hf), ?_, ?_, ?_⟩
  · intro frame hf
    rw [own_append_other hdeed (Nat.ne_of_lt (houter frame hf))]
    exact h.opened frame (List.mem_cons_of_mem _ hf)
  · intro ticket ht hn
    by_cases hne : ticket = taken.ticket
    · subst hne
      rw [own_append_of_eq hdeed]
      exact hstage (h.opened ⟨taken, stage⟩ List.mem_cons_self)
    · rw [own_append_other hdeed hne]
      refine h.closed ticket ht fun frame hf => ?_
      rcases List.mem_cons.1 hf with rfl | hf
      · exact Ne.symm hne
      · exact hn frame hf
  · intro ticket ht
    rw [own_append_other hdeed (by omega)]
    exact h.fresh ticket ht

end

/-! ## Steps and runs -/

theorem handlerAfter_signal (call : Call) (replies : List Value) (value : Value) :
    (handlerAfter call replies).map (·.signal value) = handlerAfter call (replies ++ [value]) := by
  cases replies <;> simp [handlerAfter, Handler.signal, Function.comp_def]

theorem begun_append (taken : Taken) (count : UInt64) (replies : List Value) (value : Value) :
    taken.begun count (replies ++ [value]) =
      taken.begun count replies ++ [.signaled taken.ticket value] := by
  simp [Taken.begun]

/-- Every step keeps the ledger. -/
theorem ledger_step {journal : Journal} {moment next : Moment} {deed : Option Deed}
    (h : Ledger journal moment.tickets moment.frames) (step : Step moment deed next) :
    Ledger (journal ++ deed.toList) next.tickets next.frames := by
  cases step with
  | change | drop => exact h.idle fun d hd => by obtain rfl := Option.some.inj hd; rfl
  | look | hear => exact h.idle fun d hd => by cases hd
  | enter _ _ _ => exact h.enter rfl
  | note | ask | askBack =>
    refine h.advance (fun d hd => by cases hd) fun hr => ?_
    rwa [Option.toList_none, List.append_nil]
  | @signal _ _ taken _ _ _ value =>
    refine h.advance (fun d hd => by obtain rfl := Option.some.inj hd; rfl) ?_
    rintro ⟨count, replies, rfl, hdeeds⟩
    exact ⟨count, replies ++ [value], handlerAfter_signal _ _ _, by simp [hdeeds, begun_append]⟩
  | exit =>
    refine h.advance (fun d hd => by obtain rfl := Option.some.inj hd; rfl) ?_
    rintro ⟨count, replies, rfl, hdeeds⟩
    exact ⟨count, replies, rfl, by simp [hdeeds]⟩
  | call waits =>
    refine h.advance (fun d hd => by obtain rfl := Option.some.inj hd; rfl) ?_
    rintro ⟨count, replies, hhandler, hdeeds⟩
    obtain rfl : _ = (⟨replies.head?⟩ : Handler) := by
      simpa [handlerAfter, waits] using hhandler
    exact ⟨count, replies, by simp [waits], by simp [hdeeds]⟩
  | leave =>
    refine h.leave (fun d hd => by obtain rfl := Option.some.inj hd; rfl) ?_
    rintro ⟨count, replies, hhandler, hdeeds⟩
    have hsilent := Option.map_eq_none_iff.1 hhandler.symm
    exact ⟨_, count, replies, rfl, by simp [hdeeds, Taken.record, hsilent]⟩
  | leaveBack =>
    refine h.leave (fun d hd => by obtain rfl := Option.some.inj hd; rfl) ?_
    rintro ⟨count, replies, hwaits, hdeeds⟩
    exact ⟨_, count, replies, rfl, by simp [hdeeds, Taken.record, hwaits]⟩

theorem Runs.ledger {start moment : Moment} {journal : Journal} (run : Runs start journal moment)
    (h : Ledger [] start.tickets start.frames) : Ledger journal moment.tickets moment.frames := by
  induction run with
  | refl => exact h
  | step _ step ih => exact ledger_step ih step

/-! ## Dispatches are nested -/

/-- A dispatch stays open until it returns. -/
theorem open_step {moment next : Moment} {deed : Option Deed} (step : Step moment deed next)
    {frame : Frame} (hframe : frame ∈ moment.frames) :
    (∃ frame' ∈ next.frames, frame'.taken = frame.taken) ∨
      ∃ route, deed = some (.returned frame.taken.ticket route) := by
  cases step with
  | change | look | drop | hear => exact .inl ⟨frame, hframe, rfl⟩
  | enter => exact .inl ⟨frame, List.mem_cons_of_mem _ hframe, rfl⟩
  | signal | note | ask | askBack | exit | call =>
    left
    rcases List.mem_cons.1 hframe with rfl | hframe
    · exact ⟨_, List.mem_cons_self, rfl⟩
    · exact ⟨frame, List.mem_cons_of_mem _ hframe, rfl⟩
  | leave | leaveBack =>
    rcases List.mem_cons.1 hframe with rfl | hframe
    · exact .inr ⟨_, rfl⟩
    · exact .inl ⟨frame, hframe, rfl⟩

/-- Only the innermost open dispatch does anything, or else a new one begins. -/
theorem innermost_step {journal : Journal} {moment next : Moment} {deed : Deed}
    (h : Ledger journal moment.tickets moment.frames) (step : Step moment (some deed) next)
    {ticket : Nat} (hticket : deed.ticket? = some ticket) :
    ∀ frame ∈ moment.frames, frame.taken.ticket ≤ ticket := by
  intro frame hframe
  cases step with
  | change | drop => cases hticket
  | enter =>
    obtain rfl := Option.some.inj hticket
    exact Nat.le_of_lt (h.bounded frame hframe)
  | signal | exit | call | leave | leaveBack =>
    obtain rfl := Option.some.inj hticket
    rcases List.mem_cons.1 hframe with rfl | hframe
    · exact Nat.le_refl _
    · exact Nat.le_of_lt ((List.pairwise_cons.1 h.sorted).1 frame hframe)

/-- From its entering until it returns, a dispatch is open, and no dispatch that encloses it does
anything. -/
def Nested (journal : Journal) : Prop :=
  ∀ earlier taken invocation handler inside,
    journal = earlier ++ .entered taken invocation handler :: inside →
    (∀ route, .returned taken.ticket route ∉ inside) →
    ∀ deed ∈ inside, ∀ ticket, deed.ticket? = some ticket → taken.ticket ≤ ticket

theorem Runs.open_and_nested {start moment : Moment} {journal : Journal}
    (run : Runs start journal moment) (h : Ledger [] start.tickets start.frames) :
    ∀ earlier taken invocation handler inside,
      journal = earlier ++ .entered taken invocation handler :: inside →
      (∀ route, .returned taken.ticket route ∉ inside) →
      (∃ frame ∈ moment.frames, frame.taken = taken) ∧
        ∀ deed ∈ inside, ∀ ticket, deed.ticket? = some ticket → taken.ticket ≤ ticket := by
  induction run with
  | refl =>
    intro earlier taken invocation handler inside hjournal
    simp at hjournal
  | @step journal deed moment next run step ih =>
    intro earlier taken invocation handler inside hjournal hreturned
    have hledger := run.ledger h
    -- A deed is the last of the journal, so it is either the entering or lies inside.
    cases deed with
    | none =>
      rw [Option.toList_none, List.append_nil] at hjournal
      obtain ⟨⟨frame, hframe, rfl⟩, hnested⟩ := ih _ _ _ _ _ hjournal hreturned
      rcases open_step step hframe with hopen | ⟨_, hdeed⟩
      · exact ⟨hopen, hnested⟩
      · cases hdeed
    | some deed =>
      rcases List.eq_nil_or_concat inside with rfl | ⟨inside, last, rfl⟩
      · obtain ⟨-, hdeed⟩ := List.append_inj' hjournal rfl
        obtain rfl := List.head_eq_of_cons_eq hdeed
        cases step
        exact ⟨⟨_, List.mem_cons_self, rfl⟩, by simp⟩
      · rw [List.concat_eq_append] at hjournal hreturned ⊢
        rw [← List.cons_append, ← List.append_assoc] at hjournal
        obtain ⟨hsplit, hlast⟩ := List.append_inj' hjournal rfl
        obtain rfl := List.head_eq_of_cons_eq hlast
        obtain ⟨⟨frame, hframe, rfl⟩, hnested⟩ := ih _ _ _ _ _ hsplit fun route hr =>
          hreturned route (List.mem_append_left _ hr)
        refine ⟨?_, fun other hother ticket hticket => ?_⟩
        · rcases open_step step hframe with hopen | ⟨route, hdeed⟩
          · exact hopen
          · obtain rfl := Option.some.inj hdeed
            exact absurd (List.mem_append_right _ List.mem_cons_self) (hreturned route)
        · rcases List.mem_append.1 hother with hother | hother
          · exact hnested other hother ticket hticket
          · obtain rfl := List.mem_singleton.1 hother
            exact innermost_step hledger step hticket frame hframe

theorem Runs.nested {start moment : Moment} {journal : Journal} (run : Runs start journal moment)
    (h : Ledger [] start.tickets start.frames) : Nested journal :=
  fun earlier taken invocation handler inside hjournal hreturned =>
    (run.open_and_nested h earlier taken invocation handler inside hjournal hreturned).2

end Bindery.Machine
