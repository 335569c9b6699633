import Timeshift.Proofs.Dispatch
import Timeshift.Proofs.Station.Delivery

/-!
# Offering schedules

A round offers all that starts soon to the desks and then sets the alarm for the rest. One go of it
comes to the end, or to a full mailbox. The station changes in few ways meanwhile: messages come
into mailboxes, desks are opened, and the alarm is set.
-/

namespace Timeshift

namespace Station

open Admission (Message)
open Dispatch (route isSoon alarmAfter)

variable {s s' s'' : Station} {set set' : List Instant} {x : Schedule} {n : Nat} {m : Message}
  {w : Worker} {input : InputId}

/-! ## What a courier makes of a station -/

def queueOf (s : Station) (n : Nat) : List Message := (s.desks[n]?).elim [] (·.mailbox.queue)

/-- The desk is registered for the input, and its mailbox is open. -/
def IsOpenFor (s : Station) (input : InputId) (n : Nat) : Prop :=
  s.control.desks[input]? = some n ∧ s.isClosed n = false

/-- The worker stands in line at a mailbox that is open and full. -/
def InLine (s : Station) (n : Nat) (w : Worker) : Prop :=
  ∃ d, s.desks[n]? = some d ∧ d.mailbox.isClosed = false ∧ d.mailbox.isFull = true ∧
    w ∈ d.mailbox.line

/-- A courier puts messages into mailboxes, opens desks, and sets the alarm to `set`. Whatever a
round reads stays as it is. -/
structure Carries (set : List Instant) (s s' : Station) : Prop where
  settings : s'.settings = s.settings
  catalog : s'.around.catalog = s.around.catalog
  now : s'.now = s.now
  store : s'.store = s.store
  isStopped : s'.control.isStopped = s.control.isStopped
  isLogged : s'.alarm.isLogged = s.alarm.isLogged
  alarms : s'.alarmNotes = s.alarmNotes ++ set
  desks : ∀ input n, s.IsOpenFor input n → s'.IsOpenFor input n
  queues : ∀ n, s.queueOf n <+: s'.queueOf n

namespace Carries

theorem refl (s : Station) : Carries [] s s where
  settings := rfl
  catalog := rfl
  now := rfl
  store := rfl
  isStopped := rfl
  isLogged := rfl
  alarms := (List.append_nil _).symm
  desks _ _ h := h
  queues _ := List.prefix_rfl

theorem trans (h : Carries set s s') (h' : Carries set' s' s'') : Carries (set ++ set') s s'' where
  settings := h'.settings.trans h.settings
  catalog := h'.catalog.trans h.catalog
  now := h'.now.trans h.now
  store := h'.store.trans h.store
  isStopped := h'.isStopped.trans h.isStopped
  isLogged := h'.isLogged.trans h.isLogged
  alarms := by rw [h'.alarms, h.alarms, List.append_assoc]
  desks input n hn := h'.desks input n (h.desks input n hn)
  queues n := (h.queues n).trans (h'.queues n)

end Carries

/-- The offer of the schedule has come to the open desk of its input. -/
def Brought (x : Schedule) (s s' : Station) : Prop :=
  ∃ n l, s'.IsOpenFor (route s.around.catalog x) n ∧ s'.queueOf n = s.queueOf n ++ l ∧
    Message.add x ∈ l

theorem Brought.before (h : Brought x s s') (h' : Carries set s' s'') : Brought x s s'' := by
  obtain ⟨n, l, hopen, hqueue, hmem⟩ := h
  obtain ⟨more, hmore⟩ := h'.queues n
  refine ⟨n, l ++ more, h'.desks _ n hopen, ?_, List.mem_append_left more hmem⟩
  rw [← hmore, hqueue, List.append_assoc]

theorem Brought.after (h' : Brought x s' s'') (h : Carries set s s') : Brought x s s'' := by
  obtain ⟨n, l, hopen, hqueue, hmem⟩ := h'
  obtain ⟨first, hfirst⟩ := h.queues n
  refine ⟨n, first ++ l, h.catalog ▸ hopen, ?_, List.mem_append_right first hmem⟩
  rw [hqueue, ← hfirst, List.append_assoc]

theorem Carries.isSoon_eq (h : Carries set s s') (x : Schedule) :
    isSoon s'.now s'.settings.wakeBefore x = isSoon s.now s.settings.wakeBefore x := by
  rw [h.now, h.settings]

/-- The offers of all that start soon have come to their desks. -/
def AllBrought (l : List Schedule) (s s' : Station) : Prop :=
  ∀ x ∈ l, isSoon s.now s.settings.wakeBefore x = true → Brought x s s'

namespace AllBrought

variable {l : List Schedule}

theorem before (h : AllBrought l s s') (h' : Carries set s' s'') : AllBrought l s s'' :=
  fun x hx hsoon => (h x hx hsoon).before h'

theorem after (h : AllBrought l s' s'') (h' : Carries set s s') : AllBrought l s s'' :=
  fun x hx hsoon => (h x hx ((h'.isSoon_eq x).trans hsoon)).after h'

theorem cons (hx : isSoon s.now s.settings.wakeBefore x = true → Brought x s s')
    (h : AllBrought l s s') : AllBrought (x :: l) s s' := by
  intro y hy hsoon
  rcases List.mem_cons.mp hy with rfl | hy
  · exact hx hsoon
  · exact h y hy hsoon

end AllBrought

/-! ## Posting -/

theorem isClosed_eq_false_iff :
    s.isClosed n = false ↔ ∃ d, s.desks[n]? = some d ∧ d.mailbox.isClosed = false := by
  unfold isClosed
  cases s.desks[n]? <;> simp

theorem desks_modifyDesk (s : Station) (n : Nat) (f : Desk → Desk) (k : Nat) :
    (s.run (modifyDesk n f)).2.desks[k]? = if n = k then (s.desks[k]?).map f else s.desks[k]? := by
  change (s.desks.modify n f)[k]? = _
  rw [Std.TreeMap.getElem?_modify]
  by_cases hk : n = k
  · subst hk
    simp
  · simp [hk]

/-- Something changes at one desk, and the mailbox there stays open and loses nothing. -/
theorem carries_modifyDesk (s : Station) (n : Nat) {f : Desk → Desk}
    (hopen : ∀ d, (f d).mailbox.isClosed = d.mailbox.isClosed)
    (hqueue : ∀ d, d.mailbox.queue <+: (f d).mailbox.queue) :
    Carries [] s (s.run (modifyDesk n f)).2 :=
  { Carries.refl s with
    desks := fun input k ⟨hreg, hk⟩ => by
      refine ⟨hreg, ?_⟩
      rw [isClosed_eq_false_iff] at hk ⊢
      obtain ⟨d, hd, hd'⟩ := hk
      rw [desks_modifyDesk, hd]
      split
      · exact ⟨f d, rfl, (hopen d).trans hd'⟩
      · exact ⟨d, rfl, hd'⟩
    queues := fun k => by
      unfold queueOf
      rw [desks_modifyDesk]
      split
      · cases s.desks[k]? with
        | none => exact List.prefix_rfl
        | some d => exact hqueue d
      · exact List.prefix_rfl }

theorem carries_wake (s : Station) (w : Worker) : Carries [] s (s.run (wake w)).2 :=
  { Carries.refl s with }

theorem queueOf_modifyDesk {d : Desk} (hd : s.desks[n]? = some d) (f : Desk → Desk) :
    (s.run (modifyDesk n f)).2.queueOf n = (f d).mailbox.queue := by
  rw [queueOf, desks_modifyDesk, if_pos rfl, hd]
  rfl

/-- A message for an open desk is put in, unless the mailbox is full. -/
theorem leads_tryPost (h : s.isClosed n = false) (m : Message) :
    Leads (· = s) (tryPost n m) fun r s' =>
      (r = .done ∧ Carries [] s s' ∧ s'.queueOf n = s.queueOf n ++ [m]) ∨
        r = .full ∧ s' = s ∧ ∃ d, s.desks[n]? = some d ∧ d.mailbox.isClosed = false ∧
          d.mailbox.isFull = true := by
  obtain ⟨d, hd, hopen⟩ := isClosed_eq_false_iff.mp h
  rintro s rfl
  simp only [tryPost, run_bind, run_get, hd, hopen, Bool.false_eq_true, if_false]
  by_cases hfull : d.mailbox.isFull = true
  · rw [if_pos hfull]
    exact Or.inr ⟨rfl, rfl, d, rfl, hopen, hfull⟩
  · rw [if_neg hfull]
    refine Or.inl ⟨rfl, ?_, ?_⟩
    · have hput := carries_modifyDesk s n (f := fun d => { d with mailbox := d.mailbox.put m })
        (fun _ => rfl) fun d => List.prefix_append _ _
      exact hput.trans (carries_wake _ _)
    · refine (queueOf_modifyDesk hd _).trans ?_
      rw [queueOf, hd]
      rfl

theorem leads_postOrJoin (h : s.isClosed n = false) (w : Worker) (m : Message) :
    Leads (· = s) (postOrJoin n w m) fun r s' => Carries [] s s' ∧
      (r = .done ∧ s'.queueOf n = s.queueOf n ++ [m] ∨ r = .full ∧ s'.InLine n w) := by
  unfold postOrJoin
  refine (leads_tryPost h m).bind fun r => ?_
  rintro t (⟨rfl, hput, hqueue⟩ | ⟨rfl, rfl, d, hd, hopen, hfull⟩)
  · exact ⟨hput, Or.inl ⟨rfl, hqueue⟩⟩
  · refine ⟨?_, Or.inr ⟨rfl, { d with mailbox := d.mailbox.join w }, ?_, hopen, hfull, ?_⟩⟩
    · exact carries_modifyDesk t n (fun _ => rfl) fun _ => List.prefix_rfl
    · refine (desks_modifyDesk t n _ n).trans ?_
      rw [if_pos rfl, hd]
      rfl
    · exact List.mem_append_right _ (List.mem_singleton_self w)

theorem leads_postGranted (h : s.isClosed n = false) (w : Worker) (m : Message) :
    Leads (· = s) (postGranted n w m) fun _ s' =>
      Carries [] s s' ∧ s'.queueOf n = s.queueOf n ++ [m] := by
  obtain ⟨d, hd, -⟩ := isClosed_eq_false_iff.mp h
  rintro s rfl
  have hput := carries_modifyDesk s n (f := fun d => { d with mailbox := d.mailbox.putGranted w m })
    (fun _ => rfl) fun d => List.prefix_append _ _
  refine ⟨hput.trans (carries_wake _ _), (queueOf_modifyDesk hd _).trans ?_⟩
  rw [queueOf, hd]
  rfl

/-! ## The desk of an input -/

theorem openDesk?_eq_some_iff (hgoes : s.control.isStopped = false) :
    s.openDesk? input = some n ↔ s.IsOpenFor input n := by
  unfold openDesk? IsOpenFor
  rw [hgoes, if_neg Bool.false_ne_true, Option.filter_eq_some_iff]
  simp

theorem carries_register (hnone : s.openDesk? input = none) (hgoes : s.control.isStopped = false) :
    let act : Act (Option Nat) := do
      let n ← openDesk input true
      modifyControl fun c => { c with desks := c.desks.insert input n }
      return some n
    (s.run act).1 = some (fresh s.desks) ∧ Carries [] s (s.run act).2 ∧
      (s.run act).2.IsOpenFor input (fresh s.desks) := by
  intro act
  -- The new desk has a number of its own, so no other desk is touched.
  have hfresh : s.desks[fresh s.desks]? = none :=
    Std.TreeMap.getElem?_eq_none (fresh_not_mem s.desks)
  have hdesks : ∀ k, (s.run act).2.desks[k]? = if fresh s.desks = k then
      some { admission := { inputId := input, lead := s.settings.earlyStart }
             mailbox := .empty s.settings.mailboxCapacity
             isSpawned := true }
      else s.desks[k]? := fun k => get_insert
  have hnamed : ∀ i, (s.run act).2.control.desks[i]? =
      if input = i then some (fresh s.desks) else s.control.desks[i]? := fun i => get_insert
  refine ⟨rfl, { Carries.refl s with desks := ?_, queues := ?_ }, ?_, ?_⟩
  · rintro i k ⟨hreg, hopen⟩
    obtain ⟨d, hd, hd'⟩ := isClosed_eq_false_iff.mp hopen
    refine ⟨?_, isClosed_eq_false_iff.mpr ⟨d, ?_, hd'⟩⟩
    · rw [hnamed, if_neg]
      · exact hreg
      · rintro rfl
        cases hnone.symm.trans ((openDesk?_eq_some_iff hgoes).mpr ⟨hreg, hopen⟩)
    · rw [hdesks, if_neg]
      · exact hd
      · rintro rfl
        cases hfresh.symm.trans hd
  · intro k
    unfold queueOf
    rw [hdesks]
    split
    · next hk =>
      rw [← hk, hfresh]
      exact List.nil_prefix
    · exact List.prefix_rfl
  · rw [hnamed, if_pos rfl]
  · exact isClosed_eq_false_iff.mpr ⟨_, (hdesks _).trans (if_pos rfl), rfl⟩

theorem leads_openDeskFor (hgoes : s.control.isStopped = false) (input : InputId) :
    Leads (· = s) (deskFor input) fun r s' =>
      ∃ n, r = some n ∧ Carries [] s s' ∧ s'.IsOpenFor input n := by
  unfold deskFor
  refine .look ?_
  rintro s rfl
  split
  · next n hdesk =>
    rintro s rfl
    exact ⟨n, rfl, .refl s, (openDesk?_eq_some_iff hgoes).mp hdesk⟩
  · next hnone =>
    rw [if_neg (by simp [hgoes])]
    rintro s rfl
    exact ⟨fresh s.desks, carries_register hnone hgoes⟩

/-! ## Offers -/

theorem leads_addressee_offer (hgoes : s.control.isStopped = false) (x : Schedule) :
    Leads (· = s) (addressee (.offer x)) fun r s' => Carries [] s s' ∧
      (r = none ∧ isSoon s.now s.settings.wakeBefore x = false ∨
        ∃ n, r = some n ∧ s'.IsOpenFor (route s.around.catalog x) n) := by
  unfold addressee
  refine .look ?_
  rintro s rfl
  dsimp only
  split
  · refine (leads_openDeskFor hgoes _).weaken ?_
    rintro _ s' ⟨n, rfl, hcarries, hopen⟩
    exact ⟨hcarries, Or.inr ⟨n, rfl, hopen⟩⟩
  · next hlater =>
    rintro s rfl
    exact ⟨.refl s, Or.inl ⟨rfl, Bool.not_eq_true _ ▸ hlater⟩⟩

/-- What comes of an offer: the message is there, or the worker is in line. -/
def Offered (w : Worker) (x : Schedule) (s : Station) : Option Nat → Station → Prop
  | none, s' => isSoon s.now s.settings.wakeBefore x = true → Brought x s s'
  | some n, s' => s'.IsOpenFor (route s.around.catalog x) n ∧ s'.InLine n w

theorem leads_deliver_offer (hgoes : s.control.isStopped = false) (w : Worker) (x : Schedule) :
    Leads (· = s) (deliver w (.offer x)) fun r s' => Carries [] s s' ∧ Offered w x s r s' := by
  unfold deliver
  refine (leads_addressee_offer hgoes x).bind fun r => ?_
  rintro t ⟨hcarries, ⟨rfl, hlater⟩ | ⟨n, rfl, hopen⟩⟩
  · exact ⟨hcarries, fun hsoon => absurd hsoon (by simp [hlater])⟩
  · refine Leads.bind (R := fun r s' => Carries [] s s' ∧ Offered w x s r s')
      (leads_postOrJoin hopen.2 w (.add x)) (fun r => ?_) t rfl
    rintro s' ⟨hposts, ⟨rfl, hqueue⟩ | ⟨rfl, hline⟩⟩
    · have hbrought : Brought x t s' :=
        ⟨n, [.add x], hposts.desks _ n (hcarries.catalog ▸ hopen), hqueue, by simp⟩
      exact ⟨hcarries.trans hposts, fun _ => hbrought.after hcarries⟩
    · exact ⟨hcarries.trans hposts, hposts.desks _ n hopen, hline⟩

/-- What is left of the offers: nothing, or the worker is in line with the first of them. -/
def Stands (w : Worker) (rest : List Schedule) (s : Station) : Option Nat → Prop
  | none => rest = []
  | some n => ∃ x more, rest = x :: more ∧ s.IsOpenFor (route s.around.catalog x) n ∧ s.InLine n w

theorem leads_deliver_offers (hgoes : s.control.isStopped = false) (w : Worker)
    (l : List Schedule) :
    Leads (· = s) (deliverAll w (l.map .offer)) fun r s' => Carries [] s s' ∧
      ∃ done rest, l = done ++ rest ∧ r.1 = rest.map .offer ∧ Stands w rest s' r.2 ∧
        AllBrought done s s' := by
  induction l generalizing s with
  | nil =>
    rintro s rfl
    exact ⟨.refl s, [], [], rfl, rfl, rfl, fun x hx => nomatch hx⟩
  | cons x more ih =>
    refine (leads_deliver_offer hgoes w x).bind fun r => ?_
    cases r with
    | some n =>
      -- The first offer that has to wait is the first of those that are left.
      refine Leads.pure ?_
      rintro s' ⟨hcarries, hopen, hline⟩
      refine ⟨hcarries, [], x :: more, rfl, rfl, ⟨x, more, rfl, ?_, hline⟩, fun y hy => nomatch hy⟩
      rwa [hcarries.catalog]
    | none =>
      rintro t ⟨hcarries, hx⟩
      have hrest := ih (hcarries.isStopped.trans hgoes) t rfl
      generalize t.run (deliverAll w (more.map .offer)) = r at hrest ⊢
      obtain ⟨hmore, done, rest, rfl, hleft, hstands, hdone⟩ := hrest
      refine ⟨hcarries.trans hmore, x :: done, rest, rfl, hleft, hstands, ?_⟩
      exact .cons (fun hsoon => (hx hsoon).before hmore) (hdone.after hcarries)

/-! ## The alarm -/

theorem leads_setAlarm (hlogged : s.alarm.isLogged = true) (t : Instant) :
    Leads (· = s) (setAlarm t) fun _ s' => Carries [t] s s' := by
  rintro s rfl
  unfold setAlarm
  rw [run_look, if_pos hlogged]
  by_cases hticks : s.alarm.ticks = true
  · rw [if_pos hticks]
    exact { Carries.refl s with alarms := rfl }
  · rw [if_neg hticks]
    exact { Carries.refl s with alarms := rfl }

/-! ## One go -/

/-- What is offered in a round that begins now. -/
def waitingList (s : Station) : List Schedule :=
  (s.store.available s.now).filter (·.isNotStarted)

/-- A courier in line at desk `n`, with the rest of a round that began at `since`. -/
def heldCourier (n : Nat) (l : List Schedule) (since : Instant) : Courier :=
  { parcels := l.map .offer, heldAt := some n, alarmSince := some since }

/-- One go of a round that began at `since` and has `l` to offer: up to a full mailbox, or to the
end, where the alarm is set. -/
inductive Went (w : Worker) (since : Instant) (l : List Schedule) (s s' : Station) :
    Courier → Prop where
  | waits (done more : List Schedule) (x : Schedule) (n : Nat) :
      l = done ++ x :: more → Carries [] s s' → AllBrought done s s' →
      s'.IsOpenFor (route s'.around.catalog x) n → s'.InLine n w →
      Went w since l s s' (heldCourier n (x :: more) since)
  | ends : Carries (alarmAfter s.store since s.settings.wakeBefore).toList s s' →
      AllBrought l s s' → Went w since l s s' {}

variable {since : Instant} {l : List Schedule} {c : Courier}

theorem Went.cons (hcarries : Carries [] s s') (hx : Brought x s s')
    (h : Went w since l s' s'' c) : Went w since (x :: l) s s'' c := by
  cases h with
  | waits done more y n heq hrest hdone hopen hline =>
    refine .waits (x :: done) more y n (congrArg _ heq) (hcarries.trans hrest) ?_ hopen hline
    exact .cons (fun _ => hx.before hrest) (hdone.after hcarries)
  | ends hrest hall =>
    rw [hcarries.store, hcarries.settings] at hrest
    exact .ends (hcarries.trans hrest) (.cons (fun _ => hx.before hrest) (hall.after hcarries))

/-- A round that has no more to offer sets the alarm, if there is anything to set it for. -/
theorem leads_endRound {t : Station} (hlogged : s.alarm.isLogged = true) (hcarries : Carries [] s t)
    (hall : AllBrought l s t) (w : Worker) (since : Instant) :
    Leads (· = t) (do
      let st ← get
      (alarmAfter st.store since st.settings.wakeBefore).forM setAlarm
      return {}) fun c s' => Went w since l s s' c := by
  refine .look ?_
  rintro t rfl
  rw [hcarries.store, hcarries.settings]
  have hset : Leads (· = t) ((alarmAfter s.store since s.settings.wakeBefore).forM setAlarm)
      fun _ s' => Carries (alarmAfter s.store since s.settings.wakeBefore).toList t s' := by
    cases alarmAfter s.store since s.settings.wakeBefore with
    | none =>
      rintro t rfl
      exact .refl t
    | some u => exact leads_setAlarm (hcarries.isLogged.trans hlogged) u
  refine hset.bind fun _ => Leads.pure fun s' halarm => ?_
  exact .ends (hcarries.trans halarm) (hall.before halarm)

theorem leads_carry_offers (hgoes : s.control.isStopped = false)
    (hlogged : s.alarm.isLogged = true) (w : Worker) (l : List Schedule) (since : Instant) :
    Leads (· = s) (carry w { parcels := l.map .offer, alarmSince := some since }) fun c s' =>
      Went w since l s s' c := by
  unfold carry
  refine (leads_deliver_offers hgoes w l).bind fun r => ?_
  obtain ⟨parcels, heldAt⟩ := r
  rintro t ⟨hcarries, done, rest, rfl, rfl, hstands, hdone⟩
  cases heldAt with
  | some n =>
    obtain ⟨x, more, rfl, hopen, hline⟩ := hstands
    exact .waits done more x n rfl hcarries hdone hopen hline
  | none =>
    obtain rfl : rest = [] := hstands
    rw [List.append_nil]
    exact leads_endRound hlogged hcarries hdone w since t rfl

theorem leads_carry_round (hgoes : s.control.isStopped = false)
    (hlogged : s.alarm.isLogged = true) (w : Worker) :
    Leads (· = s) (carry w { roundDue := true }) fun c s' =>
      Went w s.now s.waitingList s s' c := by
  unfold carry
  simp only [deliverAll, pure_bind, Option.isSome_none, Bool.false_eq_true, if_false, if_true]
  refine .look ?_
  rintro s rfl
  refine (leads_deliver_offers hgoes w s.waitingList).bind fun r => ?_
  obtain ⟨parcels, heldAt⟩ := r
  rintro t ⟨hcarries, done, rest, heq, rfl, hstands, hdone⟩
  cases heldAt with
  | some n =>
    obtain ⟨x, more, rfl, hopen, hline⟩ := hstands
    exact .waits done more x n heq hcarries hdone hopen hline
  | none =>
    obtain rfl : rest = [] := hstands
    rw [List.append_nil] at heq
    exact leads_endRound hlogged hcarries (heq ▸ hdone) w s.now t rfl

/-- A worker that has its slot gets rid of the first offer at least. -/
theorem leads_resume_held {more : List Schedule} (hgoes : s.control.isStopped = false)
    (hlogged : s.alarm.isLogged = true) (hopen : s.IsOpenFor (route s.around.catalog x) n)
    (hslot : s.isGranted n w = true) :
    Leads (· = s) (resume w (heldCourier n (x :: more) since)) fun c s' =>
      ∃ t, Carries [] s t ∧ Brought x s t ∧ Went w since more t s' c := by
  have hagain : Leads (· = s) (redeliver w n (.offer x)) fun r t =>
      r = true ∧ Carries [] s t ∧ Brought x s t := by
    unfold redeliver
    refine .look ?_
    rintro s rfl
    rw [if_pos hslot]
    refine (leads_postGranted hopen.2 w (.add x)).bind fun _ => Leads.pure ?_
    rintro t ⟨hposts, hqueue⟩
    exact ⟨rfl, hposts, n, [.add x], hposts.desks _ n hopen, hqueue, by simp⟩
  refine Leads.bind hagain fun r => ?_
  rintro t ⟨rfl, hcarries, hbrought⟩
  have hrest := leads_carry_offers (hcarries.isStopped.trans hgoes)
    (hcarries.isLogged.trans hlogged) w more since t rfl
  exact ⟨t, hcarries, hbrought, hrest⟩

/-- A go that leaves the courier idle has offered everything. -/
theorem Went.idle (h : Went w since l s s' c) (hidle : c.isIdle = true) :
    Carries (alarmAfter s.store since s.settings.wakeBefore).toList s s' ∧ AllBrought l s s' := by
  cases h with
  | waits => cases hidle
  | ends hcarries hall => exact ⟨hcarries, hall⟩

theorem Went.held (h : Went w since l s s' c) (hheld : c.heldAt = some n) :
    ∃ done x more, c = heldCourier n (x :: more) since ∧ l = done ++ x :: more ∧ Carries [] s s' ∧
      AllBrought done s s' ∧ s'.IsOpenFor (route s'.around.catalog x) n ∧ s'.InLine n w := by
  cases h with
  | waits done more x k heq hcarries hdone hopen hline =>
    obtain rfl : k = n := Option.some.inj hheld
    exact ⟨done, x, more, rfl, heq, hcarries, hdone, hopen, hline⟩
  | ends => cases hheld

theorem Went.length_le (h : Went w since l s s' c) : c.parcels.length ≤ l.length := by
  cases h with
  | waits done more x n heq =>
    rw [heq, heldCourier, List.length_map, List.length_append]
    omega
  | ends => exact Nat.zero_le _

end Station

end Timeshift
