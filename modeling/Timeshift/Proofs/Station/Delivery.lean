import Timeshift.Proofs.Station.Flow

/-!
# Couriers at work

A courier brings its parcels to the desks in order, and keeps those that it could not hand over.
-/

namespace Timeshift

namespace Station

open Admission (Message)

variable {home : ScheduleId → InputId} {base t : Traffic} {ps qs : List Parcel} {p : Parcel}
  {n : Nat} {m : Message} {w : Worker}

/-! ## Posting -/

/-- What comes of a message that is posted. -/
inductive Posts (n : Nat) (m : Message) (t : Traffic) : Posted → Traffic → Prop where
  | done : Posts n m t .done (t.alter n (Books.put m))
  | full : Posts n m t .full t
  | closed : (∀ b, t.desks n = some b → b.isOpen = false) → Posts n m t .closed t

theorem posts_tryPost (s : Station) (n : Nat) (m : Message) :
    Posts n m s.traffic (s.run (tryPost n m)).1 (s.run (tryPost n m)).2.traffic := by
  simp only [tryPost, run_bind, run_get]
  split
  · next hnone =>
    refine .closed fun b hb => ?_
    simp [traffic, hnone] at hb
  · next desk hdesk =>
    split
    · next hclosed =>
      refine .closed fun b hb => ?_
      simp only [traffic, hdesk, Option.map_some, Option.some.injEq] at hb
      simp [← hb, Desk.books, hclosed]
    · split
      · exact .full
      · have hput := run_modifyDesk s n (f := fun d => { d with mailbox := d.mailbox.put m })
          (g := Books.put m) fun d _ => rfl
        simp only [run_bind, run_pure]
        rw [quiet_wake, hput]
        exact .done

theorem posts_postOrJoin (s : Station) (n : Nat) (w : Worker) (m : Message) :
    Posts n m s.traffic (s.run (postOrJoin n w m)).1 (s.run (postOrJoin n w m)).2.traffic := by
  have hpost := posts_tryPost s n m
  simp only [postOrJoin, run_bind]
  split
  · have hjoin : IsQuiet (modifyDesk n fun d => { d with mailbox := d.mailbox.join w }) :=
      .modifyDesk n fun _ => rfl
    simp only [run_bind, run_pure]
    rw [hjoin]
    exact hpost
  · exact hpost

theorem run_postGranted (s : Station) (n : Nat) (w : Worker) (m : Message) :
    (s.run (postGranted n w m)).2.traffic = s.traffic.alter n (Books.put m) := by
  simp only [postGranted, run_bind]
  rw [quiet_wake]
  exact run_modifyDesk s n fun d _ => rfl

/-! ## Desks of inputs -/

namespace Flows

variable {s : Station}

theorem isClosed_eq (h : Flows home base ps s.traffic) {input : InputId}
    (hn : s.control.desks[input]? = some n) : s.isClosed n = false := by
  obtain ⟨b, hb, -⟩ := h.named input n hn
  obtain ⟨d, hd, rfl⟩ := Option.map_eq_some_iff.mp hb
  have hopen := (h.desks n _ hb).1.isOpen
  simp only [Desk.books, Bool.not_eq_true', Bool.or_eq_false_iff] at hopen
  simp [isClosed, hd, hopen]

theorem openDesk?_eq (h : Flows home base ps s.traffic) (input : InputId) :
    s.openDesk? input = s.control.desks[input]? := by
  have hgoes : s.control.isStopped = false := h.goesOn
  rw [openDesk?, hgoes]
  cases hn : s.control.desks[input]? with
  | none => rfl
  | some n => simp [Option.filter, h.isClosed_eq hn]

end Flows

theorem traffic_register (s : Station) (input : InputId) :
    (s.run (do
      let n ← openDesk input true
      modifyControl fun c => { c with desks := c.desks.insert input n }
      return some n)).2.traffic =
    s.traffic.openDesk (fresh s.desks) input s.settings.earlyStart := by
  have hdesks : ∀ k, ((s.desks.insert (fresh s.desks)
      { admission := { inputId := input, lead := s.settings.earlyStart }
        mailbox := .empty s.settings.mailboxCapacity
        isSpawned := true })[k]?).map Desk.books =
      if fresh s.desks = k then
        some ⟨{ inputId := input, lead := s.settings.earlyStart }, [], true⟩
      else (s.desks[k]?).map Desk.books := by
    intro k
    rw [get_insert]
    split <;> rfl
  exact congrArg (fun desks => { s.traffic with
    desks, registered := s.control.desks.insert input (fresh s.desks) }) (funext hdesks)

theorem leads_deskFor (input : InputId) :
    Leads (fun s => Flows home base ps s.traffic) (deskFor input) fun r s =>
      Flows home base ps s.traffic ∧ ∃ n, r = some n ∧ s.traffic.registered[input]? = some n := by
  refine .look fun s h => ?_
  have hgoes : ¬ s.control.isStopped = true := by
    rw [show s.control.isStopped = false from h.goesOn]
    exact Bool.false_ne_true
  rw [h.openDesk?_eq]
  split
  · next n hn =>
    rintro _ rfl
    exact ⟨h, n, rfl, hn⟩
  · next hnone =>
    have hn : s.traffic.desks (fresh s.desks) = none := by
      simp [traffic, fresh_not_mem]
    have hopened := h.openDesk hn hnone s.settings.earlyStart
    rw [if_neg hgoes]
    rintro _ rfl
    rw [traffic_register]
    exact ⟨hopened, _, rfl, Std.TreeMap.getElem?_insert_self⟩

/-! ## Parcels -/

/-- An offer is only made for a schedule that waits. -/
def IsDue (p : Parcel) : Prop := ∀ s, p = .offer s → s.isNotStarted = true

theorem quiet_reportLost (input : InputId) (p : Parcel) : IsQuiet (reportLost input p) := by
  rw [reportLost]
  cases p.atStake with
  | none => exact .pure _
  | some s => exact quiet_fileReport _

/-- The desk that is found is that of the address. Nobody is found for an offer that need not be
made, and where there is no desk. -/
def Finds (home : ScheduleId → InputId) (p : Parcel) (t : Traffic) : Option Nat → Prop
  | some n => t.registered[p.address home]? = some n ∧ IsDue p
  | none => (∃ x, p = .offer x) ∨ t.registered[p.address home]? = none

theorem finds_registered (hp : IsDue p) : Finds home p t t.registered[p.address home]? := by
  cases hn : t.registered[p.address home]? with
  | none => exact Or.inr hn
  | some n => exact ⟨hn, hp⟩

theorem leads_addressee (p : Parcel) :
    Leads (fun s => Flows home base (p :: ps) s.traffic) (addressee p) fun r s =>
      Flows home base (p :: ps) s.traffic ∧ Finds home p s.traffic r := by
  refine .look fun s h => ?_
  have hinput : p.input s.around.catalog = p.address home :=
    Parcel.input_eq_address (h.routed p (by simp))
  rw [hinput]
  cases p with
  | offer x =>
    dsimp only
    split
    · next hsoon =>
      have hwaits : x.isNotStarted = true := (Bool.and_eq_true_iff.mp hsoon).1
      refine ((leads_deskFor _).here h).weaken ?_
      rintro _ s' ⟨h', n, rfl, hn⟩
      refine ⟨h', hn, ?_⟩
      rintro y heq
      exact (Parcel.offer.inj heq) ▸ hwaits
    · rintro _ rfl
      exact ⟨h, Or.inl ⟨x, rfl⟩⟩
  | align input pending =>
    rintro _ rfl
    exact ⟨h, finds_registered fun _ heq => nomatch heq⟩
  | update x | remove x =>
    dsimp only
    rw [h.openDesk?_eq]
    split
    · refine Leads.bind (Q := fun _ s' => s'.traffic = s.traffic) ?_ ?_
      · rintro s' rfl
        exact quiet_reportLost _ _ s'
      · rintro _ s' heq
        rw [run_pure, heq]
        exact ⟨h, finds_registered fun _ heq => nomatch heq⟩
    · rintro _ rfl
      exact ⟨h, finds_registered fun _ heq => nomatch heq⟩

/-- The parcel is out of the courier's hands, or waits at the desk of its address. -/
def Left (home : ScheduleId → InputId) (base : Traffic) (p : Parcel) (ps : List Parcel)
    (t : Traffic) : Option Nat → Prop
  | none => Flows home base ps t
  | some n =>
    Flows home base (p :: ps) t ∧ t.registered[p.address home]? = some n ∧ IsDue p

theorem leads_deliver (w : Worker) (p : Parcel) :
    Leads (fun s => Flows home base (p :: ps) s.traffic) (deliver w p) fun r s =>
      Left home base p ps s.traffic r := by
  refine (leads_addressee p).bind fun r => ?_
  cases r with
  | none =>
    rintro s ⟨h, hskip⟩
    exact h.skip hskip
  | some n =>
    refine Leads.bind (Q := fun posted s => posted ≠ .closed ∧
      Left home base p ps s.traffic (if posted = .full then some n else none)) ?_ fun posted => ?_
    · rintro s ⟨h, hn, hdue⟩
      obtain ⟨b, hb, -⟩ := h.named _ n hn
      have hopen := (h.desks n b hb).1.isOpen
      have hposts := posts_postOrJoin s n w p.message
      generalize s.run (postOrJoin n w p.message) = r at hposts ⊢
      obtain ⟨posted, s'⟩ := r
      dsimp only at hposts ⊢
      generalize s'.traffic = t at hposts ⊢
      cases hposts with
      | done => exact ⟨Posted.noConfusion, h.post hn hdue⟩
      | full => exact ⟨Posted.noConfusion, h, hn, hdue⟩
      | closed hclosed => cases hopen.symm.trans (hclosed b hb)
    · cases posted with
      | done | full => exact fun s h => h.2
      | closed => exact fun s h => absurd rfl h.1

/-- The desk at which the first parcel waits is that of its address. -/
def WaitsAt (home : ScheduleId → InputId) (t : Traffic) (parcels : List Parcel) (n : Nat) : Prop :=
  ∃ p rest, parcels = p :: rest ∧ t.registered[p.address home]? = some n ∧ IsDue p

/-- What a courier that has brought parcels to the desks has left of them. -/
structure Delivered (home : ScheduleId → InputId) (base : Traffic) (ps qs : List Parcel)
    (r : List Parcel × Option Nat) (t : Traffic) : Prop where
  flows : Flows home base (r.1 ++ ps) t
  suffix : r.1 <:+ qs
  idle : r.2 = none → r.1 = []
  waits : ∀ n, r.2 = some n → WaitsAt home t r.1 n

theorem leads_deliverAll (w : Worker) (qs : List Parcel) :
    Leads (fun s => Flows home base (qs ++ ps) s.traffic) (deliverAll w qs) fun r s =>
      Delivered home base ps qs r s.traffic := by
  induction qs with
  | nil => exact fun s h => ⟨h, List.suffix_rfl, fun _ => rfl, fun _ hn => nomatch hn⟩
  | cons q rest ih =>
    refine (leads_deliver w q).bind fun r => ?_
    cases r with
    | none =>
      refine ih.weaken fun r s h => { h with suffix := ?_ }
      exact h.suffix.trans (List.suffix_cons q rest)
    | some n =>
      refine Leads.pure fun s h => ?_
      obtain ⟨hflows, hn, hdue⟩ := h
      refine ⟨hflows, List.suffix_rfl, nofun, ?_⟩
      rintro _ ⟨⟩
      exact ⟨q, rest, rfl, hn, hdue⟩

theorem leads_redeliver (w : Worker) (n : Nat) (p : Parcel) :
    Leads (fun s => Flows home base (p :: ps) s.traffic ∧
        s.traffic.registered[p.address home]? = some n ∧ IsDue p)
      (redeliver w n p) fun r s => Left home base p ps s.traffic (if r then none else some n) := by
  refine .look fun s h => ?_
  obtain ⟨hflows, hn, hdue⟩ := h
  split
  · rintro _ rfl
    simp only [run_bind, run_pure, run_postGranted]
    exact hflows.post hn hdue
  · split
    · next hclosed => cases hclosed.symm.trans (hflows.isClosed_eq hn)
    · rintro _ rfl
      exact ⟨hflows, hn, hdue⟩

/-! ## Rounds -/

/-- A courier that rests has nothing left, or waits at the right desk. -/
structure IsResting (home : ScheduleId → InputId) (t : Traffic) (c : Courier) : Prop where
  idle : c.heldAt = none → c.parcels = []
  waits : ∀ n, c.heldAt = some n → WaitsAt home t c.parcels n

/-- A courier that rests, and has only offers to make. -/
structure IsOffering (home : ScheduleId → InputId) (t : Traffic) (c : Courier) : Prop where
  resting : IsResting home t c
  offers : ∀ p ∈ c.parcels, ∃ s, p = .offer s

theorem IsResting.nothing : IsResting home t {} := ⟨fun _ => rfl, fun _ hn => nomatch hn⟩

theorem IsOffering.nothing : IsOffering home t {} := ⟨.nothing, fun _ hp => nomatch hp⟩

section Growth

variable {t' : Traffic} {c : Courier} (hgrows : ∀ (input : InputId) (n : Nat),
  t.registered[input]? = some n → t'.registered[input]? = some n)

include hgrows

theorem IsResting.grow (h : IsResting home t c) : IsResting home t' c where
  idle := h.idle
  waits n hn := by
    obtain ⟨p, rest, heq, hreg, hdue⟩ := h.waits n hn
    exact ⟨p, rest, heq, hgrows _ n hreg, hdue⟩

theorem IsOffering.grow (h : IsOffering home t c) : IsOffering home t' c :=
  ⟨h.resting.grow hgrows, h.offers⟩

end Growth

/-- What a courier has left is of what it had, or is offered in a round. -/
structure Rests (home : ScheduleId → InputId) (base : Traffic) (ps qs : List Parcel)
    (c : Courier) (t : Traffic) : Prop where
  flows : Flows home base (c.parcels ++ ps) t
  resting : IsResting home t c
  known : ∀ p ∈ c.parcels, p ∈ qs ∨ ∃ s, p = .offer s

theorem Flows.rests_done (h : Flows home base ps t) : Rests home base ps qs {} t where
  flows := h
  resting := .nothing
  known _ hp := absurd hp List.not_mem_nil

theorem leads_finish (t : Option Instant) :
    Leads (fun s => Flows home base ps s.traffic) (do t.forM setAlarm; return {}) fun c s =>
      Rests home base ps qs c s.traffic := by
  have hquiet : IsQuiet (t.forM setAlarm) := by
    cases t with
    | none => exact .pure _
    | some t => exact quiet_setAlarm t
  refine (hquiet.leads fun t => Flows home base ps t).bind fun _ => ?_
  exact Leads.pure fun _ h => h.rests_done

theorem Flows.offers (h : Flows home base ps t) (now : Instant) :
    Flows home base (Dispatch.offers t.store now ++ ps) t := by
  refine h.offer fun q hq => ?_
  obtain ⟨s, hs, rfl⟩ := List.mem_map.mp hq
  obtain ⟨havailable, -⟩ := List.mem_filter.mp hs
  obtain ⟨hlive, hpending⟩ := List.mem_filter.mp havailable
  obtain ⟨id, hid⟩ := mem_values.mp hlive
  refine ⟨s, rfl, ⟨s, by rwa [h.keyed id s hid], ?_⟩, h.stored id s hid⟩
  exact (Bool.and_eq_true_iff.mp hpending).1

theorem leads_carry (w : Worker) (c : Courier) :
    Leads (fun s => Flows home base (c.parcels ++ ps) s.traffic) (carry w c) fun c' s =>
      Rests home base ps c.parcels c' s.traffic := by
  refine (leads_deliverAll w c.parcels).bind fun r => ?_
  obtain ⟨parcels, heldAt⟩ := r
  cases heldAt with
  | some n =>
    refine Leads.pure fun s h => ?_
    exact ⟨h.flows, ⟨nofun, h.waits⟩, fun p hp => Or.inl (h.suffix.subset hp)⟩
  | none =>
    refine .look fun s h => ?_
    obtain rfl : parcels = [] := h.idle rfl
    have hflows : Flows home base ps s.traffic := h.flows
    cases c.alarmSince with
    | some since => exact (leads_finish _).here hflows
    | none =>
      dsimp only
      split
      · have hround : Leads (· = s) (deliverAll w (Dispatch.offers s.store s.now)) fun r s' =>
            Delivered home base ps (Dispatch.offers s.store s.now) r s'.traffic :=
          (leads_deliverAll w _).here (hflows.offers s.now)
        refine hround.bind fun r => ?_
        obtain ⟨parcels, heldAt⟩ := r
        cases heldAt with
        | some n =>
          refine Leads.pure fun s' h => ?_
          refine ⟨h.flows, ⟨nofun, h.waits⟩, fun p hp => Or.inr ?_⟩
          obtain ⟨x, -, rfl⟩ := List.mem_map.mp (h.suffix.subset hp)
          exact ⟨x, rfl⟩
        | none =>
          refine .look fun s' h => ?_
          obtain rfl : parcels = [] := h.idle rfl
          have hflows' : Flows home base ps s'.traffic := h.flows
          exact (leads_finish _).here hflows'
      · rintro _ rfl
        exact hflows.rests_done

/-- A courier that waits goes on when a slot is kept for it, and stays as it is until then. -/
theorem leads_resume (w : Worker) (c : Courier) :
    Leads (fun s => Flows home base (c.parcels ++ ps) s.traffic ∧
        ∀ n, c.heldAt = some n → WaitsAt home s.traffic c.parcels n)
      (resume w c) fun c' s => Rests home base ps c.parcels c' s.traffic := by
  rw [resume]
  split
  · next n p rest hheld hparcels =>
    have hagain : Leads (fun s => Flows home base (c.parcels ++ ps) s.traffic ∧
          ∀ n, c.heldAt = some n → WaitsAt home s.traffic c.parcels n)
        (redeliver w n p) fun r s =>
          Left home base p (rest ++ ps) s.traffic (if r then none else some n) := by
      refine (leads_redeliver w n p).strengthen fun s h => ?_
      obtain ⟨hflows, hwaits⟩ := h
      obtain ⟨q, more, heq, hn, hdue⟩ := hwaits n hheld
      rw [hparcels] at heq hflows
      obtain ⟨rfl, rfl⟩ := List.cons.inj heq
      exact ⟨hflows, hn, hdue⟩
    refine hagain.bind fun r => ?_
    cases r with
    | true =>
      refine (leads_carry w { c with parcels := rest, heldAt := none }).weaken fun c' s h => ?_
      refine ⟨h.flows, h.resting, fun q hq => (h.known q hq).imp_left fun hold => ?_⟩
      rw [hparcels]
      exact List.mem_cons_of_mem p hold
    | false =>
      refine Leads.pure fun s h => ?_
      obtain ⟨hflows, hn, hdue⟩ := h
      rw [← List.cons_append, ← hparcels] at hflows
      refine ⟨hflows, ⟨fun hnone => ?_, fun k hk => ?_⟩, fun q hq => Or.inl hq⟩
      · cases hnone.symm.trans hheld
      · obtain rfl := Option.some.inj (hheld.symm.trans hk)
        exact ⟨p, rest, hparcels, hn, hdue⟩
  · exact (leads_carry w c).strengthen fun _ h => h.1

end Station

end Timeshift
