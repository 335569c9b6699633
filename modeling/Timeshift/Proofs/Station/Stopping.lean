import Timeshift.Proofs.Station.Offers

/-!
# Telling desks to stop

A client tells the desks of some schedules to stop recording, one after the other, until one of
them cannot be reached.
-/

namespace Timeshift

namespace Station

open Admission (Message)
open Dispatch (route)

variable {α β : Type} {s : Station} {l : List Schedule} {x : Schedule} {k n : Nat}

/-! ## Desks and their mailboxes -/

/-- The desk that a schedule is handed to. -/
def deskOf? (s : Station) (x : Schedule) : Option Desk :=
  (s.control.desks[route s.around.catalog x]?).bind (s.desks[·]?)

/-- The desk that a schedule is handed to can be told something. -/
def Reaches (s : Station) (x : Schedule) : Prop := ∃ d ∈ s.deskOf? x, d.mailbox.isClosed = false

instance (s : Station) (x : Schedule) : Decidable (s.Reaches x) :=
  inferInstanceAs (Decidable (∃ d ∈ s.deskOf? x, d.mailbox.isClosed = false))

/-- Nobody has to wait before `k` messages are put into any of the mailboxes. -/
def HasRoomFor (s : Station) (l : List Schedule) (k : Nat) : Prop :=
  ∀ x ∈ l, ∀ d ∈ s.deskOf? x, d.mailbox.isClosed = false →
    d.mailbox.queue.length + d.mailbox.granted.length + k ≤ d.mailbox.capacity

instance (s : Station) (l : List Schedule) (k : Nat) : Decidable (s.HasRoomFor l k) :=
  inferInstanceAs (Decidable (∀ x ∈ l, ∀ d ∈ s.deskOf? x, _ → _))

theorem run_post_closed (h : s.isClosed n = true) (message : Message) :
    s.run (post n message) = (.error .stopped, s) := by
  have htry : s.run (tryPost n message) = (.closed, s) := by
    rw [tryPost, run_look]
    rw [isClosed] at h
    cases hdesk : s.desks[n]? with
    | none => rfl
    | some d =>
      rw [hdesk] at h
      exact congrArg (s.run ·) (if_pos h)
  rw [post, run_bind, postOrJoin, run_bind, htry]
  rfl

/-- The station after a message has been put into the mailbox of a desk. -/
def posted (s : Station) (n : Nat) (message : Message) : Station :=
  { s with
    desks := s.desks.modify n fun d => { d with mailbox := d.mailbox.put message }
    agenda := s.agenda.wake (.desk n) }

theorem run_post_open {d : Desk} (hdesk : s.desks[n]? = some d)
    (hopen : d.mailbox.isClosed = false) (hslot : d.mailbox.isFull = false) (message : Message) :
    s.run (post n message) = (.ok (), s.posted n message) := by
  have htry : s.run (tryPost n message) = (.done, s.posted n message) := by
    rw [tryPost, run_look, hdesk]
    dsimp only
    rw [hopen, hslot]
    rfl
  rw [post, run_bind, postOrJoin, run_bind, htry]
  rfl

theorem desks_posted (s : Station) (n : Nat) (message : Message) (m : Nat) :
    (s.posted n message).desks[m]? = if n = m
      then (s.desks[m]?).map fun d => { d with mailbox := d.mailbox.put message }
      else s.desks[m]? := desks_modifyDesk s n _ m

/-- A message changes at most the mailbox. -/
theorem deskOf?_posted (s : Station) (n : Nat) (message : Message) (x : Schedule) :
    (s.posted n message).deskOf? x = s.deskOf? x ∨ (s.posted n message).deskOf? x =
      (s.deskOf? x).map fun d => { d with mailbox := d.mailbox.put message } := by
  have hnumber : (s.posted n message).deskOf? x =
      (s.control.desks[route s.around.catalog x]?).bind ((s.posted n message).desks[·]?) := rfl
  rw [hnumber, deskOf?]
  cases s.control.desks[route s.around.catalog x]? with
  | none => exact Or.inl rfl
  | some m =>
    rw [Option.bind_some, Option.bind_some, desks_posted]
    split
    · exact Or.inr rfl
    · exact Or.inl rfl

theorem reaches_posted (s : Station) (n : Nat) (message : Message) (x : Schedule) :
    (s.posted n message).Reaches x ↔ s.Reaches x := by
  rw [Reaches, Reaches]
  rcases deskOf?_posted s n message x with hsame | hput
  · rw [hsame]
  · rw [hput]
    cases s.deskOf? x with
    | none => exact Iff.rfl
    | some d =>
      simp only [Option.map_some, Option.mem_some_iff, exists_eq_left']
      exact Iff.rfl

/-- A message takes up one slot. -/
theorem HasRoomFor.posted (h : s.HasRoomFor l (k + 1)) (n : Nat) (message : Message) :
    (s.posted n message).HasRoomFor l k := by
  intro x hx d hd hopen
  rcases deskOf?_posted s n message x with hsame | hput
  · have hroom := h x hx d (hsame ▸ hd) hopen
    omega
  · rw [hput] at hd
    obtain ⟨e, he, rfl⟩ := Option.map_eq_some_iff.mp hd
    have hroom := h x hx e he hopen
    change (e.mailbox.queue ++ [message]).length + e.mailbox.granted.length + k ≤ _
    rw [List.length_append, List.length_singleton]
    exact Nat.le_trans (by omega) hroom

/-! ## Stopping one after the other -/

theorem run_deed (s : Station) (act : Deed α) (next : α → Deed β) :
    s.run (act >>= next).run = match s.run act.run with
      | (.ok a, t) => t.run (next a).run
      | (.error fault, t) => (.error fault, t) := by
  rw [ExceptT.run_bind, run_bind]
  rcases s.run act.run with ⟨answer, t⟩
  cases answer <;> rfl

theorem run_look_deed (s : Station) (next : Station → Deed β) :
    s.run (get >>= next).run = s.run (next s).run := rfl

theorem run_lift_deed (s : Station) (act : Act α) :
    s.run (liftM act : Deed α).run = (.ok (s.run act).1, (s.run act).2) := rfl

theorem run_stopTask (s : Station) (x : Schedule) : s.run (stopTask x).run =
    match s.control.desks[route s.around.catalog x]? with
    | none => (.error (.notFound "input scheduler" (route s.around.catalog x)), s)
    | some n =>
      let posted := s.run (post n (.stopTask x.id))
      (posted.1.mapError .unreachable, posted.2) := by
  rw [stopTask, run_look_deed]
  dsimp only
  cases s.control.desks[route s.around.catalog x]? with
  | none => rfl
  | some n =>
    dsimp only
    rw [run_deed, run_lift_deed]
    rcases s.run (post n (.stopTask x.id)) with ⟨answer, t⟩
    cases answer <;> rfl

theorem run_stopTask_reached (hreach : s.Reaches x) (hroom : s.HasRoomFor [x] 1) :
    ∃ n, s.run (stopTask x).run = (.ok (), s.posted n (.stopTask x.id)) := by
  obtain ⟨d, hd, hopen⟩ := hreach
  obtain ⟨n, hn, hdesk⟩ := Option.bind_eq_some_iff.mp hd
  have hslot : d.mailbox.isFull = false := by
    have hle := hroom x (List.mem_singleton_self x) d hd hopen
    exact decide_eq_false (by omega)
  rw [run_stopTask, hn]
  dsimp only
  rw [run_post_open hdesk hopen hslot]
  exact ⟨n, rfl⟩

theorem run_stopTask_unreached (hreach : ¬ s.Reaches x) :
    ∃ fault, s.run (stopTask x).run = (.error fault, s) := by
  rw [run_stopTask]
  cases hdesk : s.control.desks[route s.around.catalog x]? with
  | none => exact ⟨_, rfl⟩
  | some n =>
    have hn : s.isClosed n = true := by
      by_contra hopen
      obtain ⟨d, hd, hopen⟩ := isClosed_eq_false_iff.mp (Bool.eq_false_iff.mpr hopen)
      exact hreach ⟨d, Option.bind_eq_some_iff.mpr ⟨n, hdesk, hd⟩, hopen⟩
    dsimp only
    rw [run_post_closed hn]
    exact ⟨_, rfl⟩

/-- A schedule whose desk cannot be reached ends the stopping, and otherwise all are told to stop.
The store stays as it is. -/
theorem stop_all (hroom : s.HasRoomFor l l.length) :
    let stopped := s.run (l.forM stopTask).run
    stopped.2.store = s.store ∧
      ((∃ fault, stopped.1 = .error fault) ↔ ∃ x ∈ l, ¬ s.Reaches x) := by
  -- On the list. Each message that is posted takes up one of the slots that are left.
  induction l generalizing s with
  | nil => exact ⟨rfl, iff_of_false (fun ⟨_, h⟩ => nomatch h) fun ⟨_, h, _⟩ => nomatch h⟩
  | cons x rest ih =>
    intro stopped
    have hrun := run_deed s (stopTask x) fun _ => rest.forM stopTask
    change stopped = _ at hrun
    by_cases hreach : s.Reaches x
    · have hone : s.HasRoomFor [x] 1 := fun y hy d hd hopen => by
        obtain rfl := List.mem_singleton.mp hy
        have hle := hroom y List.mem_cons_self d hd hopen
        rw [List.length_cons] at hle
        omega
      obtain ⟨n, hposted⟩ := run_stopTask_reached hreach hone
      have hrest : (s.posted n (.stopTask x.id)).HasRoomFor rest rest.length :=
        HasRoomFor.posted (fun y hy => hroom y (List.mem_cons_of_mem x hy)) n _
      rw [hposted] at hrun
      obtain ⟨hstore, hfails⟩ := ih hrest
      rw [hrun]
      refine ⟨hstore, hfails.trans ?_⟩
      simp only [reaches_posted, List.exists_mem_cons_iff]
      exact (or_iff_right fun hnone => hnone hreach).symm
    · obtain ⟨fault, hfault⟩ := run_stopTask_unreached hreach
      rw [hfault] at hrun
      rw [hrun]
      exact ⟨rfl, iff_of_true ⟨fault, rfl⟩ ⟨x, List.mem_cons_self, hreach⟩⟩

end Station

end Timeshift
