import Timeshift.Station.Service
import Timeshift.Proofs.Tables

/-!
# Running acts

What an act leads to, from which stations. The traffic of a station is all that the delivery of
schedules to the desks depends on. Most acts are quiet: they leave the traffic as it is.
-/

namespace Timeshift

namespace Station

variable {α β : Type}

/-- What an act returns, and the station after it. -/
def run (s : Station) (act : Act α) : α × Station := StateT.run act s

@[simp] theorem run_pure (s : Station) (a : α) : s.run (pure a) = (a, s) := rfl

@[simp] theorem run_bind (s : Station) (act : Act α) (next : α → Act β) :
    s.run (act >>= next) = (s.run act).2.run (next (s.run act).1) := rfl

@[simp] theorem run_get (s : Station) : s.run get = (s, s) := rfl

theorem run_look (s : Station) (next : Station → Act β) :
    s.run (get >>= next) = s.run (next s) := rfl

@[simp] theorem run_set (s t : Station) : s.run (set t) = ((), t) := rfl

@[simp] theorem run_modify (s : Station) (f : Station → Station) :
    s.run (modify f) = ((), f s) := rfl

/-! ## New numbers -/

theorem le_foldl_max (l : List Nat) (n : Nat) : n ≤ l.foldl (fun n k => max n (k + 1)) n := by
  induction l generalizing n with
  | nil => exact Nat.le_refl n
  | cons k rest ih => exact Nat.le_trans (Nat.le_max_left n (k + 1)) (ih _)

theorem lt_foldl_max {l : List Nat} {k : Nat} (h : k ∈ l) (n : Nat) :
    k < l.foldl (fun n k => max n (k + 1)) n := by
  induction l generalizing n with
  | nil => cases h
  | cons x rest ih =>
    rcases List.mem_cons.mp h with rfl | hrest
    · exact Nat.le_trans (Nat.le_max_right n (k + 1)) (le_foldl_max rest _)
    · exact ih hrest _

theorem fresh_not_mem {α : Type} (table : Std.TreeMap Nat α) : fresh table ∉ table :=
  fun hmem => Nat.lt_irrefl _ (lt_foldl_max (Std.TreeMap.mem_keys.mpr hmem) 1)

theorem get_fresh {α : Type} (table : Std.TreeMap Nat α) : table[fresh table]? = none :=
  Std.TreeMap.getElem?_eq_none (fresh_not_mem table)

/-! ## What an act leads to -/

/-- From every station with `P` the act leads to one with `Q`. -/
def Leads (P : Station → Prop) (act : Act α) (Q : α → Station → Prop) : Prop :=
  ∀ s, P s → Q (s.run act).1 (s.run act).2

namespace Leads

variable {P : Station → Prop} {Q : α → Station → Prop} {R : β → Station → Prop}

theorem pure {a : α} (h : ∀ s, P s → Q a s) : Leads P (Pure.pure a) Q := h

theorem bind {act : Act α} {next : α → Act β} (h : Leads P act Q)
    (h' : ∀ a, Leads (Q a) (next a) R) : Leads P (act >>= next) R :=
  fun s hs => h' _ _ (h s hs)

/-- The act that comes next may look at the station. -/
theorem look {next : Station → Act β} (h : ∀ s, P s → Leads (· = s) (next s) R) :
    Leads P (get >>= next) R := fun s hs => h s hs s rfl

theorem strengthen {P' : Station → Prop} {act : Act α} (h : Leads P act Q)
    (hpre : ∀ s, P' s → P s) : Leads P' act Q := fun s hs => h s (hpre s hs)

theorem here {s : Station} {act : Act α} (h : Leads P act Q) (hs : P s) : Leads (· = s) act Q :=
  h.strengthen fun _ heq => heq ▸ hs

theorem weaken {Q' : α → Station → Prop} {act : Act α} (h : Leads P act Q)
    (hpost : ∀ a s, Q a s → Q' a s) : Leads P act Q' := fun s hs => hpost _ _ (h s hs)

theorem discard {act : Act α} {Q : Station → Prop} (h : Leads P act fun _ => Q) :
    Leads P (discard act) fun _ => Q := h

theorem forM {f : β → Act Unit} (h : ∀ b, Leads P (f b) fun _ => P) (l : List β) :
    Leads P (l.forM f) fun _ => P := by
  induction l with
  | nil => exact fun s hs => hs
  | cons b rest ih => exact (h b).bind fun _ => ih

end Leads

/-! ## Traffic -/

/-- A desk as its senders see it. -/
structure Books where
  admission : Admission
  queue : List Admission.Message
  isOpen : Bool

/-- What the delivery of schedules to the desks depends on. -/
structure Traffic where
  catalog : Catalog
  store : Store
  events : Broadcast StoreEvent
  state : ControlState
  isStopped : Bool
  listener : Nat
  control : Courier
  watcher : Courier
  registered : Std.TreeMap InputId Nat
  desks : Nat → Option Books

end Station

namespace Desk

def books (d : Desk) : Station.Books where
  admission := d.admission
  queue := d.mailbox.queue
  isOpen := !(d.mailbox.isClosed || d.isCancelled || d.hasEnded)

end Desk

namespace Station

def traffic (s : Station) : Traffic where
  catalog := s.around.catalog
  store := s.store
  events := s.storeEvents
  state := s.control.state
  isStopped := s.control.isStopped
  listener := s.control.listener
  control := s.control.courier
  watcher := s.alarm.courier
  registered := s.control.desks
  desks n := (s.desks[n]?).map Desk.books

namespace Traffic

/-- Something changes at one desk, if it exists. -/
def alter (t : Traffic) (n : Nat) (f : Books → Books) : Traffic :=
  { t with desks := fun k => if n = k then (t.desks k).map f else t.desks k }

theorem alter_id (t : Traffic) (n : Nat) : t.alter n id = t := by
  have hdesks : (fun k => if n = k then (t.desks k).map id else t.desks k) = t.desks := by
    funext k
    split <;> simp
  rw [alter, hdesks]

end Traffic

theorem run_modifyDesk (s : Station) (n : Nat) {f : Desk → Desk} {g : Books → Books}
    (h : ∀ d, s.desks[n]? = some d → (f d).books = g d.books) :
    (s.run (modifyDesk n f)).2.traffic = s.traffic.alter n g := by
  have hdesks : (fun k => ((s.desks.modify n f)[k]?).map Desk.books) =
      fun k => if n = k then ((s.desks[k]?).map Desk.books).map g
        else (s.desks[k]?).map Desk.books := by
    funext k
    rw [Std.TreeMap.getElem?_modify]
    by_cases hk : n = k
    · subst hk
      cases hd : s.desks[n]? with
      | none => simp
      | some d => simp [h d hd]
    · simp [hk]
  simp only [modifyDesk, run_modify, traffic, Traffic.alter, hdesks]

/-! ## Quiet acts -/

/-- The act leaves the traffic as it is. -/
def IsQuiet (act : Act α) : Prop := ∀ s : Station, (s.run act).2.traffic = s.traffic

namespace IsQuiet

theorem pure (a : α) : IsQuiet (Pure.pure a) := fun _ => rfl

theorem get : IsQuiet MonadState.get := fun _ => rfl

theorem bind {act : Act α} {next : α → Act β} (h : IsQuiet act) (h' : ∀ a, IsQuiet (next a)) :
    IsQuiet (act >>= next) := fun s => (h' _ _).trans (h s)

theorem edit {f : Station → Station} (h : ∀ s, (f s).traffic = s.traffic) :
    IsQuiet (modify f : Act Unit) := h

theorem look {next : Station → Act β}
    (h : ∀ s : Station, (s.run (next s)).2.traffic = s.traffic) :
    IsQuiet ((MonadState.get : Act Station) >>= next) := h

theorem forM {f : β → Act Unit} (h : ∀ b, IsQuiet (f b)) (l : List β) : IsQuiet (l.forM f) := by
  induction l with
  | nil => exact fun _ => rfl
  | cons b rest ih => exact (h b).bind fun _ => ih

theorem modifyDesk (n : Nat) {f : Desk → Desk} (h : ∀ d, (f d).books = d.books) :
    IsQuiet (Station.modifyDesk n f) := by
  intro s
  rw [run_modifyDesk s n (g := id) fun d _ => h d, Traffic.alter_id]

theorem leads {act : Act α} (h : IsQuiet act) (P : Traffic → Prop) :
    Leads (fun s => P s.traffic) act fun _ s => P s.traffic := by
  intro s hs
  show P (s.run act).2.traffic
  rwa [h s]

theorem andThen {act : Act α} {next : α → Act β} {P : Traffic → Prop} {Q : β → Station → Prop}
    (h : IsQuiet act) (h' : ∀ a, Leads (fun s => P s.traffic) (next a) Q) :
    Leads (fun s => P s.traffic) (act >>= next) Q := (h.leads P).bind h'

end IsQuiet

/-! ### Agenda, takes and reports -/

theorem quiet_wake (w : Worker) : IsQuiet (wake w) := .edit fun _ => rfl

theorem quiet_wakeAll (l : List Worker) : IsQuiet (wakeAll l) := .forM quiet_wake l

theorem quiet_wakeNext (next : Option Worker) : IsQuiet (next.forM wake) := by
  cases next with
  | none => exact .pure _
  | some w => exact quiet_wake w

theorem quiet_sleepUntil (w : Worker) (due : Nat) : IsQuiet (sleepUntil w due) := .edit fun _ => rfl

theorem quiet_rouse (w : Worker) : IsQuiet (rouse w) := .edit fun _ => rfl

theorem quiet_stepAside (w : Worker) : IsQuiet (stepAside w) := .edit fun _ => rfl

theorem quiet_listen (w : Worker) : IsQuiet (listen w) := .edit fun _ => rfl

theorem quiet_stopListening (w : Worker) : IsQuiet (stopListening w) := .edit fun _ => rfl

theorem quiet_modifyTake (n : Nat) (f : TakeRun → TakeRun) : IsQuiet (modifyTake n f) :=
  .edit fun _ => rfl

theorem quiet_fileReport (r : Report) : IsQuiet (fileReport r) := by
  refine .look fun s => ?_
  split
  · rfl
  · simp only [run_bind, run_set]
    split
    · exact quiet_wake .control _
    · rfl

theorem quiet_abandonTake (take : Nat) : IsQuiet (abandonTake take) :=
  (quiet_modifyTake take _).bind fun _ => quiet_wake _

theorem quiet_perform (n : Nat) (e : Admission.Effect) : IsQuiet (perform n e) := by
  cases e with
  | start seq s channel =>
    refine .bind .get fun s => .bind (.edit fun _ => rfl) fun _ => ?_
    exact .bind (.modifyDesk n fun _ => rfl) fun _ => quiet_wake _
  | tell seq order =>
    refine .bind .get fun s => ?_
    split
    · exact .bind (quiet_modifyTake _ _) fun _ => quiet_wake _
    · exact .pure _
  | report r => exact quiet_fileReport r
  | reply asker view => exact .bind (.edit fun _ => rfl) fun _ => quiet_wake _

theorem quiet_abandonGone (n : Nat) : IsQuiet (abandonGone n) := by
  refine .bind .get fun s => ?_
  split
  · exact .bind (.modifyDesk n fun _ => rfl) fun _ => .forM (fun _ => quiet_abandonTake _) _
  · exact .pure _

theorem quiet_closeTake (n : Nat) : IsQuiet (closeTake n) :=
  (quiet_modifyTake n _).bind fun _ => quiet_rouse _

theorem quiet_beginTake (n : Nat) (run : TakeRun) : IsQuiet (beginTake n run) :=
  .look fun _ => rfl

/-! ### The alarm -/

theorem quiet_setAlarm (t : Instant) : IsQuiet (setAlarm t) := by
  refine .bind .get fun s => ?_
  dsimp only
  split
  case' isTrue => refine .bind (.edit fun _ => rfl) fun _ => ?_
  all_goals
    split
    · exact .bind (.edit fun _ => rfl) fun _ => .bind (.edit fun _ => rfl) fun _ => quiet_wake _
    · exact .pure _

theorem quiet_tick (n : Nat) : IsQuiet (tick n) :=
  .bind (.edit fun _ => rfl) fun _ => .bind (.edit fun _ => rfl) fun _ => quiet_wake _

theorem quiet_runSleeper (n : Nat) : IsQuiet (runSleeper n) := by
  refine .bind .get fun s => ?_
  split
  · split
    · exact quiet_rouse _
    · split
      · split
        · exact quiet_tick n
        · exact .pure _
      · split
        · exact quiet_tick n
        · exact .bind (.edit fun _ => rfl) fun _ => quiet_sleepUntil _ _
  · exact .pure _

end Station

end Timeshift
