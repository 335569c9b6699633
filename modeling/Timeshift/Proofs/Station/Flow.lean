import Timeshift.Proofs.Broadcast
import Timeshift.Proofs.Station.Acts
import Timeshift.Proofs.Station.Words

/-!
# The flow of messages

What the control loop has yet to deliver gives up every schedule that a desk may hold and that
the store does not want. As long as every schedule keeps its home, whatever happens to the
traffic keeps that so.
-/

namespace Timeshift

namespace Station

open Admission (Message mayHold mayHold_append mayHold_mono mayHold_silent mayHold_of_suffix
  held_of_mayHold take_of_mayHold heldAfter heldAfter_mono)

variable {home : ScheduleId → InputId} {base t : Traffic} {ps : List Parcel} {p : Parcel}
  {n : Nat} {id : ScheduleId} {b : Books}

/-! ## Desks -/

namespace Books

/-- What the desk may hold after all messages in its mailbox. -/
def MayHold (b : Books) (id : ScheduleId) : Prop :=
  mayHold (b.admission.Holds id) (b.queue.map (·.wordOn id))

/-- The desk holds the schedule, or a message in its mailbox takes it. -/
def Concerns (b : Books) (id : ScheduleId) : Prop :=
  b.admission.Holds id ∨ some .take ∈ b.queue.map (·.wordOn id)

theorem MayHold.concerns (h : b.MayHold id) : b.Concerns id := take_of_mayHold h

/-- The desk goes on for ever, and all its schedules are at home there. -/
structure IsSound (home : ScheduleId → InputId) (b : Books) : Prop where
  isOpen : b.isOpen = true
  keyed : b.admission.IsKeyed
  goesOn : .stop ∉ b.queue
  atHome : ∀ id, b.Concerns id → home id = b.admission.inputId

def put (message : Message) (b : Books) : Books := { b with queue := b.queue ++ [message] }

theorem mayHold_put {m : Message} :
    (b.put m).MayHold id = heldAfter (b.MayHold id) (m.wordOn id) := by
  rw [MayHold, put, List.map_append, mayHold_append]
  rfl

theorem IsSound.put (h : b.IsSound home) {m : Message} (hstop : m ≠ .stop)
    (hhome : ∀ id, m.wordOn id = some .take → home id = b.admission.inputId) :
    (b.put m).IsSound home where
  isOpen := h.isOpen
  keyed := h.keyed
  goesOn hmem := by
    rcases List.mem_append.mp hmem with hold | hnew
    · exact h.goesOn hold
    · exact hstop (List.mem_singleton.mp hnew).symm
  atHome id := by
    rintro (hholds | htake)
    · exact h.atHome id (Or.inl hholds)
    · simp only [Books.put, List.map_append, List.mem_append, List.map_singleton,
        List.mem_singleton] at htake
      rcases htake with hold | hnew
      · exact h.atHome id (Or.inr hold)
      · exact hhome id hnew.symm

end Books

/-! ## Traffic -/

namespace Traffic

/-- Some desk may hold the schedule after all messages in its mailbox. -/
def MayHold (t : Traffic) (id : ScheduleId) : Prop := ∃ n b, t.desks n = some b ∧ b.MayHold id

def unheard (t : Traffic) : List StoreEvent := t.events.unheard t.listener

def HasMissed (t : Traffic) : Prop := t.events.HasMissed t.listener

/-- What the control loop will have to deliver after the events that it has yet to hear. -/
def coming (t : Traffic) : List Parcel := t.unheard.flatMap (·.parcels)

/-- A desk that nothing has come to yet is opened for an input. -/
def openDesk (t : Traffic) (n : Nat) (input : InputId) (lead : Int64) : Traffic :=
  { t with
    desks := fun k => if n = k then some ⟨{ inputId := input, lead }, [], true⟩ else t.desks k
    registered := t.registered.insert input n }

theorem desks_openDesk {input : InputId} {lead : Int64} {k : Nat} {b : Books}
    (hn : t.desks n = none) : (t.openDesk n input lead).desks k = some b ↔
      n = k ∧ b = ⟨{ inputId := input, lead }, [], true⟩ ∨ t.desks k = some b := by
  simp only [openDesk]
  split
  · next heq =>
    subst heq
    simp [hn, eq_comm]
  · next hne => simp [hne]

theorem registered_openDesk {input i : InputId} {lead : Int64} {k : Nat}
    (hinput : t.registered[input]? = none) (hk : t.registered[i]? = some k) :
    (t.openDesk n input lead).registered[i]? = some k := by
  rw [openDesk, get_insert]
  split
  · next heq =>
    subst heq
    cases hinput.symm.trans hk
  · exact hk

theorem mayHold_alter {f : Books → Books} (h : (t.alter n f).MayHold id) :
    (∃ k b, k ≠ n ∧ t.desks k = some b ∧ b.MayHold id) ∨
      ∃ b, t.desks n = some b ∧ (f b).MayHold id := by
  obtain ⟨k, b, hb, hmay⟩ := h
  simp only [alter] at hb
  split at hb
  · next heq =>
    subst heq
    obtain ⟨c, hc, rfl⟩ := Option.map_eq_some_iff.mp hb
    exact Or.inr ⟨c, hc, hmay⟩
  · next hne => exact Or.inl ⟨k, b, fun heq => hne heq.symm, hb, hmay⟩

end Traffic

/-- The control loop still has the parcels `ps` to deliver. -/
structure Flows (home : ScheduleId → InputId) (base : Traffic) (ps : List Parcel) (t : Traffic) :
    Prop where
  control : t.control = base.control
  watcher : t.watcher = base.watcher
  /-- Once there is a desk for an input there is no other. -/
  grows : ∀ (input : InputId) (n : Nat),
    base.registered[input]? = some n → t.registered[input]? = some n
  runs : t.state = .running
  goesOn : t.isStopped = false
  keyed : t.store.IsKeyed
  told : t.store.journal = []
  sound : t.events.IsSound
  listens : t.listener ∈ t.events.listeners
  desks : ∀ (n : Nat) (b : Books), t.desks n = some b →
    b.IsSound home ∧ t.registered[b.admission.inputId]? = some n
  named : ∀ (input : InputId) (n : Nat), t.registered[input]? = some n →
    ∃ b, t.desks n = some b ∧ b.admission.inputId = input
  stored : ∀ (id : ScheduleId) (x : Schedule),
    t.store.live[id]? = some x → Dispatch.route t.catalog x = home x.id
  routed : ∀ p ∈ ps ++ t.coming, p.IsRouted home t.catalog
  /-- What no schedule in use wants will be given up, if the control loop hears of it. -/
  settled : ∀ id, ¬ t.store.Wants id → ¬ t.HasMissed →
    ¬ mayHold (t.MayHold id) (wordsOn home id (ps ++ t.coming))
  /-- If not, then at least the events that are kept do not take it up again. -/
  kept : ∀ id, ¬ t.store.Wants id → ¬ mayHold False (eventWords home id t.events.kept)

namespace Flows

/-- A schedule can only be held at its home. -/
theorem registered_home (h : Flows home base ps t) (hb : t.desks n = some b)
    (hid : b.Concerns id) : t.registered[home id]? = some n := by
  obtain ⟨hsound, hreg⟩ := h.desks n b hb
  rwa [hsound.atHome id hid]

/-- Something happens at one desk, and the control loop has some parcels less to deliver. -/
theorem alter {qs : List Parcel} (h : Flows home base ps t) {f : Books → Books}
    (hf : ∀ b, t.desks n = some b →
      (f b).IsSound home ∧ (f b).admission.inputId = b.admission.inputId)
    (hsub : ∀ p ∈ qs, p ∈ ps)
    (hwords : ∀ id, mayHold ((t.alter n f).MayHold id) (wordsOn home id qs) →
      mayHold (t.MayHold id) (wordsOn home id ps)) :
    Flows home base qs (t.alter n f) := by
  have hdesk : ∀ k b, t.desks k = some b → ∃ c, (t.alter n f).desks k = some c ∧
      c.admission.inputId = b.admission.inputId := by
    intro k b hb
    simp only [Traffic.alter]
    split
    · next heq =>
      subst heq
      exact ⟨f b, by rw [hb]; rfl, (hf b hb).2⟩
    · exact ⟨b, hb, rfl⟩
  refine { h with desks := ?_, named := ?_, routed := ?_, settled := ?_ }
  · intro k c hc
    simp only [Traffic.alter] at hc
    split at hc
    · next heq =>
      subst heq
      obtain ⟨b, hb, rfl⟩ := Option.map_eq_some_iff.mp hc
      obtain ⟨hsound, hinput⟩ := hf b hb
      exact ⟨hsound, hinput ▸ (h.desks n b hb).2⟩
    · exact h.desks k c hc
  · intro input k hk
    obtain ⟨b, hb, rfl⟩ := h.named input k hk
    exact hdesk k b hb
  · intro p hp
    rcases List.mem_append.mp hp with hq | hcoming
    · exact h.routed p (List.mem_append_left _ (hsub p hq))
    · exact h.routed p (List.mem_append_right _ hcoming)
  · intro id hid hmissed hmay
    refine h.settled id hid hmissed ?_
    rw [wordsOn, List.map_append, mayHold_append] at hmay ⊢
    exact mayHold_mono (hwords id) hmay

theorem alterQuietly (h : Flows home base ps t) {f : Books → Books}
    (hf : ∀ b, t.desks n = some b →
      (f b).IsSound home ∧ (f b).admission.inputId = b.admission.inputId)
    (hmay : ∀ b id, t.desks n = some b → (f b).MayHold id → b.MayHold id) :
    Flows home base ps (t.alter n f) := by
  refine h.alter hf (fun _ => id) fun id => mayHold_mono fun hheld => ?_
  rcases Traffic.mayHold_alter hheld with ⟨k, b, -, hb, hb'⟩ | ⟨b, hb, hb'⟩
  · exact ⟨k, b, hb, hb'⟩
  · exact ⟨n, b, hb, hmay b id hb hb'⟩

theorem rebase (h : Flows home base ps t) : Flows home t ps t :=
  { h with control := rfl, watcher := rfl, grows := fun _ _ hn => hn }

/-! ### Parcels -/

theorem post (h : Flows home base (p :: ps) t) (hn : t.registered[p.address home]? = some n)
    (hoffer : ∀ s, p = .offer s → s.isNotStarted = true) :
    Flows home base ps (t.alter n (Books.put p.message)) := by
  have hrouted : p.IsRouted home t.catalog := h.routed p (by simp)
  have hword := Parcel.wordOn_message hrouted hoffer
  obtain ⟨b, hb, hinput⟩ := h.named _ n hn
  refine h.alter (fun c hc => ⟨(h.desks n c hc).1.put ?_ fun id htake => ?_, rfl⟩)
    (fun q hq => List.mem_cons_of_mem p hq) fun id hmay => ?_
  · cases p <;> exact Message.noConfusion
  · obtain rfl := Option.some.inj (hb.symm.trans hc)
    rcases hword id with heq | hdrop
    · rw [hinput, Parcel.address_of_wordOn (heq.symm.trans htake)]
    · cases htake.symm.trans hdrop
  · show mayHold (heldAfter (t.MayHold id) (p.wordOn home id)) (wordsOn home id ps)
    refine mayHold_mono (fun hheld => ?_) hmay
    rcases Traffic.mayHold_alter hheld with ⟨k, c, hk, hc, hmay⟩ | ⟨c, hc, hmay⟩
    · -- Another desk. The parcel does not drop what is at home there.
      cases hp : p.wordOn home id with
      | none => exact ⟨k, c, hc, hmay⟩
      | some w =>
        cases w with
        | take => trivial
        | drop =>
          have hhome := h.registered_home hc hmay.concerns
          rw [← Parcel.address_of_wordOn hp, hn] at hhome
          exact absurd (Option.some.inj hhome).symm hk
    · rw [Books.mayHold_put] at hmay
      rcases hword id with heq | hdrop
      · rw [heq] at hmay
        exact heldAfter_mono (fun hb => ⟨n, c, hc, hb⟩) hmay
      · rw [hdrop] at hmay
        exact hmay.elim

/-- A parcel is left where it is: an offer need not be made, and nobody is there for others. -/
theorem skip (h : Flows home base (p :: ps) t)
    (hskip : (∃ s, p = .offer s) ∨ t.registered[p.address home]? = none) :
    Flows home base ps t := by
  refine { h with routed := fun q hq => h.routed q (List.mem_cons_of_mem p hq), settled := ?_ }
  intro id hid hmissed hmay
  refine h.settled id hid hmissed ?_
  show mayHold (heldAfter (t.MayHold id) (p.wordOn home id)) (wordsOn home id (ps ++ t.coming))
  refine mayHold_mono (fun hheld => ?_) hmay
  cases hp : p.wordOn home id with
  | none => exact hheld
  | some w =>
    cases w with
    | take => trivial
    | drop =>
      rcases hskip with ⟨s, rfl⟩ | hnobody
      · simp [Parcel.wordOn] at hp
      · obtain ⟨k, c, hc, hmayc⟩ := hheld
        have hhome := h.registered_home hc hmayc.concerns
        rw [← Parcel.address_of_wordOn hp, hnobody] at hhome
        cases hhome

theorem offer (h : Flows home base ps t) {qs : List Parcel}
    (hqs : ∀ q ∈ qs, ∃ s, q = .offer s ∧ t.store.Wants s.id ∧
      Dispatch.route t.catalog s = home s.id) : Flows home base (qs ++ ps) t := by
  refine { h with routed := fun q hq => ?_, settled := ?_ }
  · rw [List.append_assoc] at hq
    rcases List.mem_append.mp hq with hnew | hold
    · obtain ⟨s, rfl, -, hroute⟩ := hqs q hnew
      exact hroute
    · exact h.routed q hold
  · intro id hid hmissed
    have hsilent : ∀ w ∈ wordsOn home id qs, w = none := by
      intro w hw
      obtain ⟨q, hq, rfl⟩ := List.mem_map.mp hw
      obtain ⟨s, rfl, hwants, -⟩ := hqs q hq
      have hne : s.id ≠ id := by
        rintro rfl
        exact hid hwants
      simp [Parcel.wordOn, hne]
    rw [List.append_assoc, wordsOn, List.map_append, mayHold_append, ← wordsOn, ← wordsOn,
      mayHold_silent hsilent]
    exact h.settled id hid hmissed

theorem unoffer {qs : List Parcel} (h : Flows home base (qs ++ ps) t)
    (hqs : ∀ q ∈ qs, ∃ s, q = .offer s) : Flows home base ps t := by
  induction qs with
  | nil => exact h
  | cons q rest ih =>
    exact ih (h.skip (Or.inl (hqs q List.mem_cons_self)))
      fun x hx => hqs x (List.mem_cons_of_mem q hx)

/-- Other messages say nothing of what is held. -/
theorem postSilently (h : Flows home base ps t) (n : Nat) {m : Message} (hstop : m ≠ .stop)
    (hsilent : ∀ id, m.wordOn id = none) : Flows home base ps (t.alter n (Books.put m)) := by
  refine h.alterQuietly (fun c hc => ⟨(h.desks n c hc).1.put hstop fun id htake => ?_, rfl⟩)
    fun c id _ hmay => ?_
  · cases (hsilent id).symm.trans htake
  · rwa [Books.mayHold_put, hsilent] at hmay

/-! ### Desks -/

theorem handle (h : Flows home base ps t) {m : Message} {rest : List Message}
    (hqueue : ∀ b, t.desks n = some b → b.queue = m :: rest) (catalog : Catalog)
    (now : Instant) :
    Flows home base ps (t.alter n fun b =>
      { b with admission := (b.admission.handle catalog now m).1, queue := rest }) := by
  have hheld : ∀ b id, t.desks n = some b → (b.admission.handle catalog now m).1.Holds id →
      heldAfter (b.admission.Holds id) (m.wordOn id) :=
    fun b id hb => Admission.holds_handle catalog now m (h.desks n b hb).1.keyed
  refine h.alterQuietly (fun b hb => ?_) fun b id hb hmay => ?_
  · obtain ⟨hsound, -⟩ := h.desks n b hb
    have hchanges := Admission.changes_handle catalog now m hsound.keyed
    refine ⟨⟨hsound.isOpen, hchanges.keyed hsound.keyed, fun hstop => ?_, fun id hid => ?_⟩,
      hchanges.inputId⟩
    · exact hsound.goesOn (hqueue b hb ▸ List.mem_cons_of_mem m hstop)
    · refine (hsound.atHome id ?_).trans hchanges.inputId.symm
      rw [Books.Concerns, hqueue b hb]
      rcases hid with hholds | htake
      · have hafter := hheld b id hb hholds
        cases hm : m.wordOn id with
        | none => exact Or.inl (by rwa [hm] at hafter)
        | some w =>
          cases w with
          | take => exact Or.inr (List.mem_cons.mpr (Or.inl hm.symm))
          | drop => exact (by rwa [hm] at hafter : False).elim
      · exact Or.inr (List.mem_cons_of_mem _ htake)
  · rw [Books.MayHold, hqueue b hb]
    show mayHold (heldAfter (b.admission.Holds id) (m.wordOn id)) (rest.map (·.wordOn id))
    exact mayHold_mono (hheld b id hb) hmay

theorem settle (h : Flows home base ps t) {step : Admission → Admission}
    (hstep : ∀ a : Admission, a.IsKeyed → (step a).IsKeyed ∧ (step a).inputId = a.inputId ∧
      ∀ id, (step a).Holds id → a.Holds id) :
    Flows home base ps (t.alter n fun b => { b with admission := step b.admission }) := by
  refine h.alterQuietly (fun b hb => ?_) fun b id hb => ?_
  · obtain ⟨hsound, -⟩ := h.desks n b hb
    obtain ⟨hkeyed, hinput, hholds⟩ := hstep b.admission hsound.keyed
    refine ⟨⟨hsound.isOpen, hkeyed, hsound.goesOn, fun id hid => ?_⟩, hinput⟩
    exact (hsound.atHome id (hid.imp_left (hholds id))).trans hinput.symm
  · exact mayHold_mono ((hstep b.admission (h.desks n b hb).1.keyed).2.2 id)

theorem not_concerns_new (input : InputId) (lead : Int64) (id : ScheduleId) :
    ¬ Books.Concerns ⟨{ inputId := input, lead }, [], true⟩ id := by
  rintro ((hwait | ⟨u, hu, -⟩) | htake)
  · exact Std.TreeMap.not_mem_emptyc hwait
  · simp at hu
  · exact List.not_mem_nil htake

theorem openDesk (h : Flows home base ps t) {input : InputId} (hn : t.desks n = none)
    (hinput : t.registered[input]? = none) (lead : Int64) :
    Flows home base ps (t.openDesk n input lead) := by
  refine { h with grows := ?_, desks := ?_, named := ?_, settled := ?_ }
  · exact fun i k hk => Traffic.registered_openDesk hinput (h.grows i k hk)
  · intro k b hb
    rcases (Traffic.desks_openDesk hn).mp hb with ⟨rfl, rfl⟩ | hb
    · refine ⟨⟨rfl, .openDesk input lead, List.not_mem_nil, fun id hid => ?_⟩, ?_⟩
      · exact absurd hid (not_concerns_new input lead id)
      · exact Std.TreeMap.getElem?_insert_self
    · exact ⟨(h.desks k b hb).1, Traffic.registered_openDesk hinput (h.desks k b hb).2⟩
  · intro i k hk
    simp only [Traffic.openDesk, get_insert] at hk
    split at hk
    · next heq =>
      obtain rfl := Option.some.inj hk
      exact ⟨_, if_pos rfl, heq⟩
    · obtain ⟨b, hb, hi⟩ := h.named i k hk
      exact ⟨b, (Traffic.desks_openDesk hn).mpr (Or.inr hb), hi⟩
  · intro id hid hmissed hmay
    refine h.settled id hid hmissed (mayHold_mono ?_ hmay)
    rintro ⟨k, b, hb, hheld⟩
    rcases (Traffic.desks_openDesk hn).mp hb with ⟨rfl, rfl⟩ | hb
    · exact absurd hheld.concerns (not_concerns_new input lead id)
    · exact ⟨k, b, hb, hheld⟩

end Flows

end Station

end Timeshift
