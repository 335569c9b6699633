import Mathlib.Data.List.Induction
import Timeshift.Proofs.Docket.Again
import Timeshift.Proofs.Store.Honest

/-!
# A docket that follows the store

The store may be written to at any time, and what it tells waits until it is delivered. When the
oldest words are lost the docket is told so, and it can be told of loaded and of changed
channels at any time. A rebuild reads the store as it is, so words about what it has read may
still wait.
-/

namespace Timeshift

namespace Docket

/-! ## The scene -/

structure Scene where
  store : Store
  catalog : Catalog
  docket : Docket := {}
  /-- What the store has told and the docket has not heard, the oldest first. -/
  queue : List StoreEvent := []

inductive Act where
  | write (e : Store.Edit)
  | setCatalog (c : Catalog)
  /-- The docket hears the oldest event. -/
  | deliver
  /-- The oldest events are lost, and the docket is told so. -/
  | lose (n : Nat)
  | schedulesLoaded
  | channelsLoaded
  | channelsChanged

namespace Scene

def withDocket (w : Scene) (step : Catalog → List Schedule → Docket → Step) : Scene :=
  { w with docket := (step w.catalog w.store.schedules w.docket).1 }

def act (w : Scene) : Act → Scene
  | .write e =>
    let store := w.store.edit e
    { w with store, queue := w.queue ++ store.journal.drop w.store.journal.length }
  | .setCatalog c => { w with catalog := c }
  | .deliver =>
    match w.queue with
    | [] => w
    | e :: rest =>
      { w with queue := rest }.withDocket fun catalog stored d => d.handle catalog stored e
  | .lose n =>
    { w with queue := w.queue.drop n }.withDocket fun catalog stored d => d.rebuild catalog stored
  | .schedulesLoaded => w.withDocket fun catalog stored d => d.onSchedulesLoaded catalog stored
  | .channelsLoaded => w.withDocket fun catalog stored d => d.onChannelsLoaded catalog stored
  | .channelsChanged => w.withDocket fun catalog stored d => d.onChannelsChanged catalog stored

/-- What the docket should hold of a schedule for an input. -/
def due (w : Scene) (id : ScheduleId) (input : InputId) : List Schedule :=
  wanted w.catalog w.store.live[id]? input

end Scene

/-! ## What may go wrong -/

/-- What has happened since the docket was last rebuilt. -/
structure Ledger where
  /-- The schedules that were added while some list had them. A schedule is struck out when it
  is removed or changed. -/
  doubled : List ScheduleId := []
  /-- Events were lost, or the archive was read again, and the docket was not rebuilt because
  it had not heard of loaded channels. -/
  isStale : Bool := false
  /-- The catalog has changed, and the docket was not told to look at it again. -/
  isMoved : Bool := false

namespace Ledger

/-- The ledger after an act in a scene. -/
def note (l : Ledger) (w : Scene) : Act → Ledger
  | .write _ => l
  | .setCatalog _ => { l with isMoved := true }
  | .deliver =>
    match w.queue with
    | .loaded :: _ =>
      if w.docket.channelsLoaded then {}
      else { l with isStale := l.isStale || w.docket.isInitialized }
    | .added s :: _ =>
      if w.docket.isInitialized then
        { l with doubled := l.doubled ++ again w.catalog w.docket s }
      else l
    | .removed s :: _ | .changed s :: _ =>
      { l with doubled := l.doubled.filter fun id => !s.any (·.id = id) }
    | _ => l
  | .lose _ =>
    if w.docket.schedulesLoaded && w.docket.channelsLoaded then {}
    else { l with isStale := l.isStale || w.docket.isInitialized, isMoved := false }
  | .schedulesLoaded => if w.docket.channelsLoaded then {} else l
  | .channelsLoaded | .channelsChanged =>
    if w.docket.schedulesLoaded then {} else { l with isMoved := false }

end Ledger

/-- The scene and the ledger after some acts, one after the other. -/
def follow (w : Scene) (course : List Act) : Scene × Ledger :=
  course.foldl (fun p act => (p.1.act act, p.2.note p.1 act)) (w, {})

theorem follow_append (w : Scene) (course : List Act) (act : Act) :
    follow w (course ++ [act]) =
      ((follow w course).1.act act, (follow w course).2.note (follow w course).1 act) := by
  rw [follow, List.foldl_append]
  rfl

/-! ## What stays true -/

variable {w : Scene} {l : Ledger}

/-- The lists agree with the store, but for schedules that still wait to be heard of or were
added again. -/
structure IsCurrent (w : Scene) (l : Ledger) : Prop where
  single : ∀ id, id ∉ l.doubled → AreSilent w.queue id →
    ∀ input, w.docket.copies id input = w.due id input
  double : ∀ id ∈ l.doubled, AreSilent w.queue id →
    ∃ input, w.docket.copies id input ≠ w.due id input
  conflicts : ∀ input,
    w.docket.conflictsOf input = losersOf w.catalog input (w.docket.schedulesOf input)

structure IsFaithful (w : Scene) (l : Ledger) : Prop where
  keyed : w.store.IsKeyed
  isTrue : AreTrue w.queue w.store.live
  loaded : w.docket.isInitialized = true → w.docket.schedulesLoaded = true
  started : w.docket.isInitialized = false → l.doubled = []
  listed : ∀ id ∈ l.doubled, w.docket.lists id = true
  current : w.docket.isInitialized = true → l.isStale = false → l.isMoved = false → IsCurrent w l

/-! ## Rebuilding -/

theorem copies_rebuilt (catalog : Catalog) {store : Store} (h : store.IsKeyed) (d : Docket)
    (id : ScheduleId) (input : InputId) :
    (d.rebuilt catalog store.schedules).1.copies id input =
      wanted catalog store.live[id]? input := by
  have hlists : (d.rebuilt catalog store.schedules).1.copies id input =
      (store.schedules.foldl (trackPending catalog)
        { d with tracked := ∅, isInitialized := true }).copies id input := rfl
  have hempty : copies { d with tracked := ∅, isInitialized := true } id input = [] := by
    simp [copies, schedulesOf]
  have hswap : (store.schedules.filter (·.wants catalog input)).filter (·.id = id) =
      (store.schedules.filter (·.id = id)).filter (·.wants catalog input) := by
    simp only [List.filter_filter, Bool.and_comm]
  rw [hlists, copies_trackAll, hempty, List.nil_append, hswap, h.filter_id, wanted,
    Option.toList_filter]

theorem flags_rebuilt (catalog : Catalog) (stored : List Schedule) (d : Docket) :
    HasSameFlags { d with isInitialized := true } (d.rebuilt catalog stored).1 :=
  have h := HasSameFlags.foldl (HasSameFlags.trackPending catalog) stored
    { d with tracked := ∅, isInitialized := true }
  ⟨h.schedulesLoaded, h.channelsLoaded, h.isInitialized⟩

theorem IsFaithful.rebuilt {store : Store} {queue : List StoreEvent} (hkeyed : store.IsKeyed)
    (htrue : AreTrue queue store.live) (catalog : Catalog) {d : Docket}
    (hloaded : d.schedulesLoaded = true) :
    IsFaithful ⟨store, catalog, (d.rebuilt catalog store.schedules).1, queue⟩ {} where
  keyed := hkeyed
  isTrue := htrue
  loaded _ := (flags_rebuilt catalog store.schedules d).schedulesLoaded.trans hloaded
  started _ := rfl
  listed _ hid := absurd hid List.not_mem_nil
  current _ _ _ :=
    { single := fun id _ _ input => copies_rebuilt catalog hkeyed d id input
      double := fun _ hid => absurd hid List.not_mem_nil
      conflicts := conflictsOf_reviewed catalog _ }

/-- Only flags of the docket change. -/
theorem IsFaithful.reflag (h : IsFaithful w l) {d : Docket} {queue : List StoreEvent}
    {l' : Ledger} (htrue : AreTrue queue w.store.live)
    (hloaded : d.isInitialized = true → d.schedulesLoaded = true)
    (hinit : d.isInitialized = w.docket.isInitialized) (htracked : d.tracked = w.docket.tracked)
    (hdoubled : l'.doubled = l.doubled)
    (hcurrent : d.isInitialized = true → l'.isStale = false → l'.isMoved = false →
      IsCurrent { w with docket := d, queue } l') :
    IsFaithful { w with docket := d, queue } l' where
  keyed := h.keyed
  isTrue := htrue
  loaded := hloaded
  started hd := hdoubled ▸ h.started (hinit ▸ hd)
  listed id hid := by
    have hlisted := h.listed id (hdoubled ▸ hid)
    rwa [lists, ← htracked] at hlisted
  current := hcurrent

/-! ## Hearing of schedules -/

/-- What an edit of the lists has to do with an event that it follows: a schedule that the event
speaks of gets the copy that the event gives, unless it is doubled, and nothing else changes. -/
structure Follows (catalog : Catalog) (e : StoreEvent) (d : Docket) (l : Ledger) (d' : Docket)
    (l' : Ledger) : Prop where
  flags : HasSameFlags d d'
  isStale : l'.isStale = l.isStale
  isMoved : l'.isMoved = l.isMoved
  listed : ∀ id ∈ l'.doubled, d'.lists id = true
  single : ∀ id word, e.wordOn id = some word → id ∉ l'.doubled →
    ∀ input, d'.copies id input = wanted catalog word input
  double : ∀ id word, e.wordOn id = some word → id ∈ l'.doubled →
    ∃ input, d'.copies id input ≠ wanted catalog word input
  silent : ∀ id, e.IsSilent id → (id ∈ l'.doubled ↔ id ∈ l.doubled) ∧
    ∀ input, d'.copies id input = d.copies id input

theorem IsFaithful.hear (h : IsFaithful w l) {e : StoreEvent} {rest : List StoreEvent}
    (hqueue : w.queue = e :: rest) (he : e ≠ .loaded) (hinit : w.docket.isInitialized = true)
    {d' : Docket} {l' : Ledger} (hf : Follows w.catalog e w.docket l d' l') :
    IsFaithful { w with docket := (d'.reviewed w.catalog).1, queue := rest } l' where
  keyed := h.keyed
  isTrue := (hqueue ▸ h.isTrue).tail
  loaded _ := hf.flags.schedulesLoaded.trans (h.loaded hinit)
  started hd := by
    have := hf.flags.isInitialized.trans hinit
    exact absurd (this.symm.trans hd) (by decide)
  listed := hf.listed
  current _ hstale hmoved := by
    have hc := h.current hinit (hf.isStale.symm.trans hstale) (hf.isMoved.symm.trans hmoved)
    have hspoken : ∀ id word, e.wordOn id = some word → AreSilent rest id →
        w.store.live[id]? = word := fun id word => h.isTrue [] e rest id word hqueue
    have hqueued : ∀ id, e.wordOn id = none → AreSilent rest id → AreSilent w.queue id :=
      fun id hnone hrest => hqueue ▸ areSilent_cons.mpr ⟨⟨he, hnone⟩, hrest⟩
    -- A schedule that the event speaks of is as it says; the others were right before.
    refine ⟨fun id hid hrest input => ?_, fun id hid hrest => ?_, conflictsOf_reviewed _ d'⟩
    · show d'.copies id input = w.due id input
      cases hword : e.wordOn id with
      | some word => rw [hf.single id word hword hid, Scene.due, hspoken id word hword hrest]
      | none =>
        obtain ⟨hmem, hcopies⟩ := hf.silent id ⟨he, hword⟩
        rw [hcopies, hc.single id (mt hmem.mpr hid) (hqueued id hword hrest)]
    · show ∃ input, d'.copies id input ≠ w.due id input
      cases hword : e.wordOn id with
      | some word =>
        obtain ⟨input, hne⟩ := hf.double id word hword hid
        exact ⟨input, by rwa [Scene.due, hspoken id word hword hrest]⟩
      | none =>
        obtain ⟨hmem, hcopies⟩ := hf.silent id ⟨he, hword⟩
        obtain ⟨input, hne⟩ := hc.double id (hmem.mp hid) (hqueued id hword hrest)
        exact ⟨input, by rwa [hcopies]⟩

theorem follows_added (catalog : Catalog) (d : Docket) (s : List Schedule) (l : Ledger)
    (hlisted : ∀ id ∈ l.doubled, d.lists id = true) :
    Follows catalog (.added s) d l (s.foldl (trackPending catalog) d)
      { l with doubled := l.doubled ++ again catalog d s } where
  flags := .foldl (.trackPending catalog) s d
  isStale := rfl
  isMoved := rfl
  listed id hid := by
    rcases List.mem_append.mp hid with hid | hid
    · exact lists_trackAll (hlisted id hid) s
    · exact lists_of_mem_again hid
  single id word hword hid input := by
    obtain ⟨x, hx, rfl⟩ := Option.map_eq_some_iff.mp hword
    exact copies_of_not_again (fun hagain => hid (List.mem_append_right _ hagain)) hx input
  double id word hword hid := by
    obtain ⟨x, hx, rfl⟩ := Option.map_eq_some_iff.mp hword
    rcases List.mem_append.mp hid with hid | hid
    · exact exists_copies_ne (hlisted id hid) hx
    · exact exists_copies_ne_of_again hid hx
  silent id hid := by
    have hnone : copyIn s id = none := Option.map_eq_none_iff.mp hid.2
    constructor
    · rw [List.mem_append, or_iff_left]
      exact fun hagain => copyIn_of_mem_again hagain hnone
    · intro input
      have hothers : (s.filter (·.wants catalog input)).filter (·.id = id) = [] := by
        refine List.filter_eq_nil_iff.mpr fun x hx => ?_
        simpa using copyIn_eq_none.mp hnone x (List.mem_filter.mp hx).1
      rw [copies_trackAll, hothers, List.append_nil]

/-- A schedule that an event removes or changes is struck out. -/
theorem mem_struck {doubled : List ScheduleId} {s : List Schedule} {id : ScheduleId} :
    id ∈ doubled.filter (fun id => !s.any (·.id = id)) ↔
      id ∈ doubled ∧ s.any (·.id = id) = false := by
  rw [List.mem_filter, Bool.not_eq_true']

theorem any_eq_false_iff {s : List Schedule} {id : ScheduleId} :
    s.any (·.id = id) = false ↔ copyIn s id = none := by
  rw [copyIn_eq_none]
  simp

theorem follows_removed (catalog : Catalog) (d : Docket) (s : List Schedule) (l : Ledger)
    (hlisted : ∀ id ∈ l.doubled, d.lists id = true) :
    Follows catalog (.removed s) d l (s.foldl (fun d s => d.untrack s.id) d)
      { l with doubled := l.doubled.filter fun id => !s.any (·.id = id) } where
  flags := .foldl (fun d s => .untrack d s.id) s d
  isStale := rfl
  isMoved := rfl
  listed id hid := by
    obtain ⟨hid, hnot⟩ := mem_struck.mp hid
    obtain ⟨input, hne⟩ := lists_iff.mp (hlisted id hid)
    refine lists_iff.mpr ⟨input, ?_⟩
    rwa [copies_untrackAll, hnot]
  single id word hword hid input := by
    simp only [StoreEvent.wordOn] at hword
    split at hword
    · next hany =>
      rw [copies_untrackAll, if_pos hany, ← Option.some.inj hword]
      rfl
    · cases hword
  double id word hword hid := by
    simp only [StoreEvent.wordOn, (mem_struck.mp hid).2] at hword
    cases hword
  silent id hid := by
    have hnot : s.any (·.id = id) = false := by
      by_contra hany
      have hword := hid.2
      simp [StoreEvent.wordOn, Bool.not_eq_false _ ▸ hany] at hword
    exact ⟨mem_struck.trans (and_iff_left hnot), fun input => by rw [copies_untrackAll, hnot]; rfl⟩

theorem follows_changed (catalog : Catalog) (d : Docket) (s : List Schedule) (l : Ledger)
    (hlisted : ∀ id ∈ l.doubled, d.lists id = true) :
    Follows catalog (.changed s) d l (s.foldl (retrack catalog) d)
      { l with doubled := l.doubled.filter fun id => !s.any (·.id = id) } where
  flags := .foldl (.retrack catalog) s d
  isStale := rfl
  isMoved := rfl
  listed id hid := by
    obtain ⟨hid, hnot⟩ := mem_struck.mp hid
    obtain ⟨input, hne⟩ := lists_iff.mp (hlisted id hid)
    refine lists_iff.mpr ⟨input, ?_⟩
    rwa [copies_retrackAll, any_eq_false_iff.mp hnot]
  single id word hword _ input := by
    obtain ⟨x, hx, rfl⟩ := Option.map_eq_some_iff.mp hword
    rw [copies_retrackAll, hx]
  double id word hword hid := by
    obtain ⟨x, hx, rfl⟩ := Option.map_eq_some_iff.mp hword
    rw [any_eq_false_iff.mp (mem_struck.mp hid).2] at hx
    cases hx
  silent id hid := by
    have hnone : copyIn s id = none := Option.map_eq_none_iff.mp hid.2
    exact ⟨mem_struck.trans (and_iff_left (any_eq_false_iff.mpr hnone)),
      fun input => by rw [copies_retrackAll, hnone]⟩

/-! ## Every act -/

theorem IsCurrent.shorten (hc : IsCurrent w l) {e : StoreEvent} {rest : List StoreEvent}
    (hqueue : w.queue = e :: rest) (he : ∀ id, e.IsSilent id) :
    IsCurrent { w with queue := rest } l where
  single id hid hrest := hc.single id hid (hqueue ▸ areSilent_cons.mpr ⟨he id, hrest⟩)
  double id hid hrest := hc.double id hid (hqueue ▸ areSilent_cons.mpr ⟨he id, hrest⟩)
  conflicts := hc.conflicts

theorem IsFaithful.write (h : IsFaithful w l) (e : Store.Edit) :
    IsFaithful (w.act (.write e)) (l.note w (.write e)) := by
  obtain ⟨es, hes⟩ := Store.tells_edit w.store e
  have hnews : (w.store.edit e).journal.drop w.store.journal.length = es := by
    rw [hes.journal, List.drop_left]
  simp only [Scene.act, Ledger.note, hnews]
  refine ⟨hes.keyed h.keyed, h.isTrue.append hes.isTrue hes.silent, h.loaded, h.started,
    h.listed, fun hinit hstale hmoved => ?_⟩
  have hc := h.current hinit hstale hmoved
  refine ⟨fun id hid hsilent input => ?_, fun id hid hsilent => ?_, hc.conflicts⟩
  · obtain ⟨hold, hnew⟩ := areSilent_append.mp hsilent
    rw [Scene.due, hes.silent id hnew]
    exact hc.single id hid hold input
  · obtain ⟨hold, hnew⟩ := areSilent_append.mp hsilent
    simp only [Scene.due, hes.silent id hnew]
    exact hc.double id hid hold

/-- Hearing of an event that is not about a loading, before or after the lists are made. -/
theorem IsFaithful.amend (h : IsFaithful w l) {e : StoreEvent} {rest : List StoreEvent}
    (hqueue : w.queue = e :: rest) (he : e ≠ .loaded) {edit : Docket → Docket}
    {news : DocketEvent} {l' : Ledger}
    (hbefore : w.docket.isInitialized = false → l'.doubled = l.doubled)
    (hf : w.docket.isInitialized = true → Follows w.catalog e w.docket l (edit w.docket) l') :
    IsFaithful { w with
      docket := (w.docket.amend w.catalog edit news).1
      queue := rest } l' := by
  rw [Docket.amend]
  split
  · next hinit => exact h.hear hqueue he hinit (hf hinit)
  · next hinit =>
    have htrue : AreTrue rest w.store.live := (hqueue ▸ h.isTrue).tail
    exact h.reflag htrue h.loaded rfl rfl (hbefore (by simpa using hinit))
      fun hyes => absurd hyes hinit

/-- The docket hears of a loading. It is rebuilt unless the channels are still to come. -/
theorem IsFaithful.hearLoaded (h : IsFaithful w l) {queue : List StoreEvent}
    (htrue : AreTrue queue w.store.live) {l' : Ledger} (hdoubled : l'.doubled = l.doubled)
    (hcurrent : w.docket.isInitialized = true → l'.isStale = false → l'.isMoved = false →
      IsCurrent { w with queue } l') :
    IsFaithful { w with
      docket := (w.docket.onSchedulesLoaded w.catalog w.store.schedules).1
      queue } (if w.docket.channelsLoaded then {} else l') := by
  rw [onSchedulesLoaded]
  cases w.docket.channelsLoaded with
  | true => exact .rebuilt h.keyed htrue w.catalog rfl
  | false =>
    refine h.reflag htrue (fun _ => rfl) rfl rfl hdoubled fun hinit hstale hmoved => ?_
    have hc := hcurrent hinit hstale hmoved
    exact ⟨hc.single, hc.double, hc.conflicts⟩

theorem IsFaithful.deliver (h : IsFaithful w l) :
    IsFaithful (w.act .deliver) (l.note w .deliver) := by
  cases hqueue : w.queue with
  | nil =>
    simp only [Scene.act, Ledger.note, hqueue]
    exact h
  | cons e rest =>
    have htrue : AreTrue rest w.store.live := (hqueue ▸ h.isTrue).tail
    have hrules : (∀ id, e.IsSilent id) → IsFaithful { w with queue := rest } l := fun he =>
      h.reflag htrue h.loaded rfl rfl rfl
        fun hinit hstale hmoved => (h.current hinit hstale hmoved).shorten hqueue he
    simp only [Scene.act, Ledger.note, hqueue, Scene.withDocket]
    cases e with
    | rulesAdded r => exact hrules fun _ => ⟨by simp, rfl⟩
    | rulesRemoved r => exact hrules fun _ => ⟨by simp, rfl⟩
    | rulesChanged r => exact hrules fun _ => ⟨by simp, rfl⟩
    | added s =>
      cases hinit : w.docket.isInitialized with
      | true =>
        exact h.amend hqueue (by simp) (fun hno => by simp [hinit] at hno)
          fun _ => follows_added w.catalog w.docket s l h.listed
      | false =>
        exact h.amend hqueue (by simp) (fun _ => rfl) fun hyes => by simp [hinit] at hyes
    | removed s =>
      exact h.amend hqueue (by simp) (fun hinit => by simp [h.started hinit])
        fun _ => follows_removed w.catalog w.docket s l h.listed
    | changed s =>
      exact h.amend hqueue (by simp) (fun hinit => by simp [h.started hinit])
        fun _ => follows_changed w.catalog w.docket s l h.listed
    | loaded =>
      exact h.hearLoaded htrue rfl fun hinit hstale => by simp [hinit] at hstale

theorem IsFaithful.lose (h : IsFaithful w l) (n : Nat) :
    IsFaithful (w.act (.lose n)) (l.note w (.lose n)) := by
  have htrue : AreTrue (w.queue.drop n) w.store.live := h.isTrue.drop n
  simp only [Scene.act, Ledger.note, Scene.withDocket, Docket.rebuild]
  split
  · next hboth =>
    rw [Bool.and_eq_true] at hboth
    exact .rebuilt h.keyed htrue w.catalog hboth.1
  · refine h.reflag htrue h.loaded rfl rfl rfl fun hinit hstale => ?_
    rw [Bool.or_eq_false_iff] at hstale
    exact absurd (hstale.2.symm.trans hinit) (by decide)

/-- The docket hears of channels. It is rebuilt unless the schedules are still to come, and then
it has no lists yet. -/
theorem IsFaithful.hearChannels (h : IsFaithful w l) {d : Docket}
    (hloaded : d.schedulesLoaded = w.docket.schedulesLoaded)
    (hinit : d.isInitialized = w.docket.isInitialized) (htracked : d.tracked = w.docket.tracked) :
    IsFaithful { w with
      docket := (if d.schedulesLoaded then d.rebuilt w.catalog w.store.schedules else (d, [])).1 }
      (if w.docket.schedulesLoaded then {} else { l with isMoved := false }) := by
  cases hboth : w.docket.schedulesLoaded with
  | true =>
    simp only [hloaded, hboth, if_true]
    exact .rebuilt h.keyed h.isTrue w.catalog (hloaded.trans hboth)
  | false =>
    have hno : w.docket.isInitialized = false := by
      by_contra hyes
      simp [h.loaded (by simpa using hyes)] at hboth
    simp only [hloaded, hboth, Bool.false_eq_true, if_false]
    exact h.reflag h.isTrue (fun hyes => by simp [hinit, hno] at hyes) hinit htracked rfl
      fun hyes => by simp [hinit, hno] at hyes

theorem IsFaithful.act (h : IsFaithful w l) (act : Act) :
    IsFaithful (w.act act) (l.note w act) := by
  cases act with
  | write e => exact h.write e
  | deliver => exact h.deliver
  | lose n => exact h.lose n
  | setCatalog c =>
    exact ⟨h.keyed, h.isTrue, h.loaded, h.started, h.listed, fun _ _ hmoved => nomatch hmoved⟩
  | schedulesLoaded => exact h.hearLoaded h.isTrue rfl h.current
  | channelsLoaded =>
    exact h.hearChannels (d := { w.docket with channelsLoaded := true }) rfl rfl rfl
  | channelsChanged => exact h.hearChannels (d := w.docket) rfl rfl rfl

/-- A new docket follows a store. -/
theorem isFaithful_follow {store : Store} (h : store.IsKeyed) (catalog : Catalog)
    (course : List Act) :
    IsFaithful (follow { store, catalog } course).1 (follow { store, catalog } course).2 := by
  induction course using List.reverseRecOn with
  | nil =>
    exact ⟨h, .nil _, (nomatch ·), fun _ => rfl, fun _ hid => absurd hid List.not_mem_nil,
      (nomatch ·)⟩
  | append_singleton course act ih =>
    rw [follow_append]
    exact ih.act act

end Docket

end Timeshift
