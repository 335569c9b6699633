import Mathlib.Data.Finset.SDiff
import Timeshift.Proofs.Docket.Lists

/-!
# Following the conflicts by the events

A listener that adds what has become a conflict and strikes out what is one no more knows the
conflicts of the docket at every time. It is never told what it knows already.
-/

namespace Timeshift

/-! ## Hearing of conflicts -/

/-- What a listener takes to be conflicts after an event. -/
def tally (known : Finset ScheduleId) : DocketEvent → Finset ScheduleId
  | .conflicting l => known ∪ (l.map (·.id)).toFinset
  | .resolved l => known \ (l.map (·.id)).toFinset
  | .added _ | .removed _ | .changed _ => known

namespace DocketEvent

def isOnConflicts : DocketEvent → Bool
  | conflicting _ | resolved _ => true
  | added _ | removed _ | changed _ => false

/-- The event says something of some schedules that the listener does not know, and says it once
of each. -/
def IsNews (known : Finset ScheduleId) : DocketEvent → Prop
  | conflicting l => l ≠ [] ∧ (l.map (·.id)).Nodup ∧ ∀ s ∈ l, s.id ∉ known
  | resolved l => l ≠ [] ∧ (l.map (·.id)).Nodup ∧ ∀ s ∈ l, s.id ∈ known
  | added _ | removed _ | changed _ => True

end DocketEvent

/-- Every event is news to a listener that has heard the ones before it. -/
def AllNews (known : Finset ScheduleId) : List DocketEvent → Prop
  | [] => True
  | e :: rest => e.IsNews known ∧ AllNews (tally known e) rest

theorem allNews_append {known : Finset ScheduleId} {es fs : List DocketEvent} :
    AllNews known (es ++ fs) ↔ AllNews known es ∧ AllNews (es.foldl tally known) fs := by
  induction es generalizing known with
  | nil => simp [AllNews]
  | cons e rest ih => simp [AllNews, ih, and_assoc]

namespace Docket

variable {catalog : Catalog} {stored : List Schedule} {d d' : Docket} {es : List DocketEvent}
  {id : ScheduleId}

/-! ## Lists by id -/

theorem get_merged (lists : Std.TreeMap InputId (List Schedule)) (id : ScheduleId) :
    (merged lists)[id]? = copyIn lists.values.flatten id := by
  have h := get_insertAll Schedule.id lists.values.flatten ∅ id
  rwa [Std.TreeMap.getElem?_emptyc, Option.or_none] at h

theorem id_of_get_merged {lists : Std.TreeMap InputId (List Schedule)} {s : Schedule}
    (h : (merged lists)[id]? = some s) : s.id = id := by
  rw [get_merged] at h
  exact (id_of_copyIn h).2

theorem mem_merged {lists : Std.TreeMap InputId (List Schedule)} :
    id ∈ merged lists ↔ ∃ s ∈ lists.values.flatten, s.id = id := by
  rw [Std.TreeMap.mem_iff_isSome_getElem?, get_merged, Option.isSome_iff_ne_none, ne_eq,
    copyIn_eq_none]
  push Not
  exact Iff.rfl

section NewlyIn

variable {a b : Std.TreeMap ScheduleId Schedule}
  (ha : ∀ (id : ScheduleId) (s : Schedule), a[id]? = some s → s.id = id)

include ha

theorem ids_newlyIn : ((newlyIn a b).map (·.id)).Nodup := by
  have hkeys : (a.values.map (·.id)).Nodup := by
    rw [map_values_eq_keys ha]
    exact Std.TreeMap.nodup_keys
  exact hkeys.sublist (List.filter_sublist.map _)

theorem mem_ids_newlyIn : id ∈ (newlyIn a b).map (·.id) ↔ id ∈ a ∧ id ∉ b := by
  simp only [newlyIn, List.mem_map, List.mem_filter, mem_values, Bool.not_eq_true',
    ← Bool.not_eq_true, Std.TreeMap.contains_iff_mem]
  constructor
  · rintro ⟨s, ⟨⟨k, hk⟩, hb⟩, rfl⟩
    obtain rfl := ha k s hk
    exact ⟨mem_of_get hk, hb⟩
  · rintro ⟨hmem, hb⟩
    obtain ⟨s, hs⟩ := mem_iff_get.mp hmem
    obtain rfl := ha id s hs
    exact ⟨s, ⟨⟨_, hs⟩, hb⟩, rfl⟩

end NewlyIn

/-- The ids of the conflicts. -/
def conflictIds (d : Docket) : Finset ScheduleId := (d.allConflicts.map (·.id)).toFinset

theorem mem_conflictIds : id ∈ d.conflictIds ↔ id ∈ merged d.conflicts := by
  simp only [conflictIds, List.mem_toFinset, List.mem_map, mem_merged]
  refine exists_congr fun s => and_congr_left fun _ => ?_
  exact mem_sortBy

theorem conflictIds_congr (h : d'.conflicts = d.conflicts) : d'.conflictIds = d.conflictIds := by
  rw [conflictIds, allConflicts, h]
  rfl

/-! ## What a step tells -/

/-- The events lead a listener from the conflicts of `d` to those of `d'`, and tell only news:
first what is over and then what is new. -/
structure Informs (d d' : Docket) (es : List DocketEvent) : Prop where
  told : es.foldl tally d.conflictIds = d'.conflictIds
  news : AllNews d.conflictIds es
  batches : ∃ gone fresh,
    (es.filter (·.isOnConflicts)).Sublist [.resolved gone, .conflicting fresh]

namespace Informs

/-- The conflicts stay. -/
theorem nothing (h : d'.conflicts = d.conflicts) : Informs d d' [] :=
  ⟨(conflictIds_congr h).symm, trivial, [], [], List.nil_sublist _⟩

/-- The lists may be edited first. -/
theorem after {before : Docket} (h : Informs d d' es) (hd : d.conflicts = before.conflicts) :
    Informs before d' es := by
  have hids := conflictIds_congr hd
  exact ⟨hids ▸ h.told, hids ▸ h.news, h.batches⟩

/-- An event that is not about conflicts may follow. -/
theorem aside (h : Informs d d' es) {e : DocketEvent} (he : e.isOnConflicts = false) :
    Informs d d' (es ++ [e]) := by
  have htally : ∀ known, tally known e = known := by
    cases e <;> first | exact fun _ => rfl | exact nomatch he
  have hnews : ∀ known, e.IsNews known := by
    cases e <;> first | exact fun _ => trivial | exact nomatch he
  refine ⟨?_, allNews_append.mpr ⟨h.news, hnews _, trivial⟩, ?_⟩
  · rw [List.foldl_append, h.told]
    exact htally _
  · obtain ⟨gone, fresh, hsub⟩ := h.batches
    refine ⟨gone, fresh, ?_⟩
    rwa [List.filter_append, List.filter_cons_of_neg (by simp [he]), List.filter_nil,
      List.append_nil]

end Informs

/-- Striking out nobody changes nothing. -/
theorem foldl_tally_resolved (known : Finset ScheduleId) (l : List Schedule) :
    (if l.isEmpty then [] else [DocketEvent.resolved l]).foldl tally known =
      known \ (l.map (·.id)).toFinset := by
  cases l with
  | nil => simp
  | cons s rest => rfl

theorem foldl_tally_conflicting (known : Finset ScheduleId) (l : List Schedule) :
    (if l.isEmpty then [] else [DocketEvent.conflicting l]).foldl tally known =
      known ∪ (l.map (·.id)).toFinset := by
  cases l with
  | nil => simp
  | cons s rest => rfl

theorem informs_reviewed (catalog : Catalog) (d : Docket) :
    Informs d (d.reviewed catalog).1 (d.reviewed catalog).2 := by
  let before := merged d.conflicts
  let after := merged (d.findConflicts catalog)
  have hbefore : ∀ id, id ∈ d.conflictIds ↔ id ∈ before := fun _ => mem_conflictIds
  have hafter : ∀ id, id ∈ (d.reviewed catalog).1.conflictIds ↔ id ∈ after :=
    fun _ => mem_conflictIds
  have hgone : ∀ id, id ∈ (newlyIn before after).map (·.id) ↔ id ∈ before ∧ id ∉ after :=
    fun _ => mem_ids_newlyIn fun _ _ => id_of_get_merged
  have hfresh : ∀ id, id ∈ (newlyIn after before).map (·.id) ↔ id ∈ after ∧ id ∉ before :=
    fun _ => mem_ids_newlyIn fun _ _ => id_of_get_merged
  refine ⟨?_, allNews_append.mpr ⟨?_, ?_⟩, newlyIn before after, newlyIn after before, ?_⟩
  · have hfold : (d.reviewed catalog).2.foldl tally d.conflictIds =
        d.conflictIds \ ((newlyIn before after).map (·.id)).toFinset ∪
          ((newlyIn after before).map (·.id)).toFinset := by
      rw [reviewed, List.foldl_append, foldl_tally_resolved, foldl_tally_conflicting]
    rw [hfold]
    ext id
    rw [hafter, Finset.mem_union, Finset.mem_sdiff, List.mem_toFinset, List.mem_toFinset, hbefore,
      hgone, hfresh]
    tauto
  · split
    · exact trivial
    · next hne =>
      refine ⟨⟨mt List.isEmpty_iff.mpr hne, ids_newlyIn fun _ _ => id_of_get_merged, ?_⟩, trivial⟩
      exact fun s hs => (hbefore s.id).mpr ((hgone s.id).mp (List.mem_map_of_mem hs)).1
  · rw [foldl_tally_resolved]
    split
    · exact trivial
    · next hne =>
      refine ⟨⟨mt List.isEmpty_iff.mpr hne, ids_newlyIn fun _ _ => id_of_get_merged, ?_⟩, trivial⟩
      intro s hs hknown
      have hnew := ((hfresh s.id).mp (List.mem_map_of_mem hs)).2
      exact hnew ((hbefore s.id).mp (Finset.mem_sdiff.mp hknown).1)
  · change (List.filter _ (_ ++ _)).Sublist _
    split <;> split <;> simp [DocketEvent.isOnConflicts, before, after]

/-! ## Edits of the lists -/

theorem conflicts_trackPending (catalog : Catalog) (d : Docket) (s : Schedule) :
    (d.trackPending catalog s).conflicts = d.conflicts := by
  unfold trackPending track
  split
  · split <;> rfl
  · rfl

theorem conflicts_untrack (d : Docket) (id : ScheduleId) :
    (d.untrack id).conflicts = d.conflicts := rfl

theorem conflicts_retrack (catalog : Catalog) (d : Docket) (s : Schedule) :
    (d.retrack catalog s).conflicts = d.conflicts := conflicts_trackPending catalog _ s

theorem conflicts_foldl {step : Docket → Schedule → Docket}
    (hstep : ∀ d s, (step d s).conflicts = d.conflicts) (l : List Schedule) (d : Docket) :
    (l.foldl step d).conflicts = d.conflicts := by
  induction l generalizing d with
  | nil => rfl
  | cons s rest ih => rw [List.foldl_cons, ih, hstep]

theorem informs_rebuilt (catalog : Catalog) (stored : List Schedule) (d : Docket) :
    Informs d (d.rebuilt catalog stored).1 (d.rebuilt catalog stored).2 :=
  (informs_reviewed catalog _).after (conflicts_foldl (conflicts_trackPending catalog) stored _)

theorem informs_amend {edit : Docket → Docket} {news : DocketEvent}
    (hedit : (edit d).conflicts = d.conflicts) (hnews : news.isOnConflicts = false) :
    Informs d (d.amend catalog edit news).1 (d.amend catalog edit news).2 := by
  unfold amend
  split
  · exact ((informs_reviewed catalog (edit d)).after hedit).aside hnews
  · exact .nothing rfl

/-! ## Runs -/

/-- What the docket is told or asked to do. -/
inductive Cue where
  | hear (e : StoreEvent)
  | schedulesLoaded
  | channelsLoaded
  | channelsChanged
  | rebuild

/-- A cue, with the channels and the schedules in use as they are when it is given. -/
structure Prompt where
  catalog : Catalog
  stored : List Schedule
  cue : Cue

def Prompt.step (m : Prompt) (d : Docket) : Step :=
  match m.cue with
  | .hear e => d.handle m.catalog m.stored e
  | .schedulesLoaded => d.onSchedulesLoaded m.catalog m.stored
  | .channelsLoaded => d.onChannelsLoaded m.catalog m.stored
  | .channelsChanged => d.onChannelsChanged m.catalog m.stored
  | .rebuild => Docket.rebuild m.catalog m.stored d

/-- The docket after some prompts, and all that it has told. -/
def play (course : List Prompt) : Step :=
  course.foldl (fun p m => ((m.step p.1).1, p.2 ++ (m.step p.1).2)) ({}, [])

theorem informs_step (m : Prompt) (d : Docket) : Informs d (m.step d).1 (m.step d).2 := by
  -- Once all is loaded the lists are made anew, and before that nothing happens.
  have hmay : ∀ {c : Bool} {d' : Docket}, d'.conflicts = d.conflicts →
      Informs d (if c then d'.rebuilt m.catalog m.stored else (d', [])).1
        (if c then d'.rebuilt m.catalog m.stored else (d', [])).2 := by
    intro c d' hd'
    split
    · exact (informs_rebuilt m.catalog m.stored d').after hd'
    · exact .nothing hd'
  obtain ⟨catalog, stored, cue⟩ := m
  cases cue with
  | schedulesLoaded => exact hmay rfl
  | channelsLoaded => exact hmay rfl
  | channelsChanged => exact hmay rfl
  | rebuild => exact hmay rfl
  | hear e =>
    cases e with
    | loaded => exact hmay rfl
    | added l => exact informs_amend (conflicts_foldl (conflicts_trackPending catalog) l d) rfl
    | removed l =>
      exact informs_amend (conflicts_foldl (fun d s => conflicts_untrack d s.id) l d) rfl
    | changed l => exact informs_amend (conflicts_foldl (conflicts_retrack catalog) l d) rfl
    | rulesAdded l => exact .nothing rfl
    | rulesRemoved l => exact .nothing rfl
    | rulesChanged l => exact .nothing rfl

/-- A listener that has heard all events since the start knows the conflicts, each of the events
was news to it, and a step tells at most once what is over and then at most once what is new. -/
theorem conflicts_told_exactly (course : List Prompt) (m : Prompt) :
    let (d, told) := play course
    told.foldl tally ∅ = (d.allConflicts.map (·.id)).toFinset ∧ AllNews ∅ told ∧
      ∃ gone fresh,
        ((m.step d).2.filter (·.isOnConflicts)).Sublist [.resolved gone, .conflicting fresh] := by
  suffices h : (play course).2.foldl tally ∅ = (play course).1.conflictIds ∧
      AllNews ∅ (play course).2 from ⟨h.1, h.2, (informs_step m _).batches⟩
  induction course using List.reverseRecOn with
  | nil => exact ⟨by decide, trivial⟩
  | append_singleton earlier m ih =>
    obtain ⟨htold, hnews⟩ := ih
    have hstep := informs_step m (play earlier).1
    have hplay : play (earlier ++ [m]) =
        ((m.step (play earlier).1).1, (play earlier).2 ++ (m.step (play earlier).1).2) := by
      rw [play, List.foldl_append]
      rfl
    rw [hplay, List.foldl_append, htold]
    exact ⟨hstep.told, allNews_append.mpr ⟨hnews, htold ▸ hstep.news⟩⟩

/-- The loser of two schedules is no conflict while its input is not known. -/
example :
    let channels := Catalog.putChannel {} ⟨1, "tuner", "One", none⟩
    let catalog := channels.putInput ⟨"tuner", 1, true⟩
    let a := Schedule.timed 1 1 20 30 5
    let b := Schedule.timed 2 1 25 35 9
    (play [⟨catalog, [a], .channelsLoaded⟩, ⟨catalog, [a], .hear .loaded⟩,
      ⟨catalog, [a, b], .hear (.added [b])⟩, ⟨channels, [a, b], .channelsChanged⟩,
      ⟨catalog, [a, b], .rebuild⟩]).2 =
        [.conflicting [a], .added [b], .resolved [a], .conflicting [a]] := by
  decide +kernel

end Docket

end Timeshift
