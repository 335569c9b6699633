import Timeshift.Proofs.Expansion.Attach
import Timeshift.Proofs.Store.Refusal

/-!
# What a call brings into use

Copies come into use, the marks of their programs are lifted, and one event tells of them. As long
as the schedules of a program stay the same ones, a search comes to the same one if there is no
other, whatever its order.
-/

namespace Timeshift

namespace Store

variable {s t u : Store} {l c fresh : List Schedule} {p : ProgramId} {x y : Schedule}
  {tell : List Schedule → StoreEvent}

/-! ## Bringing copies into use -/

def told (tell : List Schedule → StoreEvent) (l : List Schedule) : List StoreEvent :=
  if l.isEmpty then [] else [tell l]

/-- The store as it is once copies have been taken into use and this has been told. -/
def brought (s : Store) (tell : List Schedule → StoreEvent) (l : List Schedule) : Store :=
  { (s.unmark (s.marksOf l)).hold l with journal := s.journal ++ told tell l }

theorem get_brought (s : Store) (tell : List Schedule → StoreEvent) (l : List Schedule)
    (id : ScheduleId) : (s.brought tell l).live[id]? = (copyIn l id).or s.live[id]? :=
  get_hold s l id

theorem get_brought_of_live {id : ScheduleId} (h : s.live[id]? = some y) :
    (s.brought tell l).live[id]? = some ((copyIn l id).getD y) := by
  rw [get_brought, h, Option.or_some]

theorem LooksLike.brought_nil (s : Store) (tell : List Schedule → StoreEvent) :
    LooksLike (s.brought tell []) s :=
  ⟨rfl, rfl, rfl, rfl, rfl, (List.append_nil _).symm, rfl⟩

theorem LooksLike.brought (h : LooksLike s t) (tell : List Schedule → StoreEvent)
    (l : List Schedule) : LooksLike (s.brought tell l) (t.brought tell l) where
  live := by
    show (t.hold l).live = (s.hold l).live
    rw [hold, hold, h.live]
  marks := by
    show (t.unmark (t.marksOf l)).marks = (s.unmark (s.marksOf l)).marks
    rw [unmark, unmark, marksOf, marksOf, h.marks]
  rules := h.rules
  recorded := h.recorded
  isLoaded := h.isLoaded
  journal := congrArg (· ++ told tell l) h.journal
  listings := h.listings

theorem looksLike_keep (h : s.run (keep l) = (.ok (), t)) :
    LooksLike ((s.unmark (s.marksOf l)).hold l) t := by
  rw [keep, run_bind, run_get] at h
  obtain ⟨_, u, hput, h⟩ := run_bind_ok h
  have hlast : ∀ {u : Store}, LooksLike s u →
      u.run (modify fun s' => (s'.unmark (s.marksOf l)).hold l) = (.ok (), t) →
        LooksLike ((s.unmark (s.marksOf l)).hold l) t := by
    intro u hlike hu
    obtain rfl := congrArg Prod.snd hu
    refine ⟨?_, ?_, hlike.rules, hlike.recorded, hlike.isLoaded, hlike.journal, hlike.listings⟩
    · show (u.hold l).live = (s.hold l).live
      rw [hold, hold, hlike.live]
    · show (u.unmark (s.marksOf l)).marks = (s.unmark (s.marksOf l)).marks
      rw [unmark, unmark, hlike.marks]
  have hfirst : LooksLike s u := by
    have hseen := IsUnseen.persist (·.putSchedules l) s
    rwa [hput] at hseen
  split at h
  · exact hlast hfirst h
  · obtain ⟨_, v, hdrop, h⟩ := run_bind_ok h
    have hseen := IsUnseen.persist (·.dropSchedules ((s.marksOf l).map (·.id))) u
    rw [hdrop] at hseen
    exact hlast (hfirst.trans hseen) h

theorem looksLike_add (h : s.run (add l) = (.ok fresh, t)) :
    LooksLike (s.brought .added (number s.scheduleIds l).1) t := by
  rw [add] at h
  split at h
  · next hnone =>
    obtain rfl := congrArg Prod.snd h
    obtain rfl := List.isEmpty_iff.mp hnone
    exact .brought_nil s _
  · next hsome =>
    split at h
    · cases h
    · rw [run_bind, run_get] at h
      obtain ⟨_, u, hids, h⟩ := run_bind_ok h
      obtain rfl := congrArg Prod.snd hids
      obtain ⟨_, v, hkeep, h⟩ := run_bind_ok h
      obtain rfl := congrArg Prod.snd h
      have hlike := looksLike_keep hkeep
      refine ⟨hlike.live, hlike.marks, hlike.rules, hlike.recorded, hlike.isLoaded, ?_,
        hlike.listings⟩
      have htold : told .added (number s.scheduleIds l).1 =
          [.added (number s.scheduleIds l).1] := by
        cases l with
        | nil => exact absurd rfl hsome
        | cons => rfl
      show v.journal ++ _ = s.journal ++ told .added (number s.scheduleIds l).1
      rw [hlike.journal, htold]
      rfl

theorem looksLike_update (h : s.run (update l) = (.ok (), t)) :
    LooksLike (s.brought .changed (l.filter (s.live.contains ·.id))) t := by
  rw [update, run_bind, run_get] at h
  dsimp only at h
  split at h
  · cases h
  · next updates hupdates =>
    obtain rfl := eq_filter_of_knownUpdates hupdates
    split at h
    · next hnone =>
      obtain rfl := congrArg Prod.snd h
      rw [List.isEmpty_iff.mp hnone]
      exact .brought_nil s _
    · next hsome =>
      obtain ⟨_, u, hkeep, h⟩ := run_bind_ok h
      obtain rfl := congrArg Prod.snd h
      have hlike := looksLike_keep hkeep
      refine ⟨hlike.live, hlike.marks, hlike.rules, hlike.recorded, hlike.isLoaded, ?_,
        hlike.listings⟩
      show u.journal ++ _ = s.journal ++ told .changed _
      rw [hlike.journal, told, if_neg hsome]
      rfl

theorem marks_brought (h : ∀ x ∈ l, ∀ p, x.programId = some p → p ∉ s.marks) :
    (s.brought tell l).marks = s.marks := by
  have hnone : s.marksOf l = [] := by
    rw [marksOf, List.filterMap_eq_nil_iff]
    intro x hx
    cases hp : x.programId with
    | none => rfl
    | some p => exact Std.TreeMap.getElem?_eq_none (h x hx p hp)
  show (s.unmark (s.marksOf l)).marks = s.marks
  rw [hnone]
  rfl

theorem LooksLike.isKeyed (h : LooksLike (s.brought tell l) t) (hkeyed : s.IsKeyed) : t.IsKeyed :=
  (hkeyed.hold l).congr h.live

/-! ## The schedules of a program -/

/-- Both stores have the same schedules for the program. -/
def SameFor (p : ProgramId) (s t : Store) : Prop :=
  ∀ (id : ScheduleId) (x : Schedule), x.programId = some p →
    (t.live[id]? = some x ↔ s.live[id]? = some x)

namespace SameFor

theorem refl (s : Store) : SameFor p s s := fun _ _ _ => Iff.rfl

theorem trans (h : SameFor p s t) (h' : SameFor p t u) : SameFor p s u :=
  fun id x hx => (h' id x hx).trans (h id x hx)

theorem mem_schedules_iff (h : SameFor p s t) (hx : x.programId = some p) :
    x ∈ t.schedules ↔ x ∈ s.schedules := by
  rw [schedules, schedules, mem_values, mem_values]
  exact exists_congr fun id => h id x hx

theorem scheduleOf_eq_none_iff (h : SameFor p s t) :
    t.scheduleOf? p = none ↔ s.scheduleOf? p = none := by
  rw [scheduleOf_eq_none_iff_mem, scheduleOf_eq_none_iff_mem]
  constructor
  · exact fun hnone x hx hxp => hnone x ((h.mem_schedules_iff hxp).mpr hx) hxp
  · exact fun hnone x hx hxp => hnone x ((h.mem_schedules_iff hxp).mp hx) hxp

theorem isSingle_iff (h : SameFor p s t) : t.IsSingle p ↔ s.IsSingle p := by
  constructor
  · intro ht x hx y hy hxp hyp
    exact ht x ((h.mem_schedules_iff hxp).mpr hx) y ((h.mem_schedules_iff hyp).mpr hy) hxp hyp
  · intro hs x hx y hy hxp hyp
    exact hs x ((h.mem_schedules_iff hxp).mp hx) y ((h.mem_schedules_iff hyp).mp hy) hxp hyp

theorem scheduleOf_eq (h : SameFor p s t) (hsingle : s.IsSingle p) :
    t.scheduleOf? p = s.scheduleOf? p := by
  refine Option.ext fun x => ?_
  rw [(h.isSingle_iff.mpr hsingle).scheduleOf_eq_some, hsingle.scheduleOf_eq_some]
  exact and_congr_left fun hxp => h.mem_schedules_iff hxp

end SameFor

end Store

end Timeshift
