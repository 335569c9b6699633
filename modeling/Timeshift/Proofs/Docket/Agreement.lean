import Timeshift.Proofs.Docket.Following

/-!
# Does the docket agree with the store?

When everything has been heard, the lists are the ones that a rebuild would make, unless a
schedule was added again after a rebuild that had read it already.
-/

namespace Timeshift

namespace Docket

variable {w : Scene} {l : Ledger}

/-- The docket as a rebuild would make it now. -/
def Scene.rebuilt (w : Scene) : Docket := (w.docket.rebuilt w.catalog w.store.schedules).1

/-- Every list holds the schedules in use that want a tuner of its input, each once and nothing
else. So the lists are those of a rebuild, but for their order, and the conflicts are the same. -/
structure Agrees (w : Scene) : Prop where
  lists : ∀ input, (w.docket.schedulesOf input).Perm
    (w.store.schedules.filter (·.wants w.catalog input))
  once : ∀ input, ((w.docket.schedulesOf input).map (·.id)).Nodup
  rebuilt : ∀ input, (w.docket.schedulesOf input).Perm (w.rebuilt.schedulesOf input)
  conflicts : ∀ input, w.docket.conflictsOf input = w.rebuilt.conflictsOf input

/-! ## From copies to lists -/

theorem perm_of_copies {p q : List Schedule}
    (h : ∀ id, p.filter (·.id = id) = q.filter (·.id = id)) : p.Perm q := by
  refine List.perm_iff_count.mpr fun s => ?_
  have hcount : ∀ l : List Schedule, (l.filter (·.id = s.id)).count s = l.count s :=
    fun l => List.count_filter (decide_eq_true rfl)
  rw [← hcount p, ← hcount q, h]

theorem eq_of_perm_toList {p : List Schedule} {o : Option Schedule} (h : p.Perm o.toList) :
    p = o.toList := by
  cases o with
  | none => exact List.perm_nil.mp h
  | some s => exact List.perm_singleton.mp h

theorem schedulesOf_rebuilt (w : Scene) (input : InputId) :
    w.rebuilt.schedulesOf input = w.store.schedules.filter (·.wants w.catalog input) := by
  have hlists : w.rebuilt.schedulesOf input =
      (w.store.schedules.foldl (trackPending w.catalog)
        { w.docket with tracked := ∅, isInitialized := true }).schedulesOf input := rfl
  rw [hlists, schedulesOf_trackAll]
  simp [schedulesOf]

theorem agrees_of_copies (hkeyed : w.store.IsKeyed)
    (hcopies : ∀ id input, w.docket.copies id input = w.due id input)
    (hconflicts : ∀ input,
      w.docket.conflictsOf input = losersOf w.catalog input (w.docket.schedulesOf input)) :
    Agrees w := by
  have hlists : ∀ input, (w.docket.schedulesOf input).Perm (w.rebuilt.schedulesOf input) :=
    fun input => perm_of_copies fun id =>
      (hcopies id input).trans (copies_rebuilt w.catalog hkeyed w.docket id input).symm
  have hids : ∀ input, ((w.rebuilt.schedulesOf input).map (·.id)).Nodup := by
    intro input
    rw [schedulesOf_rebuilt]
    exact hkeyed.ids_schedules.sublist (List.filter_sublist.map _)
  have honce : ∀ input, ((w.docket.schedulesOf input).map (·.id)).Nodup :=
    fun input => ((hlists input).map _).nodup_iff.mpr (hids input)
  refine ⟨fun input => schedulesOf_rebuilt w input ▸ hlists input, honce, hlists, fun input => ?_⟩
  have hrebuilt : w.rebuilt.conflictsOf input =
      losersOf w.catalog input (w.rebuilt.schedulesOf input) :=
    conflictsOf_reviewed w.catalog _ input
  rw [hconflicts, hrebuilt]
  exact losersOf_perm w.catalog input (honce input) (hlists input)

theorem copies_of_agrees (hkeyed : w.store.IsKeyed) (h : Agrees w) (id : ScheduleId)
    (input : InputId) : w.docket.copies id input = w.due id input := by
  have hperm := (h.rebuilt input).filter (·.id = id)
  have hrebuilt : (w.rebuilt.schedulesOf input).filter (·.id = id) = w.due id input :=
    copies_rebuilt w.catalog hkeyed w.docket id input
  rw [hrebuilt] at hperm
  exact eq_of_perm_toList hperm

/-! ## The main result -/

/-- Everything has been heard, and the catalog is the one that the docket was last told of. If
no word was lost while the docket could not be rebuilt, then it agrees with the store exactly
when no schedule was added again without a rebuild, a removal or a change after it. -/
theorem agrees_iff (archive : Archive) (listings : Nat → Listing) (earlier : List Store.Edit)
    (catalog : Catalog) (course : List Act)
    (hfollow : follow { store := earlier.foldl Store.edit { archive, listings }, catalog } course =
      (w, l))
    (hheard : w.queue = []) (hinit : w.docket.isInitialized = true) (hmoved : l.isMoved = false)
    (hstale : l.isStale = false) : Agrees w ↔ l.doubled = [] := by
  have hempty : Store.IsKeyed { archive, listings } := fun id x hx => by simp at hx
  have hfaithful := isFaithful_follow (Store.isKeyed_edits hempty earlier) catalog course
  rw [hfollow] at hfaithful
  have hc := hfaithful.current hinit hstale hmoved
  have hsilent : ∀ id, AreSilent w.queue id := fun id e he => by simp [hheard] at he
  constructor
  · intro h
    refine List.eq_nil_iff_forall_not_mem.mpr fun id hid => ?_
    obtain ⟨input, hne⟩ := hc.double id hid (hsilent id)
    exact hne (copies_of_agrees hfaithful.keyed h id input)
  · intro hnone
    refine agrees_of_copies hfaithful.keyed (fun id input => ?_) hc.conflicts
    exact hc.single id (hnone ▸ List.not_mem_nil) (hsilent id) input

/-- One input with one tuner. -/
def Scene.ofOneTuner : Scene where
  store := {}
  catalog := (Catalog.putInput {} ⟨"tuner", 1, true⟩).putChannel ⟨1, "tuner", "One", none⟩

/-- The docket hears of two schedules that overlap. -/
theorem agrees_iff_two_added :
    let course : List Act := [.channelsLoaded, .write (.load 0), .deliver,
      .write (.add [.timed 0 1 20 30 5]), .write (.add [.timed 0 1 25 35 6]), .deliver, .deliver]
    let w := (follow .ofOneTuner course).1
    let l := (follow .ofOneTuner course).2
    w.queue = [] ∧ w.docket.isInitialized = true ∧ l.isMoved = false ∧ l.isStale = false ∧
      (w.docket.schedulesOf "tuner").map (·.id) = [1, 2] ∧
      (w.docket.conflictsOf "tuner").map (·.id) = [1] ∧ Agrees w := by
  intro course w l
  have hagrees : Agrees w ↔ l.doubled = [] :=
    agrees_iff {} (fun _ => .byAge) [] Scene.ofOneTuner.catalog course rfl (by decide +kernel) (by decide +kernel)
      (by decide +kernel) (by decide +kernel)
  exact ⟨by decide +kernel, by decide +kernel, by decide +kernel, by decide +kernel,
    by decide +kernel, by decide +kernel, hagrees.mpr (by decide +kernel)⟩

/-- A rebuild reads a new schedule, and the word that it was added comes after the rebuild. The
schedule is then listed twice, and loses against itself. -/
theorem not_agrees_added_again :
    let course : List Act := [.channelsLoaded, .write (.load 0), .deliver,
      .write (.add [.timed 0 1 20 30 5]), .channelsChanged, .deliver]
    let w := (follow .ofOneTuner course).1
    let l := (follow .ofOneTuner course).2
    w.queue = [] ∧ w.docket.isInitialized = true ∧ l.isMoved = false ∧ l.isStale = false ∧
      (w.docket.schedulesOf "tuner").map (·.id) = [1, 1] ∧
      (w.docket.conflictsOf "tuner").map (·.id) = [1] ∧ ¬ Agrees w :=
  ⟨by decide +kernel, by decide +kernel, by decide +kernel, by decide +kernel, by decide +kernel,
    by decide +kernel, fun h => absurd (h.once "tuner") (by decide +kernel)⟩

/-- A docket that was made by a change of channels alone does not make up for a lost word. -/
theorem not_agrees_lost_unheard :
    let course : List Act := [.schedulesLoaded, .channelsChanged,
      .write (.add [.timed 0 1 20 30 5]), .lose 1]
    let w := (follow .ofOneTuner course).1
    let l := (follow .ofOneTuner course).2
    w.queue = [] ∧ w.docket.isInitialized = true ∧ l.doubled = [] ∧ l.isStale = true ∧
      ¬ Agrees w :=
  ⟨by decide +kernel, by decide +kernel, by decide +kernel, by decide +kernel,
    fun h => absurd (h.lists "tuner").length_eq (by decide +kernel)⟩

end Docket

end Timeshift
