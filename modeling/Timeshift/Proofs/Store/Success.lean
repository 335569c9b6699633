import Timeshift.Proofs.Store.Kept

/-!
# Calls that succeed

What a call has done to the schedules in use if it did not fail, and which ids are left for the
next ones.
-/

namespace Timeshift

namespace Store

variable {α β : Type} {s s' t : Store} {l fresh : List Schedule} {id : ScheduleId} {m n : Nat}

/-! ## Parts of a call -/

/-- If two parts in a row succeed, so do both of them. -/
theorem run_bind_ok {op : Op α} {next : α → Op β} {b : β}
    (h : s.run (op >>= next) = (.ok b, s')) :
    ∃ a t, s.run op = (.ok a, t) ∧ t.run (next a) = (.ok b, s') := by
  rw [run_bind] at h
  split at h
  · next a t hop => exact ⟨a, t, hop, h⟩
  · cases h

/-- The copies have been taken into use. Rules and ids are as before. -/
structure Takes (s : Store) (l : List Schedule) (s' : Store) : Prop where
  live : s'.live = (s.hold l).live
  rules : s'.rules = s.rules
  scheduleIds : s'.scheduleIds = s.scheduleIds

theorem Takes.after (h : Takes s [] t) (h' : Takes t l s') : Takes s l s' where
  live := by
    rw [h'.live, hold, hold, h.live]
    rfl
  rules := h'.rules.trans h.rules
  scheduleIds := h'.scheduleIds.trans h.scheduleIds

/-- A write does nothing to what is in use, whether it is taken or not. -/
theorem takes_persist {edit : Archive → Archive} {r : Except Fault Unit}
    (h : s.run (persist edit) = (r, s')) : Takes s [] s' := by
  simp only [persist, run_bind, run_get, run_modify] at h
  split at h
  all_goals
    obtain rfl := congrArg Prod.snd h
    exact ⟨rfl, rfl, rfl⟩

theorem takes_keep (h : s.run (keep l) = (.ok (), s')) : Takes s l s' := by
  rw [keep, run_bind, run_get] at h
  obtain ⟨_, t, hput, h⟩ := run_bind_ok h
  have hlast : ∀ {u : Store}, u.run (modify fun s' => (s'.unmark (s.marksOf l)).hold l) =
      (.ok (), s') → Takes u l s' := by
    intro u hu
    obtain rfl := congrArg Prod.snd hu
    exact ⟨rfl, rfl, rfl⟩
  refine (takes_persist hput).after ?_
  split at h
  · exact hlast h
  · obtain ⟨_, u, hdrop, h⟩ := run_bind_ok h
    exact (takes_persist hdrop).after (hlast h)

/-- A write that succeeds has been taken. -/
theorem eq_of_run_persist {edit : Archive → Archive} (h : s.run (persist edit) = (.ok (), s')) :
    s' = { s with archive := edit { s.archive with writes := s.archive.writes + 1 } } := by
  simp only [persist, run_bind, run_get, run_modify, Archive.write] at h
  split at h
  · cases h
  · exact (congrArg Prod.snd h).symm

/-! ## Calls -/

theorem takes_add (h : s.run (add l) = (.ok fresh, s')) :
    Takes (s.numbered l) (number s.scheduleIds l).1 s' := by
  rw [add] at h
  split at h
  · next hnone =>
    obtain rfl := congrArg Prod.snd h
    obtain rfl := List.isEmpty_iff.mp hnone
    exact ⟨rfl, rfl, rfl⟩
  · split at h
    · cases h
    · rw [run_bind, run_get] at h
      obtain ⟨_, t, hids, h⟩ := run_bind_ok h
      obtain rfl := congrArg Prod.snd hids
      obtain ⟨_, u, hkeep, h⟩ := run_bind_ok h
      obtain rfl := congrArg Prod.snd h
      exact ⟨(takes_keep hkeep).live, (takes_keep hkeep).rules, (takes_keep hkeep).scheduleIds⟩

/-- Only what is known is updated. -/
theorem takes_update (h : s.run (update l) = (.ok (), s')) :
    Takes s (l.filter (s.live.contains ·.id)) s' := by
  rw [update, run_bind, run_get] at h
  dsimp only at h
  split at h
  · cases h
  · next updates hupdates =>
    obtain rfl := eq_filter_of_knownUpdates hupdates
    split at h
    · next hnone =>
      obtain rfl := congrArg Prod.snd h
      rw [List.isEmpty_iff.mp hnone]
      exact ⟨rfl, rfl, rfl⟩
    · obtain ⟨_, t, hkeep, h⟩ := run_bind_ok h
      obtain rfl := congrArg Prod.snd h
      exact ⟨(takes_keep hkeep).live, (takes_keep hkeep).rules, (takes_keep hkeep).scheduleIds⟩

/-! ## Room for new ids -/

/-- None of the next ids is in use. -/
structure HasRoom (s : Store) (n : Nat) : Prop where
  bound : n ≤ Int64.size
  unused : ∀ k < n, s.scheduleIds.next + Int64.ofNat k ∉ s.live

theorem HasRoom.mono (h : s.HasRoom n) (hle : m ≤ n) : s.HasRoom m :=
  ⟨Nat.le_trans hle h.bound, fun k hk => h.unused k (Nat.lt_of_lt_of_le hk hle)⟩

theorem HasRoom.congr (h : s.HasRoom n) (hids : s'.scheduleIds = s.scheduleIds)
    (hlive : ∀ id, id ∈ s'.live → id ∈ s.live) : s'.HasRoom n :=
  ⟨h.bound, fun k hk hin => h.unused k hk (hids ▸ hlive _ hin)⟩

theorem map_id_number (c : IdCounter) (l : List Schedule) :
    (number c l).1.map (·.id) = (List.range l.length).map fun k => c.next + Int64.ofNat k := by
  induction l generalizing c with
  | nil => rfl
  | cons x rest ih =>
    have hnumber : (number c (x :: rest)).1 =
        { x with id := c.next } :: (number ⟨c.next + 1⟩ rest).1 := rfl
    rw [hnumber, List.map_cons, ih, List.length_cons, List.range_succ_eq_map, List.map_cons,
      List.map_map]
    congr 1
    · exact (Int64.add_zero c.next).symm
    · refine List.map_congr_left fun k _ => ?_
      rw [Function.comp_apply, Nat.succ_eq_add_one, Nat.add_comm, Int64.ofNat_add,
        ← Int64.add_assoc]
      rfl

theorem next_add_inj {c : IdCounter} {j k : Nat} (hj : j < Int64.size) (hk : k < Int64.size)
    (h : c.next + Int64.ofNat j = c.next + Int64.ofNat k) : j = k :=
  ofNat_inj hj hk ((Int64.add_right_inj c.next).mp h)

/-- The ids that are given out at once are different. -/
theorem ids_number (c : IdCounter) (hl : l.length ≤ Int64.size) :
    ((number c l).1.map (·.id)).Nodup := by
  rw [map_id_number]
  refine List.Nodup.map_on (fun j hj k hk h => ?_) List.nodup_range
  rw [List.mem_range] at hj hk
  exact next_add_inj (by omega) (by omega) h

/-- A schedule gets a number and stays as it is otherwise. -/
theorem mem_number {c : IdCounter} {x : Schedule} :
    x ∈ (number c l).1 → ∃ y ∈ l, x = { y with id := x.id } := by
  induction l generalizing c with
  | nil => exact fun hx => absurd hx List.not_mem_nil
  | cons y rest ih =>
    intro hx
    rcases List.mem_cons.mp hx with rfl | hrest
    · exact ⟨y, List.mem_cons_self, rfl⟩
    · obtain ⟨z, hz, heq⟩ := ih hrest
      exact ⟨z, List.mem_cons_of_mem y hz, heq⟩

theorem exists_mem_number {c : IdCounter} {y : Schedule} (hy : y ∈ l) :
    ∃ id, { y with id } ∈ (number c l).1 := by
  induction l generalizing c with
  | nil => cases hy
  | cons z rest ih =>
    rcases List.mem_cons.mp hy with rfl | hrest
    · exact ⟨c.next, List.mem_cons_self⟩
    · obtain ⟨id, hid⟩ := ih (c := c.take.2) hrest
      exact ⟨id, List.mem_cons_of_mem _ hid⟩

/-- In a list with different ids every schedule is the last copy of itself. -/
theorem copyIn_of_nodup {x : Schedule} (hl : (l.map (·.id)).Nodup) (hx : x ∈ l) :
    copyIn l x.id = some x := by
  cases hcopy : copyIn l x.id with
  | none => exact absurd rfl (copyIn_eq_none.mp hcopy x hx)
  | some y =>
    obtain ⟨hy, hid⟩ := id_of_copyIn hcopy
    rw [List.inj_on_of_nodup_map hl hy hx hid]

/-- What is added takes up room, and the ids that come next are still not in use. -/
theorem HasRoom.added (h : s.HasRoom (m + n)) (hl : l.length ≤ m)
    (htakes : Takes (s.numbered l) (number s.scheduleIds l).1 s') : s'.HasRoom n := by
  have hbound := h.bound
  refine ⟨by omega, fun k hk hin => ?_⟩
  have hnext : s'.scheduleIds.next = s.scheduleIds.next + Int64.ofNat l.length := by
    rw [htakes.scheduleIds]
    exact next_number s.scheduleIds l
  rw [hnext, Int64.add_assoc, ← Int64.ofNat_add] at hin
  obtain ⟨x, hx⟩ := mem_iff_get.mp hin
  rw [htakes.live, get_hold, Option.or_eq_some_iff] at hx
  rcases hx with hnew | ⟨-, hold⟩
  · obtain ⟨hmem, hid⟩ := id_of_copyIn hnew
    obtain ⟨j, hj, hjd⟩ := id_of_mem_number hmem
    have hsame := next_add_inj (by omega) (by omega) (hjd.symm.trans hid)
    omega
  · exact h.unused (l.length + k) (by omega) (mem_of_get hold)

end Store

end Timeshift
