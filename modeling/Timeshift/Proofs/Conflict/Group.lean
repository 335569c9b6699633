import Timeshift.Conflict
import Timeshift.Proofs.Rank
import Mathlib.Data.Finset.Card
import Mathlib.Data.Finset.Dedup
import Mathlib.Data.List.Pairwise

/-!
# Who loses in one group

A schedule loses in a group because of the ones that rank above it, and only their channels
count. Those that lose themselves make no difference.
-/

namespace Timeshift

namespace Conflict

/-- The channels of the schedules of a group that rank above `s`. -/
def channelsAbove (group : List Schedule) (s : Schedule) : Finset ChannelId :=
  ((group.filter (·.RanksAbove s)).map (·.channelId)).toFinset

/-- A better schedule of the group is on the channel of `s`, or better ones are on as many
channels as there are tuners. -/
def Beaten (tuners : Nat) (group : List Schedule) (s : Schedule) : Prop :=
  s.channelId ∈ channelsAbove group s ∨ tuners ≤ (channelsAbove group s).card

instance (tuners : Nat) (group : List Schedule) : DecidablePred (Beaten tuners group) := fun s =>
  inferInstanceAs
    (Decidable (s.channelId ∈ channelsAbove group s ∨ tuners ≤ (channelsAbove group s).card))

theorem mem_channelsAbove {group : List Schedule} {s : Schedule} {c : ChannelId} :
    c ∈ channelsAbove group s ↔ ∃ r ∈ group, r.RanksAbove s ∧ r.channelId = c := by
  simp [channelsAbove, and_assoc]

theorem channelsAbove_mono {group group' : List Schedule} {s : Schedule}
    (h : ∀ r ∈ group, r.RanksAbove s → r ∈ group') :
    channelsAbove group s ⊆ channelsAbove group' s := by
  intro c hc
  obtain ⟨r, hr, hrs, rfl⟩ := mem_channelsAbove.mp hc
  exact mem_channelsAbove.mpr ⟨r, h r hr hrs, hrs, rfl⟩

theorem channelsAbove_of_ranksAbove (group : List Schedule) {r s : Schedule}
    (h : r.RanksAbove s) : channelsAbove group r ⊆ channelsAbove group s := by
  intro c hc
  obtain ⟨q, hq, hqr, rfl⟩ := mem_channelsAbove.mp hc
  exact mem_channelsAbove.mpr ⟨q, hq, hqr.trans h, rfl⟩

theorem Beaten.of_subset {tuners : Nat} {group group' : List Schedule} {s : Schedule}
    (hsub : channelsAbove group s ⊆ channelsAbove group' s) (h : Beaten tuners group s) :
    Beaten tuners group' s := by
  rcases h with h | h
  · exact Or.inl (hsub h)
  · exact Or.inr (h.trans (Finset.card_le_card hsub))

theorem Beaten.mono {tuners : Nat} {group group' : List Schedule} {s : Schedule}
    (hsub : group ⊆ group') (h : Beaten tuners group s) : Beaten tuners group' s :=
  h.of_subset (channelsAbove_mono fun _ hr _ => hsub hr)

/-! ## Losers make no difference -/

/-- The schedules of a group that are not beaten in it. -/
def winners (tuners : Nat) (group : List Schedule) : List Schedule :=
  group.filter fun s => ¬ Beaten tuners group s

theorem length_above_lt {group : List Schedule} {r s : Schedule} (hr : r ∈ group)
    (h : r.RanksAbove s) :
    (group.filter (·.RanksAbove r)).length < (group.filter (·.RanksAbove s)).length := by
  have hsub : (group.filter (·.RanksAbove r)) =
      (group.filter (·.RanksAbove s)).filter (·.RanksAbove r) := by
    rw [List.filter_filter]
    apply List.filter_congr
    intro q _
    rw [← Bool.decide_and, decide_eq_decide]
    exact ⟨fun hqr => ⟨hqr, hqr.trans h⟩, fun hq => hq.1⟩
  rw [hsub]
  apply List.length_filter_lt_length_iff_exists.mpr
  exact ⟨r, by simp [hr, h], by simp [Schedule.RanksAbove.irrefl]⟩

/-- Whoever is beaten is beaten by the winners alone. -/
theorem Beaten.by_winners {tuners : Nat} {group : List Schedule} {s : Schedule}
    (h : Beaten tuners group s) : Beaten tuners (winners tuners group) s := by
  -- By the number of schedules above `s`: of each of them we know whether the winners beat it.
  induction hn : (group.filter (·.RanksAbove s)).length using Nat.strong_induction_on
    generalizing s with
  | _ n ih =>
    by_cases hfull : tuners ≤ (channelsAbove (winners tuners group) s).card
    · exact Or.inr hfull
    refine h.of_subset fun c hc => ?_
    obtain ⟨r, hr, hrs, rfl⟩ := mem_channelsAbove.mp hc
    by_cases hrb : Beaten tuners group r
    · rcases ih _ (hn ▸ length_above_lt hr hrs) hrb rfl with hch | hcard
      · exact channelsAbove_of_ranksAbove _ hrs hch
      · exact absurd (hcard.trans (Finset.card_le_card (channelsAbove_of_ranksAbove _ hrs))) hfull
    · exact mem_channelsAbove.mpr ⟨r, List.mem_filter.mpr ⟨hr, by simpa using hrb⟩, hrs, rfl⟩

/-- A group can do without some of those that are beaten in it. -/
theorem beaten_iff_of_winners_subset {tuners : Nat} {group group' : List Schedule} {s : Schedule}
    (hwin : winners tuners group ⊆ group') (hsub : group' ⊆ group) :
    Beaten tuners group' s ↔ Beaten tuners group s :=
  ⟨fun h => h.mono hsub, fun h => h.by_winners.mono hwin⟩

/-! ## The losers of a group -/

abbrev schedulesOf (group : List Contender) : List Schedule := group.map (·.schedule)

/-- Contenders with the best one first. -/
def IsBestFirst (group : List Contender) : Prop :=
  group.Pairwise fun a b => a.schedule.RanksAbove b.schedule

theorem isBestFirst_bestFirst {group : List Contender}
    (hids : (group.map (·.schedule.id)).Nodup) : IsBestFirst (bestFirst group) := by
  have hsorted : (bestFirst group).Pairwise fun a b => b.schedule.rankLE a.schedule = true := by
    unfold bestFirst
    apply pairwise_sortBy
    · exact fun a b => Schedule.rankLE_total b.schedule a.schedule
    · exact fun a b c hab hbc => Schedule.rankLE_trans _ _ _ hbc hab
  have hnodup : ((bestFirst group).map (·.schedule.id)).Nodup :=
    ((perm_sortBy _ group).map _).nodup_iff.mpr hids
  refine (hsorted.and (List.pairwise_map.mp hnodup)).imp fun {a b} h => ?_
  exact (Schedule.ranksAbove_total h.2).resolve_right ((Schedule.rankLE_iff _ _).mp h.1)

theorem channelsAbove_head {a : Contender} {rest : List Contender}
    (h : IsBestFirst (a :: rest)) : channelsAbove (schedulesOf (a :: rest)) a.schedule = ∅ := by
  refine Finset.eq_empty_of_forall_notMem fun c hc => ?_
  obtain ⟨r, hr, hra, -⟩ := mem_channelsAbove.mp hc
  rcases List.mem_cons.mp hr with rfl | hr
  · exact Schedule.RanksAbove.irrefl _ hra
  · obtain ⟨b, hb, rfl⟩ := List.mem_map.mp hr
    exact ((List.pairwise_cons.mp h).1 b hb).asymm hra

theorem channelsAbove_tail {a c : Contender} {rest : List Contender}
    (h : IsBestFirst (a :: rest)) (hc : c ∈ rest) :
    channelsAbove (schedulesOf (a :: rest)) c.schedule =
      insert a.schedule.channelId (channelsAbove (schedulesOf rest) c.schedule) := by
  have hac := (List.pairwise_cons.mp h).1 c hc
  simp [channelsAbove, hac]

theorem not_mem_tail {a : Contender} {rest : List Contender} (h : IsBestFirst (a :: rest)) :
    a ∉ rest :=
  fun ha => Schedule.RanksAbove.irrefl _ ((List.pairwise_cons.mp h).1 a ha)

/-- The doubled ones find their channel taken, before the group or by a better one in it. -/
theorem mem_doubled {group : List Contender} (h : IsBestFirst group) (taken : List ChannelId)
    (c : Contender) :
    c ∈ (firstOfChannels taken group).2 ↔ c ∈ group ∧
      (c.schedule.channelId ∈ taken ∨
        c.schedule.channelId ∈ channelsAbove (schedulesOf group) c.schedule) := by
  induction group generalizing taken with
  | nil => simp [firstOfChannels]
  | cons a rest ih =>
    have hrest := h.tail
    have hhead := channelsAbove_head h
    have hnot := not_mem_tail h
    -- The best one has nobody above it; for the others its channel is one more above.
    by_cases hca : c = a
    · subst hca
      simp only [firstOfChannels, hhead]
      split <;> simp [ih hrest, *]
    · by_cases hc : c ∈ rest
      · simp only [channelsAbove_tail h hc, Finset.mem_insert, firstOfChannels]
        split <;> simp [ih hrest, hca, hc] <;> grind
      · simp only [firstOfChannels]
        split <;> simp [ih hrest, hca, hc]

theorem card_insert_sdiff {channel : ChannelId} {taken : List ChannelId} (h : channel ∉ taken)
    (above : Finset ChannelId) :
    (insert channel above \ taken.toFinset).card =
      (above \ (channel :: taken).toFinset).card + 1 := by
  have hsplit : insert channel above \ taken.toFinset =
      insert channel (above \ (channel :: taken).toFinset) := by
    ext c
    by_cases hc : c = channel
    · simp [hc, h]
    · simp [hc]
  rw [hsplit, Finset.card_insert_of_notMem (by simp)]

/-- The first ones of their channels that come after the first `tuners` of them. -/
theorem mem_drop_first {group : List Contender} (h : IsBestFirst group) (taken : List ChannelId)
    (tuners : Nat) (c : Contender) :
    c ∈ (firstOfChannels taken group).1.drop tuners ↔ c ∈ group ∧
      c.schedule.channelId ∉ taken ∧
      c.schedule.channelId ∉ channelsAbove (schedulesOf group) c.schedule ∧
      tuners ≤ (channelsAbove (schedulesOf group) c.schedule \ taken.toFinset).card := by
  induction group generalizing taken tuners with
  | nil => simp [firstOfChannels]
  | cons a rest ih =>
    have hrest := h.tail
    have hhead := channelsAbove_head h
    have hnot := not_mem_tail h
    by_cases htaken : a.schedule.channelId ∈ taken
    · simp only [firstOfChannels, htaken, if_true, ih hrest]
      by_cases hca : c = a
      · subst hca; simp [hnot, htaken]
      · by_cases hc : c ∈ rest
        · rw [channelsAbove_tail h hc, Finset.insert_sdiff_of_mem _ (by simpa using htaken)]
          simp [hc]
          grind
        · simp [hc, hca]
    · simp only [firstOfChannels, htaken, if_false]
      cases tuners with
      | zero =>
        have hih := ih hrest (a.schedule.channelId :: taken) 0
        simp only [List.drop_zero, List.mem_cons, Nat.zero_le, and_true] at hih ⊢
        by_cases hca : c = a
        · subst hca
          rw [hhead]
          simp [htaken]
        · by_cases hc : c ∈ rest
          · rw [channelsAbove_tail h hc, Finset.mem_insert]
            grind
          · simp [hih, hc, hca]
      | succ n =>
        rw [List.drop_succ_cons, ih hrest]
        by_cases hca : c = a
        · subst hca
          rw [hhead]
          simp [hnot]
        · by_cases hc : c ∈ rest
          · rw [channelsAbove_tail h hc, Finset.mem_insert, card_insert_sdiff htaken]
            grind
          · simp [hc, hca]

/-- A contender loses in a group if it is beaten there. -/
theorem mem_losers {tuners : Nat} {group : List Contender}
    (hids : (group.map (·.schedule.id)).Nodup) {c : Contender} :
    c ∈ losers tuners group ↔ c ∈ group ∧ Beaten tuners (schedulesOf group) c.schedule := by
  have hbest := isBestFirst_bestFirst hids
  have hperm := perm_sortBy (fun a b => b.schedule.rankLE a.schedule) group
  have habove : channelsAbove (schedulesOf (bestFirst group)) c.schedule =
      channelsAbove (schedulesOf group) c.schedule :=
    Finset.Subset.antisymm
      (channelsAbove_mono fun r hr _ => (hperm.map _).subset hr)
      (channelsAbove_mono fun r hr _ => (hperm.map _).symm.subset hr)
  have hmem : c ∈ bestFirst group ↔ c ∈ group := hperm.mem_iff
  simp only [losers, List.mem_append, mem_doubled hbest, mem_drop_first hbest, habove, hmem,
    Beaten, List.toFinset_nil, Finset.sdiff_empty]
  grind

end Conflict

end Timeshift
