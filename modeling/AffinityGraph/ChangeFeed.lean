import AffinityGraph.OrdMap
import AffinityGraph.Run
/-!
# ChangeFeed — a copy of a map kept up to date by what is sent

The sender has a map and a copy of what the receiver knows.  It walks over the map, sends the entries that the copy has not or
has too differently, and puts them into the copy.  The copy is then what the receiver gets by applying what was sent
(`replay_bring`), and it tells every entry up to what counts as a difference (`find?_bring`).
-/
namespace AffinityGraph

namespace ChangeFeed

variable {κ : Type*} {ν : Type*} [LinearOrder κ]

/-- The entries to be sent and the copy with them; `stale` compares what the copy has with what the map has. -/
def bring (stale : Option ν → ν → Bool) (current copy : OrdMap κ ν) : List (κ × ν) × OrdMap κ ν :=
  current.entries.foldl (fun st e => if stale (st.2.find? e.1) e.2 then (st.1 ++ [e], st.2.insert e.1 e.2) else st) ([], copy)

/-- What the receiver does with the entries that were sent. -/
def replay (sent : List (κ × ν)) (copy : OrdMap κ ν) : OrdMap κ ν := sent.foldl (fun m e => m.insert e.1 e.2) copy

variable {stale : Option ν → ν → Bool} {current copy : OrdMap κ ν}

/-- **The receiver has the copy.** -/
theorem replay_bring : replay (bring stale current copy).1 copy = (bring stale current copy).2 := by
  refine Loop.foldl_keeps (fun st : List (κ × ν) × OrdMap κ ν => replay st.1 copy = st.2) (fun st e h => ?_)
    current.entries rfl
  split
  · unfold replay at h ⊢
    rw [List.foldl_append, h]
    rfl
  · exact h

/-- Every entry that is sent is one of the map. -/
theorem mem_of_sent {e : κ × ν} (he : e ∈ (bring stale current copy).1) : e ∈ current.entries := by
  have hrun : ∀ (l : List (κ × ν)) (st : List (κ × ν) × OrdMap κ ν), e ∈ (l.foldl (fun st e =>
      if stale (st.2.find? e.1) e.2 then (st.1 ++ [e], st.2.insert e.1 e.2) else st) st).1 → e ∈ st.1 ∨ e ∈ l := by
    intro l
    induction l with
    | nil => exact fun st h => Or.inl h
    | cons x l ih =>
      intro st h
      rcases ih _ h with h | h
      · dsimp only at h
        split at h
        · rcases List.mem_append.1 h with h | h
          · exact Or.inl h
          · exact Or.inr (List.mem_cons.2 (Or.inl (List.mem_singleton.1 h)))
        · exact Or.inl h
      · exact Or.inr (List.mem_cons_of_mem _ h)
  exact (hrun _ _ he).resolve_left List.not_mem_nil

/-- **What the copy has of a key afterwards.** -/
theorem find?_bring (k : κ) : (bring stale current copy).2.find? k =
    match current.find? k with
    | none => copy.find? k
    | some v => if stale (copy.find? k) v then some v else copy.find? k := by
  have hlocal : Loop.Local (fun (st : List (κ × ν) × OrdMap κ ν) k => st.2.find? k) (fun e : κ × ν => e.1)
      (fun st e => if stale (st.2.find? e.1) e.2 then (st.1 ++ [e], st.2.insert e.1 e.2) else st) := by
    intro st e u hu
    dsimp only
    split
    · exact OrdMap.find?_insert_ne _ _ hu
    · rfl
  cases hk : current.find? k with
  | none =>
    refine hlocal.foldl_notMem (fun e he hek => ?_)
    have hin := OrdMap.mem_entries.1 (show (e.1, e.2) ∈ current.entries from he)
    rw [hek, hk] at hin
    cases hin
  | some v =>
    obtain ⟨pre, post, -, hbefore, hat⟩ := hlocal.foldl_at current.nodup_keys (OrdMap.mem_entries.2 hk) ([], copy)
    refine hat.trans ?_
    dsimp only at hbefore ⊢
    rw [hbefore]
    split
    · exact OrdMap.find?_insert_self _ _ _
    · exact hbefore

theorem find?_replay_congr {k : κ} : ∀ (sent : List (κ × ν)) {m m' : OrdMap κ ν}, m.find? k = m'.find? k →
    (replay sent m).find? k = (replay sent m').find? k
  | [], _, _, h => h
  | e :: sent, m, m', h => by
    show (replay sent (m.insert e.1 e.2)).find? k = (replay sent (m'.insert e.1 e.2)).find? k
    refine find?_replay_congr sent ?_
    rw [OrdMap.find?_insert, OrdMap.find?_insert, h]

/-- **Keys that are gone may be dropped before or after.** -/
theorem replay_erase {gone : List κ} (hgone : ∀ k ∈ gone, k ∉ current) :
    replay (bring stale current copy).1 (gone.foldl OrdMap.erase copy) =
      gone.foldl OrdMap.erase (bring stale current copy).2 := by
  refine OrdMap.ext_find (fun k => ?_)
  rw [OrdMap.find?_foldl_erase]
  by_cases hk : k ∈ gone
  · have hnone : ∀ e ∈ (bring stale current copy).1, e.1 ≠ k := by
      intro e he hek
      have hin := OrdMap.mem_entries.1 (show (e.1, e.2) ∈ current.entries from mem_of_sent he)
      exact hgone k hk (hek ▸ OrdMap.mem_of_find hin)
    rw [if_pos hk, replay, OrdMap.find?_foldl_insert_of_notMem Prod.fst Prod.snd _ _ hnone, OrdMap.find?_foldl_erase,
      if_pos hk]
  · rw [if_neg hk, ← replay_bring]
    refine find?_replay_congr _ ?_
    rw [OrdMap.find?_foldl_erase, if_neg hk]

end ChangeFeed
end AffinityGraph
