import Bluefrog.Core.StoreRuns

/-!
Which peers a run leaves behind. The history decides it: a peer is present exactly when its latest
announce is followed by no stop of it and by no sweep that finds it timed out. Times may go
backwards, and a torrent may be collected and created again in between.
-/

open Rust

namespace Bluefrog

/-- The call announces the peer at minute `t`. -/
def Op.Announces (op : Op) (r : PeerRef) (t : UInt32) : Prop :=
  ∃ flags numwant peersOut, op = .announce r flags numwant t peersOut

/-- The call ends the presence of the peer if it was last announced at minute `t`. -/
def Op.Forgets (op : Op) (r : PeerRef) (t : UInt32) : Prop :=
  (∃ now, op = .remove r now) ∨ ∃ now, op = .gc now ∧ peerTimeoutMinutes ≤ saturatingSub now t

/-- The latest announce of the peer in the history is at minute `t`, and nothing since ended it. -/
def Live (ops : List Op) (r : PeerRef) (t : UInt32) : Prop :=
  ∃ pre op post, ops = pre ++ op :: post ∧ op.Announces r t ∧
    ∀ later ∈ post, (∀ t', ¬later.Announces r t') ∧ ¬later.Forgets r t

theorem not_live_nil (r : PeerRef) (t : UInt32) : ¬Live [] r t := by
  rintro ⟨pre, op, post, h, -⟩
  simp at h

theorem live_append_singleton (ops : List Op) (op : Op) (r : PeerRef) (t : UInt32) :
    Live (ops ++ [op]) r t ↔
      op.Announces r t ∨ (Live ops r t ∧ (∀ t', ¬op.Announces r t') ∧ ¬op.Forgets r t) := by
  constructor
  · intro ⟨pre, op', post, heq, hann, hpost⟩
    rcases List.eq_nil_or_concat' post with rfl | ⟨post, last, rfl⟩
    · obtain ⟨-, hop⟩ := List.append_inj' heq rfl
      cases hop
      exact Or.inl hann
    · rw [← List.cons_append, ← List.append_assoc] at heq
      obtain ⟨hops, hop⟩ := List.append_inj' heq rfl
      cases hop
      refine Or.inr ⟨⟨pre, op', post, hops, hann, fun later hmem => ?_⟩, ?_⟩
      · exact hpost later (List.mem_append_left _ hmem)
      · exact hpost op (List.mem_append_right _ (List.mem_singleton.mpr rfl))
  · rintro (hann | ⟨⟨pre, op', post, rfl, hann, hpost⟩, hop⟩)
    · exact ⟨ops, op, [], rfl, hann, fun _ h => absurd h List.not_mem_nil⟩
    · refine ⟨pre, op', post ++ [op], by simp, hann, fun later hmem => ?_⟩
      rcases List.mem_append.mp hmem with hmem | hmem
      · exact hpost later hmem
      · rw [List.mem_singleton.mp hmem]
        exact hop

namespace Store

/-- What one call does to the time a peer was last seen at. -/
theorem seen_step_iff (order : HashOrder) (s : Store) (op : Op) (r : PeerRef) (t : UInt32) :
    ((s.step order op).peer r).map PeerVal.seen = some t ↔
      op.Announces r t ∨
        ((s.peer r).map PeerVal.seen = some t ∧ (∀ t', ¬op.Announces r t') ∧ ¬op.Forgets r t) := by
  cases op with
  | announce r' flags numwant now peersOut =>
      have hforget : ¬(Op.announce r' flags numwant now peersOut).Forgets r t := by
        rintro (⟨_, h⟩ | ⟨_, h, -⟩) <;> cases h
      rw [peer_announce]
      split_ifs with h
      · subst h
        simp only [Option.map_some, Option.some_inj]
        constructor
        · rintro rfl
          exact Or.inl ⟨flags, numwant, peersOut, rfl⟩
        · rintro (⟨_, _, _, h⟩ | ⟨-, h, -⟩)
          · cases h
            rfl
          · exact absurd ⟨flags, numwant, peersOut, rfl⟩ (h now)
      · have hne : ∀ t', ¬(Op.announce r' flags numwant now peersOut).Announces r t' := by
          rintro t' ⟨_, _, _, h'⟩
          cases h'
          exact h rfl
        exact ⟨fun hs => Or.inr ⟨hs, hne, hforget⟩, fun hs => (hs.resolve_left (hne t)).1⟩
  | remove r' now =>
      have hne : ∀ t', ¬(Op.remove r' now).Announces r t' := by
        rintro t' ⟨_, _, _, h⟩
        cases h
      rw [peer_remove]
      split_ifs with h
      · subst h
        simp only [Option.map_none, reduceCtorEq, false_iff]
        rintro (h | ⟨-, -, h⟩)
        · exact hne t h
        · exact h (Or.inl ⟨now, rfl⟩)
      · have hforget : ¬(Op.remove r' now).Forgets r t := by
          rintro (⟨_, h'⟩ | ⟨_, h', -⟩) <;> cases h'
          exact h rfl
        exact ⟨fun hs => Or.inr ⟨hs, hne, hforget⟩, fun hs => (hs.resolve_left (hne t)).1⟩
  | gc now =>
      have hne : ∀ t', ¬(Op.gc now).Announces r t' := by
        rintro t' ⟨_, _, _, h⟩
        cases h
      have hforget : ¬(Op.gc now).Forgets r t ↔ saturatingSub now t < peerTimeoutMinutes := by
        simp [Op.Forgets]
      change ((s.gc now).peer r).map PeerVal.seen = some t ↔ _
      rw [peer_gc, hforget]
      cases hv : s.peer r with
      | none => simp [hne]
      | some v =>
          simp only [Option.bind_some, Option.map_some, Option.some_inj, hne, not_false_eq_true,
            implies_true, true_and, false_or]
          split_ifs with hfresh
          · simp only [Option.map_some, Option.some_inj]
            exact ⟨fun h => ⟨h, h ▸ hfresh⟩, fun h => h.1⟩
          · simp only [Option.map_none, reduceCtorEq, false_iff]
            rintro ⟨rfl, h⟩
            exact hfresh h

/-- A run leaves a peer behind, last seen at `t`, exactly when the history makes it live at `t`. -/
theorem seen_run_iff (order : HashOrder) (ops : List Op) (r : PeerRef) (t : UInt32) :
    ((run order ops).peer r).map PeerVal.seen = some t ↔ Live ops r t := by
  induction ops using List.reverseRecOn with
  | nil =>
      rw [run, List.foldl_nil, peer, get_new]
      simpa using not_live_nil r t
  | append_singleton ops op ih => rw [run_append_singleton, seen_step_iff, live_append_singleton, ih]

/-- **No lost peer and no ghost peer.** A peer is stored after a run exactly when its latest announce
was followed by no stop of it and no sweep that found it timed out, and it is stored with the minute
of that announce. A sweep that finds a peer fresh keeps its entry, whatever else it collects. -/
theorem peer_present_iff_live (order : HashOrder) (ops : List Op) (r : PeerRef) :
    (((run order ops).peer r).isSome ↔ ∃ t, Live ops r t) ∧
    (∀ v, (run order ops).peer r = some v → ∀ t, Live ops r t ↔ v.seen = t) ∧
    (∀ v now, (run order ops).peer r = some v → saturatingSub now v.seen < peerTimeoutMinutes →
      ((run order ops).gc now).peer r = some v) := by
  refine ⟨?_, ?_, ?_⟩
  · simp only [← seen_run_iff order, Option.isSome_iff_exists, Option.map_eq_some_iff]
    exact ⟨fun ⟨v, hv⟩ => ⟨v.seen, v, hv, rfl⟩, fun ⟨_, v, hv, _⟩ => ⟨v, hv⟩⟩
  · intro v hv t
    rw [← seen_run_iff order, hv, Option.map_some, Option.some_inj]
  · intro v now hv hfresh
    rw [peer_gc, hv, Option.bind_some, if_pos hfresh]

end Store
end Bluefrog
